import Mathlib.Data.Nat.Digits.Lemmas
import Mathlib.Data.List.TakeWhile
import ClearMsig.Foundation.Reading
import ClearMsig.Utils.Base58

/-!
# `encode_base58` writes the base-58 numeral

The digit array always holds the base-58 digits of the bytes read so far, so the text is the standard
one: a `1` for each leading zero byte, then the numeral of the rest. Decoding it gives the input back.
-/

namespace ClearMsig

/-- The number a byte string stands for, most significant byte first. -/
def beNat (input : Bytes) : Nat := Nat.ofDigits 256 (input.reverse.map UInt8.toNat)

theorem beNat_append (input : Bytes) (b : UInt8) :
    beNat (input ++ [b]) = beNat input * 256 + b.toNat := by
  simp [beNat, Nat.ofDigits_cons]
  ring

theorem beNat_lt (input : Bytes) : beNat input < 256 ^ input.length := by
  have h := Nat.ofDigits_lt_base_pow_length (b := 256) (l := input.reverse.map UInt8.toNat)
    (by decide) (fun x hx => by
      obtain ⟨b, -, rfl⟩ := List.mem_map.mp hx
      exact b.toNat_lt)
  simpa [beNat] using h

/-! ## The digit loops -/

/-- One input byte multiplies the number in the digit array by 256 and adds the byte. -/
theorem mulAddLoop_digits (room v carry : Nat)
    (h : (Nat.digits 58 (v * 256 + carry)).length ≤ room) :
    mulAddLoop room (Nat.digits 58 v) carry = .ok (Nat.digits 58 (v * 256 + carry)) := by
  induction room generalizing v carry with
  | zero =>
    have hnil : Nat.digits 58 (v * 256 + carry) = [] := List.length_eq_zero_iff.mp (by omega)
    have hzero := Nat.digits_eq_nil_iff_eq_zero.mp hnil
    have hv : v = 0 := by omega
    have hc : carry = 0 := by omega
    subst hv hc
    simp [mulAddLoop]
  | succ room ih =>
    by_cases hv : v = 0
    · subst hv
      by_cases hc : carry = 0
      · subst hc
        simp [mulAddLoop]
      · have hd : Nat.digits 58 (0 * 256 + carry) = carry % 58 :: Nat.digits 58 (carry / 58) := by
          rw [zero_mul, zero_add]
          exact Nat.digits_def' (by decide) (by omega)
        rw [hd] at h ⊢
        have hrec := ih 0 (carry / 58) (by simpa using h)
        rw [zero_mul, zero_add, Nat.digits_zero] at hrec
        have hpos : 0 < carry := by omega
        simp [mulAddLoop, hrec, hpos]
    · have hdv : Nat.digits 58 v = v % 58 :: Nat.digits 58 (v / 58) :=
        Nat.digits_def' (by decide) (by omega)
      have hmod : (v * 256 + carry) % 58 = (carry + v % 58 * 256) % 58 := by omega
      have hdiv : (v * 256 + carry) / 58 = v / 58 * 256 + (carry + v % 58 * 256) / 58 := by omega
      have hd : Nat.digits 58 (v * 256 + carry) = (carry + v % 58 * 256) % 58 ::
          Nat.digits 58 (v / 58 * 256 + (carry + v % 58 * 256) / 58) := by
        rw [← hmod, ← hdiv]
        exact Nat.digits_def' (by decide) (by omega)
      rw [hd] at h ⊢
      have hrec := ih (v / 58) ((carry + v % 58 * 256) / 58) (by simpa using h)
      rw [hdv]
      simp [mulAddLoop, hrec]

/-- After the outer loop the array holds the digits of the whole input. -/
theorem digitsLoop_digits (input : Bytes) (h : (Nat.digits 58 (beNat input)).length ≤ 64) :
    digitsLoop input [] = .ok (Nat.digits 58 (beNat input)) := by
  induction input using List.reverseRecOn with
  | nil => simp [digitsLoop, beNat]
  | append_singleton input b ih =>
    have hle : beNat input ≤ beNat (input ++ [b]) := by
      rw [beNat_append]
      omega
    have hlen := Nat.le_length_digits_le 58 _ _ hle
    have hstep := mulAddLoop_digits 64 (beNat input) b.toNat (by rwa [← beNat_append])
    unfold digitsLoop at ih ⊢
    rw [List.foldlM_append, ih (hlen.trans h)]
    simp [hstep, beNat_append]

/-! ## The text -/

/-- Number of leading zero bytes. -/
def leadingZeros (input : Bytes) : Nat := (input.takeWhile (· = 0)).length

/-- The standard base58 text of a byte string. -/
def base58Text (input : Bytes) : Bytes :=
  List.replicate (leadingZeros input) 49 ++
    (Nat.digits 58 (beNat (input.drop (leadingZeros input)))).reverse.map fun d => ALPHABET.getD d 0

theorem alphabet_length : ALPHABET.length = 58 := by decide

theorem alphabet_index {d : Nat} (h : d < 58) : index ALPHABET d = .ok (ALPHABET.getD d 0) := by
  have hlt : d < ALPHABET.length := by rw [alphabet_length]; exact h
  simp [index, List.getElem?_eq_getElem hlt]

/-- Each byte left after the leading zeros takes less room than the 12 spare characters allow. -/
theorem digits58_length_le {k v : Nat} (hk : k ≤ 32) (hv : v < 256 ^ k) :
    (Nat.digits 58 v).length ≤ k + 12 := by
  have hpow : ∀ k ≤ 32, 256 ^ k ≤ 58 ^ (k + 12) := by decide
  exact (Nat.digits_length_le_iff (by decide) v).mpr (hv.trans_le (hpow k hk))

theorem leadingZeros_le (input : Bytes) : leadingZeros input ≤ input.length :=
  (List.takeWhile_sublist _).length_le

/-- The digit array of an input of at most 32 bytes. -/
theorem digits_length_le {input : Bytes} (h : input.length ≤ 32) :
    (Nat.digits 58 (beNat (input.drop (leadingZeros input)))).length ≤
      input.length - leadingZeros input + 12 := by
  have hdrop : (input.drop (leadingZeros input)).length = input.length - leadingZeros input :=
    List.length_drop
  exact digits58_length_le (by omega) (hdrop ▸ beNat_lt _)

/-- No text of an address is longer than 44 characters. -/
theorem base58Text_length_le {input : Bytes} (h : input.length ≤ 32) : (base58Text input).length ≤ 44 := by
  have hz := leadingZeros_le input
  have hd := digits_length_le h
  rw [base58Text, List.length_append, List.length_replicate, List.length_map, List.length_reverse]
  omega

/-- The digit loops of an input of at most 32 bytes stay inside the array. -/
theorem digitsLoop_eq {input : Bytes} (h : input.length ≤ 32) :
    digitsLoop (input.drop (leadingZeros input)) [] =
      .ok (Nat.digits 58 (beNat (input.drop (leadingZeros input)))) := by
  have hd := digits_length_le h
  exact digitsLoop_digits _ (by omega)

theorem alphabet_mapM {l : List Nat} (h : ∀ d ∈ l, d < 58) :
    l.mapM (index ALPHABET ·) = (.ok (l.map fun d => ALPHABET.getD d 0) : Result Bytes) := by
  induction l with
  | nil => rfl
  | cons d l ih =>
    have hrest := ih fun d hd => h d (List.mem_cons_of_mem _ hd)
    rw [List.mapM_cons, alphabet_index (h d (by simp)), hrest]
    rfl

theorem lt_of_mem_digits_reverse {n d : Nat} (h : d ∈ (Nat.digits 58 n).reverse) : d < 58 :=
  Nat.digits_lt_base (by decide) (List.mem_reverse.mp h)

/-- On inputs of at most 32 bytes and a buffer of at least 44, the standard text is written. -/
theorem encodeBase58_eq {input : Bytes} {bufLen : Nat} (hin : input.length ≤ 32)
    (hbuf : 44 ≤ bufLen) : encodeBase58 input bufLen = .ok (some (base58Text input)) := by
  have hlen := base58Text_length_le hin
  rw [base58Text, List.length_append, List.length_replicate, List.length_map, List.length_reverse] at hlen
  have hfit : ¬ leadingZeros input +
      (Nat.digits 58 (beNat (input.drop (leadingZeros input)))).length > bufLen := by omega
  show (do
    let digits ← digitsLoop (input.drop (leadingZeros input)) []
    if leadingZeros input + digits.length > bufLen then .ok none
    else do
      let text ← digits.reverse.mapM (index ALPHABET ·)
      .ok (some (List.replicate (leadingZeros input) 49 ++ text))) = _
  rw [digitsLoop_eq hin, ok_bind, if_neg hfit, alphabet_mapM fun d => lt_of_mem_digits_reverse, ok_bind,
    base58Text]

/-! ## Characters and zeros -/

/-- A base58 character. -/
def isBase58 (b : UInt8) : Bool := ALPHABET.contains b

theorem isBase58_getD {d : Nat} (h : d < 58) : isBase58 (ALPHABET.getD d 0) = true := by
  have hlt : d < ALPHABET.length := by rw [alphabet_length]; exact h
  simp [isBase58, List.getElem?_eq_getElem hlt]

theorem base58Text_isBase58 (input : Bytes) : ∀ b ∈ base58Text input, isBase58 b = true := by
  intro b hb
  rcases List.mem_append.mp hb with h | h
  · rw [(List.mem_replicate.mp h).2]
    decide
  · obtain ⟨d, hd, rfl⟩ := List.mem_map.mp h
    exact isBase58_getD (lt_of_mem_digits_reverse hd)

theorem alphabet_injOn {d d' : Nat} (h : d < 58) (h' : d' < 58)
    (he : ALPHABET.getD d 0 = ALPHABET.getD d' 0) : d = d' := by
  have hnd : ALPHABET.Nodup := by decide
  rw [← alphabet_length] at h h'
  simp only [List.getD_eq_getElem?_getD, List.getElem?_eq_getElem h, List.getElem?_eq_getElem h',
    Option.getD_some] at he
  exact hnd.getElem_inj_iff.mp he

/-- The base-256 digits of the number of a byte string without leading zero are its bytes. -/
theorem digits_beNat {r : Bytes} (hr : ∀ b, r.head? = some b → b ≠ 0) :
    Nat.digits 256 (beNat r) = r.reverse.map UInt8.toNat := by
  refine Nat.digits_ofDigits 256 (by decide) _ ?_ ?_
  · intro x hx
    obtain ⟨b, -, rfl⟩ := List.mem_map.mp hx
    exact b.toNat_lt
  · intro hne
    cases r with
    | nil => simp at hne
    | cons b r =>
      have hb := hr b rfl
      simp only [List.reverse_cons, List.map_append, List.map_cons, List.map_nil,
        List.getLast_append_singleton]
      intro h0
      exact hb (UInt8.toNat_inj.mp h0)

theorem drop_leadingZeros (input : Bytes) :
    input.drop (leadingZeros input) = input.dropWhile (· = 0) := by
  induction input with
  | nil => rfl
  | cons b input ih =>
    by_cases hb : b = 0
    · have hz : leadingZeros (b :: input) = leadingZeros input + 1 := by simp [leadingZeros, hb]
      rw [hz, List.drop_succ_cons, ih, List.dropWhile_cons_of_pos (by simpa using hb)]
    · have hz : leadingZeros (b :: input) = 0 := by simp [leadingZeros, hb]
      rw [hz, List.drop_zero, List.dropWhile_cons_of_neg (by simpa using hb)]

/-- The zeros at the front are those that `leadingZeros` counts. -/
theorem eq_zeros_append (input : Bytes) :
    input = List.replicate (leadingZeros input) 0 ++ input.drop (leadingZeros input) := by
  have hzeros : input.takeWhile (· = 0) = List.replicate (leadingZeros input) 0 :=
    List.eq_replicate_iff.mpr ⟨rfl, fun b hb => by simpa using List.mem_takeWhile_imp hb⟩
  rw [← hzeros, drop_leadingZeros, List.takeWhile_append_dropWhile]

theorem head_drop_leadingZeros (input : Bytes) :
    ∀ b, (input.drop (leadingZeros input)).head? = some b → b ≠ 0 := by
  intro b hb
  rw [drop_leadingZeros] at hb
  have h := List.head?_dropWhile_not (· = 0) input
  rw [hb] at h
  simpa using h

/-- The numeral after the ones does not start with a one. -/
theorem numeral_stopsAt (n : Nat) :
    Reading.StopsAt (· = 49) ((Nat.digits 58 n).reverse.map fun d => ALPHABET.getD d 0) := by
  intro b hb
  rw [List.head?_map, List.head?_reverse, Option.map_eq_some_iff] at hb
  obtain ⟨d, hd, rfl⟩ := hb
  have hmem : d ∈ Nat.digits 58 n := List.mem_of_getLast? hd
  have hlt : d < 58 := Nat.digits_lt_base (by decide) hmem
  have hn : n ≠ 0 := by
    rintro rfl
    simp at hmem
  have hne : d ≠ 0 := by
    have hlast := Nat.getLast_digit_ne_zero 58 hn
    rw [List.getLast?_eq_some_getLast (Nat.digits_ne_nil_iff_ne_zero.mpr hn)] at hd
    rwa [Option.some.inj hd] at hlast
  have hone : ALPHABET.getD 0 0 = 49 := by decide
  refine decide_eq_false fun he => hne ?_
  exact alphabet_injOn hlt (by decide) (he.trans hone.symm)

/-! ## Decoding -/

/-- The digit a character stands for. -/
def base58Digit (c : UInt8) : Option Nat := ALPHABET.idxOf? c

/-- Base58 decoding: a zero byte for each leading `1`, then the bytes of the numeral that the rest is. -/
def decodeBase58 (text : Bytes) : Option Bytes := do
  let ones := (text.takeWhile (· = 49)).length
  let digits ← (text.drop ones).mapM base58Digit
  let number := Nat.ofDigits 58 digits.reverse
  some (List.replicate ones 0 ++ (Nat.digits 256 number).reverse.map UInt8.ofNat)

theorem base58Digit_getD {d : Nat} (h : d < 58) : base58Digit (ALPHABET.getD d 0) = some d := by
  have hall : ∀ d < 58, base58Digit (ALPHABET.getD d 0) = some d := by decide
  exact hall d h

/-- The characters of a numeral give its digits back. -/
theorem mapM_base58Digit {l : List Nat} (h : ∀ d ∈ l, d < 58) :
    (l.map fun d => ALPHABET.getD d 0).mapM base58Digit = some l := by
  induction l with
  | nil => rfl
  | cons d l ih =>
    rw [List.map_cons, List.mapM_cons, base58Digit_getD (h d (by simp)),
      ih fun x hx => h x (List.mem_cons_of_mem _ hx)]
    rfl

/-- The base-256 digits of a number that a byte string without leading zero stands for. -/
theorem bytes_of_beNat {r : Bytes} (hr : ∀ b, r.head? = some b → b ≠ 0) :
    (Nat.digits 256 (beNat r)).reverse.map UInt8.ofNat = r := by
  rw [digits_beNat hr, ← List.map_reverse, List.reverse_reverse, List.map_map]
  refine (List.map_congr_left fun b _ => ?_).trans (List.map_id r)
  exact UInt8.ofNat_toNat

/-- The text of a byte string decodes to it. -/
theorem decodeBase58_base58Text (input : Bytes) : decodeBase58 (base58Text input) = some input := by
  have hones : (base58Text input).takeWhile (· = 49) = List.replicate (leadingZeros input) 49 :=
    Reading.takeWhile_of_stopsAt (fun x hx => by simpa using (List.mem_replicate.mp hx).2)
      (numeral_stopsAt _)
  have hnumber : Nat.ofDigits 58 (Nat.digits 58 (beNat (input.drop (leadingZeros input)))).reverse.reverse =
      beNat (input.drop (leadingZeros input)) := by
    rw [List.reverse_reverse, Nat.ofDigits_digits]
  simp only [decodeBase58, hones, List.length_replicate]
  rw [base58Text, List.drop_left' (List.length_replicate ..), mapM_base58Digit fun d =>
    lt_of_mem_digits_reverse, Option.bind_eq_bind, Option.bind_some, hnumber,
    bytes_of_beNat (head_drop_leadingZeros input), ← eq_zeros_append]

/-- Different byte strings have different base58 texts. -/
theorem base58Text_injective : Function.Injective base58Text := by
  intro a a' h
  have hdecode := decodeBase58_base58Text a
  rw [h, decodeBase58_base58Text] at hdecode
  exact (Option.some.inj hdecode).symm

end ClearMsig
