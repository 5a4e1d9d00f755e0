import Mathlib.Data.Nat.Digits.Lemmas
import ClearMsig.Foundation.Reading

/-!
# Decimal text of numbers

The canonical ASCII numeral of a natural number and of an integer, and how it is read back from the
front of a longer text.
-/

namespace Decimal

/-- The ASCII byte of a digit. -/
def digitByte (d : Nat) : UInt8 := 48 + UInt8.ofNat d

/-- An ASCII digit. -/
def isDigit (b : UInt8) : Bool := 48 ≤ b && b ≤ 57

/-- The numeral of `n`: no leading zeros, `0` for zero. -/
def natText (n : Nat) : List UInt8 :=
  if n = 0 then [48] else ((Nat.digits 10 n).map digitByte).reverse

/-- The numeral of an integer, with a minus sign in front of a negative one. -/
def intText (n : Int) : List UInt8 :=
  if n < 0 then 45 :: natText n.natAbs else natText n.natAbs

/-- The number a digit string stands for. -/
def natVal (text : List UInt8) : Nat :=
  Nat.ofDigits 10 (text.reverse.map fun b => b.toNat - 48)

theorem digitByte_toNat {d : Nat} (h : d < 10) : (digitByte d).toNat = 48 + d := by
  have hm : d % 256 = d := Nat.mod_eq_of_lt (by omega)
  simp only [digitByte, UInt8.toNat_add, UInt8.toNat_ofNat', hm]
  show (48 + d) % 256 = 48 + d
  omega

theorem isDigit_iff {b : UInt8} : isDigit b = true ↔ 48 ≤ b.toNat ∧ b.toNat ≤ 57 := by
  simp only [isDigit, Bool.and_eq_true, decide_eq_true_eq, UInt8.le_iff_toNat_le]
  exact Iff.rfl

theorem isDigit_digitByte {d : Nat} (h : d < 10) : isDigit (digitByte d) = true := by
  rw [isDigit_iff, digitByte_toNat h]
  omega

/-! ## Natural numbers -/

theorem natText_isDigit (n : Nat) : ∀ b ∈ natText n, isDigit b = true := by
  intro b hb
  unfold natText at hb
  split_ifs at hb with h0
  · rw [List.mem_singleton.mp hb]
    rfl
  · rw [List.mem_reverse, List.mem_map] at hb
    obtain ⟨d, hd, rfl⟩ := hb
    exact isDigit_digitByte (Nat.digits_lt_base (by decide) hd)

theorem natText_ne_nil (n : Nat) : natText n ≠ [] := by
  unfold natText
  split_ifs with h0
  · simp
  · simp [Nat.digits_eq_nil_iff_eq_zero, h0]

/-- Reading a numeral back gives the number. -/
theorem natVal_natText (n : Nat) : natVal (natText n) = n := by
  unfold natText natVal
  split_ifs with h0
  · simp [h0]
  · rw [List.reverse_reverse, List.map_map]
    have hid : (Nat.digits 10 n).map ((fun b : UInt8 => b.toNat - 48) ∘ digitByte) =
        Nat.digits 10 n := by
      refine (List.map_congr_left fun d hd => ?_).trans (List.map_id _)
      have hlt : d < 10 := Nat.digits_lt_base (by decide) hd
      simp only [Function.comp_apply, digitByte_toNat hlt, id_eq]
      omega
    rw [hid, Nat.ofDigits_digits]

theorem natText_injective : Function.Injective natText :=
  Function.LeftInverse.injective natVal_natText

/-- A numeral in front of a text that does not go on with a digit can be read off. -/
theorem natText_append_inj {m n : Nat} {s t : List UInt8} (hs : Reading.StopsAt isDigit s)
    (ht : Reading.StopsAt isDigit t) (h : natText m ++ s = natText n ++ t) : m = n ∧ s = t := by
  obtain ⟨h1, h2⟩ :=
    Reading.append_inj_of_stopsAt (natText_isDigit m) (natText_isDigit n) hs ht h
  exact ⟨natText_injective h1, h2⟩

/-! ## Integers -/

/-- A numeral starts with a digit, so no sign can be confused with it. -/
theorem natText_head {n : Nat} {s t : List UInt8} : natText n ++ s ≠ 45 :: t := by
  intro h
  cases hd : natText n with
  | nil => exact natText_ne_nil n hd
  | cons b rest =>
    have hdig := natText_isDigit n b (by rw [hd]; simp)
    rw [hd] at h
    simp only [List.cons_append, List.cons.injEq] at h
    rw [h.1] at hdig
    exact absurd hdig (by decide)

theorem intText_append_inj {m n : Int} {s t : List UInt8} (hs : Reading.StopsAt isDigit s)
    (ht : Reading.StopsAt isDigit t) (h : intText m ++ s = intText n ++ t) : m = n ∧ s = t := by
  unfold intText at h
  split_ifs at h with hm hn hn
  · obtain ⟨h1, h2⟩ := natText_append_inj hs ht (List.cons.inj h).2
    exact ⟨by omega, h2⟩
  · exact absurd h.symm natText_head
  · exact absurd h natText_head
  · obtain ⟨h1, h2⟩ := natText_append_inj hs ht h
    exact ⟨by omega, h2⟩

theorem intText_injective : Function.Injective intText := by
  intro m n h
  have happend : intText m ++ [] = intText n ++ [] := by rw [h]
  exact (intText_append_inj (Reading.stopsAt_nil _) (Reading.stopsAt_nil _) happend).1

theorem intText_sign_or_digit (n : Int) : ∀ b ∈ intText n, (b == 45 || isDigit b) = true := by
  intro b hb
  unfold intText at hb
  split_ifs at hb with hn
  · rcases List.mem_cons.mp hb with rfl | hdigit
    · rfl
    · rw [natText_isDigit _ b hdigit, Bool.or_true]
  · rw [natText_isDigit _ b hb, Bool.or_true]

/-! ## Numerals of a fixed width -/

/-- The numeral of an integer, filled up with zeros behind the sign to a width. -/
def paddedText (width : Nat) (n : Int) : List UInt8 :=
  let digits := natText n.natAbs
  if n < 0 then 45 :: (List.replicate (width - 1 - digits.length) 48 ++ digits)
  else List.replicate (width - digits.length) 48 ++ digits

theorem natText_length_le_iff {n k : Nat} (hk : 0 < k) : (natText n).length ≤ k ↔ n < 10 ^ k := by
  unfold natText
  split_ifs with h0
  · subst h0
    exact ⟨fun _ => Nat.pow_pos (by decide), fun _ => hk⟩
  · rw [List.length_reverse, List.length_map]
    exact Nat.digits_length_le_iff (by decide) n

/-- The last digit comes off the end. -/
theorem natText_eq_append {n : Nat} (h : 10 ≤ n) :
    natText n = natText (n / 10) ++ [digitByte (n % 10)] := by
  unfold natText
  rw [if_neg (by omega), if_neg (by omega), Nat.digits_def' (by decide) (by omega), List.map_cons,
    List.reverse_cons]

theorem natText_of_lt {n : Nat} (h : n < 10) : natText n = [digitByte n] := by
  unfold natText
  split_ifs with h0
  · subst h0
    rfl
  · rw [Nat.digits_of_lt 10 n h0 h]
    rfl

theorem paddedText_natCast (width n : Nat) :
    paddedText width n = List.replicate (width - (natText n).length) 48 ++ natText n := by
  have hneg : ¬ (n : Int) < 0 := by omega
  simp only [paddedText, hneg, if_false, Int.natAbs_natCast]

theorem paddedText_one {n : Nat} (h : n < 10) : paddedText 1 n = [digitByte n] := by
  rw [paddedText_natCast, natText_of_lt h]
  rfl

/-- One more place in front of the last digit. -/
theorem paddedText_succ {width : Nat} (hw : 0 < width) (n : Nat) :
    paddedText (width + 1) n = paddedText width ((n / 10 : Nat) : Int) ++ [digitByte (n % 10)] := by
  rw [paddedText_natCast, paddedText_natCast]
  by_cases h : 10 ≤ n
  · rw [natText_eq_append h, List.length_append, List.length_singleton, Nat.add_sub_add_right,
      List.append_assoc]
  · have hlt : n < 10 := Nat.lt_of_not_le h
    obtain ⟨w, rfl⟩ : ∃ w, width = w + 1 := ⟨width - 1, by omega⟩
    rw [Nat.div_eq_of_lt hlt, Nat.mod_eq_of_lt hlt, natText_of_lt hlt]
    simp [natText, List.replicate_succ']

/-- A numeral that is filled up is as wide as asked for unless the number needs more. -/
theorem paddedText_length_natCast {width n : Nat} (hw : 0 < width)
    (h : (paddedText width n).length = width) : n < 10 ^ width := by
  rw [paddedText_natCast, List.length_append, List.length_replicate] at h
  exact (natText_length_le_iff hw).mp (by omega)

theorem paddedText_length {width n : Nat} (hw : 0 < width) (h : n < 10 ^ width) :
    (paddedText width n).length = width := by
  have hle := (natText_length_le_iff hw).mpr h
  rw [paddedText_natCast, List.length_append, List.length_replicate]
  omega

theorem paddedText_isDigit (width n : Nat) : ∀ b ∈ paddedText width n, isDigit b = true := by
  intro b hb
  rw [paddedText_natCast] at hb
  rcases List.mem_append.mp hb with hb | hb
  · rw [(List.mem_replicate.mp hb).2]
    rfl
  · exact natText_isDigit n b hb

/-- Zeros in front of a numeral do not change its number. -/
theorem natVal_paddedText (width n : Nat) : natVal (paddedText width n) = n := by
  have hzeros (k : Nat) : Nat.ofDigits 10 (List.replicate k 0) = 0 := by
    induction k with
    | zero => rfl
    | succ k ih => rw [List.replicate_succ, Nat.ofDigits_cons, ih]
  have hnat := natVal_natText n
  rw [natVal] at hnat
  have h48 : (48 : UInt8).toNat - 48 = 0 := rfl
  rw [paddedText_natCast, natVal, List.reverse_append, List.map_append, Nat.ofDigits_append, hnat,
    List.reverse_replicate, List.map_replicate, h48, hzeros]
  rfl

/-! ## Canonical numerals -/

/-- A text of digits without a superfluous zero in front. -/
structure IsNumeral (text : List UInt8) : Prop where
  ne_nil : text ≠ []
  digits : ∀ b ∈ text, isDigit b = true
  no_zero : text.head? = some 48 → text = [48]

/-- A numeral, or a minus sign and a numeral other than `0`. -/
def IsIntNumeral (text : List UInt8) : Prop :=
  IsNumeral text ∨ ∃ digits, text = 45 :: digits ∧ IsNumeral digits ∧ digits ≠ [48]

/-- The integer a text stands for: digits, behind a minus sign if it starts with one. -/
def intVal (text : List UInt8) : Int :=
  if text.head? = some 45 then -(natVal text.tail : Int) else natVal text

theorem natText_isNumeral (n : Nat) : IsNumeral (natText n) := by
  refine ⟨natText_ne_nil n, natText_isDigit n, ?_⟩
  induction n using Nat.strong_induction_on with
  | _ n ih =>
    intro hhead
    by_cases hn : n < 10
    · rw [natText_of_lt hn] at hhead ⊢
      rw [Option.some.inj hhead]
    · -- the first digit is that of `n / 10`, which would have to be zero
      have hdiv := natText_ne_nil (n / 10)
      rw [natText_eq_append (by omega), List.head?_append_of_ne_nil _ hdiv] at hhead
      have hzero := congrArg natVal (ih (n / 10) (by omega) hhead)
      rw [natVal_natText] at hzero
      have hval : natVal [48] = 0 := rfl
      omega

/-- A numeral is the one of its number. -/
theorem natText_natVal {text : List UInt8} (h : IsNumeral text) : natText (natVal text) = text := by
  by_cases h0 : text = [48]
  · subst h0
    rfl
  generalize hds : text.reverse.map (fun b => b.toNat - 48) = ds
  have hdigit (b : UInt8) (hb : b ∈ text) : digitByte (b.toNat - 48) = b := by
    have hrange := isDigit_iff.mp (h.digits b hb)
    refine UInt8.toNat_inj.mp ?_
    rw [digitByte_toNat (by omega)]
    omega
  have hlt : ∀ d ∈ ds, d < 10 := by
    intro d hd
    rw [← hds] at hd
    obtain ⟨b, hb, rfl⟩ := List.mem_map.mp hd
    have hrange := isDigit_iff.mp (h.digits b (List.mem_reverse.mp hb))
    omega
  have hlast : ∀ hne : ds ≠ [], ds.getLast hne ≠ 0 := by
    subst hds
    intro hne hzero
    obtain ⟨b, rest, rfl⟩ := List.exists_cons_of_ne_nil h.ne_nil
    have hb := hdigit b List.mem_cons_self
    simp only [List.reverse_cons, List.map_append, List.map_cons, List.map_nil, List.getLast_concat] at hzero
    rw [hzero] at hb
    exact h0 (h.no_zero (by rw [← hb]; rfl))
  have hdigits := Nat.digits_ofDigits 10 (by decide) ds hlt hlast
  have htext : (ds.map digitByte).reverse = text := by
    rw [← hds, List.map_map]
    have hid : text.reverse.map (digitByte ∘ fun b : UInt8 => b.toNat - 48) = text.reverse :=
      (List.map_congr_left fun b hb => hdigit b (List.mem_reverse.mp hb)).trans (List.map_id _)
    rw [hid, List.reverse_reverse]
  have hne : natVal text ≠ 0 := by
    intro hzero
    rw [natVal, hds] at hzero
    rw [hzero, Nat.digits_zero] at hdigits
    rw [← hdigits] at htext
    exact h.ne_nil htext.symm
  rw [natText, if_neg hne, natVal, hds, hdigits, htext]

/-- A numeral does not start with a minus sign. -/
theorem IsNumeral.head?_ne {text : List UInt8} (h : IsNumeral text) : text.head? ≠ some 45 := by
  intro hhead
  have hdigit := h.digits 45 (List.mem_of_mem_head? hhead)
  exact absurd hdigit (by decide)

theorem intText_head?_eq_iff (n : Int) : (intText n).head? = some 45 ↔ n < 0 := by
  unfold intText
  split_ifs with h
  · exact ⟨fun _ => h, fun _ => rfl⟩
  · exact ⟨fun hhead => absurd hhead (natText_isNumeral _).head?_ne, fun hlt => absurd hlt h⟩

theorem intText_isIntNumeral (n : Int) : IsIntNumeral (intText n) := by
  unfold intText
  split_ifs with h
  · refine .inr ⟨_, rfl, natText_isNumeral _, fun h0 => ?_⟩
    have hzero := congrArg natVal h0
    rw [natVal_natText] at hzero
    have hval : natVal [48] = 0 := rfl
    omega
  · exact .inl (natText_isNumeral _)

theorem intVal_intText (n : Int) : intVal (intText n) = n := by
  rw [intVal]
  simp only [intText_head?_eq_iff]
  unfold intText
  split_ifs with h
  · rw [List.tail_cons, natVal_natText]
    omega
  · rw [natVal_natText]
    omega

/-- The canonical form of an integer is unique. -/
theorem intText_intVal {text : List UInt8} (h : IsIntNumeral text) : intText (intVal text) = text := by
  rcases h with h | ⟨digits, rfl, h, hne⟩
  · rw [intVal, if_neg h.head?_ne, intText, if_neg (by omega), Int.natAbs_natCast, natText_natVal h]
  · have hpos : natVal digits ≠ 0 := by
      intro h0
      have htext := natText_natVal h
      rw [h0] at htext
      exact hne htext.symm
    have hhead : (45 :: digits).head? = some 45 := rfl
    rw [intVal, if_pos hhead, List.tail_cons, intText, if_pos (by omega), Int.natAbs_neg,
      Int.natAbs_natCast, natText_natVal h]

end Decimal
