import ClearMsig.Utils.Proofs.Base58Proofs

/-!
# `encode_base58` in its buffer

The two loops that write the text stay inside the buffer as long as the text fits, and leave the rest of
the buffer as it was.
-/

namespace ClearMsig

/-! ## The loops -/

/-- A write at the end of what has been written. -/
theorem writeByte_append (out : Bytes) (b c : UInt8) (rest : Bytes) :
    writeByte (out ++ b :: rest) out.length c = .ok (out ++ [c] ++ rest) := by
  rw [writeByte, if_pos (by simp), List.set_append_right _ _ le_rfl, Nat.sub_self, List.set_cons_zero,
    List.append_assoc, List.singleton_append]

theorem writeOnes_eq {buf : Bytes} {n : Nat} (h : n ≤ buf.length) :
    writeOnes buf n = .ok (List.replicate n 49 ++ buf.drop n) := by
  induction n with
  | zero => rfl
  | succ n ih =>
    have hlt : n < buf.length := h
    have hprev : (List.range n).foldlM (fun buf pos => writeByte buf pos 49) buf =
        .ok (List.replicate n 49 ++ buf.drop n) := ih (Nat.le_of_lt hlt)
    have hwrite := writeByte_append (List.replicate n 49) buf[n] 49 (buf.drop (n + 1))
    rw [List.length_replicate, ← List.drop_eq_getElem_cons hlt, ← List.replicate_succ'] at hwrite
    rw [writeOnes, List.range_succ, List.foldlM_append, hprev, ok_bind, List.foldlM_cons, hwrite]
    rfl

/-- The digits are written one after another behind `out`. -/
theorem writeDigits_eq {out rest : Bytes} {digits : List Nat} (hdigits : ∀ d ∈ digits, d < 58)
    (h : digits.length ≤ rest.length) :
    writeDigits (out ++ rest) out.length digits =
      .ok (out ++ digits.map (fun d => ALPHABET.getD d 0) ++ rest.drop digits.length) := by
  induction digits generalizing out rest with
  | nil => simp [writeDigits]
  | cons d digits ih =>
    cases rest with
    | nil => simp at h
    | cons b rest =>
      have hstep := @ih (out ++ [ALPHABET.getD d 0]) rest
        (fun x hx => hdigits x (List.mem_cons_of_mem _ hx)) (Nat.le_of_succ_le_succ h)
      rw [List.length_append, List.length_singleton] at hstep
      rw [writeDigits, alphabet_index (hdigits d List.mem_cons_self), ok_bind, writeByte_append, ok_bind,
        hstep]
      simp

/-- On at most 32 bytes the text is written if it fits; otherwise the buffer stays as it is. -/
theorem encodeBase58Into_eq {input : Bytes} (hin : input.length ≤ 32) (buf : Bytes) :
    encodeBase58Into input buf =
      if (base58Text input).length ≤ buf.length then
        .ok (some (base58Text input).length, base58Text input ++ buf.drop (base58Text input).length)
      else .ok (none, buf) := by
  have hlen : (base58Text input).length = leadingZeros input +
      (Nat.digits 58 (beNat (input.drop (leadingZeros input)))).length := by
    rw [base58Text, List.length_append, List.length_replicate, List.length_map, List.length_reverse]
  have hloop := digitsLoop_eq hin
  rw [hlen]
  generalize hds : Nat.digits 58 (beNat (input.drop (leadingZeros input))) = digits at hlen hloop ⊢
  show (do
    let digits ← digitsLoop (input.drop (leadingZeros input)) []
    if leadingZeros input + digits.length > buf.length then .ok (none, buf)
    else do
      let buf ← writeOnes buf (leadingZeros input)
      let buf ← writeDigits buf (leadingZeros input) digits.reverse
      .ok (some (leadingZeros input + digits.length), buf)) = _
  rw [hloop, ok_bind]
  split_ifs with hbig hfit hfit
  · omega
  · rfl
  · have hrest : digits.reverse.length ≤ (buf.drop (leadingZeros input)).length := by
      rw [List.length_reverse, List.length_drop]
      omega
    have hdigits := @writeDigits_eq (List.replicate (leadingZeros input) 49) _ _
      (fun d hd => lt_of_mem_digits_reverse (hds ▸ hd)) hrest
    rw [List.length_replicate, List.length_reverse, List.drop_drop] at hdigits
    rw [writeOnes_eq (by omega), ok_bind, hdigits, ok_bind, base58Text, hds]
  · omega

/-- With 44 bytes of room the text is written. -/
theorem encodeBase58Into_eq_text {input buf : Bytes} (hin : input.length ≤ 32) (hbuf : 44 ≤ buf.length) :
    encodeBase58Into input buf =
      .ok (some (base58Text input).length, base58Text input ++ buf.drop (base58Text input).length) :=
  (encodeBase58Into_eq hin buf).trans (if_pos ((base58Text_length_le hin).trans hbuf))

/-- Base58 addresses are shown faithfully. On at most 32 bytes and a buffer of at least 44, `encode_base58`
makes no access out of range and writes at most 44 characters at the front of the buffer, which are what
`push_base58` goes on with. They decode to the input, so that no other input is written alike. -/
theorem encodeBase58_faithful {input buf : Bytes} (hin : input.length ≤ 32) (hbuf : 44 ≤ buf.length) :
    ∃ n out, encodeBase58Into input buf = .ok (some n, out) ∧ n ≤ 44 ∧ out.length = buf.length ∧
      out.drop n = buf.drop n ∧ out.take n = base58Text input ∧
      encodeBase58 input buf.length = .ok (some (out.take n)) ∧
      decodeBase58 (out.take n) = some input ∧
      ∀ input' buf' n' out', input'.length ≤ 32 → 44 ≤ buf'.length →
        encodeBase58Into input' buf' = .ok (some n', out') → out'.take n' = out.take n →
        input' = input := by
  have hlen := base58Text_length_le hin
  refine ⟨_, _, encodeBase58Into_eq_text hin hbuf, hlen, ?_, List.drop_left, List.take_left, ?_, ?_, ?_⟩
  · rw [List.length_append, List.length_drop]
    omega
  · rw [List.take_left]
    exact encodeBase58_eq hin hbuf
  · rw [List.take_left]
    exact decodeBase58_base58Text input
  · intro input' buf' n' out' hin' hbuf' h' htake
    rw [encodeBase58Into_eq_text hin' hbuf', Except.ok.injEq, Prod.mk.injEq, Option.some.injEq] at h'
    obtain ⟨rfl, rfl⟩ := h'
    rw [List.take_left, List.take_left] at htake
    exact base58Text_injective htake

/-- Two zero bytes and a number, in a buffer of 44 bytes. -/
theorem encodeBase58_faithful_sample :
    ∃ n out, encodeBase58Into [0, 0, 1, 2] (List.replicate 44 0) = .ok (some n, out) ∧ n ≤ 44 ∧
      out.take n = base58Text [0, 0, 1, 2] ∧ decodeBase58 (out.take n) = some [0, 0, 1, 2] := by
  obtain ⟨n, out, h, hn, -, -, htext, -, hdecode, -⟩ :=
    @encodeBase58_faithful [0, 0, 1, 2] (List.replicate 44 0) (by decide) (by decide)
  exact ⟨n, out, h, hn, htext, hdecode⟩

end ClearMsig
