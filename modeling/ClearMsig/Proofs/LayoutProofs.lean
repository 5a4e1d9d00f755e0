import ClearMsig.Sample
import ClearMsig.State.Proofs.ParamsProofs

/-!
# The readers of parameter data agree

The validator, the reader for the executor and the renderer each walk over the data by themselves. On data
that the validator accepts they find the same fields, and the renderer can only run out of room.
-/

namespace ClearMsig

open MessageBuilder

variable {data raw : Bytes} {raws : List Bytes} {param : ParamEntry} {intent : Intent} {off n : Nat}
  {t : ParamType} {idx : UInt8}

/-- Every reader finds the parameter `idx` at `offset`, as the bytes `raw`. The renderer appends its text in
one piece, which fails for want of room only. -/
structure ReadAt (intent : Intent) (data : Bytes) (idx : UInt8) (offset : Nat) (raw : Bytes) : Prop where
  visited : Intent.validateLoop data (intent.params.toList.take idx.toNat) 0 = .ok offset
  offset_eq : paramOffset intent data idx = .ok offset
  read : intent.readParamBytes data idx = .ok raw
  slice_eq : getSlice data offset (offset + raw.length) = some raw
  rendered : ∃ param, intent.params.toList[idx.toNat]? = some param ∧
    ∀ b : MessageBuilder, b.renderParam intent data idx = b.pushBytes (param.paramType.valueOf raw).display

/-- The data starts with a field for each declared parameter, where every reader finds it. The reader and the
renderer fail at an index that is not declared. -/
structure ReadersAgree (intent : Intent) (data : Bytes) : Prop where
  declared : ∃ raws : List Bytes, raws.length = intent.params.toList.length ∧ raws.flatten <+: data ∧
    ∀ (idx : UInt8) raw, raws[idx.toNat]? = some raw → ReadAt intent data idx (Fields.start raws idx.toNat) raw
  undeclared : ∀ idx : UInt8, intent.params.toList.length ≤ idx.toNat →
    intent.readParamBytes data idx = err .invalidInstructionData ∧
      ∀ b : MessageBuilder, b.renderParam intent data idx = err .invalidInstructionData

/-! ## Rendering a value that is there -/

theorem slice_of_prefix (hoff : off ≤ data.length) (hpre : raw <+: data.drop off) (hlen : raw.length = n) :
    slice data off (off + n) = .ok raw :=
  slice_eq_ok.mpr (getSlice_eq_some_iff_isPrefix.mpr ⟨hoff, hlen, hpre⟩)

/-- The unsigned numbers of up to eight bytes. -/
theorem pushU64_leNat (b : MessageBuilder) (h : raw.length ≤ 8) :
    b.pushU64 (UInt64.ofNat (leNat raw)) = b.pushBytes (Value.number (leNat raw)).display := by
  rw [pushU64_eq, toNat_ofNat_leNat h, Value.display, intText_natCast]

/-- A value that is there is rendered. -/
theorem renderAt_of_encodes (h : t.Encodes raw) (hoff : off ≤ data.length) (hpre : raw <+: data.drop off)
    (b : MessageBuilder) : renderAt data off b t = b.pushBytes (t.valueOf raw).display := by
  cases t with
  | address =>
    have hlen : raw.length = 32 := h
    rw [renderAt, slice_of_prefix hoff hpre hlen, ok_bind, pushBase58_eq b hlen.le]
    rfl
  | u64 | u16 | u32 =>
    rw [renderAt, slice_of_prefix hoff hpre h, ok_bind]
    exact pushU64_leNat b (h.trans_le (by decide))
  | i64 =>
    rw [renderAt, slice_of_prefix hoff hpre h, ok_bind, pushI64_eq]
    rfl
  | u128 =>
    have hlen : raw.length = 16 := h
    rw [renderAt, slice_of_prefix hoff hpre hlen, ok_bind, pushU128_eq,
      toNat_ofNat_leNat128 hlen.le, ParamType.valueOf, Value.display, intText_natCast]
  | bool =>
    obtain ⟨v, rfl⟩ := List.length_eq_one_iff.mp h
    rw [renderAt, (cons_prefix_drop.mp hpre).1]
    simp [okOr, ParamType.valueOf, Value.display, MessageBuilder.pushStr]
  | u8 =>
    obtain ⟨v, rfl⟩ := List.length_eq_one_iff.mp h
    rw [renderAt, (cons_prefix_drop.mp hpre).1, okOr, ok_bind, pushU64_eq, ParamType.valueOf,
      Value.display, intText_natCast]
    rfl
  | string =>
    obtain ⟨text, hutf, hlt, rfl⟩ := h
    obtain ⟨hlen, htext⟩ := cons_prefix_drop.mp hpre
    have hsucc : off + 1 ≤ data.length := (List.getElem?_eq_some_iff.mp hlen).1
    rw [renderAt, index_eq_ok.mpr hlen, ok_bind,
      slice_of_prefix hsucc htext (UInt8.toNat_ofNat_of_lt' hlt).symm, ok_bind, (require_eq_ok (u := ())).mpr hutf,
      ok_bind]
    rfl

/-! ## Declared and undeclared parameters -/

/-- Values at the front of the data are found by all readers. -/
theorem readAt_of_values (h : List.Forall₂ ParamEntry.Accepts intent.params.toList raws)
    (hdata : raws.flatten <+: data) (hraw : raws[idx.toNat]? = some raw) :
    ReadAt intent data idx (Fields.start raws idx.toNat) raw := by
  have hvalues := values_of_accepts h
  obtain ⟨hlt, hget⟩ := List.getElem?_eq_some_iff.mp hraw
  have hltp : idx.toNat < intent.params.toList.length := h.length_eq ▸ hlt
  have hparam := List.getElem?_eq_getElem hltp
  have hoff := Fields.start_le hdata idx.toNat
  have hpre := Fields.prefix_drop_start hdata hraw
  have hoffset := skipParams_of_values hvalues hdata hltp.le
  have hencodes : intent.params.toList[idx.toNat].paramType.Encodes raw := hget ▸ hvalues.get hltp hlt
  refine
    { visited := ?_
      offset_eq := hoffset
      read := readParamBytes_of_values hvalues hdata hraw
      slice_eq := getSlice_eq_some_iff_isPrefix.mpr ⟨hoff, rfl, hpre⟩
      rendered := ⟨_, hparam, fun b => ?_⟩ }
  · rw [validateLoop_eq_ok]
    exact ⟨raws.take idx.toNat, List.forall₂_take _ h, (Fields.flatten_take_isPrefix ..).trans hdata,
      (Nat.zero_add _).symm⟩
  · rw [renderParam_eq, hparam, okOr, ok_bind, paramOffset, hoffset, ok_bind]
    exact renderAt_of_encodes hencodes hoff hpre b

/-- Reading sizes fails in one way. -/
theorem paramByteSize_error {e : Abort} (h : paramByteSize t data off = .error e) :
    e = .error .invalidInstructionData := by
  cases t with
  | string =>
    cases hlen : data[off]? with
    | none =>
      simp only [paramByteSize, hlen, okOr, err, error_bind, Except.error.injEq] at h
      exact h.symm
    | some len =>
      simp only [paramByteSize, hlen, okOr, ok_bind, reduceCtorEq] at h
  | address | u64 | i64 | bool | u8 | u16 | u32 | u128 => cases h

/-- So does the loop over the parameters before an index. -/
theorem skipParams_error {params : List ParamEntry} {e : Abort}
    (h : Intent.skipParams data params n off = .error e) : e = .error .invalidInstructionData := by
  induction n generalizing params off with
  | zero => simp only [Intent.skipParams, reduceCtorEq] at h
  | succ n ih =>
    cases params with
    | nil => exact (Except.error.inj h).symm
    | cons param params =>
      rw [Intent.skipParams] at h
      cases hsize : paramByteSize param.paramType data off with
      | error e' =>
        rw [hsize] at h
        obtain rfl := Except.error.inj h
        exact paramByteSize_error hsize
      | ok size =>
        rw [hsize] at h
        exact ih h

/-- An index that is not declared is rejected. -/
theorem undeclared_rejected (h : intent.params.toList[idx.toNat]? = none) :
    intent.readParamBytes data idx = err .invalidInstructionData ∧
      ∀ b : MessageBuilder, b.renderParam intent data idx = err .invalidInstructionData := by
  refine ⟨?_, fun b => ?_⟩
  · cases hskip : Intent.skipParams data intent.params.toList idx.toNat 0 with
    | error e =>
      rw [Intent.readParamBytes, hskip, skipParams_error hskip]
      rfl
    | ok offset =>
      rw [Intent.readParamBytes, hskip, ok_bind, h]
      rfl
  · rw [renderParam_eq, h]
    rfl

/-- The readers agree on accepted data. -/
theorem readers_agree (h : intent.validateParamConstraints data = .ok ()) : ReadersAgree intent data := by
  obtain ⟨raws, hraws, hdata⟩ := validateParamConstraints_eq_ok.mp h
  exact
    { declared :=
        ⟨raws, hraws.length_eq.symm, hdata, fun idx raw hraw => readAt_of_values hraws hdata hraw⟩
      undeclared := fun idx hidx => undeclared_rejected (List.getElem?_eq_none hidx) }

open Sample in
/-- A text, a number behind it and one byte more. -/
theorem readers_agree_sample : ReadersAgree (templated [.string, .u16] "{0}{1}") [2, 104, 105, 7, 0, 9] :=
  readers_agree (by decide +kernel)

end ClearMsig
