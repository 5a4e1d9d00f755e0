import ClearMsig.Foundation.Fields
import ClearMsig.State.Params
import ClearMsig.Utils.Proofs.MessageProofs

/-!
# Readers of parameter data

Data is accepted exactly when it starts with one value for each parameter, and then the other readers find
these values.
-/

namespace ClearMsig

variable {data raw : Bytes} {raws : List Bytes} {param : ParamEntry} {params : List ParamEntry}
  {off off' : Nat} {intent : Intent}

/-- A slice that exists is what stands in the list at its offset. -/
theorem getSlice_eq_some_iff_rangeOf {α : Type} {s f : List α} {off n : Nat} :
    getSlice s off (off + n) = some f ↔ Fields.RangeOf s off n f := by
  rw [getSlice_eq_some, Fields.rangeOf_iff, List.prefix_iff_eq_take]
  constructor
  · rintro ⟨-, hle, rfl⟩
    have hlen : ((s.drop off).take (off + n - off)).length = n := by
      simp only [List.length_take, List.length_drop]
      omega
    rw [hlen, Nat.add_sub_cancel_left]
    exact ⟨by omega, rfl, rfl⟩
  · rintro ⟨hoff, rfl, hf⟩
    have hlen := congrArg List.length hf
    simp only [List.length_take, List.length_drop] at hlen
    rw [Nat.add_sub_cancel_left]
    exact ⟨by omega, by omega, hf⟩

theorem getSlice_eq_some_iff_isPrefix {α : Type} {s f : List α} {off n : Nat} :
    getSlice s off (off + n) = some f ↔ off ≤ s.length ∧ f.length = n ∧ f <+: s.drop off :=
  getSlice_eq_some_iff_rangeOf.trans Fields.rangeOf_iff

/-- What an offset has to leave room for. -/
theorem exists_prefix_drop {α : Type} {s : List α} {n : Nat} (hn : 0 < n) :
    (∃ f, f.length = n ∧ f <+: s.drop off ∧ off' = off + f.length) ↔
      off + n ≤ s.length ∧ off' = off + n := by
  constructor
  · rintro ⟨f, rfl, hf, rfl⟩
    have hle := hf.length_le
    rw [List.length_drop] at hle
    exact ⟨by omega, rfl⟩
  · rintro ⟨hle, rfl⟩
    have hlen : ((s.drop off).take n).length = n := by
      simp only [List.length_take, List.length_drop]
      omega
    exact ⟨_, hlen, List.take_prefix .., by rw [hlen]⟩

/-! ## The validator -/

/-- What the validator accepts at a parameter. -/
def ParamEntry.Accepts (param : ParamEntry) (raw : Bytes) : Prop :=
  param.paramType.Encodes raw ∧ (param.paramType = .u64 → param.Admits (leNat raw))

/-- The bounds check of a type of fixed size, without a constraint. -/
theorem fixed_eq_ok {n : Nat} (hn : 0 < n) (hsize : param.paramType.fixedSize = some n)
    (hu64 : param.paramType ≠ .u64) :
    (do require (off + n ≤ data.length) .invalidInstructionData; .ok (off + n)) = (.ok off' : Result Nat) ↔
      ∃ raw, param.Accepts raw ∧ raw <+: data.drop off ∧ off' = off + raw.length := by
  simp only [bind_eq_ok, require_eq_ok, exists_const, Except.ok.injEq, ParamEntry.Accepts,
    ParamType.Encodes, hsize, hu64, false_implies, and_true]
  rw [exists_prefix_drop hn, eq_comm (a := off')]

/-- The check of a constraint on a `u64`. -/
theorem constraintCheck_eq_ok {val : UInt64} :
    (if param.constraintType = .lessThanU64 then do
        require (val < param.constraintValue) .invalidArgument
        .ok off
      else if param.constraintType = .greaterThanU64 then do
        require (val > param.constraintValue) .invalidArgument
        .ok off
      else .ok off) = (.ok off' : Result Nat) ↔ param.Admits val.toNat ∧ off = off' := by
  unfold ParamEntry.Admits
  cases param.constraintType with
  | none => simp [ConstraintType.Admits]
  | lessThanU64 => simp [ConstraintType.Admits, bind_eq_ok, UInt64.lt_iff_toNat_lt]
  | greaterThanU64 => simp [ConstraintType.Admits, bind_eq_ok, UInt64.lt_iff_toNat_lt]

/-- The validator at a `u64`. -/
theorem u64_eq_ok (htype : param.paramType = .u64) :
    Intent.validateParam data param off = .ok off' ↔
      ∃ raw, param.Accepts raw ∧ raw <+: data.drop off ∧ off' = off + raw.length := by
  simp only [Intent.validateParam, htype, bind_eq_ok, require_eq_ok, exists_const, slice_eq_ok,
    constraintCheck_eq_ok, ParamEntry.Accepts, ParamType.Encodes, ParamType.fixedSize, true_implies]
  constructor
  · rintro ⟨-, raw, hraw, hadmits, rfl⟩
    obtain ⟨-, hlen, hpre⟩ := getSlice_eq_some_iff_isPrefix.mp hraw
    rw [MessageBuilder.toNat_ofNat_leNat hlen.le] at hadmits
    exact ⟨raw, ⟨hlen, hadmits⟩, hpre, by rw [hlen]⟩
  · rintro ⟨raw, ⟨hlen, hadmits⟩, hpre, rfl⟩
    have hroom := ((exists_prefix_drop (by decide)).mp ⟨raw, hlen, hpre, rfl⟩).1
    refine ⟨hroom, raw, getSlice_eq_some_iff_isPrefix.mpr ⟨by omega, hlen, hpre⟩, ?_, by rw [hlen]⟩
    rwa [MessageBuilder.toNat_ofNat_leNat hlen.le]

/-- A length and as many bytes behind it. -/
theorem cons_prefix_drop {b : UInt8} {text : Bytes} :
    b :: text <+: data.drop off ↔ data[off]? = some b ∧ text <+: data.drop (off + 1) := by
  rw [← List.singleton_append, Fields.append_prefix_drop_iff, List.length_singleton]
  refine and_congr_left fun _ => ?_
  rw [List.prefix_iff_eq_take, List.length_singleton, List.take_one, List.head?_drop]
  cases data[off]? <;> simp [eq_comm]

/-- The validator at a text. -/
theorem string_eq_ok (htype : param.paramType = .string) :
    Intent.validateParam data param off = .ok off' ↔
      ∃ raw, param.Accepts raw ∧ raw <+: data.drop off ∧ off' = off + raw.length := by
  simp only [Intent.validateParam, htype, bind_eq_ok, require_eq_ok, exists_const, index_eq_ok, slice_eq_ok,
    ParamEntry.Accepts, ParamType.Encodes, ParamType.fixedSize, reduceCtorEq, false_implies, and_true,
    Except.ok.injEq]
  constructor
  · rintro ⟨-, len, hlen, -, text, htext, hutf, rfl⟩
    obtain ⟨-, htextlen, hpre⟩ := getSlice_eq_some_iff_isPrefix.mp htext
    have hbyte : UInt8.ofNat text.length = len := by rw [htextlen, UInt8.ofNat_toNat]
    refine ⟨len :: text, ⟨text, hutf, htextlen ▸ len.toNat_lt, by rw [hbyte]⟩,
      cons_prefix_drop.mpr ⟨hlen, hpre⟩, ?_⟩
    rw [List.length_cons, htextlen]
    omega
  · rintro ⟨raw, ⟨text, hutf, hlt, rfl⟩, hpre, rfl⟩
    obtain ⟨hlen, htext⟩ := cons_prefix_drop.mp hpre
    have hoff := (List.getElem?_eq_some_iff.mp hlen).1
    have hbyte := UInt8.toNat_ofNat_of_lt' hlt
    have hroom := htext.length_le
    rw [List.length_drop] at hroom
    refine ⟨hoff, _, hlen, by omega, text, getSlice_eq_some_iff_isPrefix.mpr ⟨by omega, hbyte.symm, htext⟩,
      hutf, ?_⟩
    rw [List.length_cons, hbyte]
    omega

/-- One round of the validator accepts exactly the values of the parameter. -/
theorem validateParam_eq_ok :
    Intent.validateParam data param off = .ok off' ↔
      ∃ raw, param.Accepts raw ∧ raw <+: data.drop off ∧ off' = off + raw.length := by
  cases htype : param.paramType with
  | u64 => exact u64_eq_ok htype
  | string => exact string_eq_ok htype
  | address | i64 | bool | u8 | u16 | u32 | u128 =>
    unfold Intent.validateParam
    rw [htype]
    exact fixed_eq_ok (Nat.succ_pos _) (by rw [htype]; rfl) (by rw [htype]; decide)

theorem validateLoop_eq_foldlM :
    Intent.validateLoop data params off =
      params.foldlM (fun off param => Intent.validateParam data param off) off := by
  induction params generalizing off with
  | nil => rfl
  | cons param params ih =>
    simp only [Intent.validateLoop, List.foldlM_cons, ih]

/-- The validator walks over one value for each parameter. -/
theorem validateLoop_eq_ok :
    Intent.validateLoop data params off = .ok off' ↔
      ∃ raws, List.Forall₂ ParamEntry.Accepts params raws ∧ raws.flatten <+: data.drop off ∧
        off' = off + raws.flatten.length := by
  rw [validateLoop_eq_foldlM]
  exact Fields.walk_eq_ok_iff fun _ _ _ => validateParam_eq_ok

/-- Data is accepted when it starts with one value for each parameter. -/
theorem validateParamConstraints_eq_ok :
    intent.validateParamConstraints data = .ok () ↔
      ∃ raws, List.Forall₂ ParamEntry.Accepts intent.params.toList raws ∧ raws.flatten <+: data := by
  simp only [Intent.validateParamConstraints, bind_eq_ok, validateLoop_eq_ok, List.drop_zero, and_true]
  constructor
  · rintro ⟨_, raws, hraws, hdata, -⟩
    exact ⟨raws, hraws, hdata⟩
  · rintro ⟨raws, hraws, hdata⟩
    exact ⟨_, raws, hraws, hdata, rfl⟩

/-! ## The reader -/

/-- The size of a value that is there. -/
theorem paramByteSize_of_encodes {t : ParamType} (h : t.Encodes raw) (hdata : raw <+: data.drop off) :
    paramByteSize t data off = .ok raw.length := by
  cases t with
  | string =>
    obtain ⟨text, -, hlt, rfl⟩ := h
    have hbyte := (cons_prefix_drop.mp hdata).1
    simp only [paramByteSize, hbyte, okOr, ok_bind, UInt8.toNat_ofNat_of_lt' hlt, List.length_cons,
      Nat.add_comm 1]
  | address | u64 | i64 | bool | u8 | u16 | u32 | u128 => exact congrArg Except.ok (Eq.symm h)

/-- The step of the loop over the parameters before an index. -/
def skipParam (data : Bytes) (param : ParamEntry) (off : Nat) : Result Nat := do
  let size ← paramByteSize param.paramType data off
  .ok (off + size)

theorem skipParams_eq_foldlM {n : Nat} (hn : n ≤ params.length) :
    Intent.skipParams data params n off =
      (params.take n).foldlM (fun off param => skipParam data param off) off := by
  induction n generalizing params off with
  | zero => simp [Intent.skipParams]
  | succ n ih =>
    cases params with
    | nil => simp at hn
    | cons param params =>
      simp only [Intent.skipParams, List.take_succ_cons, List.foldlM_cons, skipParam, bind_assoc, ok_bind]
      exact bind_congr fun size => ih (Nat.le_of_succ_le_succ hn)

/-- The values of a list of parameters, in order. -/
abbrev Values (params : List ParamEntry) (raws : List Bytes) : Prop :=
  List.Forall₂ (fun (param : ParamEntry) raw => param.paramType.Encodes raw) params raws

/-- What the validator accepts are values. -/
theorem values_of_accepts (h : List.Forall₂ ParamEntry.Accepts params raws) : Values params raws :=
  h.imp fun _ _ => And.left

/-- The loop over the parameters before an index ends where the value of that index starts. -/
theorem skipParams_of_values (h : Values params raws) (hdata : raws.flatten <+: data) {n : Nat}
    (hn : n ≤ params.length) : Intent.skipParams data params n 0 = .ok (Fields.start raws n) := by
  have hstep : ∀ (param : ParamEntry) raw off, param.paramType.Encodes raw → raw <+: data.drop off →
      skipParam data param off = .ok (off + raw.length) := by
    intro param raw off hraw hpre
    rw [skipParam, paramByteSize_of_encodes hraw hpre, ok_bind]
  have hbefore : (raws.take n).flatten <+: data.drop 0 := (Fields.flatten_take_isPrefix raws n).trans hdata
  rw [skipParams_eq_foldlM hn, Fields.walk_of_fields hstep (List.forall₂_take n h) hbefore, Nat.zero_add]
  rfl

/-- The reader finds the value of every parameter. -/
theorem readParamBytes_of_values (h : Values intent.params.toList raws) (hdata : raws.flatten <+: data)
    {idx : UInt8} (hraw : raws[idx.toNat]? = some raw) : intent.readParamBytes data idx = .ok raw := by
  obtain ⟨hlt, rfl⟩ := List.getElem?_eq_some_iff.mp hraw
  have hltp : idx.toNat < intent.params.toList.length := h.length_eq ▸ hlt
  have hencodes := h.get hltp hlt
  have hpre := Fields.prefix_drop_start hdata hraw
  rw [MessageBuilder.readParamBytes_eq_ok]
  refine ⟨_, skipParams_of_values h hdata hltp.le, _, List.getElem?_eq_getElem hltp, _,
    paramByteSize_of_encodes hencodes hpre, getSlice_eq_some_iff_isPrefix.mpr ⟨Fields.start_le hdata _, rfl, hpre⟩⟩

end ClearMsig
