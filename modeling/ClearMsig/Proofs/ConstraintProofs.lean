import ClearMsig.Sample
import ClearMsig.State.Proofs.ParamsProofs

/-!
# Constraints on parameters

The validator looks at the constraint of a `u64` only. The constraints of a definition are enforced exactly
when those on the other unsigned types rule nothing out, or when nothing is accepted.
-/

namespace ClearMsig

variable {data raw : Bytes} {raws : List Bytes} {param : ParamEntry} {intent : Intent}

/-- The parameters of accepted data meet their constraints, and data whose values meet them is accepted. -/
structure EnforcesConstraints (intent : Intent) : Prop where
  enforced : ∀ data, intent.validateParamConstraints data = .ok () → ∀ (idx : UInt8) (param : ParamEntry),
    intent.params.toList[idx.toNat]? = some param → param.paramType.IsUnsigned →
      ∃ raw, intent.readParamBytes data idx = .ok raw ∧ param.Admits (leNat raw)
  complete : ∀ raws rest, List.Forall₂ ParamEntry.Holds intent.params.toList raws →
    intent.validateParamConstraints (raws.flatten ++ rest) = .ok ()

/-! ## Little-endian numbers -/

/-- Every number of the size of a type is a value. -/
theorem encodes_toLE {t : ParamType} {size : Nat} (hsize : t.fixedSize = some size) (v : Nat) :
    t.Encodes (toLE size v) := by
  simp only [ParamType.Encodes, hsize, toLE_length]

theorem leNat_lt_of_encodes {t : ParamType} {size : Nat} (hsize : t.fixedSize = some size)
    (h : t.Encodes raw) : leNat raw < 256 ^ size := by
  have hlen : raw.length = size := by simpa only [ParamType.Encodes, hsize] using h
  exact hlen ▸ leNat_lt raw

/-! ## Constraints -/

/-- A constraint that rules something out rules out a number of the type. -/
theorem exists_not_admits {size : Nat} (h : ¬ param.Unlimited) (hsize : param.paramType.fixedSize = some size) :
    ∃ n < 256 ^ size, ¬ param.Admits n := by
  simp only [ParamEntry.Unlimited, hsize, Option.some.injEq, exists_eq_left', not_or, not_and] at h
  unfold ParamEntry.Admits
  cases hc : param.constraintType with
  | none => exact absurd hc h.1
  | lessThanU64 => exact ⟨_, not_le.mp (h.2 hc), lt_irrefl _⟩
  | greaterThanU64 => exact ⟨0, Nat.pos_of_ne_zero (by positivity), Nat.not_lt_zero _⟩

/-- A constraint that rules nothing out holds of every value. -/
theorem admits_of_unlimited (h : param.Unlimited) (hraw : param.paramType.Encodes raw) :
    param.Admits (leNat raw) := by
  unfold ParamEntry.Admits
  rcases h with hc | ⟨hc, size, hsize, hle⟩
  · rw [hc]
    trivial
  · rw [hc]
    exact (leNat_lt_of_encodes hsize hraw).trans_le hle

/-- A `u64` constraint is met by some `u64` unless it is impossible. -/
theorem exists_admits (h : ¬ param.Impossible) : ∃ n < 2 ^ 64, param.Admits n := by
  simp only [ParamEntry.Impossible, not_or, not_and] at h
  have hlt := param.constraintValue.toNat_lt
  unfold ParamEntry.Admits
  cases hc : param.constraintType with
  | none => exact ⟨0, by decide, trivial⟩
  | lessThanU64 =>
    refine ⟨0, by decide, Nat.pos_of_ne_zero fun h0 => h.1 hc (UInt64.toNat_inj.mp h0)⟩
  | greaterThanU64 =>
    have hne := h.2 hc
    exact ⟨param.constraintValue.toNat + 1, by omega, Nat.lt_succ_self _⟩

theorem not_admits_of_impossible (h : param.Impossible) {n : Nat} (hn : n < 2 ^ 64) : ¬ param.Admits n := by
  unfold ParamEntry.Admits
  rcases h with ⟨hc, hv⟩ | ⟨hc, hv⟩
  · rw [hc, hv]
    exact Nat.not_lt_zero n
  · simp only [hc, ConstraintType.Admits, hv]
    omega

/-- Every type has a value. -/
theorem exists_encodes (t : ParamType) : ∃ raw, t.Encodes raw := by
  cases hsize : t.fixedSize with
  | some size => exact ⟨_, encodes_toLE hsize 0⟩
  | none => exact ⟨[0], by simpa only [ParamType.Encodes, hsize] using ⟨[], rfl, by decide, rfl⟩⟩

/-- The validator accepts some value of a parameter, unless its constraint is impossible. -/
theorem exists_accepts (h : param.paramType = .u64 → ¬ param.Impossible) : ∃ raw, param.Accepts raw := by
  by_cases htype : param.paramType = .u64
  · obtain ⟨n, hn, hadmits⟩ := exists_admits (h htype)
    refine ⟨toLE 8 n, htype ▸ encodes_toLE rfl n, fun _ => ?_⟩
    rwa [leNat_toLE hn]
  · obtain ⟨raw, hraw⟩ := exists_encodes param.paramType
    exact ⟨raw, hraw, fun h => absurd h htype⟩

theorem exists_fixedSize {t : ParamType} (h : t.IsUnsigned) : ∃ size, t.fixedSize = some size := by
  cases t with
  | string => exact absurd h (by decide)
  | address | u64 | i64 | bool | u8 | u16 | u32 | u128 => exact ⟨_, rfl⟩

/-! ## What is enforced -/

/-- Data whose values meet all constraints is accepted. -/
theorem validate_of_holds {rest : Bytes} (h : List.Forall₂ ParamEntry.Holds intent.params.toList raws) :
    intent.validateParamConstraints (raws.flatten ++ rest) = .ok () := by
  refine validateParamConstraints_eq_ok.mpr ⟨raws, h.imp fun param raw hraw => ?_, List.prefix_append ..⟩
  exact ⟨hraw.1, fun htype => hraw.2 (htype ▸ by decide)⟩

/-- The parameters of accepted data read as values that the validator accepts. -/
theorem exists_accepted_value (hdata : intent.validateParamConstraints data = .ok ()) {idx : UInt8}
    (hparam : intent.params.toList[idx.toNat]? = some param) :
    ∃ raw, intent.readParamBytes data idx = .ok raw ∧ param.Accepts raw := by
  obtain ⟨raws, hraws, hpre⟩ := validateParamConstraints_eq_ok.mp hdata
  obtain ⟨hlt, rfl⟩ := List.getElem?_eq_some_iff.mp hparam
  have hltr : idx.toNat < raws.length := hraws.length_eq ▸ hlt
  exact ⟨_, readParamBytes_of_values (values_of_accepts hraws) hpre (List.getElem?_eq_getElem hltr),
    hraws.get hlt hltr⟩

/-- When no `u64` constraint is impossible, every value the validator accepts occurs in accepted data. -/
theorem exists_accepted_data
    (hpossible : ∀ param ∈ intent.params.toList, param.paramType = .u64 → ¬ param.Impossible) {idx : UInt8}
    (hparam : intent.params.toList[idx.toNat]? = some param) (haccepts : param.Accepts raw) :
    ∃ data, intent.validateParamConstraints data = .ok () ∧ intent.readParamBytes data idx = .ok raw := by
  obtain ⟨raws, hraws, hraw⟩ :=
    Fields.exists_fields (fun param hmem => exists_accepts (hpossible param hmem)) hparam haccepts
  exact ⟨raws.flatten, validateParamConstraints_eq_ok.mpr ⟨raws, hraws, List.prefix_rfl⟩,
    readParamBytes_of_values (values_of_accepts hraws) List.prefix_rfl hraw⟩

/-- A parameter has an index. -/
theorem exists_index (hmem : param ∈ intent.params.toList) :
    ∃ idx : UInt8, intent.params.toList[idx.toNat]? = some param := by
  obtain ⟨i, hi, rfl⟩ := List.mem_iff_getElem.mp hmem
  refine ⟨UInt8.ofNat i, ?_⟩
  rw [UInt8.toNat_ofNat_of_lt' ((hi.trans_le intent.params.len_le).trans (by decide))]
  exact List.getElem?_eq_getElem hi

/-- The constraints of a definition are enforced exactly when a `u64` parameter has an impossible one, or
those on the other unsigned types rule nothing out. -/
theorem enforcesConstraints_iff :
    EnforcesConstraints intent ↔
      (∃ param ∈ intent.params.toList, param.paramType = .u64 ∧ param.Impossible) ∨
        ∀ param ∈ intent.params.toList, param.paramType.IsUnsigned → param.paramType ≠ .u64 →
          param.Unlimited := by
  constructor
  · intro h
    by_contra hno
    simp only [not_or, not_exists, not_and, not_forall] at hno
    obtain ⟨hpossible, param, hmem, hunsigned, hu64, hlimited⟩ := hno
    obtain ⟨idx, hidx⟩ := exists_index hmem
    -- a number that the constraint rules out is accepted
    obtain ⟨size, hsize⟩ := exists_fixedSize hunsigned
    obtain ⟨n, hn, hnot⟩ := exists_not_admits hlimited hsize
    obtain ⟨data, hdata, hread⟩ := exists_accepted_data hpossible hidx
      ⟨encodes_toLE hsize n, fun htype => absurd htype hu64⟩
    obtain ⟨raw, hraw, hadmits⟩ := h.enforced data hdata idx param hidx hunsigned
    obtain rfl := Except.ok.inj (hread.symm.trans hraw)
    rw [leNat_toLE hn] at hadmits
    exact hnot hadmits
  · intro h
    refine ⟨fun data hdata idx param hparam hunsigned => ?_, fun _ _ => validate_of_holds⟩
    obtain ⟨raw, hread, hencodes, hadmits⟩ := exists_accepted_value hdata hparam
    refine ⟨raw, hread, ?_⟩
    by_cases htype : param.paramType = .u64
    · exact hadmits htype
    rcases h with ⟨param', hmem', htype', himpossible⟩ | h
    · -- nothing is accepted
      obtain ⟨idx', hidx'⟩ := exists_index hmem'
      obtain ⟨raw', -, hencodes', hadmits'⟩ := exists_accepted_value hdata hidx'
      have hlt : leNat raw' < 256 ^ 8 := leNat_lt_of_encodes (htype' ▸ rfl) hencodes'
      exact absurd (hadmits' htype') (not_admits_of_impossible himpossible hlt)
    · exact admits_of_unlimited (h _ (List.mem_of_getElem? hparam) hunsigned htype) hencodes

namespace ConstraintSample

open Sample

/-- A single parameter, below 10. -/
def limited (t : ParamType) : Intent :=
  { templated [t] "{0}" with params := vec [⟨t, 0, 0, .lessThanU64, 10⟩] }

end ConstraintSample

open ConstraintSample in
/-- A byte below 10 is declared and 200 is accepted. As a `u64` it is not. -/
theorem constraint_ignored :
    (limited .u8).validateParamConstraints [200] = .ok () ∧ (limited .u8).readParamBytes [200] 0 = .ok [200] ∧
      ¬ EnforcesConstraints (limited .u8) ∧
      (limited .u64).validateParamConstraints [200, 0, 0, 0, 0, 0, 0, 0] = err .invalidArgument := by
  refine ⟨by decide +kernel, by decide +kernel, fun h => ?_, by decide +kernel⟩
  obtain ⟨raw, hread, hadmits⟩ := h.enforced [200] (by decide +kernel) 0 _ rfl (by decide)
  obtain rfl := Except.ok.inj (show Except.ok [200] = Except.ok raw from hread)
  exact absurd hadmits (by decide)

end ClearMsig
