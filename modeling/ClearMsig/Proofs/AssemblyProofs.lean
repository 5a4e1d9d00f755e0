import ClearMsig.Assembly
import ClearMsig.Proofs.EmissionProofs
import ClearMsig.Proofs.ResolutionProofs

/-!
# Assembling the invocations

The loop over the instructions issues the invocations that the entries describe, and stops at the first entry
that describes none. The end of a segment is added in 16 bits. A sum that wraps around ends in front of the
segment, so that the slice panics.
-/

namespace ClearMsig

variable {intent : Intent} {data : Bytes} {views : List AccountView}

namespace Execute

/-! ## Segments -/

/-- A sum that does not wrap around ends behind the segment. -/
theorem toNat_add_of_le {a b : UInt16} (h : a.toNat + b.toNat ≤ 65535) :
    (a + b).toNat = a.toNat + b.toNat := by
  rw [UInt16.toNat_add]
  exact Nat.mod_eq_of_lt (by omega)

/-- A sum that wraps around ends in front of it. -/
theorem toNat_add_of_lt {a b : UInt16} (h : 65535 < a.toNat + b.toNat) : (a + b).toNat < a.toNat := by
  have hb := b.toNat_lt
  rw [UInt16.toNat_add]
  omega

/-- The slice of a segment is its pool range, and there is none when the end wraps around. -/
theorem segmentSlice_eq_ok {offset len : UInt16} {bytes : Bytes} :
    slice intent.bytePool.toList offset.toNat (offset + len).toNat = .ok bytes ↔
      PoolBytes intent offset len bytes := by
  by_cases h : offset.toNat + len.toNat ≤ 65535
  · rw [slice_eq_ok, toNat_add_of_le h, getSlice_eq_some_iff_rangeOf, PoolBytes]
  · have hwrap := toNat_add_of_lt (Nat.lt_of_not_le h)
    constructor
    · intro hslice
      have hle := (getSlice_eq_some.mp (slice_eq_ok.mp hslice)).1
      omega
    · intro hpool
      have hroom := (getSlice_eq_some.mp (getSlice_eq_some_iff_rangeOf.mpr hpool)).2.1
      have hle := intent.bytePool.len_le
      omega

/-- Pool data that is long enough for a parameter segment. -/
theorem exists_cons_two {bytes : Bytes} (h : 2 ≤ bytes.length) :
    ∃ idx enc rest, bytes = idx :: enc :: rest := by
  obtain _ | ⟨idx, _ | ⟨enc, rest⟩⟩ := bytes
  · simp at h
  · simp at h
  · exact ⟨idx, enc, rest, rfl⟩

/-- The bytes of a segment are read as its type says. -/
theorem segmentBytes_eq_ok {seg : DataSegmentEntry} {bytes : Bytes} :
    segmentBytes intent data seg = .ok bytes ↔ Yields intent data seg bytes := by
  simp only [segmentBytes, bind_eq_ok, segmentSlice_eq_ok]
  constructor
  · rintro ⟨segPool, hpool, h⟩
    cases htype : seg.segmentType with
    | literal =>
      simp only [htype, Except.ok.injEq] at h
      exact .literal htype (h ▸ hpool)
    | param =>
      simp only [htype, bind_eq_ok, require_eq_ok, exists_const, index_eq_ok, okOr_eq_ok,
        Except.ok.injEq] at h
      obtain ⟨htwo, idx, hidx, b, hb, encoding, henc, raw, hraw, hsize, rfl⟩ := h
      obtain ⟨idx', enc, rest, rfl⟩ := exists_cons_two htwo
      obtain rfl := Option.some.inj hidx
      obtain rfl := Option.some.inj hb
      exact .param htype hpool henc hraw hsize
  · intro h
    cases h with
    | literal htype hpool =>
      refine ⟨bytes, hpool, ?_⟩
      simp only [htype]
    | param htype hpool henc hraw hsize =>
      refine ⟨_, hpool, ?_⟩
      simp only [htype, bind_eq_ok, require_eq_ok, exists_const, index_eq_ok, okOr_eq_ok, Except.ok.injEq]
      exact ⟨by simp, _, rfl, _, rfl, _, henc, _, hraw, hsize, rfl⟩

/-- A segment whose end wraps around never contributes bytes. -/
theorem pushSegment_wrap {seg : DataSegmentEntry} (h : 65535 < seg.poolOffset.toNat + seg.poolLen.toNat)
    (ixData ixData' : Bytes) : pushSegment intent data ixData seg ≠ .ok ixData' := by
  intro hpush
  simp only [pushSegment, bind_eq_ok] at hpush
  obtain ⟨segPool, hslice, -⟩ := hpush
  have hle := (getSlice_eq_some.mp (slice_eq_ok.mp hslice)).1
  have hwrap := toNat_add_of_lt h
  omega

/-! ## Instructions -/

/-- An index byte is turned into the account it names. -/
theorem cpiAccount_eq_ok {idx : UInt8} {account : Address × Bool × Bool} :
    cpiAccount intent views idx = .ok account ↔ Names intent views idx account := by
  simp only [cpiAccount, Names, bind_eq_ok, require_eq_ok, exists_const, readSlot_eq_ok, index_eq_ok,
    Except.ok.injEq]
  constructor
  · rintro ⟨-, view, hview, entry, hentry, rfl⟩
    exact ⟨view, entry, hview, hentry, rfl⟩
  · rintro ⟨view, entry, hview, hentry, rfl⟩
    exact ⟨(List.getElem?_eq_some_iff.mp hview).1, view, hview, entry, hentry, rfl⟩

/-- One round of the loop issues the invocation that the entry describes. -/
theorem buildCpi_eq_ok {entry : InstructionEntry} {cpi : Cpi} :
    buildCpi intent data views entry = .ok cpi ↔ Assembles intent data views entry cpi := by
  have hroom : ([] : Bytes).length ≤ 1024 := by decide
  simp only [buildCpi, bind_eq_ok, require_eq_ok, exists_const, readSlot_eq_ok, slice_eq_ok,
    getSlice_eq_some_iff_rangeOf, mapM_eq_ok, cpiAccount_eq_ok, foldlM_pushSegment hroom, segmentBytes_eq_ok,
    List.nil_append, Except.ok.injEq]
  constructor
  · rintro ⟨-, view, hview, indexes, hindexes, hlen, accounts, haccounts, segs, hsegs, ixData,
      ⟨pieces, hpieces, rfl, hle⟩, rfl⟩
    exact
      { program := ⟨view, hview, rfl⟩
        accounts := ⟨indexes, hindexes, hlen, haccounts⟩
        data_eq := ⟨segs, pieces, hsegs, hpieces, rfl⟩
        data_le := hle }
  · intro h
    obtain ⟨view, hview, hprogram⟩ := h.program
    obtain ⟨indexes, hindexes, hlen, haccounts⟩ := h.accounts
    obtain ⟨segs, pieces, hsegs, hpieces, hdata⟩ := h.data_eq
    refine ⟨(List.getElem?_eq_some_iff.mp hview).1, view, hview, indexes, hindexes, hlen, _, haccounts, segs,
      hsegs, _, ⟨pieces, hpieces, hdata, h.data_le⟩, ?_⟩
    rw [← hprogram]

/-- The loop issues one invocation for each instruction entry, in order and as the entry describes it, and it
succeeds whenever every entry describes one. A segment whose end wraps around never contributes bytes. -/
theorem executeCpiLoop_assembles (intent : Intent) (data : Bytes) (views : List AccountView) :
    (∀ cpis, executeCpiLoop intent data views = .ok cpis ↔
      List.Forall₂ (Assembles intent data views) intent.instructions.toList cpis) ∧
    ∀ seg : DataSegmentEntry, 65535 < seg.poolOffset.toNat + seg.poolLen.toNat →
      ∀ ixData ixData', pushSegment intent data ixData seg ≠ .ok ixData' := by
  refine ⟨fun cpis => ?_, fun seg h => pushSegment_wrap h⟩
  simp only [executeCpiLoop, mapM_eq_ok, buildCpi_eq_ok]

end Execute

end ClearMsig
