import ClearMsig.Emission
import ClearMsig.Resolution

/-!
# What an invocation consists of

The program and the accounts of an instruction entry come from the slots, its data from the pool and from the
parameters.
-/

namespace ClearMsig

namespace Execute

variable (intent : Intent) (data : Bytes) (views : List AccountView)

/-- The bytes of a segment: a literal, or the first bytes of a parameter, as many as its encoding has. -/
inductive Yields (seg : DataSegmentEntry) : Bytes → Prop where
  | literal {bytes : Bytes} (htype : seg.segmentType = .literal)
      (hpool : PoolBytes intent seg.poolOffset seg.poolLen bytes) : Yields seg bytes
  | param {idx enc : UInt8} {rest raw : Bytes} {encoding : DataEncoding} (htype : seg.segmentType = .param)
      (hpool : PoolBytes intent seg.poolOffset seg.poolLen (idx :: enc :: rest))
      (henc : DataEncoding.fromU8 enc = some encoding) (hraw : intent.readParamBytes data idx = .ok raw)
      (hsize : encoding.byteSize ≤ raw.length) : Yields seg (raw.take encoding.byteSize)

/-- An index byte stands for the address in a slot, with the flags of the entry of the slot. -/
def Names (idx : UInt8) (account : Address × Bool × Bool) : Prop :=
  ∃ view entry, views[idx.toNat]? = some view ∧ intent.accounts.toList[idx.toNat]? = some entry ∧
    account = (view.address, entry.isWritable, entry.isSigner)

/-- The invocation of an instruction entry. -/
structure Assembles (entry : InstructionEntry) (cpi : Cpi) : Prop where
  program : ∃ view, views[entry.programAccountIndex.toNat]? = some view ∧ cpi.programId = view.address
  accounts : ∃ indexes, PoolBytes intent entry.accountIndexesOffset entry.accountIndexesLen indexes ∧
    indexes.length ≤ 16 ∧ List.Forall₂ (Names intent views) indexes cpi.accounts
  data_eq : ∃ segs pieces,
    Fields.RangeOf intent.dataSegments.toList entry.segmentsStart.toNat entry.segmentsCount.toNat segs ∧
      List.Forall₂ (Yields intent data) segs pieces ∧ cpi.data = pieces.flatten
  data_le : cpi.data.length ≤ 1024

end Execute

end ClearMsig
