import ClearMsig.Basic

/-!
# The proposal account

`state/proposal.rs`. Votes are two bitmaps over the intent's approver list.
-/

namespace ClearMsig

inductive ProposalStatus where
  | active
  | approved
  | executed
  | cancelled
  deriving DecidableEq, Repr

structure Proposal where
  wallet : Address
  intent : Address
  proposalIndex : UInt64
  proposer : Address
  status : ProposalStatus
  proposedAt : Int64
  approvedAt : Int64
  bump : UInt8
  approvalBitmap : UInt16
  cancellationBitmap : UInt16
  rentRefund : Address
  paramsData : PodVec UInt8 512
  deriving DecidableEq

/-- `1u16 << idx`: without overflow checks the shift amount is taken modulo 16. -/
def bitMask (idx : UInt8) : UInt16 := 1 <<< idx.toUInt16

/-- `u16::count_ones`. -/
def countOnes (x : UInt16) : Nat := (List.range 16).countP fun i => x.toNat.testBit i

namespace Proposal

/-- `approval_count`. -/
def approvalCount (p : Proposal) : UInt8 := UInt8.ofNat (countOnes p.approvalBitmap)

/-- `cancellation_count`. -/
def cancellationCount (p : Proposal) : UInt8 := UInt8.ofNat (countOnes p.cancellationBitmap)

/-- `has_approved_by_index`. -/
def hasApprovedByIndex (p : Proposal) (idx : UInt8) : Bool :=
  p.approvalBitmap &&& bitMask idx != 0

/-- `has_cancelled_by_index`. -/
def hasCancelledByIndex (p : Proposal) (idx : UInt8) : Bool :=
  p.cancellationBitmap &&& bitMask idx != 0

/-- `set_approval`. -/
def setApproval (p : Proposal) (idx : UInt8) : Proposal :=
  { p with
    cancellationBitmap := p.cancellationBitmap &&& ~~~(bitMask idx)
    approvalBitmap := p.approvalBitmap ||| bitMask idx }

/-- `set_cancellation`. -/
def setCancellation (p : Proposal) (idx : UInt8) : Proposal :=
  { p with
    approvalBitmap := p.approvalBitmap &&& ~~~(bitMask idx)
    cancellationBitmap := p.cancellationBitmap ||| bitMask idx }

/-- A proposal that still takes votes or can be executed. -/
def IsOpen (p : Proposal) : Prop := p.status = .active ∨ p.status = .approved

instance (p : Proposal) : Decidable p.IsOpen := inferInstanceAs (Decidable (_ ∨ _))

end Proposal

end ClearMsig
