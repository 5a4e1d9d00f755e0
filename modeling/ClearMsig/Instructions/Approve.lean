import ClearMsig.Instructions.Context

/-!
# `approve`

`instructions/approve.rs`.
-/

namespace ClearMsig

structure ApproveArgs where
  expiry : Int64
  approverIndex : UInt8
  signature : Signature

/-- The context whose message an approver signs for `action` on a proposal. -/
def voteContext (wallet : ClearWallet) (proposal : Proposal) (action : Bytes) (expiry : Int64) :
    MessageContext where
  expiry := expiry
  action := action
  walletName := wallet.name
  proposalIndex := proposal.proposalIndex

namespace Approve

/-- The proposal after a vote to approve at `idx`. -/
def vote (intent : Intent) (proposal : Proposal) (clock : Int64) (idx : UInt8) : Proposal :=
  let p := proposal.setApproval idx
  if p.approvalCount ≥ intent.approvalThreshold then
    { p with status := .approved, approvedAt := clock }
  else p

/-- `approve`. -/
def approve (env : Env) (clock : Int64) (s : Accounts) (walletAddr intentAddr proposalAddr : Address)
    (args : ApproveArgs) : Result Accounts := do
  let wallet ← Accounts.orRefuse (s.wallet? walletAddr)
  let intent ← Accounts.orRefuse (s.intent? intentAddr)
  constraint (intent.wallet = walletAddr)
  require (intent.isApproved = true) .invalidArgument
  let proposal ← Accounts.orRefuse (s.proposal? proposalAddr)
  constraint (proposal.wallet = walletAddr ∧ proposal.intent = intentAddr)
  require (proposal.status = .active) .invalidArgument
  require (args.expiry > clock) .invalidArgument
  let approverAddr ← okOr intent.approvers.toList[args.approverIndex.toNat]? .invalidArgument
  require (¬ proposal.hasApprovedByIndex args.approverIndex = true) .invalidArgument
  let msg ← signedMessage env.sha256 (voteContext wallet proposal (ascii "approve") args.expiry) intent
    proposal.paramsData.toList
  require (env.sigVerify approverAddr args.signature msg = true) .invalidArgument
  .ok (s.set proposalAddr (.proposal (vote intent proposal clock args.approverIndex)))

end Approve

end ClearMsig
