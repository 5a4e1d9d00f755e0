import ClearMsig.Instructions.Approve

/-!
# `cancel`

`instructions/cancel.rs`.
-/

namespace ClearMsig

structure CancelArgs where
  expiry : Int64
  cancellerIndex : UInt8
  signature : Signature

/-- `active_proposal_count.get().saturating_sub(1)`. -/
def Intent.releaseProposal (intent : Intent) : Intent :=
  { intent with activeProposalCount := UInt16.ofNat (intent.activeProposalCount.toNat - 1) }

namespace Cancel

/-- The proposal and the intent after a vote to cancel at `idx`. -/
def vote (intent : Intent) (proposal : Proposal) (idx : UInt8) : Intent × Proposal :=
  let p := proposal.setCancellation idx
  if p.cancellationCount ≥ intent.cancellationThreshold then
    (intent.releaseProposal, { p with status := .cancelled })
  else if p.status = .approved ∧ p.approvalCount < intent.approvalThreshold then
    (intent, { p with status := .active })
  else (intent, p)

/-- `cancel`. -/
def cancel (env : Env) (clock : Int64) (s : Accounts) (walletAddr intentAddr proposalAddr : Address)
    (args : CancelArgs) : Result Accounts := do
  let wallet ← Accounts.orRefuse (s.wallet? walletAddr)
  let intent ← Accounts.orRefuse (s.intent? intentAddr)
  constraint (intent.wallet = walletAddr)
  let proposal ← Accounts.orRefuse (s.proposal? proposalAddr)
  constraint (proposal.wallet = walletAddr ∧ proposal.intent = intentAddr)
  require proposal.IsOpen .invalidArgument
  require (args.expiry > clock) .invalidArgument
  let cancellerAddr ← okOr intent.approvers.toList[args.cancellerIndex.toNat]? .invalidArgument
  require (¬ proposal.hasCancelledByIndex args.cancellerIndex = true) .invalidArgument
  let msg ← signedMessage env.sha256 (voteContext wallet proposal (ascii "cancel") args.expiry) intent
    proposal.paramsData.toList
  require (env.sigVerify cancellerAddr args.signature msg = true) .invalidArgument
  let (intent, proposal) := vote intent proposal args.cancellerIndex
  .ok ((s.set intentAddr (.intent intent)).set proposalAddr (.proposal proposal))

end Cancel

end ClearMsig
