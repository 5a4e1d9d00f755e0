import ClearMsig.Instructions.Context

/-!
# `cleanup_proposal`

`instructions/cleanup_proposal.rs`: all of it is in the account constraints.
-/

namespace ClearMsig

/-- `cleanup`: close an executed or cancelled proposal towards its `rent_refund`. -/
def CleanupProposal.cleanup (s : Accounts) (proposalAddr rentRefund : Address) : Result Accounts := do
  let proposal ← Accounts.orRefuse (s.proposal? proposalAddr)
  constraint (proposal.rentRefund = rentRefund)
  require (proposal.status = .executed ∨ proposal.status = .cancelled) .invalidArgument
  .ok (s.close proposalAddr)

end ClearMsig
