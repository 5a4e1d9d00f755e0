import ClearMsig.Instructions.Cancel
import ClearMsig.Instructions.Custom

/-!
# `execute`

`instructions/execute.rs`: the timelock and the four kinds of execution. The handlers work on the
account map, so that two names for one account share its memory.
-/

namespace ClearMsig

namespace Execute

def PARAMS_DATA_MAX : Nat := 512

/-- `i64::checked_add`. -/
def checkedAdd (a b : Int64) : Option Int64 :=
  if -2 ^ 63 ≤ a.toInt + b.toInt ∧ a.toInt + b.toInt < 2 ^ 63 then some (a + b) else none

/-- The accounts `execute` runs on: what the constraints have loaded. -/
structure Ctx where
  walletAddr : Address
  intentAddr : Address
  proposalAddr : Address
  wallet : ClearWallet
  intent : Intent
  proposal : Proposal
  declared : Declared
  remaining : List AccountView

/-- `validate_target_intent_for_modification`: the target and its address. -/
def validateTargetIntentForModification (env : Env) (s : Accounts) (ctx : Ctx) (view : AccountView)
    (targetIndex : UInt8) : Result Intent := do
  require (view.address = env.intentPda ctx.walletAddr targetIndex) .invalidSeeds
  require (view.isWritable = true) .immutable
  let target ← Accounts.orRefuse (s.intent? view.address)
  require (target.activeProposalCount = 0) .invalidArgument
  .ok target

/-- `execute_add_intent`: the body is copied into the fresh account as it stands in the proposal. -/
def executeAddIntent (env : Env) (s : Accounts) (ctx : Ctx) : Result Accounts := do
  require (ctx.wallet.intentIndex < 255) .invalidArgument
  let newIndex := ctx.wallet.intentIndex + 1
  let paramsData := ctx.proposal.paramsData.toList
  require (2 ≤ ctx.remaining.length) .notEnoughAccountKeys
  let payer ← index ctx.remaining 0
  let newIntent ← index ctx.remaining 1
  require (payer.isSigner = true) .missingRequiredSignature
  require (newIntent.address = env.intentPda ctx.walletAddr newIndex) .invalidSeeds
  let body := paramsData.take (Intent.sizeOfIntent env.podVec)
  match Intent.fromBody env.podVec body with
  | none => .error .undefined
  | some intent => do
    let s ← s.create newIntent.address (.intent intent)
    .ok (s.set ctx.walletAddr (.wallet { ctx.wallet with intentIndex := newIndex }))

/-- `execute_remove_intent`: clear the approved flag. -/
def executeRemoveIntent (env : Env) (s : Accounts) (ctx : Ctx) : Result Accounts := do
  let paramsData := ctx.proposal.paramsData.toList
  require (paramsData.length = 1) .invalidInstructionData
  let targetIndex ← index paramsData 0
  let view ← okOr ctx.remaining[0]? .notEnoughAccountKeys
  let target ← validateTargetIntentForModification env s ctx view targetIndex
  .ok (s.set view.address (.intent { target with approved := 0 }))

/-- `execute_update_intent`: overwrite the target with one whole intent body. -/
def executeUpdateIntent (env : Env) (s : Accounts) (ctx : Ctx) : Result Accounts := do
  let paramsData := ctx.proposal.paramsData.toList
  require (paramsData.length > 1) .invalidInstructionData
  require (paramsData.length ≤ PARAMS_DATA_MAX) .invalidInstructionData
  let targetIndex ← index paramsData 0
  let newBody := paramsData.drop 1
  require (newBody.length = Intent.sizeOfIntent env.podVec) .invalidInstructionData
  let view ← okOr ctx.remaining[0]? .notEnoughAccountKeys
  let _ ← validateTargetIntentForModification env s ctx view targetIndex
  match Intent.fromBody env.podVec newBody with
  | none => .error .undefined
  | some intent => .ok (s.set view.address (.intent intent))

/-- The `match` on the intent type. -/
def dispatch (env : Env) (s : Accounts) (ctx : Ctx) : Result Accounts := do
  match ← ctx.intent.readType with
  | .addIntent => executeAddIntent env s ctx
  | .removeIntent => executeRemoveIntent env s ctx
  | .updateIntent => executeUpdateIntent env s ctx
  | .custom => do
    let cpis ← executeCustom env ctx.intent ctx.proposal.paramsData.toList ctx.declared ctx.remaining
    env.invoke cpis s

/-- The end of `execute`: mark the proposal and release the intent, as they now stand. -/
def finish (s : Accounts) (intentAddr proposalAddr : Address) : Result Accounts := do
  let proposal ← Accounts.orRefuse (s.proposal? proposalAddr)
  let s := s.set proposalAddr (.proposal { proposal with status := .executed })
  let intent ← Accounts.orRefuse (s.intent? intentAddr)
  .ok (s.set intentAddr (.intent intent.releaseProposal))

/-- The account constraints of `Execute`. -/
def load (env : Env) (s : Accounts) (declared : Declared) (intentAddr proposalAddr : Address)
    (remaining : List AccountView) : Result Ctx := do
  let walletAddr := declared.wallet.address
  let wallet ← Accounts.orRefuse (s.wallet? walletAddr)
  constraint (declared.vault.address = env.pda (Env.vaultSeeds walletAddr))
  let intent ← Accounts.orRefuse (s.intent? intentAddr)
  constraint (intent.wallet = walletAddr)
  let proposal ← Accounts.orRefuse (s.proposal? proposalAddr)
  constraint (proposal.wallet = walletAddr ∧ proposal.intent = intentAddr)
  require (proposal.status = .approved) .invalidArgument
  constraint (declared.systemProgram.address = env.systemProgramId)
  .ok { walletAddr, intentAddr, proposalAddr, wallet, intent, proposal, declared, remaining }

/-- `execute`. -/
def execute (env : Env) (clock : Int64) (s : Accounts) (declared : Declared)
    (intentAddr proposalAddr : Address) (remaining : List AccountView) : Result Accounts := do
  let ctx ← load env s declared intentAddr proposalAddr remaining
  let timelock := Int64.ofNat ctx.intent.timelockSeconds.toNat
  let unlockAt ← okOr (checkedAdd ctx.proposal.approvedAt timelock) .arithmeticOverflow
  require (clock ≥ unlockAt) .invalidArgument
  let s ← dispatch env s ctx
  finish s intentAddr proposalAddr

end Execute

end ClearMsig
