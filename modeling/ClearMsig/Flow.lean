import ClearMsig.Client
import ClearMsig.Foundation.Window
import ClearMsig.Metas
import ClearMsig.Program

/-!
# The flow of the client

How the clients of the repository take a proposal to its execution: `propose_approve_execute` of `tests.rs`,
and the setup steps of `bench/src/helpers.rs`, which do the same for the removal of an intent. The flow
proposes, collects the approvals of the first approvers in the order of the list, and executes. `sign` is
`sign_message` for the key of an address.
-/

namespace ClearMsig

/-- `MessageFn`: the message for an action, an expiry, a wallet name, a proposal number and parameters. -/
abbrev MessageFn := Bytes → Int64 → Bytes → UInt64 → Bytes → Bytes

/-- `ProposeApproveExecuteArgs`, with all the approvers in place of the first one. -/
structure ProposeApproveExecuteArgs where
  payer : Address
  wallet : Address
  walletName : Bytes
  intent : Address
  proposalIndex : UInt64
  expiry : Int64
  proposer : Address
  approvers : List Address
  paramsData : Bytes
  msgFn : MessageFn
  executeRemaining : List AccountView

namespace ProposeApproveExecuteArgs

variable (env : Env) (sign : Address → Bytes → Signature) (args : ProposeApproveExecuteArgs)

/-- The message for an action on the proposal. -/
def message (action : Bytes) : Bytes :=
  args.msgFn action args.expiry args.walletName args.proposalIndex args.paramsData

/-- `get_proposal_address`. -/
def proposal : Address := env.proposalPda args.intent args.proposalIndex

/-- `build_propose_ix`. -/
def propose (clock : Int64) : Call :=
  ⟨clock, .propose args.payer args.wallet args.intent
    { expiry := args.expiry
      proposerPubkey := args.proposer
      signature := sign args.proposer (args.message (ascii "propose"))
      paramsData := args.paramsData }⟩

/-- `build_approve_ix`, for the approver at an index. -/
def approve (clock : Int64) (approverIndex : Nat) (approver : Address) : Call :=
  ⟨clock, .approve args.wallet args.intent (args.proposal env)
    { expiry := args.expiry
      approverIndex := UInt8.ofNat approverIndex
      signature := sign approver (args.message (ascii "approve")) }⟩

/-- The accounts that `build_execute_ix` puts in front. -/
def declared : Execute.Declared where
  vault := ⟨vaultPda env args.wallet, false, true, []⟩
  systemProgram := ⟨env.systemProgramId, false, false, []⟩
  wallet := ⟨args.wallet, false, true, []⟩

/-- `build_execute_ix`. -/
def execute (clock : Int64) : Call :=
  ⟨clock, .execute (args.declared env) args.intent (args.proposal env) args.executeRemaining⟩

/-- The approvals of the first approvers. -/
def approvals (clock : Int64) (n : Nat) : List Call :=
  (args.approvers.take n).mapIdx fun index key => args.approve env sign clock index key

/-- `propose_approve_execute`, with the approvals of the first `n` approvers, executed at a later clock. -/
def calls (clock late : Int64) (n : Nat) : List Call :=
  args.propose sign clock :: args.approvals env sign clock n ++ [args.execute env late]

end ProposeApproveExecuteArgs

/-! ## Removing and adding an intent -/

/-- `WalletSetup`, with all the approvers. -/
structure WalletSetup where
  creator : Address
  proposer : Address
  approvers : List Address
  wallet : Address
  walletName : Bytes

namespace WalletSetup

variable (env : Env) (setup : WalletSetup) (proposalIndex : UInt64) (expiry : Int64)

/-- The flow that removes the intent at an index: `setup_proposed_remove_intent`, `setup_approved` and
`setup_executed_remove`. -/
def removal (targetIntentIndex : UInt8) : ProposeApproveExecuteArgs where
  payer := setup.creator
  wallet := setup.wallet
  walletName := setup.walletName
  intent := env.intentPda setup.wallet 1
  proposalIndex := proposalIndex
  expiry := expiry
  proposer := setup.proposer
  approvers := setup.approvers
  paramsData := [targetIntentIndex]
  msgFn := fun action expiry walletName proposalIndex data =>
    Client.removeIntentMsg action expiry walletName proposalIndex (data.getD 0 0)
  executeRemaining := [⟨env.intentPda setup.wallet targetIntentIndex, false, true, []⟩]

/-- The flow of `test_execute_add_intent`, which adds an intent at the next index. -/
def addition (paramsData : Bytes) (newIntentIndex : UInt8) : ProposeApproveExecuteArgs where
  payer := setup.creator
  wallet := setup.wallet
  walletName := setup.walletName
  intent := env.intentPda setup.wallet 0
  proposalIndex := proposalIndex
  expiry := expiry
  proposer := setup.proposer
  approvers := setup.approvers
  paramsData := paramsData
  msgFn := Client.addIntentMsg env.sha256
  executeRemaining :=
    [⟨setup.creator, true, true, []⟩, ⟨env.intentPda setup.wallet newIntentIndex, false, true, []⟩]

end WalletSetup

/-! ## The parameters that add an intent -/

/-- The loop of `build_intent_params` over the proposers, from `start` on. -/
def writeProposers (cap : Nat) (data : Bytes) (start : Nat) : List Address → Bytes
  | [] => data
  | p :: proposers =>
    writeProposers cap (if start + 32 ≤ cap then Window.write data start p.val else data) (start + 32) proposers

/-- `build_intent_params`: the head of a custom intent and its first proposers. -/
def buildIntentParams (layout : PodVecLayout) (wallet : Address) (proposers : List Address)
    (approvalThreshold cancellationThreshold : UInt8) (timelockSeconds : UInt32) : Bytes :=
  let cap := min (Intent.sizeOfIntent layout) 512
  let data := List.replicate cap 0
  let data := Window.write data 0 wallet.val
  let data := Window.write data 34 [3]
  let data := Window.write data 35 [1]
  let data := Window.write data 36 [approvalThreshold]
  let data := Window.write data 37 [cancellationThreshold]
  let data := Window.write data 38 (toLE 4 timelockSeconds.toNat)
  let propOff := Intent.offProposers
  let propCount := min proposers.length 14
  let data := Window.write data propOff (toLE 4 propCount)
  writeProposers cap data (propOff + 4) (proposers.take propCount)

end ClearMsig
