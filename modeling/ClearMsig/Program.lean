import ClearMsig.Instructions.CreateWallet
import ClearMsig.Instructions.Propose
import ClearMsig.Instructions.Cancel
import ClearMsig.Instructions.CleanupProposal
import ClearMsig.Instructions.Execute
import ClearMsig.Foundation.Runs

/-!
# The program as a transition system

`lib.rs`: the six instructions, each of which either succeeds or leaves the accounts as they were. A
run is any sequence of successful instructions by anyone, at any clock values.
-/

namespace ClearMsig

/-- An instruction with its accounts and arguments. -/
inductive Instruction where
  | createWallet (nameHash : Address) (args : CreateWalletArgs)
  | propose (payer wallet intent : Address) (args : ProposeArgs)
  | approve (wallet intent proposal : Address) (args : ApproveArgs)
  | cancel (wallet intent proposal : Address) (args : CancelArgs)
  | execute (declared : Execute.Declared) (intent proposal : Address) (remaining : List AccountView)
  | cleanupProposal (proposal rentRefund : Address)

/-- An instruction submitted at a clock value. -/
structure Call where
  clock : Int64
  ix : Instruction

/-- The entry point: the accounts after a call that succeeds. -/
def process (env : Env) (s : Accounts) (c : Call) : Result Accounts :=
  match c.ix with
  | .createWallet nameHash args => CreateWallet.create env s nameHash args
  | .propose payer wallet intent args => Propose.propose env c.clock s payer wallet intent args
  | .approve wallet intent proposal args => Approve.approve env c.clock s wallet intent proposal args
  | .cancel wallet intent proposal args => Cancel.cancel env c.clock s wallet intent proposal args
  | .execute declared intent proposal remaining =>
    Execute.execute env c.clock s declared intent proposal remaining
  | .cleanupProposal proposal rentRefund => CleanupProposal.cleanup s proposal rentRefund

/-- The program as a transition system over its accounts. -/
def program (env : Env) : Runs.System Accounts Call where
  init s := s = Accounts.none
  step s c s' := process env s c = .ok s'

end ClearMsig
