import ClearMsig.Foundation.History
import ClearMsig.Instructions.Proofs.AcceptedProofs
import ClearMsig.Program
import ClearMsig.State.Proofs.ProposalProofs

/-!
# Votes in a history

The votes that a history records for a proposal: who has voted at which entry of the list, with which
signature for which message.
-/

namespace ClearMsig

open History

/-- The two ways to vote. -/
inductive Vote where
  | approve
  | cancel
  deriving DecidableEq, Repr

namespace Vote

/-- The action in the message of a vote. -/
def action : Vote → Bytes
  | approve => ascii "approve"
  | cancel => ascii "cancel"

def opposite : Vote → Vote
  | approve => cancel
  | cancel => approve

end Vote

/-- The list indices with a recorded vote. -/
def Proposal.votes (p : Proposal) : Vote → Finset Nat
  | .approve => p.yes
  | .cancel => p.no

/-- What an `approve` or a `cancel` is given. -/
structure Ballot where
  vote : Vote
  wallet : Address
  intent : Address
  proposal : Address
  expiry : Int64
  index : UInt8
  signature : Signature

/-- The ballot in an instruction. -/
def Instruction.ballot? : Instruction → Option Ballot
  | .approve wallet intent proposal args =>
    some ⟨.approve, wallet, intent, proposal, args.expiry, args.approverIndex, args.signature⟩
  | .cancel wallet intent proposal args =>
    some ⟨.cancel, wallet, intent, proposal, args.expiry, args.cancellerIndex, args.signature⟩
  | _ => none

/-- The event is a vote for the proposal at `a`, at index `j` of the list. -/
def Marks (a : Address) (v : Vote) (j : UInt8) (e : Runs.Event Accounts Call) : Prop :=
  ∃ b, e.label.ix.ballot? = some b ∧ b.vote = v ∧ b.proposal = a ∧ b.index = j

/-- The event accepts the vote that key `k`, at index `j` of the list, has signed as `msg`. -/
def Casts (env : Env) (a : Address) (v : Vote) (j : UInt8) (k : Address) (sig : Signature) (msg : Bytes)
    (e : Runs.Event Accounts Call) : Prop :=
  ∃ (b : Ballot) (wallet : ClearWallet) (intent : Intent) (proposal : Proposal),
    e.label.ix.ballot? = some b ∧ b.vote = v ∧ b.proposal = a ∧ b.index = j ∧ b.signature = sig ∧
    VoteAccepted env e.label.clock e.pre b.wallet b.intent a v.action b.expiry j sig wallet intent
      proposal k msg

/-- The proposal exists when the event happens. -/
def Alive (a : Address) (e : Runs.Event Accounts Call) : Prop := (e.pre.proposal? a).isSome = true

/-- The proposal exists and the event is no vote at index `j`. -/
def Quiet (a : Address) (j : UInt8) (e : Runs.Event Accounts Call) : Prop :=
  Alive a e ∧ ∀ v, ¬ Marks a v j e

/-- The last vote of key `k` that was accepted for the proposal now at `a` is an approval. -/
def Standing (env : Env) (a k : Address) (tr : List (Runs.Event Accounts Call)) : Prop :=
  Since (fun e => ∃ j sig msg, Casts env a .approve j k sig msg e)
    (fun e => Alive a e ∧ ∀ j sig msg, ¬ Casts env a .cancel j k sig msg e) tr

end ClearMsig
