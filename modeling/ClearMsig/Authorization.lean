import ClearMsig.Program

/-!
# Signed instructions

The part of an instruction that a key has signed for, and the signature scheme as the program relies
on it.
-/

namespace ClearMsig

/-- What the submitter of a signed instruction passes: an expiry and a signature. -/
structure Authorization where
  expiry : Int64
  signature : Signature

namespace Instruction

/-- The authorization of `propose`, `approve` and `cancel`. -/
def authorization : Instruction → Option Authorization
  | .propose _ _ _ args => some ⟨args.expiry, args.signature⟩
  | .approve _ _ _ args => some ⟨args.expiry, args.signature⟩
  | .cancel _ _ _ args => some ⟨args.expiry, args.signature⟩
  | _ => none

/-- The action that the message of a signed instruction names. -/
def action : Instruction → Option Bytes
  | .propose .. => some (ascii "propose")
  | .approve .. => some (ascii "approve")
  | .cancel .. => some (ascii "cancel")
  | _ => none

/-- The same instruction with another expiry argument. -/
def withExpiry (expiry : Int64) : Instruction → Instruction
  | .propose payer wallet intent args => .propose payer wallet intent { args with expiry }
  | .approve wallet intent proposal args => .approve wallet intent proposal { args with expiry }
  | .cancel wallet intent proposal args => .cancel wallet intent proposal { args with expiry }
  | ix => ix

end Instruction

/-- On the accounts `s` the instruction hands the message for `ctx`, `intent` and `data` to signature
verification, if it gets that far. -/
inductive Instruction.Hands (s : Accounts) : Instruction → MessageContext → Intent → Bytes → Prop where
  | propose {payer walletAddr intentAddr : Address} {args : ProposeArgs} {wallet : ClearWallet}
      {intent : Intent} (hw : s.wallet? walletAddr = some wallet)
      (hi : s.intent? intentAddr = some intent) :
      Hands s (.propose payer walletAddr intentAddr args) (Propose.messageContext wallet args.expiry)
        intent args.paramsData
  | approve {walletAddr intentAddr proposalAddr : Address} {args : ApproveArgs} {wallet : ClearWallet}
      {intent : Intent} {proposal : Proposal} (hw : s.wallet? walletAddr = some wallet)
      (hi : s.intent? intentAddr = some intent) (hp : s.proposal? proposalAddr = some proposal) :
      Hands s (.approve walletAddr intentAddr proposalAddr args)
        (voteContext wallet proposal (ascii "approve") args.expiry) intent proposal.paramsData.toList
  | cancel {walletAddr intentAddr proposalAddr : Address} {args : CancelArgs} {wallet : ClearWallet}
      {intent : Intent} {proposal : Proposal} (hw : s.wallet? walletAddr = some wallet)
      (hi : s.intent? intentAddr = some intent) (hp : s.proposal? proposalAddr = some proposal) :
      Hands s (.cancel walletAddr intentAddr proposalAddr args)
        (voteContext wallet proposal (ascii "cancel") args.expiry) intent proposal.paramsData.toList

/-- An ideal signature scheme: a signature verifies for the key and the message it was made for and
for no others. -/
def Env.IdealSignatures (env : Env) : Prop :=
  ∀ key key' sig msg msg', env.sigVerify key sig msg = true → env.sigVerify key' sig msg' = true →
    key = key' ∧ msg = msg'

/-- The message shows the expiry: it is the message of some context with that expiry. -/
def Env.Shows (env : Env) (msg : Bytes) (expiry : Int64) : Prop :=
  ∃ (ctx : MessageContext) (intent : Intent) (data : Bytes), ctx.expiry = expiry ∧
    signedMessage env.sha256 ctx intent data = .ok msg

end ClearMsig
