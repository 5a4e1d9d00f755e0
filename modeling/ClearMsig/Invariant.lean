import ClearMsig.Effects
import ClearMsig.Foundation.Registry
import ClearMsig.Instructions.Proofs.VoteProofs

/-!
# The invariant of the accounts

What holds of every intent and every proposal in every reachable state. `Proofs/InvariantProofs.lean`
shows that each step preserves it.
-/

namespace ClearMsig

namespace Intent

/-- The definition of an intent: all of it but the approved flag and the counter. -/
def definition (i : Intent) : Intent := { i with approved := 0, activeProposalCount := 0 }

/-- An intent either has no approvers, as those that `execute_add_intent` writes, or is a meta-intent
with thresholds its approvers can reach. -/
def Configured (i : Intent) : Prop :=
  i.approvers.toList = [] ∨
    (i.ThresholdsOk ∧ ∃ t, IntentType.ofByte i.intentType = some t ∧ t ≠ .custom)

end Intent

/-- The terms of a proposal: all of it but the status and the votes. -/
def Proposal.terms (p : Proposal) : Proposal :=
  { p with status := .active, approvedAt := 0, approvalBitmap := 0, cancellationBitmap := 0 }

/-- The open proposals of an intent. -/
def Accounts.openProposals (s : Accounts) (intentAddr : Address) : Set Address :=
  Registry.keys (fun p => p.intent = intentAddr ∧ p.IsOpen) s.proposal?

/-- The invariant: intents are configured as above, and every proposal belongs to an intent of its
wallet that its votes are tallied against. -/
structure Sound (s : Accounts) : Prop where
  intents : ∀ a i, s.intent? a = some i → i.Configured
  proposals : ∀ a p, s.proposal? a = some p →
    ∃ i, s.intent? p.intent = some i ∧ i.wallet = p.wallet ∧ Tallied i p

/-- The counters are large enough for the open proposals, and the intents of open proposals are
approved. -/
structure Counted (s : Accounts) : Prop where
  le : ∀ a i, s.intent? a = some i → (s.openProposals a).encard ≤ i.activeProposalCount.toNat
  approved : ∀ a p i, s.proposal? a = some p → p.IsOpen → s.intent? p.intent = some i →
    i.isApproved = true

/-- Where an intent that was not there before a call comes from: a meta-intent of a new wallet, or the
bytes of an executed proposal. -/
inductive NewIntent (env : Env) (s : Accounts) (c : Call) : Address → Intent → Prop where
  | ofWallet {nameHash : Address} {args : CreateWalletArgs} {w : Address} {index : UInt8}
      {t : IntentType} {i : Intent} (hc : c.ix = .createWallet nameHash args)
      (hw : w = env.pda (Env.walletSeeds nameHash)) (hwallet : s w = none)
      (hchecked : CreateWallet.Checked env nameHash args) (ht : t ≠ .custom)
      (h : CreateWallet.MetaIntent args w index t i) : NewIntent env s c (env.intentPda w index) i
  | ofBytes {declared : Execute.Declared} {intentAddr proposalAddr : Address}
      {remaining : List AccountView} {wallet : ClearWallet} {intent : Intent} {proposal : Proposal}
      {i : Intent} (hc : c.ix = .execute declared intentAddr proposalAddr remaining)
      (hl : Execute.Loaded env c.clock s declared.wallet.address intentAddr proposalAddr wallet intent
        proposal)
      (ht : intent.readType = .ok .addIntent)
      (h : Intent.FromBytes proposal.paramsData.toList i) :
      NewIntent env s c (env.intentPda declared.wallet.address (wallet.intentIndex + 1)) i

/-- Where a proposal that was not there before a call comes from. -/
inductive NewProposal (env : Env) (s : Accounts) (c : Call) : Address → Proposal → Prop where
  | mk {payer walletAddr intentAddr : Address} {args : ProposeArgs} {wallet : ClearWallet}
      {intent : Intent} {msg : Bytes} {data : PodVec UInt8 512} {bump : UInt8}
      (hc : c.ix = .propose payer walletAddr intentAddr args)
      (h : Propose.Accepted env c.clock s walletAddr intentAddr args wallet intent msg)
      (hdata : data.toList = args.paramsData) :
      NewProposal env s c (env.proposalPda intentAddr wallet.proposalIndex)
        (Propose.newProposal walletAddr intentAddr payer wallet c.clock bump args data)

end ClearMsig
