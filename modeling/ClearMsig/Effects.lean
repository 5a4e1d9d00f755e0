import ClearMsig.Instructions.Proofs.AcceptedProofs
import ClearMsig.Instructions.Proofs.ExecuteProofs

/-!
# The effects of the instructions

One step seen through the three maps of wallets, intents and proposals: what the instruction has
checked and which entries of each map it changes. `Proofs/EffectsProofs.lean` shows that every step
has one of these effects, as long as no custom intent gets as far as an approved proposal.
-/

namespace ClearMsig

open Function (update)

/-- The effect of an accepted call. -/
inductive Effect (env : Env) (s : Accounts) : Call → Accounts → Prop where
  /-- A wallet and its three meta-intents at unused addresses. -/
  | created {clock : Int64} {nameHash : Address} {args : CreateWalletArgs} {s' : Accounts}
      {w : Address} {i₀ i₁ i₂ : Intent} {bump : UInt8}
      (hw : w = env.pda (Env.walletSeeds nameHash)) (hchecked : CreateWallet.Checked env nameHash args)
      (h₀ : CreateWallet.MetaIntent args w 0 .addIntent i₀)
      (h₁ : CreateWallet.MetaIntent args w 1 .removeIntent i₁)
      (h₂ : CreateWallet.MetaIntent args w 2 .updateIntent i₂)
      (hfresh : s w = none) (hfresh₀ : s (env.intentPda w 0) = none)
      (hfresh₁ : s (env.intentPda w 1) = none) (hfresh₂ : s (env.intentPda w 2) = none)
      (hwallet : s'.wallet? = update s.wallet? w (some (CreateWallet.newWallet args bump)))
      (hintent : s'.intent? = update (update (update s.intent? (env.intentPda w 0) (some i₀))
        (env.intentPda w 1) (some i₁)) (env.intentPda w 2) (some i₂))
      (hproposal : s'.proposal? = s.proposal?) :
      Effect env s ⟨clock, .createWallet nameHash args⟩ s'
  /-- A new active proposal, counted in its intent and numbered by its wallet. -/
  | proposed {clock : Int64} {payer walletAddr intentAddr : Address} {args : ProposeArgs}
      {s' : Accounts} {wallet : ClearWallet} {intent : Intent} {msg : Bytes}
      {data : PodVec UInt8 512} {bump : UInt8}
      (h : Propose.Accepted env clock s walletAddr intentAddr args wallet intent msg)
      (hdata : data.toList = args.paramsData)
      (hwallet : s'.wallet? = update s.wallet? walletAddr
        (some { wallet with proposalIndex := wallet.proposalIndex + 1 }))
      (hintent : s'.intent? = update s.intent? intentAddr
        (some { intent with activeProposalCount := intent.activeProposalCount + 1 }))
      (hproposal : s'.proposal? = update s.proposal? (env.proposalPda intentAddr wallet.proposalIndex)
        (some (Propose.newProposal walletAddr intentAddr payer wallet clock bump args data))) :
      Effect env s ⟨clock, .propose payer walletAddr intentAddr args⟩ s'
  /-- A vote for an active proposal. -/
  | approved {clock : Int64} {walletAddr intentAddr proposalAddr : Address} {args : ApproveArgs}
      {s' : Accounts} {wallet : ClearWallet} {intent : Intent} {proposal : Proposal}
      {voter : Address} {msg : Bytes}
      (h : VoteAccepted env clock s walletAddr intentAddr proposalAddr (ascii "approve") args.expiry
        args.approverIndex args.signature wallet intent proposal voter msg)
      (happroved : intent.isApproved = true) (hactive : proposal.status = .active)
      (hbit : proposal.hasApprovedByIndex args.approverIndex = false)
      (hwallet : s'.wallet? = s.wallet?) (hintent : s'.intent? = s.intent?)
      (hproposal : s'.proposal? = update s.proposal? proposalAddr
        (some (Approve.vote intent proposal clock args.approverIndex))) :
      Effect env s ⟨clock, .approve walletAddr intentAddr proposalAddr args⟩ s'
  /-- A vote against an open proposal. -/
  | cancelled {clock : Int64} {walletAddr intentAddr proposalAddr : Address} {args : CancelArgs}
      {s' : Accounts} {wallet : ClearWallet} {intent : Intent} {proposal : Proposal}
      {voter : Address} {msg : Bytes}
      (h : VoteAccepted env clock s walletAddr intentAddr proposalAddr (ascii "cancel") args.expiry
        args.cancellerIndex args.signature wallet intent proposal voter msg)
      (hopen : proposal.IsOpen) (hbit : proposal.hasCancelledByIndex args.cancellerIndex = false)
      (hwallet : s'.wallet? = s.wallet?)
      (hintent : s'.intent? = update s.intent? intentAddr
        (some (Cancel.vote intent proposal args.cancellerIndex).1))
      (hproposal : s'.proposal? = update s.proposal? proposalAddr
        (some (Cancel.vote intent proposal args.cancellerIndex).2)) :
      Effect env s ⟨clock, .cancel walletAddr intentAddr proposalAddr args⟩ s'
  /-- Execution of an `AddIntent`: a new intent from the bytes of the proposal. -/
  | addedIntent {clock : Int64} {declared : Execute.Declared} {intentAddr proposalAddr : Address}
      {remaining : List AccountView} {s' : Accounts} {wallet : ClearWallet} {intent : Intent}
      {proposal : Proposal} {new : Intent}
      (h : Execute.Loaded env clock s declared.wallet.address intentAddr proposalAddr wallet intent
        proposal)
      (htype : intent.readType = .ok .addIntent)
      (hnew : Intent.FromBytes proposal.paramsData.toList new)
      (hfresh : s (env.intentPda declared.wallet.address (wallet.intentIndex + 1)) = none)
      (hwallet : s'.wallet? = update s.wallet? declared.wallet.address
        (some { wallet with intentIndex := wallet.intentIndex + 1 }))
      (hintent : s'.intent? = update
        (update s.intent? (env.intentPda declared.wallet.address (wallet.intentIndex + 1)) (some new))
        intentAddr (some intent.releaseProposal))
      (hproposal : s'.proposal? = update s.proposal? proposalAddr
        (some { proposal with status := .executed })) :
      Effect env s ⟨clock, .execute declared intentAddr proposalAddr remaining⟩ s'
  /-- Execution of a `RemoveIntent`: an intent without open proposals loses its flag. `released` is the
  executed intent after that, which may be the target itself. -/
  | removedIntent {clock : Int64} {declared : Execute.Declared} {intentAddr proposalAddr : Address}
      {remaining : List AccountView} {s' : Accounts} {wallet : ClearWallet} {intent : Intent}
      {proposal : Proposal} {index : UInt8} {target released : Intent}
      (h : Execute.Loaded env clock s declared.wallet.address intentAddr proposalAddr wallet intent
        proposal)
      (htype : intent.readType = .ok .removeIntent)
      (htarget : s (env.intentPda declared.wallet.address index) = some (.intent target))
      (hcount : target.activeProposalCount = 0)
      (hreleased : update s.intent? (env.intentPda declared.wallet.address index)
        (some { target with approved := 0 }) intentAddr = some released)
      (hwallet : s'.wallet? = s.wallet?)
      (hintent : s'.intent? = update (update s.intent? (env.intentPda declared.wallet.address index)
        (some { target with approved := 0 })) intentAddr (some released.releaseProposal))
      (hproposal : s'.proposal? = update s.proposal? proposalAddr
        (some { proposal with status := .executed })) :
      Effect env s ⟨clock, .execute declared intentAddr proposalAddr remaining⟩ s'
  /-- A closed proposal is removed. -/
  | cleaned {clock : Int64} {proposalAddr rentRefund : Address} {s' : Accounts} {proposal : Proposal}
      (hp : s proposalAddr = some (.proposal proposal)) (hclosed : ¬ proposal.IsOpen)
      (hwallet : s'.wallet? = s.wallet?) (hintent : s'.intent? = s.intent?)
      (hproposal : s'.proposal? = update s.proposal? proposalAddr none) :
      Effect env s ⟨clock, .cleanupProposal proposalAddr rentRefund⟩ s'

/-- No approved proposal belongs to a custom intent. -/
def Accounts.NoCustomApproved (s : Accounts) : Prop :=
  ∀ a p i, s.proposal? a = some p → p.status = .approved → s.intent? p.intent = some i →
    i.readType ≠ .ok .custom

end ClearMsig
