import ClearMsig.Invariant
import ClearMsig.Metas
import ClearMsig.Foundation.Footprint

/-!
# What a call touches

The accounts that an accepted call depends on and those it writes. `Proofs/LocalityProofs.lean` shows that
they are its footprint.
-/

namespace ClearMsig

/-- A wallet, an intent of it and a proposal of both. -/
structure Linked (s : Accounts) (walletAddr intentAddr proposalAddr : Address) (wallet : ClearWallet)
    (intent : Intent) (proposal : Proposal) : Prop where
  wallet_eq : s walletAddr = some (.wallet wallet)
  intent_eq : s intentAddr = some (.intent intent)
  has_one : intent.wallet = walletAddr
  proposal_eq : s proposalAddr = some (.proposal proposal)
  wallet_addr : proposal.wallet = walletAddr
  intent_addr : proposal.intent = intentAddr

/-- The addresses of a new wallet and its meta-intents. -/
def newWalletAddrs (env : Env) (w : Address) : Set Address :=
  {w, env.intentPda w 0, env.intentPda w 1, env.intentPda w 2}

/-- The accounts a call depends on, and those it writes. -/
inductive Touches (env : Env) (s : Accounts) : Call → Set Address → Set Address → Prop where
  | createWallet {clock : Int64} {nameHash w : Address} {args : CreateWalletArgs}
      (hw : w = env.pda (Env.walletSeeds nameHash)) (hname : nameHash = env.sha256 args.name)
      (hfresh : ∀ a ∈ newWalletAddrs env w, s a = none) :
      Touches env s ⟨clock, .createWallet nameHash args⟩ (newWalletAddrs env w) (newWalletAddrs env w)
  | propose {clock : Int64} {payer walletAddr intentAddr : Address} {args : ProposeArgs}
      {wallet : ClearWallet} {intent : Intent} {msg : Bytes}
      (h : Propose.Accepted env clock s walletAddr intentAddr args wallet intent msg) :
      Touches env s ⟨clock, .propose payer walletAddr intentAddr args⟩
        {walletAddr, intentAddr, env.proposalPda intentAddr wallet.proposalIndex}
        {walletAddr, intentAddr, env.proposalPda intentAddr wallet.proposalIndex}
  | approve {clock : Int64} {walletAddr intentAddr proposalAddr : Address} {args : ApproveArgs}
      {wallet : ClearWallet} {intent : Intent} {proposal : Proposal}
      (h : Linked s walletAddr intentAddr proposalAddr wallet intent proposal) :
      Touches env s ⟨clock, .approve walletAddr intentAddr proposalAddr args⟩
        {walletAddr, intentAddr, proposalAddr} {proposalAddr}
  | cancel {clock : Int64} {walletAddr intentAddr proposalAddr : Address} {args : CancelArgs}
      {wallet : ClearWallet} {intent : Intent} {proposal : Proposal}
      (h : Linked s walletAddr intentAddr proposalAddr wallet intent proposal) :
      Touches env s ⟨clock, .cancel walletAddr intentAddr proposalAddr args⟩
        {walletAddr, intentAddr, proposalAddr} {intentAddr, proposalAddr}
  /-- One of the remaining accounts is the address of the new intent. -/
  | addIntent {clock : Int64} {declared : Execute.Declared} {intentAddr proposalAddr new : Address}
      {remaining : List AccountView} {wallet : ClearWallet} {intent : Intent} {proposal : Proposal}
      (h : Linked s declared.wallet.address intentAddr proposalAddr wallet intent proposal)
      (hnew : new = env.intentPda declared.wallet.address (wallet.intentIndex + 1)) (hfresh : s new = none)
      (hmem : new ∈ remaining.map (·.address)) (htype : intent.readType = .ok .addIntent) :
      Touches env s ⟨clock, .execute declared intentAddr proposalAddr remaining⟩
        {declared.wallet.address, intentAddr, proposalAddr, new}
        {declared.wallet.address, intentAddr, proposalAddr, new}
  /-- One of the remaining accounts is the intent that loses its flag. -/
  | removeIntent {clock : Int64} {declared : Execute.Declared}
      {intentAddr proposalAddr targetAddr : Address} {remaining : List AccountView}
      {wallet : ClearWallet} {intent target : Intent} {proposal : Proposal} {index : UInt8}
      (h : Linked s declared.wallet.address intentAddr proposalAddr wallet intent proposal)
      (htarget : targetAddr = env.intentPda declared.wallet.address index)
      (htarget_eq : s targetAddr = some (.intent target))
      (hmem : ∃ view ∈ remaining, view.address = targetAddr ∧ view.isWritable = true)
      (htype : intent.readType = .ok .removeIntent) (hindex : proposal.paramsData.toList[0]? = some index) :
      Touches env s ⟨clock, .execute declared intentAddr proposalAddr remaining⟩
        {declared.wallet.address, intentAddr, proposalAddr, targetAddr}
        {intentAddr, proposalAddr, targetAddr}
  | cleanupProposal {clock : Int64} {proposalAddr rentRefund : Address} {proposal : Proposal}
      (hp : s proposalAddr = some (.proposal proposal)) :
      Touches env s ⟨clock, .cleanupProposal proposalAddr rentRefund⟩ {proposalAddr} {proposalAddr}

/-! ## Bounds that do not depend on the state -/

/-- All the accounts an instruction may depend on: every proposal address of its intent for a `propose`, and
all the remaining accounts for an `execute`. -/
def Instruction.reads (env : Env) : Instruction → Set Address
  | .createWallet nameHash _ => newWalletAddrs env (env.pda (Env.walletSeeds nameHash))
  | .propose _ wallet intent _ => {wallet, intent} ∪ Set.range (env.proposalPda intent)
  | .approve wallet intent proposal _ => {wallet, intent, proposal}
  | .cancel wallet intent proposal _ => {wallet, intent, proposal}
  | .execute declared intent proposal remaining =>
    {declared.wallet.address, intent, proposal} ∪ {a | a ∈ remaining.map (·.address)}
  | .cleanupProposal proposal _ => {proposal}

/-- All the accounts an instruction may write, with the same bounds. -/
def Instruction.writes (env : Env) : Instruction → Set Address
  | .createWallet nameHash _ => newWalletAddrs env (env.pda (Env.walletSeeds nameHash))
  | .propose _ wallet intent _ => {wallet, intent} ∪ Set.range (env.proposalPda intent)
  | .approve _ _ proposal _ => {proposal}
  | .cancel _ intent proposal _ => {intent, proposal}
  | .execute declared intent proposal remaining =>
    {declared.wallet.address, intent, proposal} ∪ {a | a ∈ remaining.map (·.address)}
  | .cleanupProposal proposal _ => {proposal}

/-- Neither of two calls writes an account that the other one may depend on. -/
def Independent (env : Env) (c d : Call) : Prop :=
  Disjoint (c.ix.reads env) (d.ix.writes env) ∧ Disjoint (c.ix.writes env) (d.ix.reads env)

end ClearMsig
