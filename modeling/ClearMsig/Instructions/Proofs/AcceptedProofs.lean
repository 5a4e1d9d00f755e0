import ClearMsig.Program

/-!
# What an accepted instruction has checked and done

One inversion lemma for each instruction: it succeeds exactly when the listed checks hold, and then
the new accounts are the old ones with the listed changes. Later modules do not unfold the handlers.
-/

namespace ClearMsig

namespace Accounts

variable {s s' : Accounts} {a b : Address} {d : AccountData}

@[simp] theorem wallet?_eq_some {w : ClearWallet} : s.wallet? a = some w ↔ s a = some (.wallet w) := by
  unfold wallet?
  split <;> simp_all

@[simp] theorem intent?_eq_some {i : Intent} : s.intent? a = some i ↔ s a = some (.intent i) := by
  unfold intent?
  split <;> simp_all

@[simp] theorem proposal?_eq_some {p : Proposal} :
    s.proposal? a = some p ↔ s a = some (.proposal p) := by
  unfold proposal?
  split <;> simp_all

@[simp] theorem orRefuse_eq_ok {α : Type} {o : Option α} {x : α} : orRefuse o = .ok x ↔ o = some x := by
  cases o <;> simp [orRefuse]

theorem set_apply : s.set a d b = if b = a then some d else s b := Function.update_apply ..

theorem set_of_ne (h : b ≠ a) : s.set a d b = s b := Function.update_of_ne h ..

/-- An address that is unused after a write was unused before, and is not the one written. -/
theorem of_set_eq_none (h : s.set a d b = Option.none) : b ≠ a ∧ s b = Option.none := by
  rw [set_apply] at h
  split_ifs at h with hba
  exact ⟨hba, h⟩

@[simp] theorem create_eq_ok : s.create a d = .ok s' ↔ s a = Option.none ∧ s' = s.set a d := by
  unfold create
  split_ifs with h
  · simp only [Option.isNone_iff_eq_none] at h
    simp only [Except.ok.injEq, h, true_and, eq_comm]
  · simp only [Option.isNone_iff_eq_none] at h
    simp only [h, false_and]

/-- Two accounts of different kinds are at different addresses. -/
theorem ne_of_data {d' : AccountData} (ha : s a = some d) (hb : s b = some d') (h : d ≠ d') : a ≠ b := by
  rintro rfl
  exact h (Option.some.inj (ha.symm.trans hb))

end Accounts

@[simp] theorem constraint_eq_ok {c : Prop} [Decidable c] {u : Unit} : constraint c = .ok u ↔ c := by
  unfold constraint
  split_ifs with h <;> simp [h]

@[simp] theorem PodVec.setFromSlice_eq_ok {α : Type} {N : Nat} {l : List α} {v : PodVec α N} :
    PodVec.setFromSlice l = .ok v ↔ v.toList = l := by
  unfold PodVec.setFromSlice
  split_ifs with h
  · simp only [Except.ok.injEq]
    exact ⟨fun he => he ▸ rfl, fun he => by cases v; subst he; rfl⟩
  · simp only [false_iff]
    rintro rfl
    exact h v.len_le

/-! ## `create_wallet` -/

/-- What `create_wallet` stores in one of its meta-intents. -/
structure CreateWallet.MetaIntent (args : CreateWalletArgs) (wallet : Address) (index : UInt8)
    (t : IntentType) (intent : Intent) : Prop where
  wallet_eq : intent.wallet = wallet
  intentIndex_eq : intent.intentIndex = index
  intentType_eq : intent.intentType = t.toU8
  approved_eq : intent.approved = 1
  approvalThreshold_eq : intent.approvalThreshold = args.approvalThreshold
  cancellationThreshold_eq : intent.cancellationThreshold = args.cancellationThreshold
  templateOffset_eq : intent.templateOffset = 0
  templateLen_eq : intent.templateLen = 0
  count_eq : intent.activeProposalCount = 0
  approvers_eq : intent.approvers.toList = args.approvers
  bytePool_nil : intent.bytePool.toList = []

theorem CreateWallet.metaIntent_of_ok {args : CreateWalletArgs} {wallet : Address} {index : UInt8}
    {t : IntentType} {bump : UInt8} {intent : Intent}
    (h : metaIntent args wallet index t bump = .ok intent) : MetaIntent args wallet index t intent := by
  simp only [metaIntent, bind_eq_ok, PodVec.setFromSlice_eq_ok, Except.ok.injEq] at h
  obtain ⟨proposers, -, approvers, happ, rfl⟩ := h
  exact ⟨rfl, rfl, rfl, rfl, rfl, rfl, rfl, rfl, rfl, happ, rfl⟩

/-- What `create_wallet` has checked. The list fits into the account, so its length is the one that
was cast to a byte. -/
structure CreateWallet.Checked (env : Env) (nameHash : Address) (args : CreateWalletArgs) : Prop where
  name_eq : nameHash = env.sha256 args.name
  approval_pos : 1 ≤ args.approvalThreshold.toNat
  approval_le : args.approvalThreshold.toNat ≤ args.approvers.length
  cancellation_pos : 1 ≤ args.cancellationThreshold.toNat
  cancellation_le : args.cancellationThreshold.toNat ≤ args.approvers.length
  name_le : args.name.length ≤ 64

theorem CreateWallet.checked_of_ok {env : Env} {nameHash : Address} {args : CreateWalletArgs}
    (h : checks env nameHash args = .ok ()) (hlen : args.approvers.length ≤ 16) :
    Checked env nameHash args := by
  simp only [checks, bind_eq_ok, require_eq_ok, exists_const] at h
  obtain ⟨hname, -, -, hapos, hale, hcpos, hcle, hnamele⟩ := h
  have hcount : (UInt8.ofNat args.approvers.length).toNat = args.approvers.length :=
    UInt8.toNat_ofNat_of_lt' (Nat.lt_of_le_of_lt hlen (by decide))
  rw [UInt8.le_iff_toNat_le, hcount] at hale hcle
  exact ⟨hname, UInt8.lt_iff_toNat_lt.mp hapos, hale, UInt8.lt_iff_toNat_lt.mp hcpos, hcle, hnamele⟩

theorem CreateWallet.of_create_eq_ok {env : Env} {s s' : Accounts} {nameHash : Address}
    {args : CreateWalletArgs} (h : CreateWallet.create env s nameHash args = .ok s') :
    ∃ (w : Address) (i₀ i₁ i₂ : Intent), w = env.pda (Env.walletSeeds nameHash) ∧
      Checked env nameHash args ∧
      MetaIntent args w 0 .addIntent i₀ ∧ MetaIntent args w 1 .removeIntent i₁ ∧
      MetaIntent args w 2 .updateIntent i₂ ∧
      ∃ s₀ s₁ s₂ : Accounts, ∃ bump : UInt8,
        s w = none ∧ s₀ = s.set w (.wallet (newWallet args bump)) ∧
        s₀ (env.intentPda w 0) = none ∧ s₁ = s₀.set (env.intentPda w 0) (.intent i₀) ∧
        s₁ (env.intentPda w 1) = none ∧ s₂ = s₁.set (env.intentPda w 1) (.intent i₁) ∧
        s₂ (env.intentPda w 2) = none ∧ s' = s₂.set (env.intentPda w 2) (.intent i₂) := by
  simp only [create, bind_eq_ok, Accounts.create_eq_ok] at h
  obtain ⟨⟨⟩, hchecks, i₀, h₀, i₁, h₁, i₂, h₂, s₀, ⟨hw, hs₀⟩, s₁, ⟨hi₀, hs₁⟩, s₂, ⟨hi₁, hs₂⟩, hi₂, hs'⟩ := h
  have hm := metaIntent_of_ok h₀
  have hlen : args.approvers.length ≤ 16 := hm.approvers_eq ▸ i₀.approvers.len_le
  exact ⟨_, i₀, i₁, i₂, rfl, checked_of_ok hchecks hlen, hm, metaIntent_of_ok h₁, metaIntent_of_ok h₂,
    s₀, s₁, s₂, _, hw, hs₀, hi₀, hs₁, hi₁, hs₂, hi₂, hs'⟩

/-! ## `propose` -/

/-- The checks of `propose` on the accounts and the message it has read. -/
structure Propose.Accepted (env : Env) (clock : Int64) (s : Accounts)
    (walletAddr intentAddr : Address) (args : ProposeArgs) (wallet : ClearWallet) (intent : Intent)
    (msg : Bytes) : Prop where
  wallet_eq : s walletAddr = some (.wallet wallet)
  intent_eq : s intentAddr = some (.intent intent)
  has_one : intent.wallet = walletAddr
  approved : intent.isApproved = true
  expiry : args.expiry > clock
  proposer : intent.isProposer args.proposerPubkey = true
  params : Propose.checkParams intent args.paramsData = .ok ()
  message : signedMessage env.sha256 (Propose.messageContext wallet args.expiry) intent
    args.paramsData = .ok msg
  signature : env.sigVerify args.proposerPubkey args.signature msg = true
  count_lt : intent.activeProposalCount.toNat + 1 < 2 ^ 16
  index_lt : wallet.proposalIndex.toNat + 1 < 2 ^ 64
  fresh : s (env.proposalPda intentAddr wallet.proposalIndex) = none

theorem Propose.propose_eq_ok {env : Env} {clock : Int64} {s s' : Accounts}
    {payer walletAddr intentAddr : Address} {args : ProposeArgs} :
    Propose.propose env clock s payer walletAddr intentAddr args = .ok s' ↔
      ∃ (wallet : ClearWallet) (intent : Intent) (msg : Bytes) (paramsData : PodVec UInt8 512),
        Propose.Accepted env clock s walletAddr intentAddr args wallet intent msg ∧
        paramsData.toList = args.paramsData ∧
        s' = ((s.set (env.proposalPda intentAddr wallet.proposalIndex) (.proposal
            (Propose.newProposal walletAddr intentAddr payer wallet clock
              (env.pdaBump (Env.proposalSeeds intentAddr wallet.proposalIndex)) args paramsData))).set
          intentAddr
            (.intent { intent with activeProposalCount := intent.activeProposalCount + 1 })).set
          walletAddr (.wallet { wallet with proposalIndex := wallet.proposalIndex + 1 }) := by
  simp only [Propose.propose, bind_eq_ok, Accounts.orRefuse_eq_ok, Accounts.wallet?_eq_some,
    Accounts.intent?_eq_some, constraint_eq_ok, require_eq_ok, PodVec.setFromSlice_eq_ok,
    Accounts.create_eq_ok, Except.ok.injEq, exists_const]
  constructor
  · rintro ⟨wallet, hw, intent, hi, hone, happ, hexp, hprop, ⟨⟩, hparams, msg, hmsg, hsig, data, hdata,
      hcount, hindex, -, ⟨hfresh, rfl⟩, rfl⟩
    exact ⟨wallet, intent, msg, data,
      ⟨hw, hi, hone, happ, hexp, hprop, hparams, hmsg, hsig, hcount, hindex, hfresh⟩, hdata, rfl⟩
  · rintro ⟨wallet, intent, msg, data, h, hdata, rfl⟩
    exact ⟨wallet, h.wallet_eq, intent, h.intent_eq, h.has_one, h.approved, h.expiry, h.proposer, (),
      h.params, msg, h.message, h.signature, data, hdata, h.count_lt, h.index_lt, _, ⟨h.fresh, rfl⟩, rfl⟩

/-! ## `approve` and `cancel` -/

/-- The checks that `approve` and `cancel` share: the vote for `action` at `idx` is signed by the key
`voter` of the intent's list. -/
structure VoteAccepted (env : Env) (clock : Int64) (s : Accounts)
    (walletAddr intentAddr proposalAddr : Address) (action : Bytes) (expiry : Int64) (idx : UInt8)
    (signature : Signature) (wallet : ClearWallet) (intent : Intent) (proposal : Proposal)
    (voter : Address) (msg : Bytes) : Prop where
  wallet_eq : s walletAddr = some (.wallet wallet)
  intent_eq : s intentAddr = some (.intent intent)
  has_one : intent.wallet = walletAddr
  proposal_eq : s proposalAddr = some (.proposal proposal)
  wallet_addr : proposal.wallet = walletAddr
  intent_addr : proposal.intent = intentAddr
  expiry_gt : expiry > clock
  voter_eq : intent.approvers.toList[idx.toNat]? = some voter
  message : signedMessage env.sha256 (voteContext wallet proposal action expiry) intent
    proposal.paramsData.toList = .ok msg
  verified : env.sigVerify voter signature msg = true

theorem Approve.approve_eq_ok {env : Env} {clock : Int64} {s s' : Accounts}
    {walletAddr intentAddr proposalAddr : Address} {args : ApproveArgs} :
    Approve.approve env clock s walletAddr intentAddr proposalAddr args = .ok s' ↔
      ∃ (wallet : ClearWallet) (intent : Intent) (proposal : Proposal) (voter : Address) (msg : Bytes),
        VoteAccepted env clock s walletAddr intentAddr proposalAddr (ascii "approve") args.expiry
          args.approverIndex args.signature wallet intent proposal voter msg ∧
        intent.isApproved = true ∧ proposal.status = .active ∧
        proposal.hasApprovedByIndex args.approverIndex = false ∧
        s' = s.set proposalAddr
          (.proposal (Approve.vote intent proposal clock args.approverIndex)) := by
  simp only [Approve.approve, bind_eq_ok, Accounts.orRefuse_eq_ok, Accounts.wallet?_eq_some,
    Accounts.intent?_eq_some, Accounts.proposal?_eq_some, constraint_eq_ok, require_eq_ok,
    okOr_eq_ok, Except.ok.injEq, exists_const, Bool.not_eq_true]
  constructor
  · rintro ⟨wallet, hw, intent, hi, hone, happ, proposal, hp, ⟨hpw, hpi⟩, hst, hexp, voter, hv, hbit,
      msg, hmsg, hsig, rfl⟩
    exact ⟨wallet, intent, proposal, voter, msg,
      ⟨hw, hi, hone, hp, hpw, hpi, hexp, hv, hmsg, hsig⟩, happ, hst, hbit, rfl⟩
  · rintro ⟨wallet, intent, proposal, voter, msg, h, happ, hst, hbit, rfl⟩
    exact ⟨wallet, h.wallet_eq, intent, h.intent_eq, h.has_one, happ, proposal, h.proposal_eq,
      ⟨h.wallet_addr, h.intent_addr⟩, hst, h.expiry_gt, voter, h.voter_eq, hbit, msg, h.message,
      h.verified, rfl⟩

theorem Cancel.cancel_eq_ok {env : Env} {clock : Int64} {s s' : Accounts}
    {walletAddr intentAddr proposalAddr : Address} {args : CancelArgs} :
    Cancel.cancel env clock s walletAddr intentAddr proposalAddr args = .ok s' ↔
      ∃ (wallet : ClearWallet) (intent : Intent) (proposal : Proposal) (voter : Address) (msg : Bytes),
        VoteAccepted env clock s walletAddr intentAddr proposalAddr (ascii "cancel") args.expiry
          args.cancellerIndex args.signature wallet intent proposal voter msg ∧
        proposal.IsOpen ∧ proposal.hasCancelledByIndex args.cancellerIndex = false ∧
        s' = (s.set intentAddr (.intent (Cancel.vote intent proposal args.cancellerIndex).1)).set
          proposalAddr (.proposal (Cancel.vote intent proposal args.cancellerIndex).2) := by
  simp only [Cancel.cancel, bind_eq_ok, Accounts.orRefuse_eq_ok, Accounts.wallet?_eq_some,
    Accounts.intent?_eq_some, Accounts.proposal?_eq_some, constraint_eq_ok, require_eq_ok,
    okOr_eq_ok, Except.ok.injEq, exists_const, Bool.not_eq_true]
  constructor
  · rintro ⟨wallet, hw, intent, hi, hone, proposal, hp, ⟨hpw, hpi⟩, hst, hexp, voter, hv, hbit,
      msg, hmsg, hsig, rfl⟩
    exact ⟨wallet, intent, proposal, voter, msg,
      ⟨hw, hi, hone, hp, hpw, hpi, hexp, hv, hmsg, hsig⟩, hst, hbit, rfl⟩
  · rintro ⟨wallet, intent, proposal, voter, msg, h, hst, hbit, rfl⟩
    exact ⟨wallet, h.wallet_eq, intent, h.intent_eq, h.has_one, proposal, h.proposal_eq,
      ⟨h.wallet_addr, h.intent_addr⟩, hst, h.expiry_gt, voter, h.voter_eq, hbit, msg, h.message,
      h.verified, rfl⟩

/-! ## `cleanup_proposal` -/

theorem Proposal.not_isOpen_iff {p : Proposal} :
    ¬ p.IsOpen ↔ p.status = .executed ∨ p.status = .cancelled := by
  unfold Proposal.IsOpen
  cases p.status <;> simp

theorem CleanupProposal.cleanup_eq_ok {s s' : Accounts} {proposalAddr rentRefund : Address} :
    CleanupProposal.cleanup s proposalAddr rentRefund = .ok s' ↔
      ∃ proposal : Proposal, s proposalAddr = some (.proposal proposal) ∧
        proposal.rentRefund = rentRefund ∧ ¬ proposal.IsOpen ∧ s' = s.close proposalAddr := by
  simp only [CleanupProposal.cleanup, bind_eq_ok, Accounts.orRefuse_eq_ok,
    Accounts.proposal?_eq_some, constraint_eq_ok, require_eq_ok, Except.ok.injEq, exists_const,
    ← Proposal.not_isOpen_iff, eq_comm (b := s')]

end ClearMsig
