import ClearMsig.Locality
import ClearMsig.Proofs.InvariantProofs

/-!
# Locality of the instructions

Every accepted call depends on the accounts it touches alone, and writes only those it is said to write. So
it acts on the accounts of its list, and on no others.
-/

namespace ClearMsig

open Footprint (Local)

variable {env : Env} {s s' t : Accounts} {a : Address} {d : AccountData} {R W : Set Address}

/-! ## Accounts -/

theorem Accounts.local_set (ha : a ∈ W) (hsub : W ⊆ R) :
    Local (fun t : Accounts => (.ok (t.set a d) : Result Accounts)) R W s (s.set a d) :=
  Local.write ha hsub

theorem Accounts.local_create (hfresh : s a = Option.none) (ha : a ∈ W) (hsub : W ⊆ R) :
    Local (fun t : Accounts => t.create a d) R W s (s.set a d) :=
  ⟨create_eq_ok.mpr ⟨hfresh, rfl⟩, hsub, fun _ ht =>
    ⟨_, create_eq_ok.mpr ⟨(ht (hsub ha)).trans hfresh, rfl⟩, Local.eqOn_update ht,
      Local.eqOn_update_compl ha⟩⟩

/-! ## The instructions -/

theorem local_createWallet {clock : Int64} {nameHash : Address} {args : CreateWalletArgs}
    (h : CreateWallet.create env s nameHash args = .ok s') :
    ∃ R W, Touches env s ⟨clock, .createWallet nameHash args⟩ R W ∧
      Local (fun t => CreateWallet.create env t nameHash args) R W s s' := by
  simp only [CreateWallet.create, bind_eq_ok, Accounts.create_eq_ok] at h
  obtain ⟨⟨⟩, hchecks, i₀, h₀, i₁, h₁, i₂, h₂, s₀, ⟨hw, rfl⟩, s₁, ⟨hf₀, rfl⟩, s₂, ⟨hf₁, rfl⟩, hf₂, rfl⟩ := h
  have hsub := Set.Subset.refl (newWalletAddrs env (env.pda (Env.walletSeeds nameHash)))
  refine ⟨_, _, .createWallet rfl ?_ ?_, ?_⟩
  · have hlen : args.approvers.length ≤ 16 :=
      (CreateWallet.metaIntent_of_ok h₀).approvers_eq ▸ i₀.approvers.len_le
    exact (CreateWallet.checked_of_ok hchecks hlen).name_eq
  · rintro a (rfl | rfl | rfl | rfl)
    · exact hw
    · exact (Accounts.of_set_eq_none hf₀).2
    · exact (Accounts.of_set_eq_none (Accounts.of_set_eq_none hf₁).2).2
    · exact (Accounts.of_set_eq_none (Accounts.of_set_eq_none (Accounts.of_set_eq_none hf₂).2).2).2
  · refine Local.bind_pure hchecks (Local.bind_pure h₀ (Local.bind_pure h₁ (Local.bind_pure h₂ ?_)))
    refine (Accounts.local_create hw (by simp [newWalletAddrs]) hsub).seq ?_
    refine (Accounts.local_create hf₀ (by simp [newWalletAddrs]) hsub).seq ?_
    refine (Accounts.local_create hf₁ (by simp [newWalletAddrs]) hsub).seq ?_
    exact Accounts.local_create hf₂ (by simp [newWalletAddrs]) hsub

theorem local_propose {clock : Int64} {payer walletAddr intentAddr : Address} {args : ProposeArgs}
    (h : Propose.propose env clock s payer walletAddr intentAddr args = .ok s') :
    ∃ R W, Touches env s ⟨clock, .propose payer walletAddr intentAddr args⟩ R W ∧
      Local (fun t => Propose.propose env clock t payer walletAddr intentAddr args) R W s s' := by
  obtain ⟨wallet, intent, msg, data, hacc, hdata, rfl⟩ := Propose.propose_eq_ok.mp h
  refine ⟨_, _, .propose hacc, h, Set.Subset.refl _, fun t ht => ?_⟩
  have hacc' : Propose.Accepted env clock t walletAddr intentAddr args wallet intent msg :=
    { hacc with
      wallet_eq := (ht (by simp)).trans hacc.wallet_eq
      intent_eq := (ht (by simp)).trans hacc.intent_eq
      fresh := (ht (by simp)).trans hacc.fresh }
  refine ⟨_, Propose.propose_eq_ok.mpr ⟨wallet, intent, msg, data, hacc', hdata, rfl⟩, ?_, ?_⟩
  · exact Local.eqOn_update (Local.eqOn_update (Local.eqOn_update ht))
  · exact (Local.eqOn_update_compl (by simp)).trans
      ((Local.eqOn_update_compl (by simp)).trans (Local.eqOn_update_compl (by simp)))

/-- The accounts a vote is checked against. -/
theorem VoteAccepted.linked {clock expiry : Int64} {walletAddr intentAddr proposalAddr voter : Address}
    {action msg : Bytes} {idx : UInt8} {signature : Signature} {wallet : ClearWallet} {intent : Intent}
    {proposal : Proposal}
    (h : VoteAccepted env clock s walletAddr intentAddr proposalAddr action expiry idx signature wallet
      intent proposal voter msg) :
    Linked s walletAddr intentAddr proposalAddr wallet intent proposal :=
  ⟨h.wallet_eq, h.intent_eq, h.has_one, h.proposal_eq, h.wallet_addr, h.intent_addr⟩

/-- A vote is checked against its three accounts alone. -/
theorem VoteAccepted.transfer {clock expiry : Int64} {walletAddr intentAddr proposalAddr voter : Address}
    {action msg : Bytes} {idx : UInt8} {signature : Signature} {wallet : ClearWallet} {intent : Intent}
    {proposal : Proposal}
    (h : VoteAccepted env clock s walletAddr intentAddr proposalAddr action expiry idx signature wallet
      intent proposal voter msg) (ht : Set.EqOn t s {walletAddr, intentAddr, proposalAddr}) :
    VoteAccepted env clock t walletAddr intentAddr proposalAddr action expiry idx signature wallet intent
      proposal voter msg :=
  { h with
    wallet_eq := (ht (by simp)).trans h.wallet_eq
    intent_eq := (ht (by simp)).trans h.intent_eq
    proposal_eq := (ht (by simp)).trans h.proposal_eq }

theorem local_approve {clock : Int64} {walletAddr intentAddr proposalAddr : Address} {args : ApproveArgs}
    (h : Approve.approve env clock s walletAddr intentAddr proposalAddr args = .ok s') :
    ∃ R W, Touches env s ⟨clock, .approve walletAddr intentAddr proposalAddr args⟩ R W ∧
      Local (fun t => Approve.approve env clock t walletAddr intentAddr proposalAddr args) R W s s' := by
  obtain ⟨wallet, intent, proposal, voter, msg, hacc, happ, hst, hbit, rfl⟩ :=
    Approve.approve_eq_ok.mp h
  refine ⟨_, _, .approve hacc.linked, h, by simp, fun t ht => ?_⟩
  refine ⟨_, Approve.approve_eq_ok.mpr
    ⟨wallet, intent, proposal, voter, msg, hacc.transfer ht, happ, hst, hbit, rfl⟩, ?_, ?_⟩
  · exact Local.eqOn_update ht
  · exact Local.eqOn_update_compl (by simp)

theorem local_cancel {clock : Int64} {walletAddr intentAddr proposalAddr : Address} {args : CancelArgs}
    (h : Cancel.cancel env clock s walletAddr intentAddr proposalAddr args = .ok s') :
    ∃ R W, Touches env s ⟨clock, .cancel walletAddr intentAddr proposalAddr args⟩ R W ∧
      Local (fun t => Cancel.cancel env clock t walletAddr intentAddr proposalAddr args) R W s s' := by
  obtain ⟨wallet, intent, proposal, voter, msg, hacc, hopen, hbit, rfl⟩ := Cancel.cancel_eq_ok.mp h
  refine ⟨_, _, .cancel hacc.linked, h, Set.subset_insert _ _, fun t ht => ?_⟩
  refine ⟨_, Cancel.cancel_eq_ok.mpr
    ⟨wallet, intent, proposal, voter, msg, hacc.transfer ht, hopen, hbit, rfl⟩, ?_, ?_⟩
  · exact Local.eqOn_update (Local.eqOn_update ht)
  · exact (Local.eqOn_update_compl (by simp)).trans (Local.eqOn_update_compl (by simp))

theorem local_cleanup {clock : Int64} {proposalAddr rentRefund : Address}
    (h : CleanupProposal.cleanup s proposalAddr rentRefund = .ok s') :
    ∃ R W, Touches env s ⟨clock, .cleanupProposal proposalAddr rentRefund⟩ R W ∧
      Local (fun t => CleanupProposal.cleanup t proposalAddr rentRefund) R W s s' := by
  obtain ⟨proposal, hp, hrefund, hclosed, rfl⟩ := CleanupProposal.cleanup_eq_ok.mp h
  refine ⟨_, _, .cleanupProposal hp, h, Set.Subset.refl _, fun t ht => ?_⟩
  have hp' : t proposalAddr = some (.proposal proposal) := (ht rfl).trans hp
  exact ⟨_, CleanupProposal.cleanup_eq_ok.mpr ⟨proposal, hp', hrefund, hclosed, rfl⟩,
    Local.eqOn_update ht, Local.eqOn_update_compl rfl⟩

/-! ## `execute` -/

namespace Execute

variable {clock : Int64} {declared : Declared} {intentAddr proposalAddr : Address}
  {remaining : List AccountView} {ctx : Ctx} {s₁ : Accounts}

/-- What `load` has checked. -/
theorem load_eq_ok :
    load env s declared intentAddr proposalAddr remaining = .ok ctx ↔
      ∃ (wallet : ClearWallet) (intent : Intent) (proposal : Proposal),
        Linked s declared.wallet.address intentAddr proposalAddr wallet intent proposal ∧
        declared.vault.address = env.pda (Env.vaultSeeds declared.wallet.address) ∧
        proposal.status = .approved ∧ declared.systemProgram.address = env.systemProgramId ∧
        ctx = ⟨declared.wallet.address, intentAddr, proposalAddr, wallet, intent, proposal, declared,
          remaining⟩ := by
  simp only [load, bind_eq_ok, Accounts.orRefuse_eq_ok, Accounts.wallet?_eq_some,
    Accounts.intent?_eq_some, Accounts.proposal?_eq_some, constraint_eq_ok, require_eq_ok,
    Except.ok.injEq, exists_const]
  constructor
  · rintro ⟨wallet, hw, hvault, intent, hi, hone, proposal, hp, ⟨hpw, hpi⟩, hst, hsys, rfl⟩
    exact ⟨wallet, intent, proposal, ⟨hw, hi, hone, hp, hpw, hpi⟩, hvault, hst, hsys, rfl⟩
  · rintro ⟨wallet, intent, proposal, h, hvault, hst, hsys, rfl⟩
    exact ⟨wallet, h.wallet_eq, hvault, intent, h.intent_eq, h.has_one, proposal, h.proposal_eq,
      ⟨h.wallet_addr, h.intent_addr⟩, hst, hsys, rfl⟩

theorem load_congr (h : load env s declared intentAddr proposalAddr remaining = .ok ctx)
    (ht : Set.EqOn t s {declared.wallet.address, intentAddr, proposalAddr}) :
    load env t declared intentAddr proposalAddr remaining = .ok ctx := by
  obtain ⟨wallet, intent, proposal, hl, hvault, hst, hsys, rfl⟩ := load_eq_ok.mp h
  refine load_eq_ok.mpr ⟨wallet, intent, proposal, ?_, hvault, hst, hsys, rfl⟩
  exact { hl with
    wallet_eq := (ht (by simp)).trans hl.wallet_eq
    intent_eq := (ht (by simp)).trans hl.intent_eq
    proposal_eq := (ht (by simp)).trans hl.proposal_eq }

/-- The end of `execute` rewrites the proposal and the intent. -/
theorem local_finish (h : finish s intentAddr proposalAddr = .ok s') (hi : intentAddr ∈ W)
    (hp : proposalAddr ∈ W) (hsub : W ⊆ R) :
    Local (fun t => finish t intentAddr proposalAddr) R W s s' := by
  obtain ⟨p, i, hp_eq, hi_eq, rfl⟩ := finish_eq_ok.mp h
  refine ⟨h, hsub, fun (t : Accounts) ht => ?_⟩
  have hset : Set.EqOn (t.set proposalAddr (.proposal { p with status := .executed }))
      (s.set proposalAddr (.proposal { p with status := .executed })) R := Local.eqOn_update ht
  exact ⟨_, finish_eq_ok.mpr ⟨p, i, (ht (hsub hp)).trans hp_eq, (hset (hsub hi)).trans hi_eq, rfl⟩,
    Local.eqOn_update hset, (Local.eqOn_update_compl hi).trans (Local.eqOn_update_compl hp)⟩

/-- `execute_add_intent` writes the address it is given for the new intent, and the wallet. -/
theorem local_executeAddIntent (h : executeAddIntent env s ctx = .ok s₁) :
    ∃ new, new = env.intentPda ctx.walletAddr (ctx.wallet.intentIndex + 1) ∧ s new = none ∧
      new ∈ ctx.remaining.map (·.address) ∧
      ∀ R W, new ∈ W → ctx.walletAddr ∈ W → W ⊆ R →
        Local (fun t => executeAddIntent env t ctx) R W s s₁ := by
  simp only [executeAddIntent, bind_eq_ok, require_eq_ok, index_eq_ok, exists_const] at h
  obtain ⟨hindex, hlen, payer, hpayer, view, hview, hsigner, haddr, h⟩ := h
  cases hbody : Intent.fromBody env.podVec
      (ctx.proposal.paramsData.toList.take (Intent.sizeOfIntent env.podVec)) with
  | none => simp [hbody] at h
  | some intent =>
    simp only [hbody, bind_eq_ok, Accounts.create_eq_ok, Except.ok.injEq] at h
    obtain ⟨s₂, ⟨hfresh, rfl⟩, rfl⟩ := h
    refine ⟨_, haddr, hfresh, List.mem_map.mpr ⟨view, List.mem_of_getElem? hview, rfl⟩, ?_⟩
    intro R W hnew hwallet hsub
    unfold executeAddIntent
    refine Local.bind_pure (b := ()) (require_eq_ok.mpr hindex) (Local.bind_pure (b := ()) (require_eq_ok.mpr hlen) ?_)
    refine Local.bind_pure (index_eq_ok.mpr hpayer) (Local.bind_pure (index_eq_ok.mpr hview) ?_)
    refine Local.bind_pure (b := ()) (require_eq_ok.mpr hsigner) (Local.bind_pure (b := ()) (require_eq_ok.mpr haddr) ?_)
    simp only [hbody]
    exact (Accounts.local_create hfresh hnew hsub).seq (Accounts.local_set hwallet hsub)

/-- `execute_remove_intent` writes the target it is given. -/
theorem local_executeRemoveIntent (h : executeRemoveIntent env s ctx = .ok s₁) :
    ∃ (view : AccountView) (index : UInt8) (target : Intent),
      view.address = env.intentPda ctx.walletAddr index ∧ s view.address = some (.intent target) ∧
      view ∈ ctx.remaining ∧ view.isWritable = true ∧ ctx.proposal.paramsData.toList[0]? = some index ∧
      ∀ R W, view.address ∈ W → W ⊆ R → Local (fun t => executeRemoveIntent env t ctx) R W s s₁ := by
  simp only [executeRemoveIntent, validateTargetIntentForModification, bind_eq_ok, require_eq_ok,
    index_eq_ok, okOr_eq_ok, Accounts.orRefuse_eq_ok, Accounts.intent?_eq_some, Except.ok.injEq,
    exists_const] at h
  obtain ⟨hlen, index, hindex, view, hview, _, ⟨haddr, hwritable, target, hi, hcount, rfl⟩, rfl⟩ := h
  refine ⟨view, index, target, haddr, hi, List.mem_of_getElem? hview, hwritable, hindex, ?_⟩
  intro R W hmem hsub
  unfold executeRemoveIntent
  refine Local.bind_pure (b := ()) (require_eq_ok.mpr hlen) (Local.bind_pure (index_eq_ok.mpr hindex) ?_)
  refine Local.bind_pure (okOr_eq_ok.mpr hview) (Local.bind_read (b := target) (fun t ht => ?_) ?_)
  · simp only [validateTargetIntentForModification, bind_eq_ok, require_eq_ok,
      Accounts.orRefuse_eq_ok, Accounts.intent?_eq_some, Except.ok.injEq, exists_const]
    exact ⟨haddr, hwritable, target, (ht (hsub hmem)).trans hi, hcount, rfl⟩
  · exact Accounts.local_set hmem hsub

end Execute

theorem local_execute {clock : Int64} {declared : Execute.Declared} {intentAddr proposalAddr : Address}
    {remaining : List AccountView} (hs : s.NoCustomApproved)
    (h : Execute.execute env clock s declared intentAddr proposalAddr remaining = .ok s') :
    ∃ R W, Touches env s ⟨clock, .execute declared intentAddr proposalAddr remaining⟩ R W ∧
      Local (fun t => Execute.execute env clock t declared intentAddr proposalAddr remaining) R W s s' := by
  obtain ⟨ctx, hctx, h⟩ := bind_eq_ok.mp h
  obtain ⟨unlock, hunlock, h⟩ := bind_eq_ok.mp h
  obtain ⟨⟨⟩, hclock, h⟩ := bind_eq_ok.mp h
  obtain ⟨s₁, hs₁, hfin⟩ := bind_eq_ok.mp h
  obtain ⟨t, ht, hrun⟩ := bind_eq_ok.mp hs₁
  -- what the kinds of execution share: only the dispatch is left to show
  have hlocal {R W : Set Address} (hload : {declared.wallet.address, intentAddr, proposalAddr} ⊆ R)
      (hi : intentAddr ∈ W) (hp : proposalAddr ∈ W) (hsub : W ⊆ R)
      (hdispatch : Local (fun t => Execute.dispatch env t ctx) R W s s₁) :
      Local (fun t => Execute.execute env clock t declared intentAddr proposalAddr remaining) R W s s' := by
    refine Local.bind_read (fun t ht => Execute.load_congr hctx (ht.mono hload)) ?_
    refine Local.bind_pure hunlock (Local.bind_pure hclock ?_)
    exact hdispatch.seq (Execute.local_finish hfin hi hp hsub)
  obtain ⟨wallet, intent, proposal, hl, -, hst, -, rfl⟩ := Execute.load_eq_ok.mp hctx
  cases t with
  | addIntent =>
    obtain ⟨new, hnew, hfresh, hmem, hadd⟩ := Execute.local_executeAddIntent hrun
    refine ⟨_, _, .addIntent hl hnew hfresh hmem ht, hlocal ?_ (by simp) (by simp) (Set.Subset.refl _) ?_⟩
    · simp [Set.insert_subset_iff]
    · exact Local.bind_pure ht (hadd _ _ (by simp) (by simp) (Set.Subset.refl _))
  | removeIntent =>
    obtain ⟨view, index, target, haddr, hi, hmem, hwritable, hindex, hremove⟩ :=
      Execute.local_executeRemoveIntent hrun
    refine ⟨_, _, .removeIntent hl haddr hi ⟨view, hmem, rfl, hwritable⟩ ht hindex,
      hlocal ?_ (by simp) (by simp) (Set.subset_insert _ _) ?_⟩
    · simp [Set.insert_subset_iff]
    · exact Local.bind_pure ht (hremove _ _ (by simp) (Set.subset_insert _ _))
  | updateIntent => exact absurd hrun Execute.executeUpdateIntent_ne_ok
  | custom =>
    refine absurd ht (hs proposalAddr proposal intent ?_ hst ?_)
    · simpa using hl.proposal_eq
    · simpa [hl.intent_addr] using hl.intent_eq

/-- Every accepted call has the accounts it touches as its footprint. -/
theorem local_of_process (hs : s.NoCustomApproved) {c : Call} (h : process env s c = .ok s') :
    ∃ R W, Touches env s c R W ∧ Local (fun t => process env t c) R W s s' := by
  obtain ⟨clock, ix⟩ := c
  cases ix with
  | createWallet nameHash args => exact local_createWallet h
  | propose payer wallet intent args => exact local_propose h
  | approve wallet intent proposal args => exact local_approve h
  | cancel wallet intent proposal args => exact local_cancel h
  | execute declared intent proposal remaining => exact local_execute hs h
  | cleanupProposal proposal rentRefund => exact local_cleanup h

/-! ## Bounds that do not depend on the state -/

theorem Instruction.writes_subset_reads (env : Env) (ix : Instruction) : ix.writes env ⊆ ix.reads env := by
  cases ix with
  | createWallet | propose | execute | cleanupProposal => exact Set.Subset.refl _
  | approve =>
    rintro a rfl
    simp [Instruction.reads]
  | cancel => exact Set.subset_insert _ _

/-- What a call touches lies in the bounds of its instruction. -/
theorem Touches.bounded {c : Call} (h : Touches env s c R W) : R ⊆ c.ix.reads env ∧ W ⊆ c.ix.writes env := by
  cases h with
  | createWallet hw hname hfresh =>
    subst hw
    exact ⟨Set.Subset.refl _, Set.Subset.refl _⟩
  | @propose clock payer walletAddr intentAddr args wallet intent msg h =>
    have hsub : ({walletAddr, intentAddr, env.proposalPda intentAddr wallet.proposalIndex} : Set Address) ⊆
        {walletAddr, intentAddr} ∪ Set.range (env.proposalPda intentAddr) := by
      rintro a (rfl | rfl | rfl)
      · exact .inl (.inl rfl)
      · exact .inl (.inr rfl)
      · exact .inr (Set.mem_range_self _)
    exact ⟨hsub, hsub⟩
  | approve h => exact ⟨Set.Subset.refl _, Set.Subset.refl _⟩
  | cancel h => exact ⟨Set.Subset.refl _, Set.Subset.refl _⟩
  | @addIntent clock declared intentAddr proposalAddr new remaining wallet intent proposal h hnew hfresh hmem =>
    have hsub : ({declared.wallet.address, intentAddr, proposalAddr, new} : Set Address) ⊆
        {declared.wallet.address, intentAddr, proposalAddr} ∪ {a | a ∈ remaining.map (·.address)} := by
      rintro a (rfl | rfl | rfl | rfl)
      · exact .inl (.inl rfl)
      · exact .inl (.inr (.inl rfl))
      · exact .inl (.inr (.inr rfl))
      · exact .inr hmem
    exact ⟨hsub, hsub⟩
  | @removeIntent clock declared intentAddr proposalAddr targetAddr remaining wallet intent target proposal
      index h htarget htarget_eq hmem =>
    have hsub : ({declared.wallet.address, intentAddr, proposalAddr, targetAddr} : Set Address) ⊆
        {declared.wallet.address, intentAddr, proposalAddr} ∪ {a | a ∈ remaining.map (·.address)} := by
      rintro a (rfl | rfl | rfl | rfl)
      · exact .inl (.inl rfl)
      · exact .inl (.inr (.inl rfl))
      · exact .inl (.inr (.inr rfl))
      · obtain ⟨view, hview, rfl, -⟩ := hmem
        exact .inr (List.mem_map_of_mem hview)
    exact ⟨hsub, (Set.subset_insert _ _).trans hsub⟩
  | cleanupProposal hp => exact ⟨Set.Subset.refl _, Set.Subset.refl _⟩

/-- An accepted call is local to the bounds of its instruction. -/
theorem local_of_step {c : Call} (hr : Runs.Reachable (program env) s) (h : process env s c = .ok s') :
    Local (fun t => process env t c) (c.ix.reads env) (c.ix.writes env) s s' := by
  obtain ⟨R, W, htouch, hlocal⟩ := local_of_process (sound_of_reachable hr).noCustomApproved h
  exact hlocal.mono htouch.bounded.1 htouch.bounded.2 (c.ix.writes_subset_reads env)

end ClearMsig
