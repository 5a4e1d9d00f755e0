import ClearMsig.Proofs.ClosingProofs
import ClearMsig.Votes

/-!
# What a proposal comes down to

As long as a proposal is only voted on, nothing but the proposal itself, the counter of its intent and the
number of its wallet differs from before. A cancellation restores the counter and the cleanup takes the
proposal away, so that the number is all that stays; after an execution so does what it has written.
-/

namespace ClearMsig

variable {env : Env} {s s' base : Accounts} {c : Call} {W I a payer : Address} {w : ClearWallet} {i : Intent}
  {data : Bytes}

/-- The accounts while the proposal at `a` is voted on, compared to those before it was made. -/
structure OnlyProposed (base : Accounts) (payer W I a : Address) (w : ClearWallet) (i : Intent) (data : Bytes)
    (s : Accounts) : Prop where
  wallet_eq : s W = some (.wallet { w with proposalIndex := w.proposalIndex + 1 })
  proposal_eq : ∃ p, s a = some (.proposal p) ∧ p.wallet = W ∧ p.intent = I ∧ p.rentRefund = payer ∧
    p.paramsData.toList = data ∧
    (p.IsOpen ∧ s I = some (.intent i.countProposal) ∨ p.status = .cancelled ∧ s I = some (.intent i))
  others : ∀ x, x ≠ W → x ≠ I → x ≠ a → s x = base x

/-- What an accepted proposal has changed. -/
theorem onlyProposed_of_process {args : ProposeArgs} (h : process env s c = .ok s')
    (hix : c.ix = .propose payer W I args) (hw : s.wallet? W = some w)
    (ha : a = env.proposalPda I w.proposalIndex) :
    ∃ i, s I = some (.intent i) ∧ i.activeProposalCount.toNat + 1 < 2 ^ 16 ∧ s a = none ∧
      OnlyProposed s payer W I a w i args.paramsData s' := by
  subst ha
  obtain ⟨clock, ix⟩ := c
  cases hix
  obtain ⟨w', i, msg, data, hacc, hdata, rfl⟩ := Propose.propose_eq_ok.mp h
  cases hw.symm.trans (Accounts.wallet?_of_eq hacc.wallet_eq)
  have hne : I ≠ W := Accounts.ne_of_data hacc.intent_eq hacc.wallet_eq (by simp)
  have hnew : env.proposalPda I w.proposalIndex ≠ W := (Registry.ne_of_fresh hacc.wallet_eq hacc.fresh).symm
  have hnewI : env.proposalPda I w.proposalIndex ≠ I := (Registry.ne_of_fresh hacc.intent_eq hacc.fresh).symm
  refine ⟨i, hacc.intent_eq, hacc.count_lt, hacc.fresh, Function.update_self .., ?_, fun x hW hI ha => ?_⟩
  · refine ⟨Propose.newProposal W I payer w clock (env.pdaBump (Env.proposalSeeds I w.proposalIndex)) args
      data, ?_, rfl, rfl, rfl, hdata, .inl ⟨.inl rfl, ?_⟩⟩
    · rw [Accounts.set_of_ne hnew, Accounts.set_of_ne hnewI]
      exact Function.update_self ..
    · rw [Accounts.set_of_ne hne]
      exact Function.update_self ..
  · rw [Accounts.set_of_ne hW, Accounts.set_of_ne hI, Accounts.set_of_ne ha]

namespace OnlyProposed

/-- A vote to approve changes the proposal only. -/
theorem approve (h : OnlyProposed base payer W I a w i data s) {clock : Int64} {walletAddr intentAddr : Address}
    {args : ApproveArgs} (hstep : Approve.approve env clock s walletAddr intentAddr a args = .ok s') :
    OnlyProposed base payer W I a w i data s' := by
  obtain ⟨p, hp, rfl, rfl, hrefund, hdata, hstate⟩ := h.proposal_eq
  obtain ⟨w', j, p', voter, msg, hacc, -, hactive, -, rfl⟩ := Approve.approve_eq_ok.mp hstep
  cases hp.symm.trans hacc.proposal_eq
  have hWa : p.wallet ≠ a := Accounts.ne_of_data h.wallet_eq hp (by simp)
  have hIa : p.intent ≠ a := by
    rw [hacc.intent_addr]
    exact Accounts.ne_of_data hacc.intent_eq hp (by simp)
  refine ⟨(Accounts.set_of_ne hWa).trans h.wallet_eq, ⟨_, Function.update_self ..,
    Proposal.wallet_congr Approve.vote_terms, Proposal.intent_congr Approve.vote_terms,
    (Proposal.rentRefund_congr Approve.vote_terms).trans hrefund,
    (congrArg PodVec.toList (Proposal.paramsData_congr Approve.vote_terms)).trans hdata, .inl ⟨?_, ?_⟩⟩,
    fun x hW hI ha => (Accounts.set_of_ne ha).trans (h.others x hW hI ha)⟩
  · exact Approve.vote_isOpen (Tallied.idx_lt hacc.idx_lt) hactive
  · rw [Accounts.set_of_ne hIa]
    rcases hstate with ⟨-, hI⟩ | ⟨hcancelled, -⟩
    · exact hI
    · cases hactive.symm.trans hcancelled

/-- A vote to cancel changes the proposal, and where it closes it the intent is as it was before. -/
theorem cancel (h : OnlyProposed base payer W I a w i data s) (hcount : i.activeProposalCount.toNat + 1 < 2 ^ 16)
    {clock : Int64} {walletAddr intentAddr : Address} {args : CancelArgs}
    (hstep : Cancel.cancel env clock s walletAddr intentAddr a args = .ok s') :
    OnlyProposed base payer W I a w i data s' := by
  obtain ⟨p, hp, rfl, rfl, hrefund, hdata, hstate⟩ := h.proposal_eq
  obtain ⟨w', j, p', voter, msg, hacc, hopen, -, rfl⟩ := Cancel.cancel_eq_ok.mp hstep
  cases hp.symm.trans hacc.proposal_eq
  obtain rfl := hacc.intent_addr
  obtain rfl := hacc.wallet_addr
  have hI : s p.intent = some (.intent i.countProposal) := by
    rcases hstate with ⟨-, hI⟩ | ⟨hcancelled, -⟩
    · exact hI
    · exact absurd hopen (by simp [Proposal.IsOpen, hcancelled])
  cases hI.symm.trans hacc.intent_eq
  have h16 := Tallied.idx_lt hacc.idx_lt
  have hWa : p.wallet ≠ a := Accounts.ne_of_data h.wallet_eq hp (by simp)
  have hIa : p.intent ≠ a := Accounts.ne_of_data hI hp (by simp)
  have hWI : p.wallet ≠ p.intent := Accounts.ne_of_data h.wallet_eq hI (by simp)
  refine ⟨?_, ⟨_, Function.update_self .., Proposal.wallet_congr Cancel.vote_terms,
    Proposal.intent_congr Cancel.vote_terms, (Proposal.rentRefund_congr Cancel.vote_terms).trans hrefund,
    (congrArg PodVec.toList (Proposal.paramsData_congr Cancel.vote_terms)).trans hdata, ?_⟩,
    fun x hW hI ha => ?_⟩
  · rw [Accounts.set_of_ne hWa, Accounts.set_of_ne hWI]
    exact h.wallet_eq
  · rw [Accounts.set_of_ne hIa, Accounts.set, Function.update_self, Cancel.vote_isOpen_iff h16 hopen,
      Cancel.vote_status h16, Cancel.vote_intent h16]
    split_ifs with hclosing
    · exact .inr ⟨rfl, by rw [Intent.releaseProposal_countProposal hcount]⟩
    · exact .inl ⟨hclosing, rfl⟩
    · exact .inl ⟨hclosing, rfl⟩
  · rw [Accounts.set_of_ne ha, Accounts.set_of_ne hI]
    exact h.others x hW hI ha

/-- A vote on the proposal changes nothing else. -/
theorem vote (h : OnlyProposed base payer W I a w i data s) (hcount : i.activeProposalCount.toNat + 1 < 2 ^ 16)
    (hstep : process env s c = .ok s') (hvote : ∃ b, c.ix.ballot? = some b ∧ b.proposal = a) :
    OnlyProposed base payer W I a w i data s' := by
  obtain ⟨b, hb, rfl⟩ := hvote
  obtain ⟨clock, ix⟩ := c
  cases ix with
  | createWallet | propose | execute | cleanupProposal => cases hb
  | approve =>
    cases hb
    exact h.approve hstep
  | cancel =>
    cases hb
    exact h.cancel hcount hstep

/-- So do all the votes of a run. -/
theorem votes {later earlier : List (Runs.Event Accounts Call)} {e : Runs.Event Accounts Call}
    (hrun : Runs.Run (program env) (later ++ e :: earlier) s) (h : OnlyProposed base payer W I a w i data e.post)
    (hcount : i.activeProposalCount.toNat + 1 < 2 ^ 16)
    (hvotes : ∀ v ∈ later, ∃ b, v.label.ix.ballot? = some b ∧ b.proposal = a) :
    OnlyProposed base payer W I a w i data s :=
  hrun.since h fun v hv hpre hstep => hpre.vote hcount hstep (hvotes v hv)

/-- The cleanup leaves the number of the wallet alone. -/
theorem cleanup (h : OnlyProposed base payer W I a w i data s) (hi : base I = some (.intent i))
    (hfresh : base a = none) {rentRefund : Address} (hstep : process env s c = .ok s')
    (hix : c.ix = .cleanupProposal a rentRefund) :
    rentRefund = payer ∧ s' = base.set W (.wallet { w with proposalIndex := w.proposalIndex + 1 }) := by
  obtain ⟨clock, ix⟩ := c
  cases hix
  obtain ⟨p, hp, -, -, rfl, -, hstate⟩ := h.proposal_eq
  obtain ⟨p', hp', rfl, hclosed, rfl⟩ := CleanupProposal.cleanup_eq_ok.mp hstep
  cases hp.symm.trans hp'
  have hI : s I = some (.intent i) := by
    rcases hstate with ⟨hopen, -⟩ | ⟨-, hI⟩
    · exact absurd hopen hclosed
    · exact hI
  refine ⟨rfl, funext fun x => ?_⟩
  by_cases ha : x = a
  · subst ha
    have hne : x ≠ W := Accounts.ne_of_data hp h.wallet_eq (by simp)
    rw [Accounts.set_of_ne hne, hfresh]
    exact Function.update_self ..
  · have hclose : s.close a x = s x := by rw [Accounts.close, Function.update_of_ne ha]
    rw [hclose]
    by_cases hW : x = W
    · subst hW
      rw [h.wallet_eq, Accounts.set, Function.update_self]
    · rw [Accounts.set_of_ne hW]
      by_cases hx : x = I
      · rw [hx, hI, hi]
      · exact h.others x hW hx ha

/-- A cancelled proposal can be cleaned up. -/
theorem exists_cleanup (env : Env) (h : OnlyProposed base payer W I a w i data s) (hi : base I = some (.intent i))
    (hfresh : base a = none) {p : Proposal} (hp : s.proposal? a = some p) (hcancelled : p.status = .cancelled)
    (clock : Int64) :
    process env s ⟨clock, .cleanupProposal a payer⟩ =
      .ok (base.set W (.wallet { w with proposalIndex := w.proposalIndex + 1 })) := by
  obtain ⟨p', hp', -, -, hrefund, -, -⟩ := h.proposal_eq
  cases (Accounts.proposal?_eq_some.mp hp).symm.trans hp'
  have hstep : process env s ⟨clock, .cleanupProposal a payer⟩ = .ok (s.close a) :=
    CleanupProposal.cleanup_eq_ok.mpr ⟨p, hp', hrefund, by simp [Proposal.IsOpen, hcancelled], rfl⟩
  rw [hstep, ← (h.cleanup hi hfresh hstep rfl).2]

end OnlyProposed

/-! ## Execution -/

/-- What an executed proposal comes down to: an intent of the wallet is removed, or the next one is added. -/
inductive Settlement (env : Env) (base : Accounts) (W : Address) (w : ClearWallet) (data : Bytes) :
    Accounts → Prop where
  | removed {k : UInt8} {target : Intent} (hdata : data = [k])
      (htarget : base (env.intentPda W k) = some (.intent target)) (hidle : target.activeProposalCount = 0) :
      Settlement env base W w data
        ((base.set W (.wallet { w with proposalIndex := w.proposalIndex + 1 })).set (env.intentPda W k)
          (.intent { target with approved := 0 }))
  | added {new : Intent} (hbody : Intent.fromBody env.podVec data = some new)
      (hfresh : base (env.intentPda W (w.intentIndex + 1)) = none) :
      Settlement env base W w data
        ((base.set W (.wallet
            { w with
              proposalIndex := w.proposalIndex + 1
              intentIndex := w.intentIndex + 1 })).set (env.intentPda W (w.intentIndex + 1)) (.intent new))

/-- The end of the execution and the cleanup put the intent and the proposal back. -/
theorem close_of_finish (h : Execute.finish s I a = .ok s') (hi : s I = some (.intent i.countProposal))
    (hcount : i.activeProposalCount.toNat + 1 < 2 ^ 16) {p : Proposal} (hp : s a = some (.proposal p)) :
    s' a = some (.proposal { p with status := .executed }) ∧
      ∀ x, s'.close a x = if x = a then none else if x = I then some (.intent i) else s x := by
  have hne : I ≠ a := Accounts.ne_of_data hi hp (by simp)
  obtain ⟨p', j, hp', hj, rfl⟩ := Execute.finish_eq_ok.mp h
  rw [Accounts.set_of_ne hne] at hj
  cases hi.symm.trans hj
  cases hp.symm.trans hp'
  refine ⟨?_, fun x => ?_⟩
  · rw [Accounts.set_of_ne hne.symm]
    exact Function.update_self ..
  rw [Intent.releaseProposal_countProposal hcount, Accounts.close]
  split_ifs with ha hI
  · rw [ha, Function.update_self]
  · rw [Function.update_of_ne ha, hI, Accounts.set, Function.update_self]
  · rw [Function.update_of_ne ha, Accounts.set_of_ne hI, Accounts.set_of_ne ha]

/-- The wallet, the intent and the proposal that an execution has loaded. -/
theorem OnlyProposed.loaded (h : OnlyProposed base payer W I a w i data s) {clock : Int64} {W' I' : Address}
    {wallet : ClearWallet} {intent : Intent} {proposal : Proposal}
    (hl : Execute.Loaded env clock s W' I' a wallet intent proposal) :
    W' = W ∧ I' = I ∧ wallet = { w with proposalIndex := w.proposalIndex + 1 } ∧ intent = i.countProposal ∧
      proposal.rentRefund = payer ∧ proposal.paramsData.toList = data := by
  obtain ⟨p, hp, rfl, rfl, hrefund, hdata, hstate⟩ := h.proposal_eq
  cases hp.symm.trans hl.proposal_eq
  obtain rfl := hl.wallet_addr
  obtain rfl := hl.intent_addr
  cases h.wallet_eq.symm.trans hl.wallet_eq
  rcases hstate with ⟨-, hI⟩ | ⟨hcancelled, -⟩
  · cases hI.symm.trans hl.intent_eq
    exact ⟨rfl, rfl, rfl, rfl, hrefund, hdata⟩
  · cases hl.approved.symm.trans hcancelled

/-- What the execution has written at the wallet and at one other address is all that stays after the cleanup. -/
theorem OnlyProposed.restored (h : OnlyProposed base payer W I a w i data s) (hi : base I = some (.intent i))
    (hfresh : base a = none) (hcount : i.activeProposalCount.toNat + 1 < 2 ^ 16) {clock : Int64}
    {wallet : ClearWallet} {intent : Intent} {proposal : Proposal}
    (hl : Execute.Loaded env clock s W I a wallet intent proposal) {s₁ s₂ : Accounts} {T : Address}
    {d d' : AccountData} (hTI : T ≠ I) (hTa : T ≠ a) (hT : s₁ T = some d') (hW : s₁ W = some d)
    (hothers : ∀ x, x ≠ T → x ≠ W → s₁ x = s x) (hfin : Execute.finish s₁ I a = .ok s₂)
    {rentRefund : Address} (hclean : CleanupProposal.cleanup s₂ a rentRefund = .ok s') :
    rentRefund = payer ∧ s' = (base.set W d).set T d' := by
  obtain ⟨-, -, -, rfl, hrefund, -⟩ := h.loaded hl
  have hWa : W ≠ a := Accounts.ne_of_data h.wallet_eq hl.proposal_eq (by simp)
  have hWI : W ≠ I := Accounts.ne_of_data h.wallet_eq hl.intent_eq (by simp)
  obtain ⟨p, hp, hrent, -, rfl⟩ := CleanupProposal.cleanup_eq_ok.mp hclean
  obtain ⟨hp', hclose⟩ := close_of_finish hfin ((hothers I hTI.symm hWI.symm).trans hl.intent_eq) hcount
    ((hothers a hTa.symm hWa.symm).trans hl.proposal_eq)
  cases hp.symm.trans hp'
  refine ⟨hrent.symm.trans hrefund, funext fun x => ?_⟩
  rw [hclose x]
  by_cases hxT : x = T
  · subst hxT
    rw [if_neg hTa, if_neg hTI, hT, Accounts.set, Function.update_self]
  rw [Accounts.set_of_ne hxT]
  by_cases hxW : x = W
  · subst hxW
    rw [if_neg hWa, if_neg hWI, hW, Accounts.set, Function.update_self]
  rw [Accounts.set_of_ne hxW, hothers x hxT hxW]
  split_ifs with ha hI
  · rw [ha, hfresh]
  · rw [hI, hi]
  · exact h.others x hxW hI ha

/-- The execution and the cleanup of the proposal come down to a settlement. -/
theorem OnlyProposed.settlement (h : OnlyProposed base payer W I a w i data s) (hs : s.NoCustomApproved)
    (hi : base I = some (.intent i)) (hfresh : base a = none)
    (hcount : i.activeProposalCount.toNat + 1 < 2 ^ 16) {declared : Execute.Declared} {I' : Address}
    {remaining : List AccountView} {s₂ : Accounts} {c₂ : Call} (hexec : process env s c = .ok s₂)
    (hix : c.ix = .execute declared I' a remaining) {rentRefund : Address}
    (hclean : process env s₂ c₂ = .ok s') (hix₂ : c₂.ix = .cleanupProposal a rentRefund) :
    rentRefund = payer ∧ Settlement env base W w data s' := by
  obtain ⟨clock, ix⟩ := c
  obtain ⟨clock₂, ix₂⟩ := c₂
  cases hix
  cases hix₂
  obtain ⟨wallet, intent, proposal, hl, s₁, hs₁, hfin⟩ := Execute.of_execute_eq_ok hexec
  obtain ⟨rfl, rfl, rfl, rfl, -, hdata⟩ := h.loaded hl
  obtain ⟨t, ht, hs₁⟩ := bind_eq_ok.mp hs₁
  cases t with
  | updateIntent => exact absurd hs₁ Execute.executeUpdateIntent_ne_ok
  | custom =>
    refine absurd ht (hs a proposal i.countProposal ?_ hl.approved ?_)
    · exact Accounts.proposal?_of_eq hl.proposal_eq
    · rw [hl.intent_addr]
      exact Accounts.intent?_of_eq hl.intent_eq
  | removeIntent =>
    obtain ⟨k, target, hk, htarget, hidle, rfl⟩ := Execute.of_executeRemoveIntent_eq_ok hs₁
    -- the executed intent counts the proposal, so it is not the target
    have hTI : env.intentPda declared.wallet.address k ≠ I' := by
      intro heq
      cases (heq ▸ htarget).symm.trans hl.intent_eq
      have hone := count_add_one hcount
      have hzero : (i.activeProposalCount + 1).toNat = 0 := congrArg UInt16.toNat hidle
      omega
    have hTa := Accounts.ne_of_data htarget hl.proposal_eq (by simp)
    have hTW := Accounts.ne_of_data htarget h.wallet_eq (by simp)
    obtain ⟨hrent, rfl⟩ := h.restored hi hfresh hcount hl hTI hTa (Function.update_self ..)
      ((Accounts.set_of_ne hTW.symm).trans h.wallet_eq) (fun x hx _ => Accounts.set_of_ne hx) hfin hclean
    exact ⟨hrent, .removed (hdata.symm.trans hk) ((h.others _ hTW hTI hTa).symm.trans htarget) hidle⟩
  | addIntent =>
    obtain ⟨new, hbody, hnew, rfl⟩ := Execute.body_of_executeAddIntent hs₁
    have hTI := (Registry.ne_of_fresh hl.intent_eq hnew).symm
    have hTa := (Registry.ne_of_fresh hl.proposal_eq hnew).symm
    have hTW := (Registry.ne_of_fresh h.wallet_eq hnew).symm
    obtain ⟨hrent, rfl⟩ := h.restored hi hfresh hcount hl hTI hTa
      ((Accounts.set_of_ne hTW).trans (Function.update_self ..)) (Function.update_self ..)
      (fun x hx hW => (Accounts.set_of_ne hW).trans (Accounts.set_of_ne hx)) hfin hclean
    exact ⟨hrent, .added (hdata ▸ hbody) ((h.others _ hTW hTI hTa).symm.trans hnew)⟩

theorem Cancels.ballot {clock expiry : Accounts → Int64} {e : Runs.Event Accounts Call}
    (h : Cancels env clock expiry a e) : ∃ b, e.label.ix.ballot? = some b ∧ b.proposal = a := by
  cases h
  exact ⟨_, rfl, rfl⟩

namespace SettlementSample

open Sample ClosingSample

/-- A proposal and a vote to approve it. -/
def calls : List Call :=
  [create "a" 2 2 [key 2, key 3],
   ⟨0, .propose (key 9) (wallet "a") (intent "a" 1) ⟨1000, key 1, sign (key 1) (text "propose"), [2]⟩⟩,
   approveBy 0 (key 2)]

/-- The approver changes sides, the other one follows, and the proposal is cleaned up. -/
def undoing : List Call :=
  [cancelBy 0 (key 2), cancelBy 1 (key 3), ⟨0, .cleanupProposal (proposal "a" 1 0) (key 9)⟩]

/-- The other approver follows, and the proposal is executed and cleaned up. -/
def settling : List Call :=
  [approveBy 1 (key 3), execute "a" 1 0 [intent "a" 2],
   ⟨0, .cleanupProposal (proposal "a" 1 0) (key 9)⟩]

/-- Whether the first proposal of the wallet is next before the second call, and two of two approvers can
cancel. -/
def observed (tr : List (Runs.Event Accounts Call)) (_ : Accounts) : Option (Option Bool × Option Bool) :=
  tr.reverse[1]?.map fun e => ((e.pre.wallet? (wallet "a")).map fun w => decide (w.proposalIndex = 0),
    (e.pre.intent? (intent "a" 1)).map fun i =>
      decide (i.cancellationThreshold = 2 ∧ i.approvers.toList.length = 2))

/-- The events of the calls, and those of the later ones on top of them. -/
theorem run_of_observed {later : List Call}
    (hobs : observe signingEnv (calls ++ later) observed = some (some (some true, some true))) :
    ∃ (tr : List (Runs.Event Accounts Call)) (v e e₀ : Runs.Event Accounts Call) (s : Accounts)
      (w : ClearWallet) (i : Intent) (args : ProposeArgs),
      Runs.Run (program signingEnv) (tr ++ ([v] ++ e :: [e₀])) s ∧ tr.map (·.label) = later.reverse ∧
      e.label.ix = .propose (key 9) (wallet "a") (intent "a" 1) args ∧ args.paramsData = [2] ∧
      v.label = approveBy 0 (key 2) ∧ e.pre.wallet? (wallet "a") = some w ∧
      proposal "a" 1 0 = signingEnv.proposalPda (intent "a" 1) w.proposalIndex ∧
      e.pre.intent? (intent "a" 1) = some i ∧ i.cancellationThreshold = 2 ∧ i.approvers.toList.length = 2 := by
  obtain ⟨tr, s, hrun, hlabels, hstate⟩ := run_of_observe hobs
  rw [List.reverse_append] at hlabels
  obtain ⟨tr, tr', rfl, hlater, hcalls⟩ := List.map_eq_append_iff.mp hlabels
  simp only [calls, List.reverse_cons, List.reverse_nil, List.cons_append, List.nil_append, List.map_eq_cons_iff,
    List.map_eq_nil_iff] at hcalls
  obtain ⟨v, -, rfl, hv, e, -, rfl, he, e₀, -, rfl, -, rfl⟩ := hcalls
  have hsecond : (tr ++ [v, e, e₀]).reverse[1]? = some e := by simp
  simp only [observed, hsecond, Option.map_some, Option.some.injEq, Prod.mk.injEq, Option.map_eq_some_iff,
    decide_eq_true_eq] at hstate
  obtain ⟨⟨w, hw, hindex⟩, i, hi, hthreshold, hlength⟩ := hstate
  have ha : proposal "a" 1 0 = signingEnv.proposalPda (intent "a" 1) w.proposalIndex := by
    rw [hindex]
    rfl
  exact ⟨tr, v, e, e₀, s, w, i, _, hrun, hlater, congrArg Call.ix he, rfl, hv, hw, ha, hi, hthreshold, hlength⟩

/-- The approval is a vote on the proposal. -/
theorem ballot_of_label {v : Runs.Event Accounts Call} {voter : UInt8} {k : Address}
    (hv : v.label = approveBy voter k ∨ v.label = cancelBy voter k) :
    ∃ b, v.label.ix.ballot? = some b ∧ b.proposal = proposal "a" 1 0 := by
  rcases hv with hv | hv <;> exact ⟨_, congrArg (fun c : Call => c.ix.ballot?) hv, rfl⟩

end SettlementSample

/-! ## Main theorems -/

/-- Whatever the votes on a proposal are and whatever their order, if it is cleaned up after them then the
rent goes to the one who has paid it, and nothing is left of the proposal but its number. -/
theorem undone_by_cleanup {votes earlier : List (Runs.Event Accounts Call)} {e last : Runs.Event Accounts Call}
    (hrun : Runs.Run (program env) (last :: (votes ++ e :: earlier)) s) {args : ProposeArgs}
    (hpropose : e.label.ix = .propose payer W I args) (hw : e.pre.wallet? W = some w)
    (ha : a = env.proposalPda I w.proposalIndex)
    (hvotes : ∀ v ∈ votes, ∃ b, v.label.ix.ballot? = some b ∧ b.proposal = a) {rentRefund : Address}
    (hlast : last.label.ix = .cleanupProposal a rentRefund) :
    rentRefund = payer ∧ s = e.pre.set W (.wallet { w with proposalIndex := w.proposalIndex + 1 }) := by
  obtain ⟨hvoted, hcleanup, rfl⟩ := hrun.last
  obtain ⟨-, hstep⟩ := hvoted.split
  obtain ⟨i, hi, hcount, hfresh, hafter⟩ := onlyProposed_of_process hstep hpropose hw ha
  exact (OnlyProposed.votes hvoted hafter hcount hvotes).cleanup hi hfresh hcleanup hlast

open SettlementSample ClosingSample Sample in
theorem undone_by_cleanup_sample :
    ∃ (tr earlier : List (Runs.Event Accounts Call)) (e : Runs.Event Accounts Call) (w : ClearWallet) (s : Accounts),
      Runs.Run (program signingEnv) (tr ++ e :: earlier) s ∧ tr.length = 4 ∧
        s = e.pre.set (wallet "a") (.wallet { w with proposalIndex := w.proposalIndex + 1 }) := by
  have hobs : observe signingEnv (SettlementSample.calls ++ undoing) SettlementSample.observed =
      some (some (some true, some true)) := by decide +kernel
  obtain ⟨tr, v, e, e₀, s, w, i, args, hrun, hlater, he, -, hv, hw, ha, -⟩ := run_of_observed hobs
  simp only [undoing, List.reverse_cons, List.reverse_nil, List.nil_append, List.cons_append,
    List.map_eq_cons_iff, List.map_eq_nil_iff] at hlater
  obtain ⟨last, -, rfl, hlast, c₁, -, rfl, hc₁, c₀, -, rfl, hc₀, rfl⟩ := hlater
  have hvotes : ∀ x ∈ [c₁, c₀] ++ [v], ∃ b, x.label.ix.ballot? = some b ∧ b.proposal = proposal "a" 1 0 := by
    simp only [List.cons_append, List.nil_append, List.forall_mem_cons]
    exact ⟨ballot_of_label (.inr hc₁), ballot_of_label (.inr hc₀), ballot_of_label (.inl hv), by simp⟩
  have hrun' : Runs.Run (program signingEnv) (last :: (([c₁, c₀] ++ [v]) ++ e :: [e₀])) s := hrun
  have hundone := undone_by_cleanup hrun' he hw ha hvotes (congrArg Call.ix hlast)
  exact ⟨last :: ([c₁, c₀] ++ [v]), [e₀], e, w, s, hrun', rfl, hundone.2⟩

/-- Whatever the votes on a proposal are, if it is executed and cleaned up after them then the rent goes to the
one who has paid it, and the wallet has one intent less or one more, as the parameters say, and its numbers.
Every other account is as it was before the proposal. -/
theorem settled_by_cleanup {votes earlier : List (Runs.Event Accounts Call)}
    {e execution last : Runs.Event Accounts Call}
    (hrun : Runs.Run (program env) (last :: execution :: (votes ++ e :: earlier)) s) {args : ProposeArgs}
    (hpropose : e.label.ix = .propose payer W I args) (hw : e.pre.wallet? W = some w)
    (ha : a = env.proposalPda I w.proposalIndex)
    (hvotes : ∀ v ∈ votes, ∃ b, v.label.ix.ballot? = some b ∧ b.proposal = a)
    {declared : Execute.Declared} {intentAddr : Address} {remaining : List AccountView}
    (hexecution : execution.label.ix = .execute declared intentAddr a remaining) {rentRefund : Address}
    (hlast : last.label.ix = .cleanupProposal a rentRefund) :
    rentRefund = payer ∧ Settlement env e.pre W w args.paramsData s := by
  obtain ⟨hexecuted, hcleanup, rfl⟩ := hrun.last
  obtain ⟨hvoted, hexec, hpost⟩ := hexecuted.last
  obtain ⟨-, hstep⟩ := hvoted.split
  obtain ⟨i, hi, hcount, hfresh, hafter⟩ := onlyProposed_of_process hstep hpropose hw ha
  have hs := (sound_of_reachable ⟨_, hvoted⟩).noCustomApproved
  rw [← hpost] at hcleanup
  exact (OnlyProposed.votes hvoted hafter hcount hvotes).settlement hs hi hfresh hcount hexec hexecution hcleanup
    hlast

open SettlementSample ClosingSample Sample in
theorem settled_by_cleanup_sample :
    ∃ (tr earlier : List (Runs.Event Accounts Call)) (e : Runs.Event Accounts Call) (w : ClearWallet) (s : Accounts),
      Runs.Run (program signingEnv) (tr ++ e :: earlier) s ∧ tr.length = 4 ∧
        Settlement signingEnv e.pre (wallet "a") w [2] s := by
  have hobs : observe signingEnv (SettlementSample.calls ++ settling) SettlementSample.observed =
      some (some (some true, some true)) := by decide +kernel
  obtain ⟨tr, v, e, e₀, s, w, i, args, hrun, hlater, he, hdata, hv, hw, ha, -⟩ := run_of_observed hobs
  simp only [settling, List.reverse_cons, List.reverse_nil, List.nil_append, List.cons_append,
    List.map_eq_cons_iff, List.map_eq_nil_iff] at hlater
  obtain ⟨last, -, rfl, hlast, x, -, rfl, hx, v₁, -, rfl, hv₁, rfl⟩ := hlater
  have hvotes : ∀ x ∈ [v₁] ++ [v], ∃ b, x.label.ix.ballot? = some b ∧ b.proposal = proposal "a" 1 0 := by
    simp only [List.cons_append, List.nil_append, List.forall_mem_cons]
    exact ⟨ballot_of_label (.inl hv₁), ballot_of_label (.inl hv), by simp⟩
  have hrun' : Runs.Run (program signingEnv) (last :: x :: (([v₁] ++ [v]) ++ e :: [e₀])) s := hrun
  have hsettled := settled_by_cleanup hrun' he hw ha hvotes (congrArg Call.ix hx) (congrArg Call.ix hlast)
  exact ⟨last :: x :: ([v₁] ++ [v]), [e₀], e, w, s, hrun', rfl, hdata ▸ hsettled.2⟩

/-- Every proposal can be undone. Whatever the votes on it have been, where the approvers of its intent can
cancel, votes to cancel and the cleanup lead back to the accounts before it, but for its number. -/
theorem proposal_can_be_undone {votes earlier : List (Runs.Event Accounts Call)} {e : Runs.Event Accounts Call}
    (hrun : Runs.Run (program env) (votes ++ e :: earlier) s) {args : ProposeArgs}
    (hpropose : e.label.ix = .propose payer W I args) (hw : e.pre.wallet? W = some w)
    (ha : a = env.proposalPda I w.proposalIndex)
    (hvotes : ∀ v ∈ votes, ∃ b, v.label.ix.ballot? = some b ∧ b.proposal = a)
    (hi : e.pre.intent? I = some i) (hpos : 1 ≤ i.cancellationThreshold.toNat)
    (hle : i.cancellationThreshold.toNat ≤ i.approvers.toList.length)
    (clock expiry : Accounts → Int64) (hclock : ∀ s, clock s < expiry s)
    (hsign : ∀ key ∈ i.approvers.toList, ∀ msg, ∃ sig, env.sigVerify key sig msg = true) :
    ∃ last later, Runs.Run (program env) (last :: (later ++ (votes ++ e :: earlier)))
        (e.pre.set W (.wallet { w with proposalIndex := w.proposalIndex + 1 })) ∧
      last.label.ix = .cleanupProposal a payer ∧ ∀ e' ∈ later, Cancels env clock expiry a e' := by
  obtain ⟨-, hstep⟩ := hrun.split
  obtain ⟨j, hj, hcount, hfresh, hafter⟩ := onlyProposed_of_process hstep hpropose hw ha
  cases hi.symm.trans (Accounts.intent?_of_eq hj)
  have hvoted := OnlyProposed.votes hrun hafter hcount hvotes
  obtain ⟨p, hp, -, hintent, -, -, ⟨hopen, hI⟩ | ⟨hcancelled, -⟩⟩ := hvoted.proposal_eq
  · have hopenAt : OpenAt a I i s :=
      ⟨p, _, Accounts.proposal?_of_eq hp, hintent, hopen, Accounts.intent?_of_eq hI, rfl⟩
    obtain ⟨closing, later, hrun', hcancels, hcloses, hlater⟩ := hrun.exists_extension (missing a i)
      (fun _ hr h => cancel_or_close hpos hle hclock hsign hr h) hopenAt
    have hall : ∀ e' ∈ closing :: later, Cancels env clock expiry a e' :=
      List.forall_mem_cons.mpr ⟨hcancels, hlater⟩
    have happend : Runs.Run (program env) (closing :: later ++ votes ++ e :: earlier) closing.post := by
      rwa [List.append_assoc]
    have hundoing : OnlyProposed e.pre payer W I a w i args.paramsData closing.post := by
      refine OnlyProposed.votes happend hafter hcount fun v hv => ?_
      rcases List.mem_append.mp hv with hv | hv
      · exact (hall v hv).ballot
      · exact hvotes v hv
    cases hcloses with
    | mk hproposal _ hstatus =>
      have hlast := hundoing.exists_cleanup env hj hfresh hproposal hstatus 0
      exact ⟨_, _, hrun'.next hlast, rfl, hall⟩
  · have hlast := hvoted.exists_cleanup env hj hfresh (Accounts.proposal?_of_eq hp) hcancelled 0
    exact ⟨_, [], hrun.next hlast, rfl, by simp⟩

open SettlementSample ClosingSample Sample in
theorem proposal_can_be_undone_sample :
    ∃ (v e e₀ : Runs.Event Accounts Call) (w : ClearWallet), v.label = approveBy 0 (key 2) ∧
      ∃ last later, Runs.Run (program signingEnv) (last :: (later ++ ([v] ++ e :: [e₀])))
          (e.pre.set (wallet "a") (.wallet { w with proposalIndex := w.proposalIndex + 1 })) ∧
        last.label.ix = .cleanupProposal (proposal "a" 1 0) (key 9) ∧
        ∀ e' ∈ later, Cancels signingEnv (fun _ => 0) (fun _ => 1000) (proposal "a" 1 0) e' := by
  have hobs : observe signingEnv (SettlementSample.calls ++ []) SettlementSample.observed =
      some (some (some true, some true)) := by decide +kernel
  obtain ⟨tr, v, e, e₀, s, w, i, args, hrun, hlater, he, -, hv, hw, ha, hi, hthreshold, hlength⟩ :=
    run_of_observed hobs
  obtain rfl := List.map_eq_nil_iff.mp hlater
  have hvotes : ∀ x ∈ [v], ∃ b, x.label.ix.ballot? = some b ∧ b.proposal = proposal "a" 1 0 :=
    List.forall_mem_singleton.mpr (ballot_of_label (.inl hv))
  have hrun' : Runs.Run (program signingEnv) ([v] ++ e :: [e₀]) s := hrun
  refine ⟨v, e, e₀, w, hv, proposal_can_be_undone hrun' he hw ha hvotes hi ?_ ?_ (fun _ => 0) (fun _ => 1000)
    (fun _ => by decide) fun key _ msg => ⟨sign key msg, decide_eq_true rfl⟩⟩
  · rw [hthreshold]
    decide
  · rw [hthreshold, hlength]
    decide

end ClearMsig
