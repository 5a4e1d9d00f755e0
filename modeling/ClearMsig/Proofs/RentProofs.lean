import ClearMsig.Foundation.Ledger
import ClearMsig.Proofs.BoardProofs
import ClearMsig.Proofs.NumberingProofs

/-!
# The books of the proposals

Each accepted `propose` opens one account, paid by its payer and counted by its wallet, and each accepted
`cleanup_proposal` closes one towards its `rent_refund`. Over every run the books balance: by payer, by
wallet, and by the number that the wallet keeps.
-/

namespace ClearMsig

open Function (update)
open Registry

variable {env : Env} {s s' : Accounts} {c : Call} {tr : List (Runs.Event Accounts Call)}

/-- The event is a `propose` with a payer and a wallet of a kind. -/
def opensFor (kind : Address → Address → Bool) (e : Runs.Event Accounts Call) : Bool :=
  match e.label.ix with
  | .propose payer wallet _ _ => kind payer wallet
  | _ => false

/-- The event is the cleanup of a proposal with a payer and a wallet of a kind. -/
def closesFor (kind : Address → Address → Bool) (e : Runs.Event Accounts Call) : Bool :=
  match e.label.ix with
  | .cleanupProposal proposal _ => (e.pre.proposal? proposal).any fun p => kind p.rentRefund p.wallet
  | _ => false

/-- The proposals there are with a payer and a wallet of a kind. -/
def Accounts.proposalsFor (s : Accounts) (kind : Address → Address → Bool) : Set Address :=
  keys (fun p => kind p.rentRefund p.wallet = true) s.proposal?

variable {kind : Address → Address → Bool}

/-- Writing a proposal with its terms changes no book. -/
theorem proposalsFor_congr {a : Address} {p p' : Proposal} (hp : s a = some (.proposal p))
    (h : s'.proposal? = update s.proposal? a (some p')) (hterms : p'.terms = p.terms) :
    s'.proposalsFor kind = s.proposalsFor kind := by
  rw [Accounts.proposalsFor, h]
  exact keys_update_congr (Accounts.proposal?_of_eq hp) (by rw [Proposal.rentRefund_congr hterms, Proposal.wallet_congr hterms])

/-- Every step is one entry of the books. -/
theorem entry_of_effect (h : Effect env s c s') (kind : Address → Address → Bool) :
    Ledger.Entry (opensFor kind ⟨s, c, s'⟩) (closesFor kind ⟨s, c, s'⟩) (s.proposalsFor kind)
      (s'.proposalsFor kind) := by
  cases h with
  | created hw hchecked h₀ h₁ h₂ hfresh hfresh₀ hfresh₁ hfresh₂ hwallet hintent hproposal =>
    exact .kept rfl rfl (congrArg (keys _) hproposal)
  | @proposed clock payer walletAddr intentAddr args s' wallet intent msg data bump hacc _ _ _ hproposal =>
    have hnone := Accounts.proposal?_of_eq hacc.fresh
    cases hkind : kind payer walletAddr with
    | true =>
      refine .opened hkind rfl _ (notMem_keys_of_none hnone) ?_
      rw [Accounts.proposalsFor, hproposal]
      exact keys_update_of_pos hkind
    | false =>
      refine .kept hkind rfl ?_
      rw [Accounts.proposalsFor, hproposal, keys_update_of_neg]
      · exact Set.sdiff_singleton_eq_self (notMem_keys_of_none hnone)
      · rintro _ ⟨⟩
        show ¬ kind payer walletAddr = true
        simp [hkind]
  | approved h _ _ _ _ _ hproposal =>
    exact .kept rfl rfl (proposalsFor_congr h.proposal_eq hproposal Approve.vote_terms)
  | cancelled h _ _ _ _ hproposal =>
    exact .kept rfl rfl (proposalsFor_congr h.proposal_eq hproposal Cancel.vote_terms)
  | addedIntent h _ _ _ _ _ hproposal | removedIntent h _ _ _ _ _ _ hproposal =>
    exact .kept rfl rfl (proposalsFor_congr h.proposal_eq hproposal rfl)
  | @cleaned clock proposalAddr rentRefund s' proposal hp hclosed hwallet hintent hproposal =>
    have hp' := Accounts.proposal?_of_eq hp
    have hcloses : closesFor kind ⟨s, ⟨clock, .cleanupProposal proposalAddr rentRefund⟩, s'⟩ =
        kind proposal.rentRefund proposal.wallet := by
      simp only [closesFor, hp']
      rfl
    have hset : s'.proposalsFor kind = s.proposalsFor kind \ {proposalAddr} := by
      rw [Accounts.proposalsFor, hproposal, keys_update_of_neg (by simp)]
      rfl
    cases hkind : kind proposal.rentRefund proposal.wallet with
    | true => exact .closed rfl (hcloses.trans hkind) _ ((mem_keys_iff hp').mpr hkind) hset
    | false =>
      refine .kept rfl (hcloses.trans hkind) (hset.trans (Set.sdiff_singleton_eq_self fun hmem => ?_))
      have := (mem_keys_iff hp').mp hmem
      rw [hkind] at this
      cases this

/-- The accepted proposals of a kind are those that are there and those that were cleaned up. -/
theorem proposals_balance (hrun : Runs.Run (program env) tr s) (kind : Address → Address → Bool) :
    (s.proposalsFor kind).encard + tr.countP (closesFor kind) = tr.countP (opensFor kind) := by
  have hstart : ∀ t : Accounts, (program env).init t → t.proposalsFor kind = ∅ := by
    rintro _ rfl
    refine Set.eq_empty_iff_forall_notMem.mpr ?_
    rintro a ⟨p, hp, -⟩
    cases hp
  refine Ledger.balance hrun hstart fun e he => ?_
  obtain ⟨later, earlier, -, hpre, hstep⟩ := hrun.step_of_mem he
  exact entry_of_effect ((sound_of_reachable ⟨_, hpre⟩).effect hstep) kind

/-! ## Rent -/

/-- The event is a `propose` that the key pays for. -/
def paysFor (q : Address) (e : Runs.Event Accounts Call) : Bool :=
  match e.label.ix with
  | .propose payer _ _ _ => decide (payer = q)
  | _ => false

/-- The event is a cleanup that pays the rent back to the key. -/
def refunds (q : Address) (e : Runs.Event Accounts Call) : Bool :=
  match e.label.ix with
  | .cleanupProposal _ rentRefund => decide (rentRefund = q)
  | _ => false

/-- A cleanup pays the one who paid for the proposal. -/
theorem refunds_of_process (h : process env s c = .ok s') (q : Address) :
    closesFor (fun payer _ => decide (payer = q)) ⟨s, c, s'⟩ = refunds q ⟨s, c, s'⟩ := by
  obtain ⟨clock, ix⟩ := c
  cases ix with
  | cleanupProposal proposalAddr rentRefund =>
    obtain ⟨p, hp, rfl, -, -⟩ := CleanupProposal.cleanup_eq_ok.mp h
    simp only [closesFor, refunds, Accounts.proposal?_of_eq hp]
    rfl
  | createWallet | propose | approve | cancel | execute => rfl

/-- Rent is neither lost nor paid back twice: over every run a key has paid for as many proposals as it has
been paid back for and as there are that will be paid back to it. -/
theorem rent_balance (hrun : Runs.Run (program env) tr s) (q : Address) :
    (keys (fun p => p.rentRefund = q) s.proposal?).encard + tr.countP (refunds q) = tr.countP (paysFor q) := by
  have h := proposals_balance hrun fun payer _ => decide (payer = q)
  have hcloses : tr.countP (closesFor fun payer _ => decide (payer = q)) = tr.countP (refunds q) := by
    refine List.countP_congr fun e he => ?_
    obtain ⟨later, earlier, -, -, hstep⟩ := hrun.step_of_mem he
    rw [refunds_of_process hstep]
  have hopens : opensFor (fun payer _ => decide (payer = q)) = paysFor q := rfl
  have hset : s.proposalsFor (fun payer _ => decide (payer = q)) =
      keys (fun p => p.rentRefund = q) s.proposal? := by
    simp only [Accounts.proposalsFor, decide_eq_true_eq]
  rwa [hcloses, hopens, hset] at h

namespace RentSample

open Sample BoardSample

/-- Two proposals on wallet `a` paid by key 9, the first of which is executed and cleaned up. -/
def calls : List Call := BoardSample.calls ++ [⟨0, .cleanupProposal (proposal "a" 1 0) (key 9)⟩]

theorem run_calls : observe (Sample.env table) calls
    (fun tr s => (tr.countP (refunds (key 9)), tr.countP (paysFor (key 9)), (s.wallet? (wallet "a")).isSome)) =
      some (1, 2, true) := by
  rw [table, message_ofList, message_ofList, message_ofList, message_ofList]
  decide +kernel

end RentSample

open RentSample Sample in
theorem rent_balance_sample :
    ∃ (tr : List (Runs.Event Accounts Call)) (s : Accounts),
      Runs.Run (program (Sample.env BoardSample.table)) tr s ∧ tr.map (·.label) = calls.reverse ∧
      (keys (fun p => p.rentRefund = key 9) s.proposal?).encard + 1 = 2 := by
  obtain ⟨tr, s, hrun, hlabels, hcounts⟩ := run_of_observe run_calls
  simp only [Prod.mk.injEq] at hcounts
  obtain ⟨hrefunds, hpays, -⟩ := hcounts
  have h := rent_balance hrun (key 9)
  rw [hrefunds, hpays] at h
  exact ⟨tr, s, hrun, hlabels, h⟩

/-! ## Numbers -/

/-- How many proposals a wallet has numbered. -/
def Accounts.numbered (s : Accounts) (W : Address) : Nat := (s.wallet? W).elim 0 (·.proposalIndex.toNat)

theorem numbered_update {W b : Address} {w : ClearWallet} (h : s'.wallet? = update s.wallet? b (some w)) :
    s'.numbered W = if W = b then w.proposalIndex.toNat else s.numbered W := by
  rw [Accounts.numbered, h, Function.update_apply]
  split_ifs <;> rfl

/-- A wallet counts the proposals that are accepted on it. -/
theorem numbered_step (h : Effect env s c s') (W : Address) :
    s'.numbered W = s.numbered W + if opensFor (fun _ w => decide (w = W)) ⟨s, c, s'⟩ then 1 else 0 := by
  have hsame {b : Address} {w : ClearWallet} (hw : s b = some (.wallet w)) :
      s.numbered b = w.proposalIndex.toNat := by
    rw [Accounts.numbered, Accounts.wallet?_of_eq hw]
    rfl
  cases h with
  | @created clock nameHash args s' w i₀ i₁ i₂ bump hw hchecked h₀ h₁ h₂ hfresh hfresh₀ hfresh₁ hfresh₂ hwallet =>
    rw [numbered_update hwallet]
    by_cases hW : W = w
    · rw [if_pos hW, hW, Accounts.numbered, Accounts.wallet?_of_eq hfresh]
      rfl
    · rw [if_neg hW]
      rfl
  | @proposed clock payer walletAddr intentAddr args s' wallet intent msg data bump hacc _ hwallet =>
    have hopens : opensFor (fun _ w => decide (w = W))
        ⟨s, ⟨clock, .propose payer walletAddr intentAddr args⟩, s'⟩ = decide (walletAddr = W) := rfl
    rw [numbered_update hwallet, hopens]
    by_cases hW : W = walletAddr
    · rw [if_pos hW, hW, if_pos (by simp), hsame hacc.wallet_eq, index_add_one hacc.index_lt]
    · rw [if_neg hW, if_neg (by simpa using Ne.symm hW), Nat.add_zero]
  | @addedIntent clock declared _ _ _ s' wallet _ _ _ hl _ _ _ hwallet =>
    rw [numbered_update hwallet]
    by_cases hW : W = declared.wallet.address
    · rw [if_pos hW, hW, hsame hl.wallet_eq]
      rfl
    · rw [if_neg hW]
      rfl
  | approved _ _ _ _ hwallet | cancelled _ _ _ hwallet | removedIntent _ _ _ _ _ hwallet | cleaned _ _ hwallet =>
    rw [Accounts.numbered, hwallet]
    rfl

/-- The event is a `propose` on the wallet. -/
def proposesOn (W : Address) (e : Runs.Event Accounts Call) : Bool := opensFor (fun _ w => decide (w = W)) e

/-- The event is the cleanup of a proposal of the wallet. -/
def cleansUp (W : Address) (e : Runs.Event Accounts Call) : Bool := closesFor (fun _ w => decide (w = W)) e

/-- The number a wallet counts from is that of the proposals accepted on it in the whole run, and each of
them is there or was cleaned up. -/
theorem proposalIndex_balance (hrun : Runs.Run (program env) tr s) {W : Address} {w : ClearWallet}
    (hw : s.wallet? W = some w) :
    w.proposalIndex.toNat = tr.countP (proposesOn W) ∧
      (keys (fun p => p.wallet = W) s.proposal?).encard + tr.countP (cleansUp W) = w.proposalIndex.toNat := by
  have hcount : s.numbered W = tr.countP (proposesOn W) := by
    clear hw
    induction hrun with
    | start h =>
      subst h
      rfl
    | @next tr s s' c hr hs ih =>
      rw [numbered_step ((sound_of_reachable ⟨_, hr⟩).effect hs), ih, List.countP_cons]
      rfl
  rw [Accounts.numbered, hw] at hcount
  refine ⟨hcount, ?_⟩
  have h := proposals_balance hrun fun _ w => decide (w = W)
  simp only [Accounts.proposalsFor, decide_eq_true_eq] at h
  exact h.trans (congrArg Nat.cast hcount.symm)

open RentSample Sample in
theorem proposalIndex_balance_sample :
    ∃ (tr : List (Runs.Event Accounts Call)) (s : Accounts) (w : ClearWallet),
      Runs.Run (program (Sample.env BoardSample.table)) tr s ∧ tr.map (·.label) = calls.reverse ∧
      s.wallet? (wallet "a") = some w ∧ w.proposalIndex.toNat = tr.countP (proposesOn (wallet "a")) := by
  obtain ⟨tr, s, hrun, hlabels, hcounts⟩ := run_of_observe run_calls
  obtain ⟨w, hw⟩ := Option.isSome_iff_exists.mp (congrArg (fun x => x.2.2) hcounts)
  exact ⟨tr, s, w, hrun, hlabels, hw, (proposalIndex_balance hrun hw).1⟩

end ClearMsig
