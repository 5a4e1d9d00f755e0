import ClearMsig.Proofs.InvariantProofs

/-!
# The counter of open proposals

Every step moves `active_proposal_count` of an intent and the set of its open proposals together
(`Effect.tick`): a decrement is always that of a proposal that closes. What the counter starts from
decides whether it is exact or only large enough.
-/

namespace ClearMsig

open Function (update)
open Registry

variable {env : Env} {s s' : Accounts} {c : Call}

/-! ## Proposals that are written -/

/-- Overwriting a proposal by one that names the same intent and is as open. -/
theorem openProposals_congr {a intentAddr : Address} {p p' : Proposal}
    (hprop : s'.proposal? = update s.proposal? a (some p')) (hp : s.proposal? a = some p)
    (hi : p'.intent = p.intent) (ho : p'.IsOpen ↔ p.IsOpen) :
    s'.openProposals intentAddr = s.openProposals intentAddr := by
  unfold Accounts.openProposals
  rw [hprop]
  exact keys_update_congr hp (by rw [hi, ho])

/-- Overwriting a proposal of another intent. -/
theorem openProposals_of_ne {a intentAddr : Address} {p p' : Proposal}
    (hprop : s'.proposal? = update s.proposal? a (some p')) (hp : s.proposal? a = some p)
    (hi : p'.intent = p.intent) (hne : intentAddr ≠ p.intent) :
    s'.openProposals intentAddr = s.openProposals intentAddr := by
  unfold Accounts.openProposals
  rw [hprop]
  exact keys_update_congr hp (by rw [hi]; simp [hne.symm])

/-- Closing an open proposal goes with a count less by one. -/
theorem tick_close {a intentAddr : Address} {p p' : Proposal} {n n' : Nat}
    (hprop : s'.proposal? = update s.proposal? a (some p')) (hp : s.proposal? a = some p)
    (hi : p.intent = intentAddr) (ho : p.IsOpen) (ho' : ¬ p'.IsOpen) (hn : n' = n - 1) :
    Tick n n' (s.openProposals intentAddr) (s'.openProposals intentAddr) := by
  unfold Accounts.openProposals
  rw [hprop]
  refine .closed a ((mem_keys_iff hp).mpr ⟨hi, ho⟩) hn (keys_update_of_neg fun v hv => ?_)
  cases hv
  exact fun h => ho' h.2

/-- A step that writes a proposal and its intent moves the counter of that intent only. -/
theorem tick_of_written {f : Address → Option Intent} {a b intentAddr : Address} {i i' v : Intent}
    {p p' : Proposal} (hint : s'.intent? = update f intentAddr (some v))
    (hf : ∀ j, f a = some j → j.activeProposalCount = i.activeProposalCount)
    (hprop : s'.proposal? = update s.proposal? b (some p')) (hp : s.proposal? b = some p)
    (hp' : p'.intent = p.intent) (haddr : p.intent = intentAddr) (hi' : s'.intent? a = some i')
    (hself : a = intentAddr → Tick i.activeProposalCount.toNat v.activeProposalCount.toNat
      (s.openProposals a) (s'.openProposals a)) :
    Tick i.activeProposalCount.toNat i'.activeProposalCount.toNat (s.openProposals a)
      (s'.openProposals a) := by
  rw [hint] at hi'
  by_cases ha : a = intentAddr
  · subst ha
    rw [Function.update_self] at hi'
    cases hi'
    exact hself rfl
  · rw [Function.update_of_ne ha] at hi'
    refine .kept (congrArg UInt16.toNat (hf i' hi')) (openProposals_of_ne hprop hp hp' ?_)
    rwa [haddr]

theorem not_isOpen_executed (p : Proposal) : ¬ Proposal.IsOpen { p with status := .executed } := by
  simp [Proposal.IsOpen]

/-- A vote to approve an active proposal leaves it open. -/
theorem Approve.vote_isOpen {intent : Intent} {p : Proposal} {clock : Int64} {idx : UInt8}
    (h : idx.toNat < 16) (hactive : p.status = .active) : (Approve.vote intent p clock idx).IsOpen := by
  rw [Proposal.IsOpen, Approve.vote_status h, hactive]
  split_ifs <;> simp

/-- A vote to cancel an open proposal leaves it open unless the cancellations reach the threshold. -/
theorem Cancel.vote_isOpen_iff {intent : Intent} {p : Proposal} {idx : UInt8} (h : idx.toNat < 16)
    (hopen : p.IsOpen) : (Cancel.vote intent p idx).2.IsOpen ↔
      ¬ intent.cancellationThreshold.toNat ≤ (insert idx.toNat p.no).card := by
  rw [Proposal.IsOpen, Cancel.vote_status h]
  split_ifs with hclosed hback
  · simp [hclosed]
  · simp [hclosed]
  · exact iff_of_true hopen hclosed

theorem releaseProposal_count (i : Intent) :
    i.releaseProposal.activeProposalCount.toNat = i.activeProposalCount.toNat - 1 := by
  have h := i.activeProposalCount.toNat_lt
  simp only [Intent.releaseProposal, UInt16.toNat_ofNat']
  omega

theorem count_add_one {i : Intent} (h : i.activeProposalCount.toNat + 1 < 2 ^ 16) :
    (i.activeProposalCount + 1).toNat = i.activeProposalCount.toNat + 1 := by
  rw [UInt16.toNat_add]
  exact Nat.mod_eq_of_lt h

/-- The intent with one more open proposal. -/
def Intent.countProposal (i : Intent) : Intent :=
  { i with activeProposalCount := i.activeProposalCount + 1 }

theorem Intent.releaseProposal_countProposal {i : Intent} (h : i.activeProposalCount.toNat + 1 < 2 ^ 16) :
    i.countProposal.releaseProposal = i := by
  have hcount : UInt16.ofNat (i.countProposal.activeProposalCount.toNat - 1) = i.activeProposalCount := by
    rw [countProposal, count_add_one h, Nat.add_sub_cancel, UInt16.ofNat_toNat]
  rw [releaseProposal, hcount]
  rfl

/-! ## Counter and set move together -/

/-- Every step moves the counter of an intent with the set of its open proposals. -/
theorem Effect.tick (h : Effect env s c s') {a : Address} {i i' : Intent} (hi : s.intent? a = some i)
    (hi' : s'.intent? a = some i') :
    Tick i.activeProposalCount.toNat i'.activeProposalCount.toNat (s.openProposals a)
      (s'.openProposals a) := by
  cases h with
  | created hw hchecked h₀ h₁ h₂ hfresh hfresh₀ hfresh₁ hfresh₂ hwallet hintent hproposal =>
    rw [hintent, Function.update_of_ne (ne_of_fresh hi (Accounts.intent?_of_eq hfresh₂)),
      Function.update_of_ne (ne_of_fresh hi (Accounts.intent?_of_eq hfresh₁)),
      Function.update_of_ne (ne_of_fresh hi (Accounts.intent?_of_eq hfresh₀)), hi] at hi'
    cases hi'
    exact .kept rfl (by rw [Accounts.openProposals, hproposal, Accounts.openProposals])
  | @proposed _ _ _ intentAddr _ _ _ intent _ _ _ h hdata hwallet hintent hproposal =>
    have hfresh := notMem_keys_of_none (p := fun p : Proposal => p.intent = a ∧ p.IsOpen)
      (Accounts.proposal?_of_eq h.fresh)
    rw [hintent] at hi'
    by_cases ha : a = intentAddr
    · subst ha
      rw [Accounts.intent?_of_eq h.intent_eq] at hi
      rw [Function.update_self] at hi'
      cases hi
      cases hi'
      refine .opened _ hfresh (count_add_one h.count_lt) ?_
      rw [Accounts.openProposals, hproposal]
      exact keys_update_of_pos ⟨rfl, .inl rfl⟩
    · rw [Function.update_of_ne ha, hi] at hi'
      cases hi'
      refine .kept rfl ?_
      rw [Accounts.openProposals, hproposal, keys_update_of_neg, Set.sdiff_singleton_eq_self hfresh]
      · rfl
      · intro v hv hopen
        cases hv
        exact ha hopen.1.symm
  | approved h happroved hactive hbit hwallet hintent hproposal =>
    rw [hintent, hi] at hi'
    cases hi'
    refine .kept rfl (openProposals_congr hproposal (Accounts.proposal?_of_eq h.proposal_eq)
      (Proposal.intent_congr Approve.vote_terms) ?_)
    exact iff_of_true (Approve.vote_isOpen (Tallied.idx_lt h.idx_lt) hactive) (.inl hactive)
  | @cancelled _ _ _ _ args _ _ _ proposal _ _ h hopen hbit hwallet hintent hproposal =>
    have hp := Accounts.proposal?_of_eq h.proposal_eq
    have h16 := Tallied.idx_lt h.idx_lt
    refine tick_of_written hintent (fun j hj => ?_) hproposal hp (Proposal.intent_congr Cancel.vote_terms)
      h.intent_addr hi' ?_
    · rw [Option.some.inj (hj.symm.trans hi)]
    · rintro rfl
      obtain rfl := Option.some.inj (hi.symm.trans (Accounts.intent?_of_eq h.intent_eq))
      have ho : (Cancel.vote i proposal args.cancellerIndex).2.IsOpen ↔ _ :=
        Cancel.vote_isOpen_iff h16 hopen
      rw [Cancel.vote_intent h16]
      split_ifs with hclosing
      · exact tick_close hproposal hp h.intent_addr hopen (fun hopen' => ho.mp hopen' hclosing)
          (releaseProposal_count i)
      · exact .kept rfl (openProposals_congr hproposal hp (Proposal.intent_congr Cancel.vote_terms)
          (iff_of_true (ho.mpr hclosing) hopen))
  | addedIntent h htype hnew hfresh hwallet hintent hproposal =>
    have hp := Accounts.proposal?_of_eq h.proposal_eq
    refine tick_of_written hintent (fun j hj => ?_) hproposal hp rfl h.intent_addr hi' ?_
    · rw [update_fresh hi (Accounts.intent?_of_eq hfresh)] at hj
      cases hj
      rfl
    · rintro rfl
      obtain rfl := Option.some.inj (hi.symm.trans (Accounts.intent?_of_eq h.intent_eq))
      exact tick_close hproposal hp h.intent_addr (.inr h.approved) (not_isOpen_executed _)
        (releaseProposal_count i)
  | @removedIntent _ declared _ _ _ _ _ _ _ index target _ h htype htarget hcount hreleased hwallet
      hintent hproposal =>
    have hp := Accounts.proposal?_of_eq h.proposal_eq
    -- clearing the flag keeps the counter, also where the target is the executed intent itself
    have hcleared {j : Intent} (hj : update s.intent? (env.intentPda declared.wallet.address index)
        (some { target with approved := 0 }) a = some j) :
        j.activeProposalCount = i.activeProposalCount := by
      rcases update_origin hj with hold | ⟨rfl, rfl⟩
      · rw [Option.some.inj (hold.symm.trans hi)]
      · rw [Option.some.inj (hi.symm.trans (Accounts.intent?_of_eq htarget))]
    refine tick_of_written hintent (fun j hj => hcleared hj) hproposal hp rfl h.intent_addr hi' ?_
    rintro rfl
    exact tick_close hproposal hp h.intent_addr (.inr h.approved) (not_isOpen_executed _)
      (by rw [releaseProposal_count, hcleared hreleased])
  | @cleaned _ proposalAddr _ _ proposal hp hclosed hwallet hintent hproposal =>
    rw [hintent, hi] at hi'
    cases hi'
    refine .kept rfl ?_
    rw [Accounts.openProposals, hproposal, keys_update_of_neg (by simp)]
    refine Set.sdiff_singleton_eq_self fun hmem => ?_
    exact hclosed ((mem_keys_iff (Accounts.proposal?_of_eq hp)).mp hmem).2

/-! ## Proposals keep their terms -/

/-- What a step does to the proposals: nothing, a new one, an open one written with its terms, or a
closed one removed by its cleanup. -/
inductive ProposalStep (env : Env) (s : Accounts) (c : Call) (s' : Accounts) : Prop where
  | same (hprop : s'.proposal? = s.proposal?)
  | new {a : Address} {p : Proposal} (hnew : NewProposal env s c a p) (hfresh : s a = none)
      (hprop : s'.proposal? = update s.proposal? a (some p))
  | written {a : Address} {p p' : Proposal} (hp : s.proposal? a = some p) (hopen : p.IsOpen)
      (hterms : p'.terms = p.terms) (hprop : s'.proposal? = update s.proposal? a (some p'))
  | removed {a r : Address} {p : Proposal} (hc : c.ix = .cleanupProposal a r)
      (hp : s.proposal? a = some p) (hclosed : ¬ p.IsOpen)
      (hprop : s'.proposal? = update s.proposal? a none)

theorem Effect.proposals (h : Effect env s c s') : ProposalStep env s c s' := by
  cases h with
  | created hw hchecked h₀ h₁ h₂ hfresh hfresh₀ hfresh₁ hfresh₂ hwallet hintent hproposal =>
    exact .same hproposal
  | proposed h hdata hwallet hintent hproposal =>
    exact .new (.mk rfl h hdata) h.fresh hproposal
  | approved h happroved hactive hbit hwallet hintent hproposal =>
    exact .written (Accounts.proposal?_of_eq h.proposal_eq) (.inl hactive) Approve.vote_terms hproposal
  | cancelled h hopen hbit hwallet hintent hproposal =>
    exact .written (Accounts.proposal?_of_eq h.proposal_eq) hopen Cancel.vote_terms hproposal
  | addedIntent h htype hnew hfresh hwallet hintent hproposal
  | removedIntent h htype htarget hcount hreleased hwallet hintent hproposal =>
    refine .written (Accounts.proposal?_of_eq h.proposal_eq) (.inr h.approved) ?_ hproposal
    rfl
  | cleaned hp hclosed hwallet hintent hproposal =>
    exact .removed rfl (Accounts.proposal?_of_eq hp) hclosed hproposal

/-- Every proposal was there before, with its terms, or is new. None opens again. -/
theorem Effect.proposal_origin (h : Effect env s c s') {a : Address} {p' : Proposal}
    (hp' : s'.proposal? a = some p') :
    (∃ p, s.proposal? a = some p ∧ p'.terms = p.terms ∧ (p'.IsOpen → p.IsOpen)) ∨
      (s a = none ∧ NewProposal env s c a p') := by
  cases h.proposals with
  | same hprop => exact .inl ⟨p', hprop ▸ hp', rfl, id⟩
  | new hnew hfresh hprop =>
    rw [hprop] at hp'
    rcases update_origin hp' with hp | ⟨rfl, rfl⟩
    · exact .inl ⟨p', hp, rfl, id⟩
    · exact .inr ⟨hfresh, hnew⟩
  | written hp hopen hterms hprop =>
    rw [hprop] at hp'
    rcases update_origin hp' with hp' | ⟨rfl, rfl⟩
    · exact .inl ⟨p', hp', rfl, id⟩
    · exact .inl ⟨_, hp, hterms, fun _ => hopen⟩
  | removed hc hp hclosed hprop =>
    rw [hprop] at hp'
    exact .inl ⟨p', (update_none_origin hp').2, rfl, id⟩

/-- An open proposal does not go away in a step. -/
theorem Effect.proposal_kept (h : Effect env s c s') {a : Address} {p : Proposal}
    (hp : s.proposal? a = some p) (hopen : p.IsOpen) :
    ∃ p', s'.proposal? a = some p' ∧ p'.terms = p.terms := by
  cases h.proposals with
  | same hprop => exact ⟨p, hprop ▸ hp, rfl⟩
  | new hnew hfresh hprop =>
    exact ⟨p, hprop ▸ update_fresh hp (Accounts.proposal?_of_eq hfresh), rfl⟩
  | @written b q q' hq _ hterms hprop =>
    rw [hprop]
    by_cases hab : a = b
    · subst hab
      obtain rfl := Option.some.inj (hp.symm.trans hq)
      exact ⟨q', Function.update_self .., hterms⟩
    · exact ⟨p, (Function.update_of_ne hab ..).trans hp, rfl⟩
  | removed hc hq hclosed hprop =>
    refine ⟨p, ?_, rfl⟩
    rw [hprop, Function.update_of_ne, hp]
    rintro rfl
    obtain rfl := Option.some.inj (hp.symm.trans hq)
    exact hclosed hopen

/-- An address without intent has no open proposals, before and after a step. -/
theorem Sound.openProposals_eq_empty (hs : Sound s) {a : Address} (h : s.intent? a = none) :
    s.openProposals a = ∅ := by
  refine Set.eq_empty_iff_forall_notMem.mpr ?_
  rintro b ⟨p, hp, rfl, -⟩
  obtain ⟨i, hi, -⟩ := hs.proposals b p hp
  rw [h] at hi
  cases hi

theorem Effect.openProposals_eq_empty (hs : Sound s) (h : Effect env s c s') {a : Address}
    (hnone : s.intent? a = none) : s'.openProposals a = ∅ := by
  have hempty := hs.openProposals_eq_empty hnone
  refine Set.eq_empty_iff_forall_notMem.mpr ?_
  rintro b ⟨p', hp', rfl, hopen'⟩
  rcases h.proposal_origin hp' with ⟨p, hp, hterms, ho⟩ | ⟨-, hnew⟩
  · have hmem : b ∈ s.openProposals p'.intent :=
      (mem_keys_iff hp).mpr ⟨(Proposal.intent_congr hterms).symm, ho hopen'⟩
    rw [hempty] at hmem
    exact hmem
  · cases hnew with
    | mk hc hacc hdata =>
      cases (Accounts.intent?_of_eq hacc.intent_eq).symm.trans hnone

/-! ## The counters are large enough -/

/-- An intent keeps its flag, or it is cleared while the counter is zero. -/
theorem Effect.approved_kept (h : Effect env s c s') {a : Address} {i i' : Intent}
    (hi : s.intent? a = some i) (hi' : s'.intent? a = some i') :
    i'.approved = i.approved ∨
      (i.activeProposalCount.toNat = 0 ∧ i'.activeProposalCount.toNat = 0 ∧ i'.approved = 0) := by
  obtain ⟨i₁, hi₁, hstep⟩ := h.intent_step hi
  obtain rfl := Option.some.inj (hi'.symm.trans hi₁)
  rcases hstep.approved with heq | ⟨hcount, hcount', hzero⟩
  · exact .inl heq
  · exact .inr ⟨congrArg UInt16.toNat hcount, congrArg UInt16.toNat hcount', hzero⟩

/-- An open proposal is counted. -/
theorem Counted.pos (hc : Counted s) {a : Address} {p : Proposal} {i : Intent}
    (hp : s.proposal? a = some p) (hopen : p.IsOpen) (hi : s.intent? p.intent = some i) :
    0 < i.activeProposalCount.toNat := by
  have hmem : a ∈ s.openProposals p.intent := (mem_keys_iff hp).mpr ⟨rfl, hopen⟩
  have hle := hc.le p.intent i hi
  by_contra h0
  rw [Nat.eq_zero_of_not_pos h0, Nat.cast_zero, nonpos_iff_eq_zero, Set.encard_eq_zero] at hle
  rw [hle] at hmem
  exact hmem

/-- Each effect keeps the counters large enough and open proposals on approved intents. -/
theorem Counted.of_effect (hs : Sound s) (hc : Counted s) (h : Effect env s c s') : Counted s' := by
  have hle : ∀ a i', s'.intent? a = some i' →
      (s'.openProposals a).encard ≤ i'.activeProposalCount.toNat := by
    intro a i' hi'
    cases hi : s.intent? a with
    | none =>
      rw [h.openProposals_eq_empty hs hi, Set.encard_empty]
      exact zero_le
    | some i => exact (h.tick hi hi').encard_le (hc.le a i hi)
  refine ⟨hle, fun a p' i' hp' hopen' hi' => ?_⟩
  have hkept {i : Intent} (hi : s.intent? p'.intent = some i) : i'.approved = i.approved := by
    rcases h.approved_kept hi hi' with heq | ⟨-, hzero, -⟩
    · exact heq
    · have hmem : a ∈ s'.openProposals p'.intent := (mem_keys_iff hp').mpr ⟨rfl, hopen'⟩
      have hlt := hle p'.intent i' hi'
      rw [hzero, Nat.cast_zero, nonpos_iff_eq_zero, Set.encard_eq_zero] at hlt
      rw [hlt] at hmem
      exact hmem.elim
  rcases h.proposal_origin hp' with ⟨p, hp, hterms, ho⟩ | ⟨-, hnew⟩
  · obtain ⟨i, hi, -, -⟩ := hs.proposals a p hp
    have happ := hc.approved a p i hp (ho hopen') hi
    rw [Intent.isApproved, hkept (Proposal.intent_congr hterms ▸ hi)]
    exact happ
  · cases hnew with
    | mk hcall hacc hdata =>
      have happ := hacc.approved
      rw [Intent.isApproved, hkept (Accounts.intent?_of_eq hacc.intent_eq)]
      exact happ

theorem counted_init : Counted Accounts.none :=
  ⟨fun _ _ h => absurd h (by simp [Accounts.none]), fun _ _ _ h => absurd h (by simp [Accounts.none])⟩

/-- In every reachable state the counters are large enough. -/
theorem counted_of_reachable (h : Runs.Reachable (program env) s) : Counted s := by
  have hboth : Sound s ∧ Counted s := by
    refine Runs.Reachable.invariant (P := fun s => Sound s ∧ Counted s) h ?_ ?_
    · rintro _ rfl
      exact ⟨sound_init, counted_init⟩
    · rintro _ _ _ ⟨hs, hc⟩ hstep
      exact ⟨hs.step hstep, hc.of_effect hs (hs.effect hstep)⟩
  exact hboth.2

end ClearMsig
