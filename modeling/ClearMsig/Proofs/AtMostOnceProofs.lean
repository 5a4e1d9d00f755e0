import ClearMsig.Proofs.NumberingProofs
import ClearMsig.Sample

/-!
# At most one execution

No instruction writes a closed proposal, and `cleanup` removes it. A new proposal at its address would
have the seeds of the old one, so the same intent, the same wallet and the same number; but the wallet
does not give out a number twice. So a closed proposal is the last one of its address.
-/

namespace ClearMsig

open Function (update)
open Registry

variable {env : Env} {s s' : Accounts} {c : Call} {a : Address}

/-- The event executes the proposal at `a`. -/
def Executes (a : Address) (e : Runs.Event Accounts Call) : Prop :=
  ∃ declared intentAddr remaining, e.label.ix = .execute declared intentAddr a remaining

/-- The intent and the number that an event makes a proposal for: the seeds of its address. -/
def proposedSeeds (e : Runs.Event Accounts Call) : Option (Address × UInt64) :=
  match e.label.ix with
  | .propose _ wallet intent _ => (e.pre.wallet? wallet).map fun w => (intent, w.proposalIndex)
  | _ => none

/-- The address derivation is injective in the seeds of the proposals that a run makes. -/
def ProposalPdaInjective (env : Env) (tr : List (Runs.Event Accounts Call)) : Prop :=
  ∀ x ∈ tr.filterMap proposedSeeds, ∀ y ∈ tr.filterMap proposedSeeds,
    env.proposalPda x.1 x.2 = env.proposalPda y.1 y.2 → x = y

/-! ## One step -/

/-- A step leaves a closed proposal as it is, or removes it. -/
theorem Effect.closed_kept (h : Effect env s c s') {p : Proposal} (hp : s.proposal? a = some p)
    (hclosed : ¬ p.IsOpen) : s'.proposal? a = some p ∨ s'.proposal? a = none := by
  cases h.proposals with
  | same hprop => exact .inl (hprop ▸ hp)
  | new hnew hfresh hprop => exact .inl (hprop ▸ update_fresh hp (Accounts.proposal?_of_eq hfresh))
  | written hq hopen hterms hprop =>
    left
    rw [hprop, Function.update_of_ne, hp]
    rintro rfl
    obtain rfl := Option.some.inj (hp.symm.trans hq)
    exact hclosed hopen
  | @removed b r q hc hq hclosed' hprop =>
    rw [hprop]
    by_cases hab : a = b
    · subst hab
      exact .inr (Function.update_self ..)
    · exact .inl ((Function.update_of_ne hab ..).trans hp)

/-- An execution is that of an approved proposal, and leaves it executed. -/
theorem Effect.executes (h : Effect env s c s') (hx : Executes a ⟨s, c, s'⟩) :
    (∃ p, s.proposal? a = some p ∧ p.status = .approved) ∧
      ∃ p, s'.proposal? a = some p ∧ p.status = .executed := by
  obtain ⟨declared, intentAddr, remaining, hix⟩ := hx
  cases h with
  | created | proposed | approved | cancelled | cleaned => cases hix
  | addedIntent h htype hnew hfresh hwallet hintent hproposal
  | removedIntent h htype htarget hcount hreleased hwallet hintent hproposal =>
    cases hix
    refine ⟨⟨_, Accounts.proposal?_of_eq h.proposal_eq, h.approved⟩, ?_⟩
    rw [hproposal, Function.update_self]
    exact ⟨_, rfl, rfl⟩

/-- The proposal that a step removes was closed, and the step is its cleanup. -/
theorem Effect.removed (h : Effect env s c s') {p : Proposal} (hp : s.proposal? a = some p)
    (hnone : s'.proposal? a = none) : ¬ p.IsOpen ∧ ∃ r, c.ix = .cleanupProposal a r := by
  have write {b : Address} {q : Proposal} (hprop : s'.proposal? = update s.proposal? b (some q)) :
      False := by
    rw [hprop] at hnone
    by_cases hab : a = b
    · subst hab
      rw [Function.update_self] at hnone
      cases hnone
    · rw [Function.update_of_ne hab, hp] at hnone
      cases hnone
  cases h.proposals with
  | same hprop =>
    rw [hprop, hp] at hnone
    cases hnone
  | new hnew hfresh hprop => exact (write hprop).elim
  | written hq hopen hterms hprop => exact (write hprop).elim
  | @removed b r q hc hq hclosed hprop =>
    by_cases hab : a = b
    · subst hab
      obtain rfl := Option.some.inj (hp.symm.trans hq)
      exact ⟨hclosed, r, hc⟩
    · rw [hprop, Function.update_of_ne hab, hp] at hnone
      cases hnone

/-! ## Seeds -/

theorem NewProposal.seeds {p : Proposal} (h : NewProposal env s c a p) (s' : Accounts) :
    a = env.proposalPda p.intent p.proposalIndex ∧
      proposedSeeds ⟨s, c, s'⟩ = some (p.intent, p.proposalIndex) := by
  cases h with
  | mk hc hacc hdata =>
    refine ⟨rfl, ?_⟩
    simp only [proposedSeeds, hc, Accounts.wallet?_of_eq hacc.wallet_eq]
    rfl

theorem ProposalPdaInjective.mono {tr tr' : List (Runs.Event Accounts Call)}
    (h : ProposalPdaInjective env tr) (hsub : tr' ⊆ tr) : ProposalPdaInjective env tr' := by
  intro x hx y hy
  exact h x (List.filterMap_subset _ hsub hx) y (List.filterMap_subset _ hsub hy)

/-- Every proposal lies at the address of the seeds of an event. -/
theorem seeds_of_run {tr : List (Runs.Event Accounts Call)} (hrun : Runs.Run (program env) tr s)
    {p : Proposal} (hp : s.proposal? a = some p) :
    a = env.proposalPda p.intent p.proposalIndex ∧
      (p.intent, p.proposalIndex) ∈ tr.filterMap proposedSeeds := by
  induction hrun generalizing p with
  | start h =>
    subst h
    exact absurd hp (by simp [Accounts.proposal?, Accounts.none])
  | next hr hstep ih =>
    have heff := (sound_of_reachable ⟨_, hr⟩).effect hstep
    rcases heff.proposal_origin hp with ⟨q, hq, hterms, -⟩ | ⟨-, hnew⟩
    · rw [Proposal.intent_congr hterms, Proposal.proposalIndex_congr hterms]
      obtain ⟨haddr, e, he, hseeds⟩ := (ih hq).imp_right List.mem_filterMap.mp
      exact ⟨haddr, List.mem_filterMap.mpr ⟨e, List.mem_cons_of_mem _ he, hseeds⟩⟩
    · obtain ⟨haddr, hseeds⟩ := hnew.seeds _
      exact ⟨haddr, List.mem_filterMap.mpr ⟨_, List.mem_cons_self, hseeds⟩⟩

/-- A new proposal of a run at the address of another has its seeds. -/
theorem ProposalPdaInjective.seeds_eq {tr : List (Runs.Event Accounts Call)}
    (hinj : ProposalPdaInjective env tr) {e : Runs.Event Accounts Call} (he : e ∈ tr) {p p' : Proposal}
    (haddr : a = env.proposalPda p.intent p.proposalIndex)
    (hmem : (p.intent, p.proposalIndex) ∈ tr.filterMap proposedSeeds)
    (hnew : NewProposal env e.pre e.label a p') :
    p'.intent = p.intent ∧ p'.proposalIndex = p.proposalIndex := by
  obtain ⟨haddr', hseeds⟩ := hnew.seeds e.post
  exact Prod.mk.inj (hinj _ (List.mem_filterMap.mpr ⟨e, he, hseeds⟩) _ hmem (haddr'.symm.trans haddr))

/-! ## Closed proposals -/

/-- What is left of a closed proposal at a later state: itself, unless it is gone, or nothing. Its
number is spent. -/
structure Over (env : Env) (a : Address) (p : Proposal) (gone : Prop) (s : Accounts) : Prop where
  reachable : Runs.Reachable (program env) s
  intent : ∃ i, s.intent? p.intent = some i ∧ i.wallet = p.wallet
  spent : Spent p.wallet p.proposalIndex (fun _ _ => True) s
  rest : (s.proposal? a = some p ∧ ¬ gone) ∨ s.proposal? a = none

variable {p : Proposal} {gone : Prop}

theorem Over.init (hr : Runs.Reachable (program env) s) (hp : s.proposal? a = some p) :
    Over env a p False s := by
  obtain ⟨i, hi, hw, -⟩ := (sound_of_reachable hr).proposals a p hp
  refine ⟨hr, ⟨i, hi, hw⟩, ⟨(numbered_of_reachable hr).lt a p hp, fun _ _ _ _ _ => trivial⟩, ?_⟩
  exact .inl ⟨hp, not_false⟩

/-- A new proposal with the seeds of the old one would get its number, which is spent. -/
theorem Over.not_new (ho : Over env a p gone s) {p' : Proposal} (hnew : NewProposal env s c a p')
    (hintent : p'.intent = p.intent) (hindex : p'.proposalIndex = p.proposalIndex) : False := by
  obtain ⟨i, hi, hw⟩ := ho.intent
  obtain ⟨w, hw', hlt⟩ := ho.spent.given
  obtain ⟨w', hw'', hnum⟩ := hnew.number
  have hwallet : p'.wallet = p.wallet := by
    cases hnew with
    | mk hc hacc hdata =>
      obtain rfl := Option.some.inj ((hintent ▸ hi).symm.trans (Accounts.intent?_of_eq hacc.intent_eq))
      exact hacc.has_one.symm.trans hw
  rw [hwallet, hw'] at hw''
  obtain rfl := Option.some.inj hw''
  rw [← hindex, hnum] at hlt
  exact lt_irrefl _ hlt

theorem Over.step (ho : Over env a p gone s) (hclosed : ¬ p.IsOpen) (h : process env s c = .ok s')
    (hseeds : ∀ p', NewProposal env s c a p' →
      p'.intent = p.intent ∧ p'.proposalIndex = p.proposalIndex) : Over env a p gone s' := by
  have heff := (sound_of_reachable ho.reachable).effect h
  obtain ⟨i, hi, hw⟩ := ho.intent
  obtain ⟨i', hi', hd⟩ := heff.intent_kept hi
  refine ⟨ho.reachable.next h, ⟨i', hi', (Intent.wallet_congr hd).trans hw⟩,
    ho.spent.of_effect heff, ?_⟩
  rcases ho.rest with ⟨hp, hgone⟩ | hnone
  · exact (heff.closed_kept hp hclosed).imp_left fun hp' => ⟨hp', hgone⟩
  · refine .inr (Option.eq_none_iff_forall_ne_some.mpr fun p' hp' => ?_)
    rcases heff.proposal_origin hp' with ⟨q, hq, -⟩ | ⟨-, hnew⟩
    · rw [hnone] at hq
      cases hq
    · obtain ⟨hintent, hindex⟩ := hseeds p' hnew
      exact ho.not_new hnew hintent hindex

section Run

variable {later earlier : List (Runs.Event Accounts Call)} {e : Runs.Event Accounts Call}

/-- What is left of a closed proposal after an event of a run is left at its end. -/
theorem Over.of_run (hrun : Runs.Run (program env) (later ++ e :: earlier) s)
    (hinj : ProposalPdaInjective env (later ++ e :: earlier)) (hclosed : ¬ p.IsOpen)
    (haddr : a = env.proposalPda p.intent p.proposalIndex)
    (hmem : (p.intent, p.proposalIndex) ∈ (e :: earlier).filterMap proposedSeeds)
    (ho : Over env a p gone e.post) : Over env a p gone s := by
  refine hrun.since (P := Over env a p gone) ho fun e' he' ho' hstep' => ?_
  refine ho'.step hclosed hstep' fun p' hnew => hinj.seeds_eq (by simp [he']) haddr ?_ hnew
  rw [List.filterMap_append]
  exact List.mem_append_right _ hmem

/-- The same before and after a later event. -/
theorem Over.of_mem (hrun : Runs.Run (program env) (later ++ e :: earlier) s)
    (hinj : ProposalPdaInjective env (later ++ e :: earlier)) (hclosed : ¬ p.IsOpen)
    (haddr : a = env.proposalPda p.intent p.proposalIndex)
    (hmem : (p.intent, p.proposalIndex) ∈ (e :: earlier).filterMap proposedSeeds)
    (ho : Over env a p gone e.post) {e' : Runs.Event Accounts Call} (he' : e' ∈ later) :
    Over env a p gone e'.post := by
  obtain ⟨newer, older, rfl⟩ := List.append_of_mem he'
  rw [List.append_assoc] at hrun hinj
  obtain ⟨hpre, hstep⟩ := hrun.split
  have hpost : Runs.Run (program env) ((e' :: older) ++ e :: earlier) e'.post := hpre.next hstep
  exact ho.of_run hpost (hinj.mono (List.subset_append_right _ _)) hclosed haddr hmem

end Run

/-- An address whose proposal was executed in a run is not executed at its end. -/
theorem not_executes_again {tr : List (Runs.Event Accounts Call)} (hrun : Runs.Run (program env) tr s)
    (hinj : ProposalPdaInjective env tr) {e e' : Runs.Event Accounts Call} (he' : e' ∈ tr)
    (heff : Effect env e.pre e.label e.post) (hpre : e.pre = s) (hx : Executes a e) :
    ¬ Executes a e' := by
  intro hx'
  obtain ⟨later, earlier, rfl, hrun', hstep'⟩ := hrun.step_of_mem he'
  obtain ⟨-, p, hp, hst⟩ := ((sound_of_reachable ⟨_, hrun'⟩).effect hstep').executes hx'
  obtain ⟨⟨q, hq, hqst⟩, -⟩ := heff.executes hx
  have hpost := hrun'.next hstep'
  obtain ⟨haddr, hmem⟩ := seeds_of_run hpost hp
  have hover := (Over.init ⟨_, hpost⟩ hp).of_run hrun hinj
    (Proposal.not_isOpen_iff.mpr (.inl hst)) haddr hmem
  rw [hpre] at hq
  rcases hover.rest with ⟨hp', -⟩ | hnone
  · obtain rfl := Option.some.inj (hp'.symm.trans hq)
    rw [hst] at hqst
    cases hqst
  · rw [hnone] at hq
    cases hq

theorem executes_pairwise {tr : List (Runs.Event Accounts Call)} (hrun : Runs.Run (program env) tr s)
    (hinj : ProposalPdaInjective env tr) :
    tr.Pairwise fun e e' => Executes a e → ¬ Executes a e' := by
  induction hrun with
  | start h => exact .nil
  | next hr hstep ih =>
    have hinj' := hinj.mono (List.subset_cons_self _ _)
    have heff := (sound_of_reachable ⟨_, hr⟩).effect hstep
    exact .cons (fun e' he' hx => not_executes_again hr hinj' he' heff rfl hx) (ih hinj')

/-- At most one execution per proposal. In every run in which the address derivation is injective in
the seeds of the proposals: an address is executed at most once; a proposal that is executed or
cancelled stays as it is until it is removed; only such a proposal is removed, by its cleanup; and an
address whose proposal was removed gets no other. -/
theorem executed_at_most_once (env : Env) {tr : List (Runs.Event Accounts Call)} {s : Accounts}
    (hrun : Runs.Run (program env) tr s) (hinj : ProposalPdaInjective env tr) (a : Address) :
    (tr.Pairwise fun e e' => Executes a e → ¬ Executes a e') ∧
    (∀ later e earlier p, tr = later ++ e :: earlier → e.post.proposal? a = some p →
      p.status = .executed ∨ p.status = .cancelled →
      ∀ e' ∈ later, e'.post.proposal? a = some p ∨ e'.post.proposal? a = none) ∧
    (∀ e ∈ tr, ∀ p, e.pre.proposal? a = some p → e.post.proposal? a = none →
      (p.status = .executed ∨ p.status = .cancelled) ∧ ∃ r, e.label.ix = .cleanupProposal a r) ∧
    (∀ later e earlier p, tr = later ++ e :: earlier → e.pre.proposal? a = some p →
      e.post.proposal? a = none → ∀ e' ∈ later, e'.post.proposal? a = none) := by
  refine ⟨executes_pairwise hrun hinj, ?_, ?_, ?_⟩
  · rintro later e earlier p rfl hp hclosed e' he'
    obtain ⟨hpre, hstep⟩ := hrun.split
    have hpost := hpre.next hstep
    obtain ⟨haddr, hmem⟩ := seeds_of_run hpost hp
    have hover := (Over.init ⟨_, hpost⟩ hp).of_mem hrun hinj (Proposal.not_isOpen_iff.mpr hclosed)
      haddr hmem he'
    exact hover.rest.imp_left And.left
  · intro e he p hp hnone
    obtain ⟨later, earlier, -, hpre, hstep⟩ := hrun.step_of_mem he
    obtain ⟨hclosed, r, hix⟩ := ((sound_of_reachable ⟨_, hpre⟩).effect hstep).removed hp hnone
    exact ⟨Proposal.not_isOpen_iff.mp hclosed, r, hix⟩
  · rintro later e earlier p rfl hp hnone e' he'
    obtain ⟨hpre, hstep⟩ := hrun.split
    obtain ⟨hclosed, -⟩ := ((sound_of_reachable ⟨_, hpre⟩).effect hstep).removed hp hnone
    obtain ⟨haddr, hmem⟩ := seeds_of_run hpre hp
    have hmem' : (p.intent, p.proposalIndex) ∈ (e :: earlier).filterMap proposedSeeds :=
      List.filterMap_subset _ (List.subset_cons_self _ _) hmem
    have hstepped := (Over.init ⟨_, hpre⟩ hp).step hclosed hstep fun p' hnew =>
      hinj.seeds_eq (by simp) haddr (by rw [List.filterMap_append]; exact List.mem_append_right _ hmem') hnew
    have hgone : Over env a p True e.post :=
      ⟨hstepped.reachable, hstepped.intent, hstepped.spent, .inr hnone⟩
    exact (hgone.of_mem hrun hinj hclosed haddr hmem' he').rest.resolve_left fun h => h.2 trivial

namespace AtMostOnceSample

open Sample

def table : List (Address × Bytes) :=
  [(key 1, message "expires 1970-01-01 00:16:40: propose remove intent 2 | wallet: a proposal: 0"),
   (key 2, message "expires 1970-01-01 00:16:40: approve remove intent 2 | wallet: a proposal: 0"),
   (key 1, message "expires 1970-01-01 00:16:40: propose remove intent 0 | wallet: a proposal: 1")]

/-- A proposal is executed and cleaned up, and another one follows. -/
def calls : List Call :=
  [create "a" 1 1 [key 2], propose "a" 1 0 [2], approve "a" 1 0 0 1, execute "a" 1 0 [intent "a" 2],
   ⟨0, .cleanupProposal (proposal "a" 1 0) (key 9)⟩, propose "a" 1 2 [0]]

/-- The seeds of the two proposals have different addresses, and the first proposal is there before the
cleanup and not after it. -/
def observed (tr : List (Runs.Event Accounts Call)) (_ : Accounts) :
    List (Address × UInt64) × Option (Option ProposalStatus × Bool) :=
  (tr.filterMap proposedSeeds, tr[1]?.map fun e =>
    ((e.pre.proposal? (proposal "a" 1 0)).map (·.status), (e.post.proposal? (proposal "a" 1 0)).isNone))

end AtMostOnceSample

open AtMostOnceSample Sample in
theorem executed_at_most_once_sample :
    ∃ (e₅ e₄ : Runs.Event Accounts Call) (earlier : List (Runs.Event Accounts Call)) (s : Accounts),
      Runs.Run (program (Sample.env table)) (e₅ :: e₄ :: earlier) s ∧
      (e₅ :: e₄ :: earlier).map (·.label) = calls.reverse ∧
      ((e₅ :: e₄ :: earlier).Pairwise fun e e' =>
        Executes (proposal "a" 1 0) e → ¬ Executes (proposal "a" 1 0) e') ∧
      e₅.post.proposal? (proposal "a" 1 0) = none := by
  have hobs : observe (Sample.env table) calls observed =
      some ([(intent "a" 1, 1), (intent "a" 1, 0)], some (some .executed, true)) := by
    rw [table, message_ofList, message_ofList, message_ofList]
    decide +kernel
  obtain ⟨tr, s, hrun, hlabels, hstate⟩ := run_of_observe hobs
  obtain ⟨hseeds, hgone⟩ := Prod.mk.inj hstate
  have hinj : ProposalPdaInjective (Sample.env table) tr := by
    rw [ProposalPdaInjective, hseeds]
    decide +kernel
  have hmap := hlabels
  simp only [calls, List.reverse_cons, List.reverse_nil, List.nil_append, List.cons_append,
    List.map_eq_cons_iff] at hlabels
  obtain ⟨e₅, -, rfl, -, e₄, earlier, rfl, -⟩ := hlabels
  obtain ⟨hpairwise, -, -, hremoved⟩ :=
    executed_at_most_once (Sample.env table) hrun hinj (proposal "a" 1 0)
  simp only [List.getElem?_cons_succ, List.getElem?_cons_zero, Option.map_some, Option.some.injEq,
    Prod.mk.injEq, Option.map_eq_some_iff, Option.isNone_iff_eq_none] at hgone
  obtain ⟨⟨p, hp, -⟩, hnone⟩ := hgone
  exact ⟨e₅, e₄, earlier, s, hrun, hmap, hpairwise,
    hremoved [e₅] e₄ earlier p rfl hp hnone e₅ List.mem_cons_self⟩

end ClearMsig
