import ClearMsig.Proofs.CounterProofs
import ClearMsig.Votes

/-!
# The bitmaps record the last votes

Every step leaves the votes of a proposal alone, or adds the vote of one list entry and removes its
opposite (`Effect.votes`). So the bitmaps of a proposal are a function of the votes in the history:
each index has the last vote that was accepted there (`recorded_of_run`).
-/

namespace ClearMsig

open Function (update)
open Registry History

variable {env : Env} {s s' : Accounts} {c : Call} {a : Address}

/-! ## One step -/

/-- What a step does to the votes of a proposal. -/
inductive VoteStep (s : Accounts) (c : Call) (a : Address) (p' : Proposal) : Prop where
  | new (hnone : s.proposal? a = none) (hquiet : ∀ b, c.ix.ballot? = some b → b.proposal ≠ a)
      (hvotes : ∀ v, p'.votes v = ∅)
  | kept {p : Proposal} (hp : s.proposal? a = some p)
      (hquiet : ∀ b, c.ix.ballot? = some b → b.proposal ≠ a) (hvotes : ∀ v, p'.votes v = p.votes v)
  | cast {b : Ballot} {p : Proposal} (hb : c.ix.ballot? = some b) (ha : b.proposal = a)
      (hp : s.proposal? a = some p) (hbit : b.index.toNat ∉ p.votes b.vote)
      (hvotes : p'.votes b.vote = insert b.index.toNat (p.votes b.vote))
      (hopposite : p'.votes b.vote.opposite = (p.votes b.vote.opposite).erase b.index.toNat)

theorem Effect.votes (h : Effect env s c s') {p' : Proposal} (hp' : s'.proposal? a = some p') :
    VoteStep s c a p' := by
  cases h with
  | created hw hchecked h₀ h₁ h₂ hfresh hfresh₀ hfresh₁ hfresh₂ hwallet hintent hproposal =>
    exact .kept (hproposal ▸ hp') (fun b hb => by cases hb) fun _ => rfl
  | proposed h hdata hwallet hintent hproposal =>
    rw [hproposal] at hp'
    rcases update_origin hp' with hp | ⟨rfl, rfl⟩
    · exact .kept hp (fun b hb => by cases hb) fun _ => rfl
    · refine .new (Accounts.proposal?_of_eq h.fresh) (fun b hb => by cases hb) fun v => ?_
      cases v <;> exact Bitset.bits_zero
  | @approved _ _ _ proposalAddr _ _ _ _ _ _ _ h happroved hactive hbit hwallet hintent hproposal =>
    have h16 := Tallied.idx_lt h.idx_lt
    rw [hproposal] at hp'
    by_cases ha : a = proposalAddr
    · subst ha
      rw [Function.update_self] at hp'
      cases hp'
      exact .cast rfl rfl (Accounts.proposal?_of_eq h.proposal_eq)
        ((Proposal.hasApprovedByIndex_eq_false h16).mp hbit) (Approve.vote_yes h16) (Approve.vote_no h16)
    · rw [Function.update_of_ne ha] at hp'
      refine .kept hp' (fun b hb => ?_) fun _ => rfl
      cases hb
      exact Ne.symm ha
  | @cancelled _ _ _ proposalAddr _ _ _ _ _ _ _ h hopen hbit hwallet hintent hproposal =>
    have h16 := Tallied.idx_lt h.idx_lt
    rw [hproposal] at hp'
    by_cases ha : a = proposalAddr
    · subst ha
      rw [Function.update_self] at hp'
      cases hp'
      exact .cast rfl rfl (Accounts.proposal?_of_eq h.proposal_eq)
        ((Proposal.hasCancelledByIndex_eq_false h16).mp hbit) (Cancel.vote_no h16) (Cancel.vote_yes h16)
    · rw [Function.update_of_ne ha] at hp'
      refine .kept hp' (fun b hb => ?_) fun _ => rfl
      cases hb
      exact Ne.symm ha
  | addedIntent h htype hnew hfresh hwallet hintent hproposal
  | removedIntent h htype htarget hcount hreleased hwallet hintent hproposal =>
    rw [hproposal] at hp'
    rcases update_origin hp' with hp | ⟨rfl, rfl⟩
    · exact .kept hp (fun b hb => by cases hb) fun _ => rfl
    · exact .kept (Accounts.proposal?_of_eq h.proposal_eq) (fun b hb => by cases hb)
        fun v => by cases v <;> rfl
  | cleaned hp hclosed hwallet hintent hproposal =>
    rw [hproposal] at hp'
    exact .kept (update_none_origin hp').2 (fun b hb => by cases hb) fun _ => rfl

/-- An index that is in both sets has voted both ways. -/
theorem Vote.eq_or_opposite (v w : Vote) : v = w ∨ v = w.opposite := by
  cases v <;> cases w <;> simp [opposite]

/-- The votes of a proposal after a step: the one that was cast, or those from before. -/
theorem VoteStep.mem_iff {p' : Proposal} (h : VoteStep s c a p') (s' : Accounts) {v : Vote}
    {j : UInt8} :
    j.toNat ∈ p'.votes v ↔ Marks a v j ⟨s, c, s'⟩ ∨
      (Quiet a j ⟨s, c, s'⟩ ∧ ∃ p, s.proposal? a = some p ∧ j.toNat ∈ p.votes v) := by
  have noMark {v : Vote} {j : UInt8} (hq : ∀ b, c.ix.ballot? = some b → b.proposal ≠ a) :
      ¬ Marks a v j ⟨s, c, s'⟩ := by
    rintro ⟨b, hb, -, ha, -⟩
    exact hq b hb ha
  cases h with
  | new hnone hquiet hvotes =>
    rw [hvotes]
    simp [noMark hquiet, hnone]
  | @kept p hp hquiet hvotes =>
    have hq : Quiet a j ⟨s, c, s'⟩ := ⟨by simp [Alive, hp], fun _ => noMark hquiet⟩
    rw [hvotes]
    simp [noMark hquiet, hq, hp]
  | @cast b p hb ha hp hbit hvotes hopposite =>
    have hmark {v : Vote} {j : UInt8} : Marks a v j ⟨s, c, s'⟩ ↔ b.vote = v ∧ b.index = j := by
      simp [Marks, hb, ha]
    have hquiet : Quiet a j ⟨s, c, s'⟩ ↔ b.index ≠ j := by
      simp [Quiet, Alive, hp, hmark]
    have hne : b.vote ≠ b.vote.opposite := by cases b.vote <;> simp [Vote.opposite]
    simp only [hmark, hquiet, hp, Option.some.injEq, exists_eq_left']
    by_cases hj : b.index = j
    · subst hj
      rcases Vote.eq_or_opposite v b.vote with rfl | rfl
      · simp [hvotes]
      · simp [hopposite, hne]
    · have hj' : j.toNat ≠ b.index.toNat := fun h => hj (UInt8.toNat_inj.mp h.symm)
      rcases Vote.eq_or_opposite v b.vote with rfl | rfl
      · simp [hvotes, hj, hj']
      · simp [hopposite, hj, hj']

/-! ## Runs -/

/-! ### Accepted votes -/

variable {v : Vote} {j : UInt8} {k : Address} {sig : Signature} {msg : Bytes}
  {e : Runs.Event Accounts Call}

theorem Casts.marks (h : Casts env a v j k sig msg e) : Marks a v j e := by
  obtain ⟨b, _, _, _, hb, hv, ha, hj, -⟩ := h
  exact ⟨b, hb, hv, ha, hj⟩

theorem Casts.alive (h : Casts env a v j k sig msg e) : Alive a e := by
  obtain ⟨b, _, _, p, -, -, -, -, -, hacc⟩ := h
  exact Option.isSome_iff_exists.mpr ⟨p, Accounts.proposal?_of_eq hacc.proposal_eq⟩

/-- A vote that a step accepts is signed by the key at its index. -/
theorem Effect.casts (h : Effect env s c s') (hm : Marks a v j ⟨s, c, s'⟩) :
    ∃ k sig msg, Casts env a v j k sig msg ⟨s, c, s'⟩ := by
  obtain ⟨b, hb, rfl, rfl, rfl⟩ := hm
  cases h with
  | approved h _ _ _ _ _ _ =>
    cases hb
    exact ⟨_, _, _, _, _, _, _, rfl, rfl, rfl, rfl, rfl, h⟩
  | cancelled h _ _ _ _ _ =>
    cases hb
    exact ⟨_, _, _, _, _, _, _, rfl, rfl, rfl, rfl, rfl, h⟩
  | created | proposed | addedIntent | removedIntent | cleaned => cases hb

/-- A vote is accepted only where it is not recorded. -/
theorem Effect.unrecorded (h : Effect env s c s') (hm : Marks a v j ⟨s, c, s'⟩) :
    ∃ p, s.proposal? a = some p ∧ j.toNat ∉ p.votes v := by
  obtain ⟨b, hb, rfl, rfl, rfl⟩ := hm
  cases h with
  | approved h _ _ hbit _ _ _ =>
    cases hb
    exact ⟨_, Accounts.proposal?_of_eq h.proposal_eq,
      (Proposal.hasApprovedByIndex_eq_false (Tallied.idx_lt h.idx_lt)).mp hbit⟩
  | cancelled h _ hbit _ _ _ =>
    cases hb
    exact ⟨_, Accounts.proposal?_of_eq h.proposal_eq,
      (Proposal.hasCancelledByIndex_eq_false (Tallied.idx_lt h.idx_lt)).mp hbit⟩
  | created | proposed | addedIntent | removedIntent | cleaned => cases hb

/-- The votes of a run are those with an accepted signature. -/
theorem marks_iff_casts {tr : List (Runs.Event Accounts Call)} (hrun : Runs.Run (program env) tr s)
    (he : e ∈ tr) : Marks a v j e ↔ ∃ k sig msg, Casts env a v j k sig msg e := by
  constructor
  · intro hm
    obtain ⟨later, earlier, -, hpre, hstep⟩ := hrun.step_of_mem he
    exact ((sound_of_reachable ⟨_, hpre⟩).effect hstep).casts hm
  · rintro ⟨k, sig, msg, hc⟩
    exact hc.marks

/-- The proposal at `a`, if there is one, is that of an intent with a given list of approvers. -/
structure ListedBy (a intentAddr : Address) (approvers : PodVec Address 16) (s : Accounts) : Prop where
  intent : ∃ i, s.intent? intentAddr = some i ∧ i.approvers = approvers
  proposal : ∀ p, s.proposal? a = some p → p.intent = intentAddr

/-- A proposal that exists stays with its intent and its list of approvers. -/
theorem Effect.listedBy (h : Effect env s c s') {intentAddr : Address} {approvers : PodVec Address 16}
    (hl : ListedBy a intentAddr approvers s) (halive : Alive a ⟨s, c, s'⟩) :
    ListedBy a intentAddr approvers s' := by
  obtain ⟨⟨i, hi, happ⟩, hprop⟩ := hl
  obtain ⟨i', hi', hd⟩ := h.intent_kept hi
  refine ⟨⟨i', hi', (Intent.approvers_congr hd).trans happ⟩, fun p' hp' => ?_⟩
  rcases h.proposal_origin hp' with ⟨p, hp, hterms, -⟩ | ⟨hnone, -⟩
  · exact (Proposal.intent_congr hterms).trans (hprop p hp)
  · simp only [Alive, Accounts.proposal?_of_eq hnone] at halive
    cases halive

/-- As long as a proposal exists, the key of a vote is the list entry at the index of the vote. -/
theorem voter_of_casts {later earlier : List (Runs.Event Accounts Call)}
    (hrun : Runs.Run (program env) (later ++ e :: earlier) s) (hc : Casts env a v j k sig msg e)
    (halive : ∀ e' ∈ later, Alive a e') {p : Proposal} (hp : s.proposal? a = some p) {i : Intent}
    (hi : s.intent? p.intent = some i) : i.approvers.toList[j.toNat]? = some k := by
  have halive₀ := hc.alive
  obtain ⟨b, _, i₀, _, -, -, -, -, -, hacc⟩ := hc
  obtain ⟨hpre, hstep⟩ := hrun.split
  have hpre_listed : ListedBy a b.intent i₀.approvers e.pre := by
    refine ⟨⟨i₀, Accounts.intent?_of_eq hacc.intent_eq, rfl⟩, fun q hq => ?_⟩
    rw [Accounts.proposal?_of_eq hacc.proposal_eq] at hq
    cases hq
    exact hacc.intent_addr
  have hlisted : Runs.Reachable (program env) s ∧ ListedBy a b.intent i₀.approvers s := by
    refine hrun.since (P := fun t => Runs.Reachable (program env) t ∧
      ListedBy a b.intent i₀.approvers t) ?_ ?_
    · have heff := (sound_of_reachable ⟨_, hpre⟩).effect hstep
      exact ⟨⟨_, hpre.next hstep⟩, heff.listedBy hpre_listed halive₀⟩
    · rintro e' he' ⟨hr, hl⟩ hstep'
      have heff := (sound_of_reachable hr).effect hstep'
      exact ⟨hr.next hstep', heff.listedBy hl (halive e' he')⟩
  obtain ⟨i₁, hi₁, happ⟩ := hlisted.2.intent
  rw [hlisted.2.proposal p hp, hi₁] at hi
  cases hi
  rw [happ]
  exact hacc.voter_eq

/-- The same of any vote in a part of the history in which the proposal existed. -/
theorem voter_of_mem {later earlier : List (Runs.Event Accounts Call)}
    (hrun : Runs.Run (program env) (later ++ earlier) s) (he : e ∈ later)
    (hc : Casts env a v j k sig msg e) (halive : ∀ e' ∈ later, Alive a e') {p : Proposal}
    (hp : s.proposal? a = some p) {i : Intent} (hi : s.intent? p.intent = some i) :
    i.approvers.toList[j.toNat]? = some k := by
  obtain ⟨newer, older, rfl⟩ := List.append_of_mem he
  rw [List.append_assoc, List.cons_append] at hrun
  exact voter_of_casts hrun hc (fun e' he' => halive e' (by simp [he'])) hp hi

/-! ### The recorded votes -/

/-- The bitmaps of a proposal hold, at each index, the last vote that was accepted there. -/
theorem recorded_of_run {tr : List (Runs.Event Accounts Call)} (hrun : Runs.Run (program env) tr s)
    {p : Proposal} (hp : s.proposal? a = some p) :
    j.toNat ∈ p.votes v ↔ Since (Marks a v j) (Quiet a j) tr := by
  induction hrun generalizing p with
  | start h =>
    subst h
    exact absurd hp (by simp [Accounts.proposal?, Accounts.none])
  | @next tr s s' c hr hs ih =>
    have heff := (sound_of_reachable ⟨_, hr⟩).effect hs
    rw [(heff.votes hp).mem_iff s', since_cons]
    refine or_congr_right (and_congr_right fun hq => ?_)
    obtain ⟨q, hq⟩ := Option.isSome_iff_exists.mp hq.1
    rw [← ih hq]
    simp only at hq
    simp [hq]

end ClearMsig
