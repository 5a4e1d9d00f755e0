import ClearMsig.Foundation.History
import ClearMsig.Proofs.QuorumProofs

/-!
# The timelock

`cancel` leaves `approved_at` behind when an approved proposal falls back to Active, and the next
`approve` that reaches the threshold overwrites it. So in an approved proposal the field is the time of
the last step from Active to Approved, and the votes have reached the threshold ever since.
-/

namespace ClearMsig

open History
open Registry

variable {env : Env} {s s' : Accounts} {c : Call} {a : Address}

/-- The event is an `approve` at time `t` that takes the proposal at `a` from Active to Approved. -/
def Crosses (a : Address) (t : Int64) (e : Runs.Event Accounts Call) : Prop :=
  e.label.clock = t ∧ (∃ wallet intent args, e.label.ix = .approve wallet intent a args) ∧
    (∃ p, e.pre.proposal? a = some p ∧ p.status = .active) ∧
    ∃ p, e.post.proposal? a = some p ∧ p.status = .approved

/-- The proposal at `a` is approved, with as many approval bits as its intent asks for. -/
def Accounts.QuorumAt (s : Accounts) (a : Address) : Prop :=
  ∃ p i, s.proposal? a = some p ∧ s.intent? p.intent = some i ∧ p.status = .approved ∧
    i.approvalThreshold.toNat ≤ countOnes p.approvalBitmap

/-! ## One step -/

theorem Approve.vote_approvedAt {intent : Intent} {p : Proposal} {clock : Int64} {idx : UInt8}
    (hactive : p.status = .active) (h : (vote intent p clock idx).status = .approved) :
    (vote intent p clock idx).approvedAt = clock := by
  have hset : (p.setApproval idx).status = p.status := rfl
  simp only [vote] at h ⊢
  split_ifs at h ⊢ with hge
  · rfl
  · rw [hset, hactive] at h
    cases h

theorem Cancel.vote_approvedAt {intent : Intent} {p : Proposal} {idx : UInt8} :
    (vote intent p idx).2.approvedAt = p.approvedAt := by
  simp only [vote]
  split_ifs <;> rfl

theorem Cancel.vote_status_approved {intent : Intent} {p : Proposal} {idx : UInt8}
    (h : (vote intent p idx).2.status = .approved) : p.status = .approved := by
  have hset : (p.setCancellation idx).status = p.status := rfl
  simp only [vote] at h
  split_ifs at h
  exact hset ▸ h

/-- A proposal that is approved after a step was so before, with the same time stamp, or the step is
the `approve` that made it so. -/
theorem Effect.approved_origin (h : Effect env s c s') {p' : Proposal}
    (hp' : s'.proposal? a = some p') (hst : p'.status = .approved) :
    (∃ p, s.proposal? a = some p ∧ p.status = .approved ∧ p'.approvedAt = p.approvedAt) ∨
      Crosses a p'.approvedAt ⟨s, c, s'⟩ := by
  cases h with
  | created hw hchecked h₀ h₁ h₂ hfresh hfresh₀ hfresh₁ hfresh₂ hwallet hintent hproposal =>
    exact .inl ⟨p', hproposal ▸ hp', hst, rfl⟩
  | proposed h hdata hwallet hintent hproposal =>
    rw [hproposal] at hp'
    rcases update_origin hp' with hp | ⟨rfl, rfl⟩
    · exact .inl ⟨p', hp, hst, rfl⟩
    · cases hst
  | approved h happroved hactive hbit hwallet hintent hproposal =>
    have hpost := hp'
    rw [hproposal] at hp'
    rcases update_origin hp' with hp | ⟨rfl, rfl⟩
    · exact .inl ⟨p', hp, hst, rfl⟩
    · refine .inr ⟨(Approve.vote_approvedAt hactive hst).symm, ⟨_, _, _, rfl⟩, ?_, _, hpost, hst⟩
      exact ⟨_, Accounts.proposal?_of_eq h.proposal_eq, hactive⟩
  | cancelled h hopen hbit hwallet hintent hproposal =>
    rw [hproposal] at hp'
    rcases update_origin hp' with hp | ⟨rfl, rfl⟩
    · exact .inl ⟨p', hp, hst, rfl⟩
    · exact .inl ⟨_, Accounts.proposal?_of_eq h.proposal_eq, Cancel.vote_status_approved hst,
        Cancel.vote_approvedAt⟩
  | addedIntent h htype hnew hfresh hwallet hintent hproposal
  | removedIntent h htype htarget hcount hreleased hwallet hintent hproposal =>
    rw [hproposal] at hp'
    rcases update_origin hp' with hp | ⟨rfl, rfl⟩
    · exact .inl ⟨p', hp, hst, rfl⟩
    · cases hst
  | cleaned hp hclosed hwallet hintent hproposal =>
    rw [hproposal] at hp'
    exact .inl ⟨p', (update_none_origin hp').2, hst, rfl⟩

/-- In a sound state an approved proposal has its quorum. -/
theorem Sound.quorumAt (hs : Sound s) {p : Proposal} (hp : s.proposal? a = some p)
    (hst : p.status = .approved) : s.QuorumAt a := by
  obtain ⟨i, hi, -, ht⟩ := hs.proposals a p hp
  have hth := hs.thresholdsOk (Accounts.intent?_eq_some.mp hi) ht hst
  refine ⟨p, i, hp, hi, hst, ?_⟩
  rw [Proposal.countOnes_eq_card]
  exact (ht.approved_iff hth (.inr hst)).mp hst

/-! ## Runs -/

/-- At the end of every run, the time stamp of an approved proposal is that of the step that approved
it, and it has been approved with its quorum since. -/
theorem crossed_of_run {tr : List (Runs.Event Accounts Call)} (hrun : Runs.Run (program env) tr s)
    {p : Proposal} (hp : s.proposal? a = some p) (hst : p.status = .approved) :
    Since (fun e => Crosses a p.approvedAt e ∧ e.post.QuorumAt a) (fun e => e.post.QuorumAt a) tr := by
  induction hrun generalizing p with
  | start h =>
    subst h
    exact absurd hp (by simp [Accounts.proposal?, Accounts.none])
  | next hr hstep ih =>
    have hs := sound_of_reachable ⟨_, hr⟩
    have hquorum := (hs.step hstep).quorumAt hp hst
    rw [since_cons]
    rcases (hs.effect hstep).approved_origin hp hst with ⟨p₀, hp₀, hst₀, hat⟩ | hcross
    · rw [hat]
      exact .inr ⟨hquorum, ih hp₀ hst₀⟩
    · exact .inl ⟨hcross, hquorum⟩

/-- The timelock runs in full on a continuous approval, whatever the clock values of a run are: an
execution at time `t` comes at least the timelock after an `approve` at a time `t₀` that took the
proposal from Active to Approved, and in every state since then the proposal has been approved with its
quorum. That `approve` comes after every step that left the proposal without it. -/
theorem timelock_in_full (env : Env) {later earlier : List (Runs.Event Accounts Call)}
    {e : Runs.Event Accounts Call} {s : Accounts} {declared : Execute.Declared}
    {intentAddr a : Address} {remaining : List AccountView}
    (hrun : Runs.Run (program env) (later ++ e :: earlier) s)
    (hix : e.label.ix = .execute declared intentAddr a remaining) :
    ∃ i t₀, e.pre.intent? intentAddr = some i ∧
      t₀.toInt + i.timelockSeconds.toNat ≤ e.label.clock.toInt ∧
      Since (fun e' => Crosses a t₀ e' ∧ e'.post.QuorumAt a) (fun e' => e'.post.QuorumAt a) earlier ∧
      ∀ mid e₁ old, earlier = mid ++ e₁ :: old → ¬ e₁.post.QuorumAt a → ∃ e₂ ∈ mid, Crosses a t₀ e₂ := by
  obtain ⟨hpre, hstep⟩ := hrun.split
  obtain ⟨w, i, p, hl⟩ := Execute.loaded_of_process hstep hix
  have hsince := crossed_of_run hpre (Accounts.proposal?_of_eq hl.proposal_eq) hl.approved
  refine ⟨i, p.approvedAt, Accounts.intent?_of_eq hl.intent_eq, hl.unlocked, hsince, ?_⟩
  rintro mid e₁ old rfl hlost
  obtain ⟨late, e₂, early, rfl, ⟨hcross, -⟩, -⟩ := hsince.after (fun h => hlost h.2) hlost
  exact ⟨e₂, by simp, hcross⟩

namespace TimelockSample

open Sample

def table : List (Address × Bytes) :=
  [(key 1, message "expires 1970-01-01 00:16:40: propose remove intent 2 | wallet: a proposal: 0"),
   (key 2, message "expires 1970-01-01 00:16:40: approve remove intent 2 | wallet: a proposal: 0"),
   (key 2, message "expires 1970-01-01 00:16:40: cancel remove intent 2 | wallet: a proposal: 0")]

/-- One approval is enough and the timelock is ten seconds. The approval at time 1 is withdrawn at time
3 and given again at time 5. -/
def calls : List Call :=
  [⟨0, .createWallet (nameHash "a") ⟨ascii "a", 1, 2, 10, [key 1], [key 2, key 3]⟩⟩,
   propose "a" 1 0 [2], { approve "a" 1 0 0 1 with clock := 1 }, { cancel "a" 1 0 0 2 with clock := 3 },
   { approve "a" 1 0 0 1 with clock := 5 }]

/-- The execution at the end of the second timelock. -/
def execution : Call := { execute "a" 1 0 [intent "a" 2] with clock := 15 }

end TimelockSample

open TimelockSample Sample in
theorem timelock_in_full_sample :
    ∃ (e : Runs.Event Accounts Call) (earlier : List (Runs.Event Accounts Call)) (s : Accounts)
      (i : Intent) (t₀ : Int64),
      Runs.Run (program (Sample.env table)) (e :: earlier) s ∧ e.label = execution ∧
      e.pre.intent? (intent "a" 1) = some i ∧
      t₀.toInt + i.timelockSeconds.toNat ≤ execution.clock.toInt ∧
      Since (fun e' => Crosses (proposal "a" 1 0) t₀ e' ∧ e'.post.QuorumAt (proposal "a" 1 0))
        (fun e' => e'.post.QuorumAt (proposal "a" 1 0)) earlier := by
  have hobs : observe (Sample.env table) (calls ++ [execution]) (fun _ _ => ()) = some () := by
    rw [table, message_ofList, message_ofList, message_ofList]
    decide +kernel
  obtain ⟨tr, s, hrun, hlabels, -⟩ := run_of_observe hobs
  simp only [List.reverse_append, List.reverse_cons, List.reverse_nil, List.nil_append,
    List.cons_append, List.map_eq_cons_iff] at hlabels
  obtain ⟨e, earlier, rfl, hl, -⟩ := hlabels
  have hrun' : Runs.Run (program (Sample.env table)) ([] ++ e :: earlier) s := hrun
  obtain ⟨i, t₀, hi, hle, hsince, -⟩ := timelock_in_full (Sample.env table) hrun' (by rw [hl]; rfl)
  rw [hl] at hle
  exact ⟨e, earlier, s, i, t₀, hrun, hl, hi, hle, hsince⟩

end ClearMsig
