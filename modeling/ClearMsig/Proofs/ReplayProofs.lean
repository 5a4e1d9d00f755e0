import ClearMsig.Proofs.VotesProofs
import ClearMsig.Sample

/-!
# When a signed vote is accepted again

Nothing in a vote is used up when it is accepted: what keeps it from being accepted twice in a row is
the bit at its index. So the votes at an index alternate, and a vote that was withdrawn can be
submitted again.
-/

namespace ClearMsig

open History

variable {env : Env} {s : Accounts} {a : Address}

/-- Between two votes of one kind at one index of a proposal, there was one of the other kind. -/
theorem opposite_mark_between {mid earlier : List (Runs.Event Accounts Call)}
    {e₁ e₂ : Runs.Event Accounts Call} {v : Vote} {j : UInt8}
    (hpre : Runs.Run (program env) (mid ++ e₁ :: earlier) e₂.pre)
    (hstep : process env e₂.pre e₂.label = .ok e₂.post) (h₁ : Marks a v j e₁) (h₂ : Marks a v j e₂)
    (halive : ∀ e ∈ mid, Alive a e) : ∃ e ∈ mid, Marks a v.opposite j e := by
  obtain ⟨p, hp, hbit⟩ := ((sound_of_reachable ⟨_, hpre⟩).effect hstep).unrecorded h₂
  by_contra hnone
  push Not at hnone
  -- then the last vote at the index is of the same kind, and its bit is set
  have hsince : Since (Marks a v j) (fun e => Alive a e ∧ ¬ Marks a v.opposite j e)
      (mid ++ e₁ :: earlier) :=
    ⟨mid, e₁, earlier, rfl, h₁, fun e he => ⟨halive e he, hnone e he⟩⟩
  refine hbit ((recorded_of_run hpre hp).mpr (hsince.latest.mono (fun _ _ h => h) ?_))
  rintro e - ⟨⟨hal, hopp⟩, hsame⟩
  refine ⟨hal, fun w => ?_⟩
  rcases Vote.eq_or_opposite w v with rfl | rfl
  · exact hsame
  · exact hopp

/-- The two votes of one kind and the one between them are those of the same key. -/
theorem opposite_between {later mid earlier : List (Runs.Event Accounts Call)}
    {e₁ e₂ : Runs.Event Accounts Call} {v : Vote} {j : UInt8} {k₁ k₂ : Address} {sig₁ sig₂ : Signature}
    {msg₁ msg₂ : Bytes} (hrun : Runs.Run (program env) (later ++ e₂ :: (mid ++ e₁ :: earlier)) s)
    (h₁ : Casts env a v j k₁ sig₁ msg₁ e₁) (h₂ : Casts env a v j k₂ sig₂ msg₂ e₂)
    (halive : ∀ e ∈ mid, Alive a e) :
    ∃ e ∈ mid, ∃ sig msg, Casts env a v.opposite j k₂ sig msg e := by
  obtain ⟨hpre, hstep⟩ := hrun.split
  obtain ⟨e, he, hm⟩ := opposite_mark_between hpre hstep h₁.marks h₂.marks halive
  obtain ⟨k, sig, msg, hc⟩ := (marks_iff_casts hpre (by simp [he])).mp hm
  obtain ⟨b, _, i, p, -, -, -, -, -, hacc⟩ := h₂
  have hkey := voter_of_mem hpre he hc halive (Accounts.proposal?_of_eq hacc.proposal_eq)
    (by rw [hacc.intent_addr]; exact Accounts.intent?_of_eq hacc.intent_eq)
  rw [hacc.voter_eq] at hkey
  cases hkey
  exact ⟨e, he, sig, msg, hc⟩

/-- A signed vote is accepted again at its index only after the same key's opposite vote at that index
has been accepted in between; and the vote recorded at an index is the last one that was accepted
there. -/
theorem replay_after_opposite (env : Env) (a : Address) :
    (∀ (later mid earlier : List (Runs.Event Accounts Call)) (e₁ e₂ : Runs.Event Accounts Call)
      (s : Accounts) (v : Vote) (j : UInt8) (k : Address) (sig : Signature) (msg : Bytes),
      Runs.Run (program env) (later ++ e₂ :: (mid ++ e₁ :: earlier)) s →
      Casts env a v j k sig msg e₁ → Casts env a v j k sig msg e₂ → (∀ e ∈ mid, Alive a e) →
      ∃ e ∈ mid, ∃ sig' msg', Casts env a v.opposite j k sig' msg' e) ∧
    (∀ (tr : List (Runs.Event Accounts Call)) (s : Accounts) (p : Proposal),
      Runs.Run (program env) tr s → s.proposal? a = some p → ∀ (v : Vote) (j : UInt8),
      (j.toNat ∈ p.votes v ↔ Since (fun e => ∃ k sig msg, Casts env a v j k sig msg e)
        (fun e => Alive a e ∧ ∀ v' k sig msg, ¬ Casts env a v' j k sig msg e) tr)) := by
  constructor
  · intro later mid earlier e₁ e₂ s v j k sig msg hrun h₁ h₂ halive
    exact opposite_between hrun h₁ h₂ halive
  · intro tr s p hrun hp v j
    rw [recorded_of_run hrun hp]
    refine since_congr (fun e he => marks_iff_casts hrun he) fun e he => ?_
    refine and_congr_right fun _ => forall_congr' fun w => ?_
    rw [marks_iff_casts hrun he]
    push Not
    rfl

namespace ReplaySample

open Sample

def table : List (Address × Bytes) :=
  [(key 1, message "expires 1970-01-01 00:16:40: propose remove intent 2 | wallet: a proposal: 0"),
   (key 2, message "expires 1970-01-01 00:16:40: approve remove intent 2 | wallet: a proposal: 0"),
   (key 2, message "expires 1970-01-01 00:16:40: cancel remove intent 2 | wallet: a proposal: 0")]

/-- Key 2 approves, withdraws the approval, and the first signature is submitted again. -/
def calls : List Call :=
  [create "a" 2 2 [key 2, key 3], propose "a" 1 0 [2], approve "a" 1 0 0 1, cancel "a" 1 0 0 2,
   approve "a" 1 0 0 1]

/-- The message of row `n` of the table. -/
def messageAt (n : Nat) : Bytes := (table.getD n (key 0, [])).2

/-- A vote that is accepted with signature `n` is that of row `n` of the table. -/
theorem casts_of_table {e : Runs.Event Accounts Call} (hs : Sound e.pre)
    (h : process (Sample.env table) e.pre e.label = .ok e.post) {b : Ballot}
    (hb : e.label.ix.ballot? = some b) {n : UInt8} (hn : b.signature = sig n) {k : Address} {msg : Bytes}
    (hrow : verify table k (sig n) msg = true) :
    Casts (Sample.env table) b.proposal b.vote b.index k (sig n) msg e := by
  obtain ⟨k', sig', msg', b', w, i, p, hb', hv, ha, hj, hsig, hacc⟩ :=
    (hs.effect h).casts ⟨b, hb, rfl, rfl, rfl⟩
  have hbb : b' = b := Option.some.inj (hb'.symm.trans hb)
  subst hbb
  rw [hn] at hsig
  subst hsig
  obtain ⟨rfl, rfl⟩ := env_idealSignatures table k k' (sig n) msg msg' hrow hacc.verified
  exact ⟨b', w, i, p, hb, rfl, rfl, rfl, hn, hacc⟩

/-- The run of the calls with its three votes. -/
theorem run_of_calls : ∃ (e₁ e₂ e₃ : Runs.Event Accounts Call)
    (earlier : List (Runs.Event Accounts Call)) (s : Accounts) (p : Proposal),
    Runs.Run (program (Sample.env table)) ([] ++ e₃ :: ([e₂] ++ e₁ :: earlier)) s ∧
    Casts (Sample.env table) (proposal "a" 1 0) .approve 0 (key 2) (sig 1) (messageAt 1) e₁ ∧
    Casts (Sample.env table) (proposal "a" 1 0) .cancel 0 (key 2) (sig 2) (messageAt 2) e₂ ∧
    Casts (Sample.env table) (proposal "a" 1 0) .approve 0 (key 2) (sig 1) (messageAt 1) e₃ ∧
    s.proposal? (proposal "a" 1 0) = some p ∧ 0 ∈ p.yes := by
  have hobs : observe (Sample.env table) calls (fun _ s =>
      (s.proposal? (proposal "a" 1 0)).map (·.approvalBitmap)) = some (some 1) := by
    rw [table, message_ofList, message_ofList, message_ofList]
    decide +kernel
  obtain ⟨tr, s, hrun, hlabels, hstate⟩ := run_of_observe hobs
  obtain ⟨p, hp, hbits⟩ := Option.map_eq_some_iff.mp hstate
  simp only [calls, List.reverse_cons, List.reverse_nil, List.nil_append, List.cons_append,
    List.map_eq_cons_iff] at hlabels
  obtain ⟨e₃, _, rfl, hl₃, e₂, _, rfl, hl₂, e₁, earlier, rfl, hl₁, -⟩ := hlabels
  obtain ⟨hpre₃, hstep₃, rfl⟩ := hrun.last
  obtain ⟨hpre₂, hstep₂, -⟩ := hpre₃.last
  obtain ⟨hpre₁, hstep₁, -⟩ := hpre₂.last
  have row {n : UInt8} (h : verify table (key 2) (sig n) (messageAt n.toNat) = true)
      {e : Runs.Event Accounts Call} {tr : List (Runs.Event Accounts Call)}
      (hpre : Runs.Run (program (Sample.env table)) tr e.pre)
      (hstep : process (Sample.env table) e.pre e.label = .ok e.post) {b : Ballot}
      (hb : e.label.ix.ballot? = some b) (hn : b.signature = sig n) :=
    casts_of_table (sound_of_reachable ⟨_, hpre⟩) hstep hb hn h
  refine ⟨e₁, e₂, e₃, earlier, e₃.post, p, hrun, ?_, ?_, ?_, hp, ?_⟩
  · exact row (n := 1) (by decide +kernel) hpre₁ hstep₁ (by rw [hl₁]; rfl) rfl
  · exact row (n := 2) (by decide +kernel) hpre₂ hstep₂ (by rw [hl₂]; rfl) rfl
  · exact row (n := 1) (by decide +kernel) hpre₃ hstep₃ (by rw [hl₃]; rfl) rfl
  · rw [Proposal.yes, hbits]
    decide

end ReplaySample

open ReplaySample Sample in
theorem replay_after_opposite_sample :
    ∃ (e₁ e₂ e₃ : Runs.Event Accounts Call) (earlier : List (Runs.Event Accounts Call)) (s : Accounts)
      (p : Proposal), Runs.Run (program (Sample.env table)) ([] ++ e₃ :: ([e₂] ++ e₁ :: earlier)) s ∧
      (∃ e ∈ [e₂], ∃ sig' msg',
        Casts (Sample.env table) (proposal "a" 1 0) .cancel 0 (key 2) sig' msg' e) ∧
      s.proposal? (proposal "a" 1 0) = some p ∧
      Since (fun e => ∃ k sig msg, Casts (Sample.env table) (proposal "a" 1 0) .approve 0 k sig msg e)
        (fun e => Alive (proposal "a" 1 0) e ∧
          ∀ v' k sig msg, ¬ Casts (Sample.env table) (proposal "a" 1 0) v' 0 k sig msg e)
        ([] ++ e₃ :: ([e₂] ++ e₁ :: earlier)) := by
  obtain ⟨e₁, e₂, e₃, earlier, s, p, hrun, h₁, h₂, h₃, hp, hyes⟩ := run_of_calls
  obtain ⟨hagain, hrecorded⟩ := replay_after_opposite (Sample.env table) (proposal "a" 1 0)
  refine ⟨e₁, e₂, e₃, earlier, s, p, hrun, ?_, hp, (hrecorded _ s p hrun hp .approve 0).mp hyes⟩
  refine hagain [] [e₂] earlier e₁ e₃ s .approve 0 (key 2) (sig 1) (messageAt 1) hrun h₁ h₃ ?_
  rintro e he
  rw [List.mem_singleton.mp he]
  exact h₂.alive

open ReplaySample Sample in
/-- A signed vote can be accepted twice. -/
theorem not_accepted_once :
    ¬ ∀ (later mid earlier : List (Runs.Event Accounts Call)) (e₁ e₂ : Runs.Event Accounts Call)
      (s : Accounts) (a : Address) (v : Vote) (j : UInt8) (k : Address) (sig : Signature) (msg : Bytes),
      Runs.Run (program (Sample.env table)) (later ++ e₂ :: (mid ++ e₁ :: earlier)) s →
      Casts (Sample.env table) a v j k sig msg e₁ → ¬ Casts (Sample.env table) a v j k sig msg e₂ := by
  intro honce
  obtain ⟨e₁, e₂, e₃, earlier, s, p, hrun, h₁, h₂, h₃, hp, hyes⟩ := run_of_calls
  exact honce [] [e₂] earlier e₁ e₃ s _ _ _ _ _ _ hrun h₁ h₃

end ClearMsig
