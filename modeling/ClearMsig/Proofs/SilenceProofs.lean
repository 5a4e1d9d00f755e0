import ClearMsig.Proofs.NoninterferenceProofs

/-!
# Nothing happens in silence

A wallet without proposals changes only through a `propose` on it, which takes a signature of one of its
proposers. As long as none of them signs, every account of the wallet stays as it is, whoever calls the
program in the meantime.
-/

namespace ClearMsig

variable {env : Env} {s s' : Accounts} {c : Call} {W : Address}

/-- The call proposes with a signature that verifies under the key, whatever the message. -/
def Call.ProposedBy (env : Env) (c : Call) (k : Address) : Prop :=
  ∃ payer walletAddr intentAddr args, c.ix = .propose payer walletAddr intentAddr args ∧
    args.proposerPubkey = k ∧ ∃ msg, env.sigVerify k args.signature msg = true

namespace Accounts

/-- There is no proposal on the wallet. -/
def IdleAt (s : Accounts) (W : Address) : Prop := ∀ a p, s.proposal? a = some p → p.wallet ≠ W

/-- The proposers of all the intents of the wallet. -/
def proposersAt (s : Accounts) (W : Address) : Set Address :=
  {k | ∃ a i, s.intent? a = some i ∧ i.wallet = W ∧ k ∈ i.proposers.toList}

/-- What the accounts of the wallet show is the same in another state in which they are the same. -/
theorem eq_some_of_only (honly : s'.only W = s.only W) {a : Address} {d : AccountData} (hd : s' a = some d)
    (ho : d.owner a = W) : s a = some d := by
  have heq := congrFun honly a
  rw [Accounts.only, Accounts.only, hd, Option.filter_some, if_pos (by simpa using ho)] at heq
  exact Option.eq_some_of_filter_eq_some heq.symm

theorem IdleAt.congr (h : s.IdleAt W) (honly : s'.only W = s.only W) : s'.IdleAt W := fun a p hp hw =>
  h a p (proposal?_of_eq (eq_some_of_only honly (proposal?_eq_some.mp hp) hw)) hw

theorem proposersAt_subset (honly : s'.only W = s.only W) : s'.proposersAt W ⊆ s.proposersAt W := by
  rintro k ⟨a, i, hi, hw, hk⟩
  exact ⟨a, i, intent?_of_eq (eq_some_of_only honly (intent?_eq_some.mp hi) hw), hw, hk⟩

/-- A call that is accepted on an idle wallet is a proposal, signed by one of its proposers. -/
theorem IdleAt.proposedBy (h : s.IdleAt W) {w : ClearWallet} (hw : s.wallet? W = some w)
    (heff : Effect env s c s') (hworks : c.worksOn env s = some W) :
    ∃ k ∈ s.proposersAt W, c.ProposedBy env k := by
  cases heff with
  | created hpda _ _ _ _ hfresh =>
    cases hworks
    subst hpda
    cases hw.symm.trans (wallet?_of_eq hfresh)
  | proposed hacc =>
    cases hworks
    exact ⟨_, ⟨_, _, intent?_of_eq hacc.intent_eq, hacc.has_one, List.contains_iff_mem.mp hacc.proposer⟩,
      _, _, _, _, rfl, rfl, _, hacc.signature⟩
  | approved hacc | cancelled hacc =>
    cases hworks
    exact absurd hacc.wallet_addr (h _ _ (proposal?_of_eq hacc.proposal_eq))
  | addedIntent hl | removedIntent hl =>
    cases hworks
    exact absurd hl.wallet_addr (h _ _ (proposal?_of_eq hl.proposal_eq))
  | cleaned hp =>
    obtain ⟨p, hp', hwallet⟩ := Option.map_eq_some_iff.mp hworks
    exact absurd hwallet (h _ p hp')

end Accounts

/-- Nothing happens to a wallet in silence: from a state in which there is no proposal on it, as long as no
call proposes with a signature of one of its proposers, its accounts stay as they are, whatever is called. -/
theorem unchanged_in_silence {later earlier : List (Runs.Event Accounts Call)} {e : Runs.Event Accounts Call}
    (hrun : Runs.Run (program env) (later ++ e :: earlier) s) (hinj : PdaInjective env s)
    (hadd : ∀ e' ∈ later ++ e :: earlier, NamesOwn e') {w : ClearWallet} (hw : e.post.wallet? W = some w)
    (hidle : e.post.IdleAt W)
    (hsilent : ∀ e' ∈ later, ∀ k ∈ e.post.proposersAt W, ¬ e'.label.ProposedBy env k) :
    s.only W = e.post.only W := by
  have hnow : s.only W = e.post.only W ∧ Runs.Reachable (program env) s ∧ ∃ w, s.wallet? W = some w := by
    obtain ⟨hpre, hstep⟩ := hrun.split
    refine hrun.since (P := fun t => t.only W = e.post.only W ∧ Runs.Reachable (program env) t ∧
      ∃ w, t.wallet? W = some w) ⟨rfl, ⟨_, hpre.next hstep⟩, w, hw⟩ ?_
    rintro e' he' ⟨honly, hr, w', hw'⟩ hstep'
    have heff := (sound_of_reachable hr).effect hstep'
    have hnot : e'.label.worksOn env e'.pre ≠ some W := by
      intro hworks
      obtain ⟨k, hk, hby⟩ := (hidle.congr honly).proposedBy hw' heff hworks
      exact hsilent e' he' k (Accounts.proposersAt_subset honly hk) hby
    have hsteps := steps_of_run hrun hinj hadd W (List.mem_append_left _ he')
    exact ⟨(hsteps.silent (decide_eq_false hnot)).trans honly, hr.next hstep', heff.wallet_kept hw'⟩
  exact hnow.1

namespace SilenceSample

open Sample NoninterferenceSample

/-- Wallet `a`, and another wallet after it. -/
def calls : List Call := [create "a" 1 1 [key 2], create "b" 1 1 [key 3]]

theorem run_calls : observe (Sample.env []) calls
    (fun tr _ => tr.all fun e => shortWallet e.label && addsNothing e) = some true := by
  decide +kernel

end SilenceSample

open SilenceSample NoninterferenceSample Sample in
theorem unchanged_in_silence_sample :
    ∃ (e' e : Runs.Event Accounts Call) (s : Accounts), Runs.Run (program (Sample.env [])) [e', e] s ∧
      [e', e].map (·.label) = SilenceSample.calls.reverse ∧ s.only (wallet "a") = e.post.only (wallet "a") := by
  obtain ⟨tr, s, hrun, hlabels, hinj, hadd⟩ := run_of_calls SilenceSample.run_calls
  have hmap := hlabels
  simp only [SilenceSample.calls, List.reverse_cons, List.reverse_nil, List.nil_append, List.cons_append,
    List.map_eq_cons_iff, List.map_eq_nil_iff] at hlabels
  obtain ⟨e', -, rfl, hl', e, -, rfl, hl, rfl⟩ := hlabels
  have hrun' : Runs.Run (program (Sample.env [])) ([e'] ++ e :: []) s := hrun
  obtain ⟨hpre, hstep⟩ := hrun'.split
  have heff := (sound_of_reachable ⟨_, hpre⟩).effect hstep
  obtain ⟨w, hw⟩ := heff.wallet_created (congrArg Call.ix hl)
  have hidle : e.post.IdleAt (wallet "a") := by
    intro a p hp _
    rcases heff.proposal_origin hp with ⟨q, hq, -⟩ | ⟨-, hnew⟩
    · cases hpre with
      | start h =>
        rw [h] at hq
        cases hq
    · cases hnew with
      | mk hc =>
        rw [hl] at hc
        cases hc
  refine ⟨e', e, s, hrun, hmap, unchanged_in_silence hrun' hinj hadd hw hidle ?_⟩
  rintro e'' he'' k - ⟨_, _, _, _, hix, -⟩
  rw [List.mem_singleton.mp he'', hl'] at hix
  cases hix

end ClearMsig
