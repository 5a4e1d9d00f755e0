import ClearMsig.Proofs.CounterProofs
import ClearMsig.Sample

/-!
# A removed intent stays dead

`execute_remove_intent` clears the flag of an intent whose counter is zero, so that it has no open proposal.
Nothing sets the flag again, and without it no proposal can be opened. That `execute` does not look at the
flag does no harm, because an approved proposal is an open one.
-/

namespace ClearMsig

open Registry

variable {env : Env} {s s' : Accounts} {c : Call} {target : Address}

/-- The event executes a proposal to remove the intent at `target`. -/
def Removes (env : Env) (target : Address) (e : Runs.Event Accounts Call) : Prop :=
  ∃ declared intentAddr proposalAddr remaining i p k,
    e.label.ix = .execute declared intentAddr proposalAddr remaining ∧
    e.pre.intent? intentAddr = some i ∧ i.readType = .ok .removeIntent ∧
    e.pre.proposal? proposalAddr = some p ∧ p.paramsData.toList = [k] ∧
    target = env.intentPda declared.wallet.address k

/-- `propose`, `approve` or `execute` on an intent. -/
def Instruction.UsesIntent (target : Address) : Instruction → Prop
  | .propose _ _ intent _ | .approve _ intent _ _ | .execute _ intent _ _ => intent = target
  | .createWallet _ _ | .cancel _ _ _ _ | .cleanupProposal _ _ => False

/-- The intent is there and its flag is cleared. -/
def Accounts.RemovedAt (s : Accounts) (target : Address) : Prop :=
  ∃ i, s.intent? target = some i ∧ i.approved = 0

/-! ## The removal -/

theorem Counted.openProposals_eq_empty (hc : Counted s) {i : Intent} (hi : s.intent? target = some i)
    (hcount : i.activeProposalCount = 0) : s.openProposals target = ∅ := by
  have hle := hc.le target i hi
  rwa [hcount, UInt16.toNat_zero, Nat.cast_zero, nonpos_iff_eq_zero, Set.encard_eq_zero] at hle

/-- An intent whose flag is cleared has no open proposal. -/
theorem Accounts.RemovedAt.openProposals_eq_empty (h : s.RemovedAt target) (hc : Counted s) :
    s.openProposals target = ∅ := by
  obtain ⟨i, hi, hflag⟩ := h
  refine Set.eq_empty_iff_forall_notMem.mpr ?_
  rintro a ⟨p, hp, rfl, hopen⟩
  have happ := hc.approved a p i hp hopen hi
  rw [Intent.isApproved, hflag] at happ
  cases happ

/-- The execution of a `RemoveIntent` finds its target without open proposals and clears its flag. -/
theorem removedAt_of_execute (hc : Counted s) (h : process env s c = .ok s')
    (hrem : Removes env target ⟨s, c, s'⟩) : s.openProposals target = ∅ ∧ s'.RemovedAt target := by
  obtain ⟨declared, intentAddr, proposalAddr, remaining, i, p, k, hix, hi, ht, hp, hk, rfl⟩ := hrem
  obtain ⟨clock, ix⟩ := c
  simp only at hix hi hp
  subst hix
  obtain ⟨wallet, intent, proposal, hl, s₁, hs₁, hfin⟩ := Execute.of_execute_eq_ok h
  obtain rfl := Option.some.inj (hi.symm.trans (Accounts.intent?_of_eq hl.intent_eq))
  obtain rfl := Option.some.inj (hp.symm.trans (Accounts.proposal?_of_eq hl.proposal_eq))
  rw [Execute.dispatch, ht, ok_bind] at hs₁
  obtain ⟨index, t, hindex, htarget, hcount, rfl⟩ := Execute.of_executeRemoveIntent_eq_ok hs₁
  obtain ⟨p', i', hp', hi', rfl⟩ := Execute.finish_eq_ok.mp hfin
  simp only at hindex htarget hp' hi'
  obtain rfl := List.head_eq_of_cons_eq (hk.symm.trans hindex)
  have ht' := Accounts.intent?_of_eq htarget
  refine ⟨hc.openProposals_eq_empty ht' hcount, ?_⟩
  -- the executed intent has an open proposal, the target has none
  have hne : env.intentPda declared.wallet.address k ≠ intentAddr := by
    intro heq
    have hpos := hc.pos hp (.inr hl.approved) (hl.intent_addr ▸ hi)
    rw [heq] at ht'
    rw [Option.some.inj (hi.symm.trans ht'), hcount] at hpos
    exact absurd hpos (by decide)
  have hproposal := Accounts.ne_of_data htarget hl.proposal_eq (by simp)
  refine ⟨{ t with approved := 0 }, ?_, rfl⟩
  simp only [Accounts.intent?_set, AccountData.intent?]
  rw [Function.update_of_ne hne, Function.update_of_ne hproposal, Function.update_self]

/-! ## Afterwards -/

/-- No step sets the flag again. -/
theorem Accounts.RemovedAt.step (h : s.RemovedAt target) (hs : Sound s) (hstep : process env s c = .ok s') :
    s'.RemovedAt target := by
  obtain ⟨i, hi, hflag⟩ := h
  have heff := hs.effect hstep
  obtain ⟨i', hi', -⟩ := heff.intent_kept hi
  refine ⟨i', hi', ?_⟩
  rcases heff.approved_kept hi hi' with heq | ⟨-, -, hzero⟩
  · exact heq.trans hflag
  · exact hzero

/-- No call that uses the intent is accepted. -/
theorem Accounts.RemovedAt.unused (h : s.RemovedAt target) (hc : Counted s)
    (hstep : process env s c = .ok s') : ¬ c.ix.UsesIntent target := by
  have hempty := h.openProposals_eq_empty hc
  obtain ⟨i, hi, hflag⟩ := h
  have hflagged {j : Intent} (hj : s target = some (.intent j)) : j.isApproved = false := by
    rw [Accounts.intent?_of_eq hj] at hi
    cases hi
    rw [Intent.isApproved, hflag]
    rfl
  obtain ⟨clock, ix⟩ := c
  intro huse
  cases ix with
  | propose payer wallet intent args =>
    obtain ⟨w, j, msg, data, hacc, -, -⟩ := Propose.propose_eq_ok.mp hstep
    cases huse
    exact absurd hacc.approved (by rw [hflagged hacc.intent_eq]; simp)
  | approve wallet intent proposal args =>
    obtain ⟨w, j, p, voter, msg, hacc, happ, -⟩ := Approve.approve_eq_ok.mp hstep
    cases huse
    exact absurd happ (by rw [hflagged hacc.intent_eq]; simp)
  | execute declared intent proposal remaining =>
    obtain ⟨w, j, p, hl⟩ := Execute.loaded_of_process hstep rfl
    cases huse
    have hmem : proposal ∈ s.openProposals target :=
      (mem_keys_iff (Accounts.proposal?_of_eq hl.proposal_eq)).mpr ⟨hl.intent_addr, .inr hl.approved⟩
    rw [hempty] at hmem
    exact hmem
  | createWallet | cancel | cleanupProposal => exact huse

/-- A removed intent stays dead. In every run in which a proposal to remove an intent has been executed,
the intent had no open proposal before and after that step, its flag is cleared in every state from then
on, and no further call of `propose`, `approve` or `execute` on it is accepted. -/
theorem removed_stays_dead (env : Env) {later earlier : List (Runs.Event Accounts Call)}
    {e : Runs.Event Accounts Call} (hrun : Runs.Run (program env) (later ++ e :: earlier) s)
    (hrem : Removes env target e) :
    e.pre.openProposals target = ∅ ∧ e.post.openProposals target = ∅ ∧ s.RemovedAt target ∧
      ∀ c s', process env s c = .ok s' → ¬ c.ix.UsesIntent target := by
  obtain ⟨hpre, hstep⟩ := hrun.split
  have hreach : Runs.Reachable (program env) e.pre := ⟨_, hpre⟩
  obtain ⟨hempty, hdead⟩ :=
    removedAt_of_execute (counted_of_reachable hreach) hstep hrem
  have hnow : Sound s ∧ s.RemovedAt target :=
    hrun.since (P := fun s => Sound s ∧ s.RemovedAt target)
      ⟨(sound_of_reachable hreach).step hstep, hdead⟩
      fun e' _ hd hstep' => ⟨hd.1.step hstep', hd.2.step hd.1 hstep'⟩
  refine ⟨hempty, hdead.openProposals_eq_empty (counted_of_reachable (hreach.next hstep)), hnow.2, ?_⟩
  intro c s' hc
  exact hnow.2.unused (counted_of_reachable ⟨_, hrun⟩) hc

namespace RemovalSample

open Sample

def table : List (Address × Bytes) :=
  [(key 1, message "expires 1970-01-01 00:16:40: propose remove intent 2 | wallet: a proposal: 0"),
   (key 2, message "expires 1970-01-01 00:16:40: approve remove intent 2 | wallet: a proposal: 0"),
   (key 1, message "expires 1970-01-01 00:16:40: propose remove intent 0 | wallet: a proposal: 1")]

/-- Intent 2 is removed, and another proposal follows. -/
def calls : List Call :=
  [create "a" 1 1 [key 2], propose "a" 1 0 [2], approve "a" 1 0 0 1, execute "a" 1 0 [intent "a" 2],
   propose "a" 1 2 [0]]

/-- The type of the intent and the parameters of the proposal that the call before the last executes. -/
def observed (tr : List (Runs.Event Accounts Call)) (_ : Accounts) : Option (Option UInt8 × Option Bytes) :=
  tr[1]?.map fun e => ((e.pre.intent? (intent "a" 1)).map (·.intentType),
    (e.pre.proposal? (proposal "a" 1 0)).map (·.paramsData.toList))

end RemovalSample

open RemovalSample Sample in
theorem removed_stays_dead_sample :
    ∃ (e' e : Runs.Event Accounts Call) (earlier : List (Runs.Event Accounts Call)) (s : Accounts),
      Runs.Run (program (Sample.env table)) ([e'] ++ e :: earlier) s ∧
      ([e'] ++ e :: earlier).map (·.label) = calls.reverse ∧
      e.pre.openProposals (intent "a" 2) = ∅ ∧ e.post.openProposals (intent "a" 2) = ∅ ∧
      s.RemovedAt (intent "a" 2) ∧
      ∀ c s', process (Sample.env table) s c = .ok s' → ¬ c.ix.UsesIntent (intent "a" 2) := by
  have hobs : observe (Sample.env table) calls observed =
      some (some (some IntentType.removeIntent.toU8, some [2])) := by
    rw [table, message_ofList, message_ofList, message_ofList]
    decide +kernel
  obtain ⟨tr, s, hrun, hlabels, hstate⟩ := run_of_observe hobs
  have hmap := hlabels
  simp only [calls, List.reverse_cons, List.reverse_nil, List.nil_append, List.cons_append,
    List.map_eq_cons_iff] at hlabels
  obtain ⟨e', -, rfl, -, e, earlier, rfl, hl, -⟩ := hlabels
  simp only [observed, List.getElem?_cons_succ, List.getElem?_cons_zero, Option.map_some,
    Option.some.injEq, Prod.mk.injEq, Option.map_eq_some_iff] at hstate
  obtain ⟨⟨i, hi, htype⟩, p, hp, hdata⟩ := hstate
  have hread : i.readType = .ok .removeIntent := by
    rw [Intent.readType, htype]
    rfl
  have hrem : Removes (Sample.env table) (intent "a" 2) e :=
    ⟨_, _, _, _, i, p, 2, by rw [hl]; rfl, hi, hread, hp, hdata, rfl⟩
  have hrun' : Runs.Run (program (Sample.env table)) ([e'] ++ e :: earlier) s := hrun
  obtain ⟨hbefore, hafter, hdead, hunused⟩ := removed_stays_dead (Sample.env table) hrun' hrem
  exact ⟨e', e, earlier, s, hrun', hmap, hbefore, hafter, hdead, hunused⟩

end ClearMsig
