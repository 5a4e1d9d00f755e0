import ClearMsig.Foundation.Reordering
import ClearMsig.Proofs.LocalityProofs
import ClearMsig.Sample

/-!
# Calls on disjoint accounts commute

The runtime may take transactions in any order, and in parallel when no account that one of them writes is
given to another. Such calls commute, so their order in a run makes no difference.
-/

namespace ClearMsig

variable {env : Env} {s : Accounts}

/-- Independent calls commute. -/
theorem commute_independent : Runs.Commute (program env) (Independent env) := by
  rintro s s₁ s₂ c d hr hc hd ⟨hcd, hdc⟩
  obtain ⟨t, ht, ht'⟩ := (local_of_step hr hc).commute (local_of_step (hr.next hc) hd) hcd hdc
  exact ⟨t, ht.run, ht'.run⟩

/-- The calls of a run can be put into every order that arises by exchanging independent neighbours, none of
which may write what the other one may touch: all of them are accepted again, and the accounts are the same at
the end. -/
theorem run_reordered {tr : List (Runs.Event Accounts Call)} (hrun : Runs.Run (program env) tr s)
    {calls : List Call} (hre : Runs.Reordering (Independent env) (tr.map (·.label)) calls) :
    ∃ tr', Runs.Run (program env) tr' s ∧ tr'.map (·.label) = calls :=
  Runs.Takes.reorder commute_independent ⟨tr, hrun, rfl⟩ hre

namespace ReorderingSample

open Sample

def table : List (Address × Bytes) :=
  [(key 1, message "expires 1970-01-01 00:16:40: propose remove intent 2 | wallet: a proposal: 0"),
   (key 1, message "expires 1970-01-01 00:16:40: propose remove intent 0 | wallet: a proposal: 1"),
   (key 2, message "expires 1970-01-01 00:16:40: approve remove intent 2 | wallet: a proposal: 0"),
   (key 2, message "expires 1970-01-01 00:16:40: approve remove intent 0 | wallet: a proposal: 1")]

/-- Two proposals of one intent. -/
def proposals : List Call := [create "a" 1 1 [key 2], propose "a" 1 0 [2], propose "a" 1 1 [0]]

/-- Approvals of the two proposals read the same wallet and the same intent. -/
theorem independent_approvals :
    Independent (Sample.env table) (approve "a" 1 0 0 2) (approve "a" 1 1 0 3) := by
  constructor
  · refine Set.disjoint_singleton_right.mpr ?_
    show proposal "a" 1 1 ∉ ({wallet "a", intent "a" 1, proposal "a" 1 0} : Set Address)
    simp only [Set.mem_insert_iff, Set.mem_singleton_iff, not_or]
    decide +kernel
  · refine Set.disjoint_singleton_left.mpr ?_
    show proposal "a" 1 0 ∉ ({wallet "a", intent "a" 1, proposal "a" 1 1} : Set Address)
    simp only [Set.mem_insert_iff, Set.mem_singleton_iff, not_or]
    decide +kernel

end ReorderingSample

open ReorderingSample Sample in
theorem run_reordered_sample :
    ∃ (tr tr' : List (Runs.Event Accounts Call)) (s : Accounts),
      Runs.Run (program (Sample.env table)) tr s ∧ Runs.Run (program (Sample.env table)) tr' s ∧
      tr.map (·.label) = (proposals ++ [approve "a" 1 0 0 2, approve "a" 1 1 0 3]).reverse ∧
      tr'.map (·.label) = (proposals ++ [approve "a" 1 1 0 3, approve "a" 1 0 0 2]).reverse := by
  have hobs : observe (Sample.env table) (proposals ++ [approve "a" 1 0 0 2, approve "a" 1 1 0 3])
      (fun _ _ => ()) = some () := by
    rw [table, message_ofList, message_ofList, message_ofList, message_ofList]
    decide +kernel
  obtain ⟨tr, s, hrun, hlabels, -⟩ := run_of_observe hobs
  have hre : Runs.Reordering (Independent (Sample.env table)) (tr.map (·.label))
      (proposals ++ [approve "a" 1 1 0 3, approve "a" 1 0 0 2]).reverse := by
    refine .single ⟨[], approve "a" 1 1 0 3, approve "a" 1 0 0 2, proposals.reverse, ?_, ?_,
      independent_approvals⟩
    · rw [hlabels]
      rfl
    · rfl
  obtain ⟨tr', hrun', hlabels'⟩ := run_reordered hrun hre
  exact ⟨tr, tr', s, hrun, hrun', hlabels, hlabels'⟩

end ClearMsig
