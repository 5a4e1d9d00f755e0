import ClearMsig.Foundation.Runs

/-!
# Noninterference

An observer sees a part of the state, and some of the events are the observer's own. When the other events
leave that part alone, and the observer's own events are steps of the part by itself, then purging a run of
all the others gives a run, which leads to what the observer sees of the state.
-/

namespace Noninterference

open Runs (Event System Run)

variable {σ ι : Type} {S : System σ ι} {mine : Event σ ι → Bool} {view : σ → σ} {tr : List (Event σ ι)}
  {s : σ}

/-- The observer's events of a history, as the observer sees them. -/
def purge (mine : Event σ ι → Bool) (view : σ → σ) (tr : List (Event σ ι)) : List (Event σ ι) :=
  (tr.filter mine).map fun e => ⟨view e.pre, e.label, view e.post⟩

theorem labels_purge (mine : Event σ ι → Bool) (view : σ → σ) (tr : List (Event σ ι)) :
    (purge mine view tr).map (·.label) = (tr.filter mine).map (·.label) := by
  rw [purge, List.map_map]
  rfl

/-- A run without the events of others. -/
theorem run_purge (h : Run S tr s) (start : ∀ s, S.init s → S.init (view s))
    (silent : ∀ e ∈ tr, mine e = false → view e.post = view e.pre)
    (step : ∀ e ∈ tr, mine e = true → S.step (view e.pre) e.label (view e.post)) :
    Run S (purge mine view tr) (view s) := by
  induction h with
  | start h => exact .start (start _ h)
  | @next tr s s' l hr hs ih =>
    have hpre := ih (fun e he => silent e (List.mem_cons_of_mem _ he))
      (fun e he => step e (List.mem_cons_of_mem _ he))
    cases hm : mine ⟨s, l, s'⟩ with
    | true =>
      rw [purge, List.filter_cons_of_pos hm, List.map_cons]
      exact hpre.next (step _ List.mem_cons_self hm)
    | false =>
      rw [purge, List.filter_cons_of_neg (by rw [hm]; exact Bool.false_ne_true)]
      rw [silent _ List.mem_cons_self hm]
      exact hpre

/-- In a deterministic system with one initial state the labels of a run determine where it ends. -/
theorem run_unique {tr' : List (Event σ ι)} {s' : σ} (hinit : ∀ s s', S.init s → S.init s' → s = s')
    (hdet : ∀ s l t t', S.step s l t → S.step s l t' → t = t') (h : Run S tr s) (h' : Run S tr' s')
    (hlabels : tr.map (·.label) = tr'.map (·.label)) : s = s' := by
  induction h generalizing tr' s' with
  | start hs =>
    cases h' with
    | start hs' => exact hinit _ _ hs hs'
    | next _ _ => cases hlabels
  | next hr hs ih =>
    cases h' with
    | start _ => cases hlabels
    | next hr' hs' =>
      obtain ⟨hl, hrest⟩ := List.cons_eq_cons.mp hlabels
      obtain rfl := ih hr' hrest
      cases hl
      exact hdet _ _ _ _ hs hs'

end Noninterference
