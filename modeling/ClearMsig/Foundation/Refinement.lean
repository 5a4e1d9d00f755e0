import ClearMsig.Foundation.Runs

/-!
# Refinement

One transition system implements another when an abstraction of its states takes every step to a step.
Then it takes runs to runs, and what holds of the abstract system holds of the abstraction.
-/

namespace Runs

variable {σ τ ι κ : Type}

/-- Every step of `S` from a reachable state is a step of `T` under the abstraction. -/
structure Implements (S : System σ ι) (T : System τ κ) (abs : σ → τ) (label : ι → κ) : Prop where
  init : ∀ s, S.init s → T.init (abs s)
  step : ∀ s l s', Reachable S s → S.step s l s' → T.step (abs s) (label l) (abs s')

/-- The abstraction of an event. -/
def Event.map (abs : σ → τ) (label : ι → κ) (e : Event σ ι) : Event τ κ :=
  ⟨abs e.pre, label e.label, abs e.post⟩

namespace Implements

variable {S : System σ ι} {T : System τ κ} {abs : σ → τ} {label : ι → κ} {tr : List (Event σ ι)} {s : σ}

/-- A run of the implementation is a run of the abstract system. -/
theorem run (h : Implements S T abs label) (hrun : Run S tr s) :
    Run T (tr.map (Event.map abs label)) (abs s) := by
  induction hrun with
  | start hs => exact .start (h.init _ hs)
  | next hr hs ih => exact ih.next (h.step _ _ _ ⟨_, hr⟩ hs)

theorem reachable (h : Implements S T abs label) (hs : Reachable S s) : Reachable T (abs s) := by
  obtain ⟨tr, hrun⟩ := hs
  exact ⟨_, h.run hrun⟩

/-- What every reachable state of the abstract system has, the abstraction of every reachable state of the
implementation has. -/
theorem transfer (h : Implements S T abs label) {P : τ → Prop} (hP : ∀ b, Reachable T b → P b)
    (hs : Reachable S s) : P (abs s) := hP _ (h.reachable hs)

end Implements

end Runs
