import Mathlib.Data.Set.Finite.Basic
import Mathlib.Logic.Relation
import Mathlib.Order.WellFoundedSet

/-!
# References without cycles

A relation that leaves only finitely many points and has no cycle is well-founded, so equations in
which a value depends on the values referred to have at most one solution.
-/

namespace Dependency

open Relation (TransGen)

variable {α β : Type} {r : α → α → Prop}

/-- No point refers to itself, directly or through others. -/
def Acyclic (r : α → α → Prop) : Prop := ∀ a, ¬ TransGen r a a

/-- A rank that falls along every reference excludes cycles. -/
theorem Acyclic.of_rank (rank : α → Nat) (h : ∀ a b, r a b → rank b < rank a) : Acyclic r := by
  intro a ha
  have hlt : ∀ b, TransGen r a b → rank b < rank a := by
    intro b hb
    induction hb with
    | single hab => exact h _ _ hab
    | tail _ hbc ih => exact (h _ _ hbc).trans ih
  exact lt_irrefl _ (hlt a ha)

/-- Induction along the references: a property holds everywhere if it holds of every point all of whose
references have it. -/
theorem Acyclic.induction (h : Acyclic r) (hfin : Set.Finite {a | ∃ b, r a b}) {P : α → Prop}
    (step : ∀ a, (∀ b, r a b → P b) → P a) (a : α) : P a := by
  have : IsStrictOrder α fun a b => TransGen r b a :=
    { irrefl := h
      trans := fun _ _ _ hab hbc => hbc.trans hab }
  have hwf : Set.WellFoundedOn {a | ∃ b, r a b} fun a b => TransGen r b a := hfin.wellFoundedOn
  -- a point outside the finite set refers to nothing
  have hstop : ∀ b, b ∉ {a | ∃ b, r a b} → P b := fun b hb =>
    step b fun c hbc => absurd ⟨c, hbc⟩ hb
  by_cases ha : a ∈ {a | ∃ b, r a b}
  · refine hwf.induction ha fun a _ ih => step a fun b hab => ?_
    by_cases hb : b ∈ {a | ∃ b, r a b}
    · exact ih b hb (.single hab)
    · exact hstop b hb
  · exact hstop a ha

/-- Equations along the references have at most one solution. -/
theorem Acyclic.unique (h : Acyclic r) (hfin : Set.Finite {a | ∃ b, r a b}) {f g : α → β}
    (step : ∀ a, (∀ b, r a b → f b = g b) → f a = g a) : f = g :=
  funext (h.induction hfin step)

end Dependency
