import ClearMsig.Foundation.Runs
import Mathlib.Logic.Relation

/-!
# Reordering runs

Two neighbouring steps that commute can be taken in the other order. A run can be reordered by exchanging
such neighbours any number of times, and still leads to the same state.
-/

namespace Runs

variable {σ ι : Type}

/-- Two neighbours of a list, the later one first, change places. -/
def Exchange (indep : ι → ι → Prop) (xs ys : List ι) : Prop :=
  ∃ later b a earlier, xs = later ++ b :: a :: earlier ∧ ys = later ++ a :: b :: earlier ∧ indep a b

/-- A list with neighbours exchanged any number of times. -/
abbrev Reordering (indep : ι → ι → Prop) : List ι → List ι → Prop :=
  Relation.ReflTransGen (Exchange indep)

/-- Neighbouring steps with independent labels commute. -/
def Commute (S : System σ ι) (indep : ι → ι → Prop) : Prop :=
  ∀ s s₁ s₂ a b, Reachable S s → S.step s a s₁ → S.step s₁ b s₂ → indep a b →
    ∃ t, S.step s b t ∧ S.step t a s₂

/-- The system can take steps with the given labels, the latest first, and reach the state. -/
def Takes (S : System σ ι) (labels : List ι) (s : σ) : Prop :=
  ∃ tr, Run S tr s ∧ tr.map (·.label) = labels

variable {S : System σ ι} {labels labels' later : List ι} {s s' : σ} {l : ι}

theorem Takes.next (h : Takes S labels s) (hs : S.step s l s') : Takes S (l :: labels) s' := by
  obtain ⟨tr, hrun, rfl⟩ := h
  exact ⟨_, hrun.next hs, rfl⟩

theorem takes_cons_iff : Takes S (l :: labels) s' ↔ ∃ s, Takes S labels s ∧ S.step s l s' := by
  constructor
  · rintro ⟨tr, hrun, hlabels⟩
    obtain ⟨e, tr, rfl, rfl, rfl⟩ := List.map_eq_cons_iff.mp hlabels
    obtain ⟨hpre, hstep, rfl⟩ := hrun.last
    exact ⟨e.pre, ⟨tr, hpre, rfl⟩, hstep⟩
  · rintro ⟨s, h, hs⟩
    exact h.next hs

/-- What is taken later may follow everything that leads to the same states. -/
theorem Takes.append_congr (hcongr : ∀ t, Takes S labels t → Takes S labels' t)
    (h : Takes S (later ++ labels) s) : Takes S (later ++ labels') s := by
  induction later generalizing s with
  | nil => exact hcongr s h
  | cons l later ih =>
    obtain ⟨t, ht, hstep⟩ := takes_cons_iff.mp h
    exact (ih ht).next hstep

theorem Takes.exchange {indep : ι → ι → Prop} (hcomm : Commute S indep) (h : Takes S labels s)
    (hswap : Exchange indep labels labels') : Takes S labels' s := by
  obtain ⟨later, b, a, earlier, rfl, rfl, hab⟩ := hswap
  refine h.append_congr fun t ht => ?_
  obtain ⟨s₁, h₁, hb⟩ := takes_cons_iff.mp ht
  obtain ⟨s₀, h₀, ha⟩ := takes_cons_iff.mp h₁
  obtain ⟨tr, hrun, -⟩ := id h₀
  obtain ⟨u, hu, hu'⟩ := hcomm s₀ s₁ t a b ⟨tr, hrun⟩ ha hb hab
  exact (h₀.next hu).next hu'

/-- A reordered run leads to the same state. -/
theorem Takes.reorder {indep : ι → ι → Prop} (hcomm : Commute S indep) (h : Takes S labels s)
    (hre : Reordering indep labels labels') : Takes S labels' s := by
  induction hre with
  | refl => exact h
  | tail _ hswap ih => exact ih.exchange hcomm hswap

end Runs
