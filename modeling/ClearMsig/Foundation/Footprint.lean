import Mathlib.Data.Set.Function
import Mathlib.Data.Set.Lattice
import Mathlib.Order.CompletePartialOrder

/-!
# Footprints

Actions on a store, which maps addresses to cells, that may fail. Where an action succeeds it has a
footprint: the addresses it depends on, and those of them it may write. Footprints compose, and two actions
commute when neither writes what the other one depends on.
-/

namespace Footprint

variable {α δ ε β : Type} {f g : (α → δ) → Except ε (α → δ)} {R R' W W' : Set α}
  {s s' s₁ s₂ t : α → δ}

/-- In the store `s` the action `f` succeeds with `s'`. It depends on the cells in `R` alone and leaves
those outside `W` as they are. -/
structure Local (f : (α → δ) → Except ε (α → δ)) (R W : Set α) (s s' : α → δ) : Prop where
  run : f s = .ok s'
  sub : W ⊆ R
  again : ∀ t, Set.EqOn t s R → ∃ t', f t = .ok t' ∧ Set.EqOn t' s' R ∧ Set.EqOn t' t Wᶜ

namespace Local

/-- Nothing outside the written cells changes. -/
theorem frame (h : Local f R W s s') : Set.EqOn s' s Wᶜ := by
  obtain ⟨t, ht, -, hframe⟩ := h.again s (Set.eqOn_refl s R)
  rw [h.run] at ht
  rwa [← Except.ok.inj ht] at hframe

/-- The action has the same footprint in every store that agrees on it. -/
theorem transfer (h : Local f R W s s') (ht : Set.EqOn t s R) :
    ∃ t', Local f R W t t' ∧ Set.EqOn t' s' R ∧ Set.EqOn t' t Wᶜ := by
  obtain ⟨t', hrun, hpost, hframe⟩ := h.again t ht
  refine ⟨t', ⟨hrun, h.sub, fun u hu => ?_⟩, hpost, hframe⟩
  obtain ⟨u', hrun', hpost', hframe'⟩ := h.again u (hu.trans ht)
  exact ⟨u', hrun', hpost'.trans hpost.symm, hframe'⟩

/-- A footprint may be enlarged. -/
theorem mono (h : Local f R W s s') (hR : R ⊆ R') (hW : W ⊆ W') (hsub : W' ⊆ R') :
    Local f R' W' s s' := by
  refine ⟨h.run, hsub, fun t ht => ?_⟩
  obtain ⟨t', hrun, hpost, hframe⟩ := h.again t (ht.mono hR)
  refine ⟨t', hrun, fun a ha => ?_, hframe.mono (Set.compl_subset_compl.mpr hW)⟩
  by_cases haW : a ∈ W
  · exact hpost (h.sub haW)
  · rw [hframe haW, h.frame haW, ht ha]

/-! ## Composing actions -/

/-- A computation that leaves the store alone, before an action. -/
theorem bind_pure {x : Except ε β} {b : β} {f : β → (α → δ) → Except ε (α → δ)} (hx : x = .ok b)
    (h : Local (f b) R W s s') : Local (fun t => x >>= fun b => f b t) R W s s' := by
  subst hx
  exact h

/-- A computation that reads the footprint, before an action. -/
theorem bind_read {x : (α → δ) → Except ε β} {b : β} {f : β → (α → δ) → Except ε (α → δ)}
    (hx : ∀ t, Set.EqOn t s R → x t = .ok b) (h : Local (f b) R W s s') :
    Local (fun t => x t >>= fun b => f b t) R W s s' := by
  refine ⟨?_, h.sub, fun t ht => ?_⟩
  · rw [hx s (Set.eqOn_refl s R)]
    exact h.run
  · rw [hx t ht]
    exact h.again t ht

/-- Two actions, one after the other. -/
theorem seq (h₁ : Local f R W s s₁) (h₂ : Local g R W s₁ s₂) :
    Local (fun t => f t >>= g) R W s s₂ := by
  refine ⟨?_, h₁.sub, fun t ht => ?_⟩
  · rw [h₁.run]
    exact h₂.run
  · obtain ⟨t₁, hrun₁, hpost₁, hframe₁⟩ := h₁.again t ht
    obtain ⟨t₂, hrun₂, hpost₂, hframe₂⟩ := h₂.again t₁ hpost₁
    refine ⟨t₂, ?_, hpost₂, hframe₂.trans hframe₁⟩
    rw [hrun₁]
    exact hrun₂

/-- Two actions commute when neither writes what the other one depends on. -/
theorem commute (h₁ : Local f R W s s₁) (h₂ : Local g R' W' s₁ s₂) (hRW : Disjoint R W')
    (hWR : Disjoint W R') : ∃ t, Local g R' W' s t ∧ Local f R W t s₂ := by
  have hpre : Set.EqOn s s₁ R' :=
    (h₁.frame.symm).mono fun a ha haW => Set.disjoint_left.mp hWR haW ha
  obtain ⟨t, ht, htpost, htframe⟩ := h₂.transfer hpre
  have htR : Set.EqOn t s R := htframe.mono fun a ha haW => Set.disjoint_left.mp hRW ha haW
  obtain ⟨u, hu, hupost, huframe⟩ := h₁.transfer htR
  refine ⟨t, ht, ?_⟩
  have hus : u = s₂ := by
    funext a
    by_cases haW : a ∈ W
    · have haW' : a ∉ W' := Set.disjoint_left.mp hRW (h₁.sub haW)
      rw [hupost (h₁.sub haW), h₂.frame haW']
    · rw [huframe haW]
      by_cases haW' : a ∈ W'
      · rw [htpost (h₂.sub haW')]
      · rw [htframe haW', h₂.frame haW', h₁.frame haW]
  exact hus ▸ hu

/-! ## Writing one cell -/

section Write

variable [DecidableEq α] {a : α} {v : δ}

theorem eqOn_update (h : Set.EqOn t s R) : Set.EqOn (Function.update t a v) (Function.update s a v) R := by
  intro b hb
  by_cases hba : b = a
  · subst hba
    rw [Function.update_self, Function.update_self]
  · rw [Function.update_of_ne hba, Function.update_of_ne hba, h hb]

theorem eqOn_update_compl (ha : a ∈ W) : Set.EqOn (Function.update t a v) t Wᶜ := by
  intro b hb
  have hba : b ≠ a := by
    rintro rfl
    exact hb ha
  exact Function.update_of_ne hba v t

/-- Overwrite a cell of the footprint. -/
theorem write (ha : a ∈ W) (hsub : W ⊆ R) :
    Local (ε := ε) (fun t => .ok (Function.update t a v)) R W s (Function.update s a v) :=
  ⟨rfl, hsub, fun _ ht => ⟨_, rfl, eqOn_update ht, eqOn_update_compl ha⟩⟩

end Write

end Local

end Footprint
