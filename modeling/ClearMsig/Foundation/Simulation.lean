import Mathlib.Data.List.Forall2

/-!
# Simulation of computations that may fail

Two computations on different representations run in step: they succeed together, with related results,
or fail together, with related errors. The rules follow the way the computations are put together.
-/

namespace Simulation

variable {ε ε' α β γ δ σ : Type} {E : ε → ε' → Prop}

/-- Both computations succeed with related results, or both fail with related errors. -/
inductive Sim (E : ε → ε' → Prop) (R : α → β → Prop) : Except ε α → Except ε' β → Prop where
  | ok {a : α} {b : β} (h : R a b) : Sim E R (.ok a) (.ok b)
  | error {e : ε} {e' : ε'} (h : E e e') : Sim E R (.error e) (.error e')

namespace Sim

variable {R : α → β → Prop} {S : γ → δ → Prop} {x : Except ε α} {y : Except ε' β}

theorem mono {R' : α → β → Prop} (h : Sim E R x y) (hR : ∀ a b, R a b → R' a b) : Sim E R' x y := by
  cases h with
  | ok h => exact .ok (hR _ _ h)
  | error h => exact .error h

/-- Sequences of computations run in step when their parts do. -/
theorem bind {f : α → Except ε γ} {g : β → Except ε' δ} (h : Sim E R x y)
    (hfg : ∀ a b, R a b → Sim E S (f a) (g b)) : Sim E S (x >>= f) (y >>= g) := by
  cases h with
  | ok h => exact hfg _ _ h
  | error h => exact .error h

/-- Related errors only: neither side fails when the other one succeeds. -/
theorem error_of_error {e : ε} (h : Sim E R x y) (hx : x = .error e) : ∃ e', y = .error e' ∧ E e e' := by
  cases h with
  | ok h => cases hx
  | error h =>
    obtain rfl := Except.error.inj hx
    exact ⟨_, rfl, h⟩

/-! ## Loops -/

theorem mapM {f : γ → Except ε α} {g : γ → Except ε' β} {xs : List γ}
    (h : ∀ z ∈ xs, Sim E R (f z) (g z)) : Sim E (List.Forall₂ R) (xs.mapM f) (xs.mapM g) := by
  induction xs with
  | nil => exact .ok .nil
  | cons z xs ih =>
    rw [List.mapM_cons, List.mapM_cons]
    refine (h z List.mem_cons_self).bind fun a b hab => ?_
    refine (ih fun w hw => h w (List.mem_cons_of_mem _ hw)).bind fun as bs has => ?_
    exact .ok (.cons hab has)

/-- Two loops of checks. -/
theorem forM {f : γ → Except ε Unit} {g : γ → Except ε' Unit} {xs : List γ}
    (h : ∀ z ∈ xs, Sim E Eq (f z) (g z)) : Sim E Eq (xs.forM f) (xs.forM g) := by
  induction xs with
  | nil => exact .ok rfl
  | cons z xs ih =>
    exact (h z List.mem_cons_self).bind fun _ _ _ => ih fun w hw => h w (List.mem_cons_of_mem _ hw)

/-- Two loops over the same list that keep their states related. -/
theorem foldlM {f : α → γ → Except ε α} {g : β → γ → Except ε' β} {xs : List γ} {a : α} {b : β}
    (start : R a b) (step : ∀ a b, ∀ z ∈ xs, R a b → Sim E R (f a z) (g b z)) :
    Sim E R (xs.foldlM f a) (xs.foldlM g b) := by
  induction xs generalizing a b with
  | nil => exact .ok start
  | cons z xs ih =>
    rw [List.foldlM_cons, List.foldlM_cons]
    refine (step a b z List.mem_cons_self start).bind fun a' b' hab => ?_
    exact ih hab fun a b w hw => step a b w (List.mem_cons_of_mem _ hw)

/-- A loop that collects its results in a state, and the list of the results. The state after `ys` is the
one before the entry at position `ys.length`. -/
theorem foldlM_mapM {f : σ → γ → Except ε σ} {g : γ → Except ε' β} {xs : List γ}
    {R : σ → List β → Prop} {st : σ} (start : R st [])
    (step : ∀ st ys z, xs[ys.length]? = some z → R st ys →
      Sim E (fun st' y => R st' (ys ++ [y])) (f st z) (g z)) :
    Sim E (fun st' ys => R st' ys ∧ ys.length = xs.length) (xs.foldlM f st) (xs.mapM g) := by
  have hrest (rest done : List γ) (ys : List β) (st : σ) (hxs : xs = done ++ rest)
      (hlen : ys.length = done.length) (hst : R st ys) :
      Sim E (fun st' zs => R st' (ys ++ zs) ∧ zs.length = rest.length) (rest.foldlM f st)
        (rest.mapM g) := by
    induction rest generalizing done ys st with
    | nil =>
      rw [List.foldlM_nil, List.mapM_nil]
      refine .ok ⟨?_, rfl⟩
      rwa [List.append_nil]
    | cons z rest ih =>
      have hz : xs[ys.length]? = some z := by
        rw [hxs, hlen, List.getElem?_append_right (Nat.le_refl _), Nat.sub_self, List.getElem?_cons_zero]
      rw [List.foldlM_cons, List.mapM_cons]
      refine (step st ys z hz hst).bind fun st' y hst' => ?_
      rw [← bind_pure (rest.foldlM f st')]
      refine (ih (done ++ [z]) (ys ++ [y]) st' (by simp [hxs]) (by simp [hlen]) hst').bind fun st'' zs h => ?_
      refine .ok ⟨?_, by rw [List.length_cons, h.2, List.length_cons]⟩
      rw [List.append_assoc, List.singleton_append] at h
      exact h.1
  exact hrest xs [] [] st rfl rfl start

end Sim

/-- A computation that succeeds passes its result on. -/
theorem bind_of_ok {x : Except ε α} {a : α} (hx : x = .ok a) (f : α → Except ε γ) : (x >>= f) = f a := by
  rw [hx]
  rfl

/-- A counting loop succeeds when every round does, and what one round passes on holds at the end. -/
theorem foldlM_range_ok {f : σ → Nat → Except ε σ} {n : Nat} {I : Nat → σ → Prop} {st : σ}
    (start : I 0 st) (step : ∀ i st, i < n → I i st → ∃ st', f st i = .ok st' ∧ I (i + 1) st') :
    ∃ st', (List.range n).foldlM f st = .ok st' ∧ I n st' := by
  induction n with
  | zero => exact ⟨st, rfl, start⟩
  | succ n ih =>
    obtain ⟨st₁, hst₁, h₁⟩ := ih fun i st hi => step i st (Nat.lt_succ_of_lt hi)
    obtain ⟨st₂, hst₂, h₂⟩ := step n st₁ (Nat.lt_succ_self n) h₁
    refine ⟨st₂, ?_, h₂⟩
    rw [List.range_succ, List.foldlM_append, bind_of_ok hst₁, List.foldlM_cons, bind_of_ok hst₂]
    rfl

end Simulation
