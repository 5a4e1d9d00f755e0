import Mathlib.Data.Set.Card

/-!
# Registries and counters

A registry is a partial map from keys to entries that is written one key at a time. What a write does
to the entries found, and to the set of keys whose entry has a property; and a counter that is kept
beside such a set, with a decrement that stops at zero.
-/

namespace Registry

open Function (update)

variable {α β : Type} {f : α → Option β} {a b : α} {v x y : β} {o : Option β}

/-! ## Looking up after a write -/

theorem ne_of_fresh (hx : f a = some x) (hb : f b = none) : a ≠ b := by
  rintro rfl
  rw [hb] at hx
  cases hx

section Lookup

variable [DecidableEq α]

/-- Removing an entry that is not there. -/
theorem update_none (h : f a = none) : update f a none = f :=
  Function.update_eq_self_iff.mpr h.symm

/-- Removing an entry that is not there from a map that was written elsewhere. -/
theorem update_none_of_ne (hne : b ≠ a) (h : f b = none) : update (update f a o) b none = update f a o :=
  update_none ((Function.update_of_ne hne o f).trans h)

/-- Writing an unused key keeps every entry. -/
theorem update_fresh (hx : f a = some x) (hb : f b = none) : update f b o a = some x :=
  (Function.update_of_ne (ne_of_fresh hx hb) ..).trans hx

/-- An entry found after a write was there before or has been written. -/
theorem update_origin (h : update f b (some v) a = some x) : f a = some x ∨ (a = b ∧ x = v) := by
  by_cases hab : a = b
  · subst hab
    rw [Function.update_self] at h
    exact .inr ⟨rfl, (Option.some.inj h).symm⟩
  · rw [Function.update_of_ne hab] at h
    exact .inl h

/-- An entry found after a removal was there before. -/
theorem update_none_origin (h : update f b none a = some x) : a ≠ b ∧ f a = some x := by
  by_cases hab : a = b
  · subst hab
    rw [Function.update_self] at h
    cases h
  · rw [Function.update_of_ne hab] at h
    exact ⟨hab, h⟩

end Lookup

/-! ## Keys by a property of their entry -/

variable {p : β → Prop}

/-- The keys whose entry has a property. -/
def keys (p : β → Prop) (f : α → Option β) : Set α := {a | ∃ x, f a = some x ∧ p x}

theorem notMem_keys_of_none (h : f a = none) : a ∉ keys p f := by
  rintro ⟨x, hx, -⟩
  rw [h] at hx
  cases hx

theorem mem_keys_iff (h : f a = some x) : a ∈ keys p f ↔ p x := by
  constructor
  · rintro ⟨y, hy, hp⟩
    rw [h] at hy
    cases hy
    exact hp
  · exact fun hp => ⟨x, h, hp⟩

section Write

variable [DecidableEq α]

/-- Writing an entry with the property adds its key. -/
theorem keys_update_of_pos (hv : p v) : keys p (update f a (some v)) = insert a (keys p f) := by
  ext b
  by_cases hb : b = a
  · subst hb
    simp only [Set.mem_insert_iff, true_or, iff_true]
    exact ⟨v, Function.update_self .., hv⟩
  · simp only [keys, Set.mem_ofPred_eq, Function.update_of_ne hb, Set.mem_insert_iff, hb, false_or]

/-- Writing an entry without the property, or none, removes its key. -/
theorem keys_update_of_neg (ho : ∀ v, o = some v → ¬ p v) :
    keys p (update f a o) = keys p f \ {a} := by
  ext b
  by_cases hb : b = a
  · subst hb
    simp only [Set.mem_sdiff, Set.mem_singleton_iff, not_true_eq_false, and_false, iff_false]
    rintro ⟨x, hx, hp⟩
    rw [Function.update_self] at hx
    exact ho x hx hp
  · simp only [keys, Set.mem_ofPred_eq, Function.update_of_ne hb, Set.mem_sdiff,
      Set.mem_singleton_iff, hb, not_false_eq_true, and_true]

/-- Overwriting an entry by one that agrees on the property changes nothing. -/
theorem keys_update_congr (hx : f a = some x) (h : p y ↔ p x) :
    keys p (update f a (some y)) = keys p f := by
  by_cases hp : p x
  · rw [keys_update_of_pos (h.mpr hp), Set.insert_eq_of_mem ((mem_keys_iff hx).mpr hp)]
  · rw [keys_update_of_neg fun v hv => by cases hv; exact fun hy => hp (h.mp hy)]
    exact Set.sdiff_singleton_eq_self fun hmem => hp ((mem_keys_iff hx).mp hmem)

end Write

/-! ## Counters -/

/-- One step of a counter and of the set it stands for: nothing, one more, or one less with a decrement
that stops at zero. -/
inductive Tick (n n' : Nat) (s s' : Set α) : Prop where
  | kept (hn : n' = n) (hs : s' = s)
  | opened (a : α) (ha : a ∉ s) (hn : n' = n + 1) (hs : s' = insert a s)
  | closed (a : α) (ha : a ∈ s) (hn : n' = n - 1) (hs : s' = s \ {a})

variable {n n' : Nat} {s s' : Set α}

/-- A counter that is large enough stays large enough. -/
theorem Tick.encard_le (h : Tick n n' s s') (hle : s.encard ≤ n) : s'.encard ≤ n' := by
  cases h with
  | kept hn hs => rwa [hn, hs]
  | opened a ha hn hs =>
    rw [hn, hs, Set.encard_insert_of_notMem ha, Nat.cast_add, Nat.cast_one]
    exact add_le_add_left hle 1
  | closed a ha hn hs =>
    rw [hn, hs, Set.encard_sdiff_singleton_of_mem ha, ENat.natCast_sub, Nat.cast_one]
    exact tsub_le_tsub_right hle 1

/-- An exact counter stays exact. -/
theorem Tick.encard_eq (h : Tick n n' s s') (heq : s.encard = n) : s'.encard = n' := by
  cases h with
  | kept hn hs => rwa [hn, hs]
  | opened a ha hn hs =>
    rw [hn, hs, Set.encard_insert_of_notMem ha, heq, Nat.cast_add, Nat.cast_one]
  | closed a ha hn hs =>
    rw [hn, hs, Set.encard_sdiff_singleton_of_mem ha, heq, ENat.natCast_sub, Nat.cast_one]

end Registry
