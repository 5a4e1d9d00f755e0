import Mathlib.Data.List.Basic

/-!
# Fixed arrays of slots that may be unwritten

An array on a stack that is not initialised: every slot has been written or not. To read a slot that has
not been written is a fault, and so is any access behind the end.
-/

/-- `n` slots for values, each of them written or not. -/
structure Slots (α : Type) (n : Nat) where
  cells : Vector (Option α) n

namespace Slots

/-- What is wrong with an access. -/
inductive Fault where
  | unwritten
  | outside
  deriving DecidableEq

variable {α : Type} {n : Nat}

/-- No slot has been written. -/
def uninit : Slots α n := ⟨Vector.replicate n none⟩

/-- Every slot holds the same value. -/
def filled (a : α) : Slots α n := ⟨Vector.replicate n (some a)⟩

def read (s : Slots α n) (i : Nat) : Except Fault α :=
  match s.cells[i]? with
  | some (some a) => .ok a
  | some none => .error .unwritten
  | none => .error .outside

def write (s : Slots α n) (i : Nat) (a : α) : Except Fault (Slots α n) :=
  if h : i < n then .ok ⟨s.cells.set i (some a) h⟩ else .error .outside

/-- The slots from `i` up to `j`. -/
def readRange (s : Slots α n) (i j : Nat) : Except Fault (List α) :=
  if i ≤ j ∧ j ≤ n then (List.range' i (j - i)).mapM s.read else .error .outside

/-- Write the items of a list, one after another. -/
def writeList (s : Slots α n) (i : Nat) : List α → Except Fault (Slots α n)
  | [] => .ok s
  | x :: xs => do
    let s ← s.write i x
    s.writeList (i + 1) xs

/-- Write a list into the slots from `i` on. -/
def writeRange (s : Slots α n) (i : Nat) (xs : List α) : Except Fault (Slots α n) :=
  if i + xs.length ≤ n then s.writeList i xs else .error .outside

/-! ## One slot -/

theorem read_filled (a : α) {i : Nat} (h : i < n) : (filled a : Slots α n).read i = .ok a := by
  have hcell : (filled a : Slots α n).cells[i]? = some (some a) := by simp [filled, h]
  rw [read, hcell]

example : (uninit : Slots Nat 1).read 0 = .error .unwritten := rfl

theorem lt_of_read {s : Slots α n} {i : Nat} {a : α} (h : s.read i = .ok a) : i < n := by
  by_contra hge
  have hcell : s.cells[i]? = none := by simpa using hge
  rw [read, hcell] at h
  cases h

/-- A write inside the array changes its slot and no other one. -/
theorem write_of_lt (s : Slots α n) {i : Nat} (h : i < n) (a : α) :
    ∃ s', s.write i a = .ok s' ∧ s'.read i = .ok a ∧ ∀ j, j ≠ i → s'.read j = s.read j := by
  refine ⟨⟨s.cells.set i (some a) h⟩, dif_pos h, ?_, fun j hj => ?_⟩
  · have hcell : (s.cells.set i (some a) h)[i]? = some (some a) := by simp
    rw [read, hcell]
  · have hcell : (s.cells.set i (some a) h)[j]? = s.cells[j]? := by simp [Ne.symm hj]
    rw [read, hcell, read]

/-! ## A list in consecutive slots -/

/-- The slots from `i` on hold a list. -/
def HoldsAt (s : Slots α n) (i : Nat) (xs : List α) : Prop :=
  ∀ k a, xs[k]? = some a → s.read (i + k) = .ok a

theorem holdsAt_nil (s : Slots α n) (i : Nat) : s.HoldsAt i [] := by
  intro k a h
  simp at h

theorem holdsAt_cons {s : Slots α n} {i : Nat} {x : α} {xs : List α} :
    s.HoldsAt i (x :: xs) ↔ s.read i = .ok x ∧ s.HoldsAt (i + 1) xs := by
  constructor
  · intro h
    refine ⟨h 0 x rfl, fun k a hk => ?_⟩
    have hread := h (k + 1) a hk
    rwa [Nat.add_comm k 1, ← Nat.add_assoc] at hread
  · rintro ⟨hx, hxs⟩ k a hk
    cases k with
    | zero =>
      obtain rfl := Option.some.inj hk
      exact hx
    | succ k =>
      have hread := hxs k a hk
      rwa [Nat.add_assoc, Nat.add_comm 1 k] at hread

theorem holdsAt_append {s : Slots α n} {i : Nat} {xs ys : List α} :
    s.HoldsAt i (xs ++ ys) ↔ s.HoldsAt i xs ∧ s.HoldsAt (i + xs.length) ys := by
  induction xs generalizing i with
  | nil => simp [holdsAt_nil]
  | cons x xs ih =>
    rw [List.cons_append, holdsAt_cons, holdsAt_cons, ih, List.length_cons, Nat.add_assoc i 1,
      Nat.add_comm 1, and_assoc]

/-- Slots that are left alone go on holding what they held. -/
theorem HoldsAt.congr {s s' : Slots α n} {i : Nat} {xs : List α} (h : s.HoldsAt i xs)
    (hframe : ∀ j, i ≤ j → j < i + xs.length → s'.read j = s.read j) : s'.HoldsAt i xs := by
  intro k a hk
  have hlt : k < xs.length := (List.getElem?_eq_some_iff.mp hk).1
  rw [hframe (i + k) (Nat.le_add_right i k) (Nat.add_lt_add_left hlt i)]
  exact h k a hk

theorem HoldsAt.length_le {s : Slots α n} {i : Nat} {xs : List α} (h : s.HoldsAt i xs) (hi : i ≤ n) :
    i + xs.length ≤ n := by
  cases hlen : xs.length with
  | zero => exact hi
  | succ k =>
    have hread := h k xs[k] (List.getElem?_eq_getElem (by omega))
    exact lt_of_read hread

/-- A list that fits is written, and no other slot changes. -/
theorem writeList_of_le (s : Slots α n) {i : Nat} {xs : List α} (h : i + xs.length ≤ n) :
    ∃ s', s.writeList i xs = .ok s' ∧ s'.HoldsAt i xs ∧
      ∀ j, j < i ∨ i + xs.length ≤ j → s'.read j = s.read j := by
  induction xs generalizing i s with
  | nil => exact ⟨s, rfl, holdsAt_nil s i, fun j _ => rfl⟩
  | cons x xs ih =>
    rw [List.length_cons] at h
    obtain ⟨s₁, hwrite, hread, hframe⟩ := s.write_of_lt (i := i) (by omega) x
    obtain ⟨s₂, hrange, hholds, hframe₂⟩ := ih s₁ (i := i + 1) (by omega)
    refine ⟨s₂, ?_, holdsAt_cons.mpr ⟨?_, hholds⟩, fun j hj => ?_⟩
    · rw [writeList, hwrite]
      exact hrange
    · rw [hframe₂ i (by omega), hread]
    · rw [List.length_cons] at hj
      rw [hframe₂ j (by omega), hframe j (by omega)]

theorem writeRange_of_le (s : Slots α n) {i : Nat} {xs : List α} (h : i + xs.length ≤ n) :
    ∃ s', s.writeRange i xs = .ok s' ∧ s'.HoldsAt i xs ∧
      ∀ j, j < i ∨ i + xs.length ≤ j → s'.read j = s.read j := by
  rw [writeRange, if_pos h]
  exact s.writeList_of_le h

/-- What the slots hold is read from them. -/
theorem HoldsAt.readRange {s : Slots α n} {i : Nat} {xs : List α} (h : s.HoldsAt i xs) (hi : i ≤ n) :
    s.readRange i (i + xs.length) = .ok xs := by
  rw [Slots.readRange, if_pos ⟨Nat.le_add_right i _, h.length_le hi⟩, Nat.add_sub_cancel_left]
  clear hi
  induction xs generalizing i with
  | nil => rfl
  | cons x xs ih =>
    obtain ⟨hx, hxs⟩ := holdsAt_cons.mp h
    rw [List.length_cons, List.range'_succ, List.mapM_cons, hx, ih hxs]
    rfl

theorem HoldsAt.read {s : Slots α n} {xs : List α} {k : Nat} {a : α} (h : s.HoldsAt 0 xs)
    (hk : xs[k]? = some a) : s.read k = .ok a := by
  have hread := h k a hk
  rwa [Nat.zero_add] at hread

theorem HoldsAt.readAll {s : Slots α n} {xs : List α} (h : s.HoldsAt 0 xs) :
    s.readRange 0 xs.length = .ok xs := by
  have hread := h.readRange (Nat.zero_le n)
  rwa [Nat.zero_add] at hread

/-- A list in the first slots goes on with what is written behind it. -/
theorem HoldsAt.writeRange_append {s : Slots α n} {xs ys : List α} (h : s.HoldsAt 0 xs)
    (hfit : xs.length + ys.length ≤ n) :
    ∃ s', s.writeRange xs.length ys = .ok s' ∧ s'.HoldsAt 0 (xs ++ ys) := by
  obtain ⟨s', hwrite, hholds, hframe⟩ := s.writeRange_of_le hfit
  refine ⟨s', hwrite, holdsAt_append.mpr ⟨h.congr fun j _ hj => hframe j (.inl ?_), ?_⟩⟩
  · omega
  · rw [Nat.zero_add]
    exact hholds

theorem HoldsAt.write_append {s : Slots α n} {xs : List α} (h : s.HoldsAt 0 xs) (hfit : xs.length < n)
    (a : α) : ∃ s', s.write xs.length a = .ok s' ∧ s'.HoldsAt 0 (xs ++ [a]) := by
  obtain ⟨s', hwrite, hread, hframe⟩ := s.write_of_lt hfit a
  refine ⟨s', hwrite, holdsAt_append.mpr ⟨h.congr fun j _ hj => hframe j (by omega), ?_⟩⟩
  rw [Nat.zero_add]
  exact holdsAt_cons.mpr ⟨hread, holdsAt_nil s' _⟩

/-- A list in the last slots is continued to the front. -/
theorem HoldsAt.write_cons {s : Slots α n} {i : Nat} {xs : List α} (h : s.HoldsAt (i + 1) xs)
    (hfit : i < n) (a : α) : ∃ s', s.write i a = .ok s' ∧ s'.HoldsAt i (a :: xs) := by
  obtain ⟨s', hwrite, hread, hframe⟩ := s.write_of_lt hfit a
  exact ⟨s', hwrite, holdsAt_cons.mpr ⟨hread, h.congr fun j hj _ => hframe j (by omega)⟩⟩

end Slots
