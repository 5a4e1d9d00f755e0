import Mathlib.Data.List.Infix

/-!
# Reading a concatenation back

When a text is cut at a byte that cannot occur before the cut, or after it, both pieces are
determined by the whole.
-/

namespace Reading

variable {α : Type} {a a' s s' : List α}

/-- The first element of `s`, if any, is not one of those that satisfy `p`. -/
def StopsAt (p : α → Bool) (s : List α) : Prop := ∀ x, s.head? = some x → p x = false

theorem stopsAt_nil (p : α → Bool) : StopsAt p [] := by
  intro x hx
  simp at hx

theorem stopsAt_cons {p : α → Bool} {x : α} (hx : p x = false) (s : List α) :
    StopsAt p (x :: s) := by
  intro y hy
  simp only [List.head?_cons, Option.some.injEq] at hy
  rw [← hy]
  exact hx

theorem takeWhile_of_stopsAt {p : α → Bool} (ha : ∀ x ∈ a, p x = true) (hs : StopsAt p s) :
    (a ++ s).takeWhile p = a := by
  rw [List.takeWhile_append_of_pos ha]
  cases s with
  | nil => simp
  | cons x s =>
    have hx : p x = false := hs x rfl
    simp [hx]

/-- A run of elements that satisfy `p`, followed by one that does not, can be read off. -/
theorem append_inj_of_stopsAt {p : α → Bool} (ha : ∀ x ∈ a, p x = true)
    (ha' : ∀ x ∈ a', p x = true) (hs : StopsAt p s) (hs' : StopsAt p s')
    (h : a ++ s = a' ++ s') : a = a' ∧ s = s' := by
  have hhead : a = a' := by
    rw [← takeWhile_of_stopsAt ha hs, h, takeWhile_of_stopsAt ha' hs']
  subst hhead
  exact ⟨rfl, List.append_cancel_left h⟩

/-- The same from the right: a run at the end of a text, after an element outside it. -/
theorem append_inj_of_stopsAt_right {p : α → Bool} (ha : ∀ x ∈ a, p x = true)
    (ha' : ∀ x ∈ a', p x = true) (hs : StopsAt p s.reverse) (hs' : StopsAt p s'.reverse)
    (h : s ++ a = s' ++ a') : s = s' ∧ a = a' := by
  have hr : a.reverse ++ s.reverse = a'.reverse ++ s'.reverse := by
    rw [← List.reverse_append, ← List.reverse_append, h]
  obtain ⟨h1, h2⟩ := append_inj_of_stopsAt (by simpa using ha) (by simpa using ha') hs hs' hr
  exact ⟨List.reverse_injective h2, List.reverse_injective h1⟩

/-! ## Separators -/

section Separators

variable {sep r r' : List α}

/-- In front of `sep`, the text `a` reaches to its first occurrence. -/
def FirstBehind (sep a : List α) : Prop := ¬ sep <:+: a ++ sep.dropLast

/-- Behind `sep`, the text `r` begins at its last occurrence. -/
def LastBefore (sep r : List α) : Prop := ¬ sep <:+: sep.tail ++ r

/-- A separator with `a` in front of it and `r` behind it in one text, `a'` and `r'` in another. If the texts
are the same, then it is found at one place: where it occurs first, where it occurs last, or where it occurs
the only time in one of them. -/
structure Located (sep a r a' r' : List α) : Prop where
  notBefore : FirstBehind sep a' ∨ LastBefore sep r
  notBehind : FirstBehind sep a ∨ LastBefore sep r'

theorem Located.of_first (h : FirstBehind sep a) (h' : FirstBehind sep a') : Located sep a r a' r' :=
  ⟨.inl h', .inl h⟩

theorem Located.of_last (h : LastBefore sep r) (h' : LastBefore sep r') : Located sep a r a' r' :=
  ⟨.inr h, .inr h'⟩

/-- A separator that occurs once is found, whatever the other text is. -/
theorem Located.of_once (ha : FirstBehind sep a) (hr : LastBefore sep r) : Located sep a r a' r' :=
  ⟨.inr hr, .inl ha⟩

/-- A text that goes on behind a separator with that separator is in two ways divided by it. -/
theorem not_located_of_later {d : List α} {z : α} (h : sep ++ r = z :: d ++ (sep ++ r')) :
    ¬ (FirstBehind sep (a ++ z :: d) ∨ LastBefore sep r) := by
  cases sep with
  | nil =>
    rintro (hfirst | hlast)
    · exact hfirst List.nil_infix
    · exact hlast List.nil_infix
  | cons x rest =>
    rintro (hfirst | hlast)
    · -- the first occurrence begins before `d` and ends before the second one does
      have hlong : (x :: rest).length ≤ (z :: d ++ (x :: rest).dropLast).length := by
        simp
      have hback : z :: d ++ (x :: rest).dropLast <+: z :: d ++ (x :: rest ++ r') :=
        (List.prefix_append_right_inj _).mpr ((List.dropLast_prefix _).trans (List.prefix_append _ _))
      have hfront : x :: rest <+: z :: d ++ (x :: rest).dropLast :=
        List.prefix_of_prefix_length_le ⟨r, h⟩ hback hlong
      refine hfirst ?_
      rw [List.append_assoc]
      exact hfront.isInfix.trans (List.suffix_append _ _).isInfix
    · rw [List.cons_append, List.cons_append, List.cons.injEq] at h
      refine hlast ?_
      rw [List.tail_cons, h.2]
      exact ⟨d, r', by simp⟩

/-- Texts around a separator that is located are determined by the whole. -/
theorem Located.append_inj (hloc : Located sep a r a' r') (h : a ++ (sep ++ r) = a' ++ (sep ++ r')) :
    a = a' ∧ r = r' := by
  rcases List.append_eq_append_iff.mp h with ⟨d, rfl, hd⟩ | ⟨d, rfl, hd⟩
  · cases d with
    | nil => exact ⟨(List.append_nil a).symm, List.append_cancel_left hd⟩
    | cons z d => exact absurd hloc.notBefore (not_located_of_later hd)
  · cases d with
    | nil => exact ⟨List.append_nil a', (List.append_cancel_left hd).symm⟩
    | cons z d => exact absurd hloc.notBehind (not_located_of_later hd)

theorem firstBehind_singleton {c : α} : FirstBehind [c] a ↔ c ∉ a := by
  rw [FirstBehind, List.dropLast_singleton, List.append_nil, List.singleton_infix_iff]

theorem lastBefore_singleton {c : α} : LastBefore [c] r ↔ c ∉ r := by
  rw [LastBefore, List.tail_cons, List.nil_append, List.singleton_infix_iff]

/-- Texts in front of the first occurrence of a letter. -/
theorem append_cons_inj {c : α} (ha : c ∉ a) (ha' : c ∉ a') (h : a ++ c :: r = a' ++ c :: r') :
    a = a' ∧ r = r' :=
  (Located.of_first (firstBehind_singleton.mpr ha) (firstBehind_singleton.mpr ha')).append_inj h

/-- A letter that occurs once divides the text. -/
theorem append_cons_inj_of_once {c : α} (ha : c ∉ a) (hr : c ∉ r) (h : a ++ c :: r = a' ++ c :: r') :
    a = a' ∧ r = r' :=
  (Located.of_once (firstBehind_singleton.mpr ha) (lastBefore_singleton.mpr hr)).append_inj h

end Separators

end Reading
