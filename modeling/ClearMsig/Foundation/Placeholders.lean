import ClearMsig.Foundation.Reading

/-!
# Texts with placeholders

A text is written from pieces: letters that stand for themselves, and names between an opening and a closing
letter. It can be read back in one way.
-/

namespace Placeholders

variable {α : Type} {o c : α} {s : List α}

/-- A letter to copy or a placeholder. -/
inductive Piece (α : Type) where
  | copy (a : α)
  | placeholder (name : List α)

/-- The text of the pieces. A name runs to the first closing letter. -/
inductive Written (o c : α) : List (Piece α) → List α → Prop where
  | nil : Written o c [] []
  | copy {a : α} {pieces : List (Piece α)} {s : List α} (ha : a ≠ o) (h : Written o c pieces s) :
      Written o c (.copy a :: pieces) (a :: s)
  | placeholder {name : List α} {pieces : List (Piece α)} {s : List α} (hname : c ∉ name)
      (h : Written o c pieces s) : Written o c (.placeholder name :: pieces) (o :: (name ++ c :: s))

/-- The text has an opening letter, behind some pieces, and no closing letter behind it. -/
def Unclosed (o c : α) (s : List α) : Prop :=
  ∃ pieces front rest, s = front ++ o :: rest ∧ Written o c pieces front ∧ c ∉ rest

/-- A text has one reading. -/
theorem Written.unique {pieces pieces' : List (Piece α)} (h : Written o c pieces s)
    (h' : Written o c pieces' s) : pieces = pieces' := by
  induction h generalizing pieces' with
  | nil =>
    cases h'
    rfl
  | copy ha _ ih =>
    cases h' with
    | copy _ h' => rw [ih h']
    | placeholder _ _ => exact absurd rfl ha
  | @placeholder name pieces s hname _ ih =>
    generalize hs : o :: (name ++ c :: s) = text at h'
    cases h' with
    | nil => cases hs
    | copy ha _ => exact absurd (List.cons.inj hs).1.symm ha
    | placeholder hname' h' =>
      obtain ⟨rfl, rfl⟩ := Reading.append_cons_inj hname hname' (List.cons.inj hs).2
      rw [ih h']

/-- The first piece of a text. -/
theorem Written.cons_cases {a : α} {pieces : List (Piece α)} (h : Written o c pieces (a :: s)) :
    (a ≠ o ∧ ∃ pieces', Written o c pieces' s) ∨
      (a = o ∧ ∃ name s' pieces', s = name ++ c :: s' ∧ c ∉ name ∧ Written o c pieces' s') := by
  generalize hs : a :: s = text at h
  cases h with
  | nil => cases hs
  | copy ha h =>
    obtain ⟨rfl, rfl⟩ := List.cons.inj hs
    exact .inl ⟨ha, _, h⟩
  | placeholder hname h =>
    obtain ⟨rfl, rfl⟩ := List.cons.inj hs
    exact .inr ⟨rfl, _, _, _, rfl, hname, h⟩

/-- A text with an unclosed placeholder has no reading. -/
theorem Unclosed.not_written {pieces : List (Piece α)} (h : Unclosed o c s) : ¬ Written o c pieces s := by
  obtain ⟨pieces', front, rest, rfl, hfront, hrest⟩ := h
  intro hwritten
  induction hfront generalizing pieces with
  | nil =>
    rcases hwritten.cons_cases with ⟨hne, -⟩ | ⟨-, name, s', _, rfl, -⟩
    · exact hne rfl
    · simp at hrest
  | copy ha _ ih =>
    rcases hwritten.cons_cases with ⟨-, _, h⟩ | ⟨heq, -⟩
    · exact ih h
    · exact ha heq
  | @placeholder name _ front hname _ ih =>
    rw [List.cons_append, List.append_assoc, List.cons_append] at hwritten
    rcases hwritten.cons_cases with ⟨hne, -⟩ | ⟨-, name', s', _, heq, hname', h⟩
    · exact hne rfl
    · obtain ⟨-, rfl⟩ := Reading.append_cons_inj hname hname' heq
      exact ih h

/-- What is behind the name and its closing letter. -/
theorem drop_name {name : List α} : (name ++ c :: s).drop (name.length + 1) = s := by
  rw [← List.drop_drop, List.drop_left, List.drop_one, List.tail_cons]

/-- Where the name behind an opening letter ends. -/
theorem findIdx?_eq_some [DecidableEq α] {rest : List α} {e : Nat} :
    rest.findIdx? (· = c) = some e ↔
      ∃ name s, rest = name ++ c :: s ∧ c ∉ name ∧ e = name.length := by
  constructor
  · intro h
    obtain ⟨hlt, hc, hbefore⟩ := List.findIdx?_eq_some_iff_getElem.mp h
    have hc' : rest[e] = c := of_decide_eq_true hc
    refine ⟨rest.take e, rest.drop (e + 1), ?_, ?_, by rw [List.length_take]; omega⟩
    · rw [← hc', ← List.drop_eq_getElem_cons, List.take_append_drop]
    · intro hmem
      obtain ⟨i, hi, hget⟩ := List.mem_take_iff_getElem.mp hmem
      have := hbefore i (by omega)
      simp [hget] at this
  · rintro ⟨name, s, rfl, hname, rfl⟩
    rw [List.findIdx?_eq_some_iff_getElem]
    refine ⟨by simp, by simp, fun i hi => ?_⟩
    rw [List.getElem_append_left hi]
    simp only [decide_eq_true_eq]
    rintro rfl
    exact hname (List.getElem_mem hi)

end Placeholders
