import Mathlib.Data.List.Basic

/-!
# Supplying a list of demands

Some demands bring an item of their own. The others take theirs from a supply, in order.
-/

namespace Supply

variable {κ α : Type} {own : κ → α → Prop} {ks : List κ} {supply items rest : List α}

/-- The demands `ks` are met with `items`, and `rest` is left of the supply. -/
inductive Supplies (own : κ → α → Prop) : List κ → List α → List α → List α → Prop where
  | nil (rest : List α) : Supplies own [] rest [] rest
  | own {k : κ} {a : α} {ks : List κ} {supply items rest : List α} (ha : own k a)
      (h : Supplies own ks supply items rest) : Supplies own (k :: ks) supply (a :: items) rest
  | next {k : κ} {a : α} {ks : List κ} {supply items rest : List α} (hk : ∀ a, ¬ own k a)
      (h : Supplies own ks supply items rest) : Supplies own (k :: ks) (a :: supply) (a :: items) rest

/-- Every demand gets one item. -/
theorem Supplies.length_eq (h : Supplies own ks supply items rest) : items.length = ks.length := by
  induction h with
  | nil rest => rfl
  | own _ _ ih | next _ _ ih => rw [List.length_cons, List.length_cons, ih]

/-- What is behind the supply is left over. -/
theorem Supplies.append (h : Supplies own ks supply items rest) (extra : List α) :
    Supplies own ks (supply ++ extra) items (rest ++ extra) := by
  induction h with
  | nil rest => exact .nil _
  | own ha _ ih => exact .own ha ih
  | next hk _ ih => exact .next hk ih

end Supply
