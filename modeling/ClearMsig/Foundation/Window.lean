import Mathlib.Data.List.Basic
import Mathlib.Tactic.SplitIfs

/-!
# Windows of a list

A run of items inside a list that is read or overwritten at an offset. Behind the end of the list a window
shows a default.
-/

namespace Window

variable {α : Type} {d : α} {data items : List α} {fields : List (Nat × List α)} {off off' len k : Nat}

/-- The items from `off` on, the default where the list is shorter. -/
def read (d : α) (data : List α) (off len : Nat) : List α :=
  (List.range len).map fun i => data.getD (off + i) d

/-- Put items over those from `off` on. -/
def write (data : List α) (off : Nat) (items : List α) : List α :=
  data.take off ++ items ++ data.drop (off + items.length)

/-- Write fields, each of them an offset and its items, one after the other. -/
def writes (data : List α) (fields : List (Nat × List α)) : List α :=
  fields.foldl (fun data f => write data f.1 f.2) data

/-- The field is inside a list of length `n`. -/
def Fits (n : Nat) (f : Nat × List α) : Prop := f.1 + f.2.length ≤ n

/-- The field does not meet the window. -/
def Beside (off len : Nat) (f : Nat × List α) : Prop := off + len ≤ f.1 ∨ f.1 + f.2.length ≤ off

/-! ## One write -/

theorem length_write (h : off + items.length ≤ data.length) : (write data off items).length = data.length := by
  simp only [write, List.length_append, List.length_take, List.length_drop]
  omega

theorem getD_write (h : off + items.length ≤ data.length) :
    (write data off items).getD k d =
      if off ≤ k ∧ k < off + items.length then items.getD (k - off) d else data.getD k d := by
  have htake : (data.take off).length = off := List.length_take_of_le (Nat.le_of_add_right_le h)
  simp only [write, List.getD_eq_getElem?_getD, List.append_assoc]
  rcases Nat.lt_or_ge k off with hlt | hge
  · rw [List.getElem?_append_left (htake.symm ▸ hlt), List.getElem?_take_of_lt hlt, if_neg (by omega)]
  · rw [List.getElem?_append_right (htake.symm ▸ hge), htake]
    rcases Nat.lt_or_ge k (off + items.length) with hin | hout
    · rw [List.getElem?_append_left (by omega), if_pos ⟨hge, hin⟩]
    · rw [List.getElem?_append_right (by omega), List.getElem?_drop, if_neg (by omega)]
      congr 2
      omega

theorem getD_write_of_notMem (h : off + items.length ≤ data.length)
    (hk : k < off ∨ off + items.length ≤ k) : (write data off items).getD k d = data.getD k d := by
  rw [getD_write h, if_neg (by omega)]

/-- What was written is read back. -/
theorem read_write (h : off + items.length ≤ data.length) :
    read d (write data off items) off items.length = items := by
  refine List.ext_getElem (by simp [read]) fun i hi hi' => ?_
  simp only [read, List.getElem_map, List.getElem_range]
  rw [getD_write h, if_pos ⟨by omega, by omega⟩, Nat.add_sub_cancel_left, List.getD_eq_getElem?_getD,
    List.getElem?_eq_getElem hi', Option.getD_some]

/-- A window beside the write is as it was. -/
theorem read_write_of_disjoint (h : off + items.length ≤ data.length)
    (hd : off' + len ≤ off ∨ off + items.length ≤ off') :
    read d (write data off items) off' len = read d data off' len := by
  refine List.map_congr_left fun i hi => getD_write_of_notMem h ?_
  have := List.mem_range.mp hi
  omega

theorem read_replicate {n : Nat} : read d (List.replicate n d) off len = List.replicate len d := by
  refine List.eq_replicate_iff.mpr ⟨by simp [read], fun x hx => ?_⟩
  obtain ⟨i, -, rfl⟩ := List.mem_map.mp hx
  rw [List.getD_eq_getElem?_getD, List.getElem?_replicate]
  split_ifs <;> rfl

/-! ## Many writes -/

theorem length_writes (h : ∀ f ∈ fields, Fits data.length f) : (writes data fields).length = data.length := by
  induction fields generalizing data with
  | nil => rfl
  | cons f fields ih =>
    have hf : (write data f.1 f.2).length = data.length := length_write (h f List.mem_cons_self)
    rw [writes, List.foldl_cons, ← writes, ih (fun g hg => hf ▸ h g (List.mem_cons_of_mem _ hg)), hf]

/-- A window beside all the fields is as it was. -/
theorem read_writes_of_beside (h : ∀ f ∈ fields, Fits data.length f) (hb : ∀ f ∈ fields, Beside off len f) :
    read d (writes data fields) off len = read d data off len := by
  induction fields generalizing data with
  | nil => rfl
  | cons f fields ih =>
    have hf : (write data f.1 f.2).length = data.length := length_write (h f List.mem_cons_self)
    rw [writes, List.foldl_cons, ← writes, ih (fun g hg => hf ▸ h g (List.mem_cons_of_mem _ hg))
      fun g hg => hb g (List.mem_cons_of_mem _ hg)]
    exact read_write_of_disjoint (h f List.mem_cons_self) (hb f List.mem_cons_self)

/-- A field that no later one meets is read back. -/
theorem read_writes_of_mem (h : ∀ f ∈ fields, Fits data.length f)
    (hp : fields.Pairwise fun f g => Beside f.1 f.2.length g) (hmem : (off, items) ∈ fields) :
    read d (writes data fields) off items.length = items := by
  induction fields generalizing data with
  | nil => exact absurd hmem List.not_mem_nil
  | cons f fields ih =>
    have hf : (write data f.1 f.2).length = data.length := length_write (h f List.mem_cons_self)
    have hrest : ∀ g ∈ fields, Fits (write data f.1 f.2).length g :=
      fun g hg => hf ▸ h g (List.mem_cons_of_mem _ hg)
    obtain ⟨hbeside, hp⟩ := List.pairwise_cons.mp hp
    rw [writes, List.foldl_cons, ← writes]
    rcases List.mem_cons.mp hmem with rfl | hmem
    · rw [read_writes_of_beside hrest hbeside]
      exact read_write (h _ List.mem_cons_self)
    · exact ih hrest hp hmem

end Window
