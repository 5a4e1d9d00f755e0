import Mathlib.Algebra.GroupWithZero.Nat
import Mathlib.Data.List.Forall2
import Mathlib.Data.List.Infix
import Mathlib.Logic.Relation

/-!
# Fields one after another

A text that starts with a list of fields, each of its own kind and length, and readers that go over it
field by field. What a reader does at one field decides what its walk over all of them does.
-/

namespace Fields

variable {α κ ε : Type} {s f g : List α} {fs : List (List α)}

theorem append_prefix_iff : f ++ g <+: s ↔ f <+: s ∧ g <+: s.drop f.length := by
  constructor
  · rintro ⟨t, rfl⟩
    refine ⟨⟨g ++ t, (List.append_assoc ..).symm⟩, ⟨t, ?_⟩⟩
    rw [List.append_assoc, List.drop_left]
  · rintro ⟨⟨t, rfl⟩, hg⟩
    rw [List.drop_left] at hg
    exact (List.prefix_append_right_inj f).mpr hg

/-- A text at an offset and a text behind it. -/
theorem append_prefix_drop_iff {off : Nat} :
    f ++ g <+: s.drop off ↔ f <+: s.drop off ∧ g <+: s.drop (off + f.length) := by
  rw [append_prefix_iff, List.drop_drop]

/-- `part` is what stands in a text at an offset, for a length. -/
def RangeOf (s : List α) (offset len : Nat) (part : List α) : Prop :=
  ∃ before after, s = before ++ part ++ after ∧ before.length = offset ∧ part.length = len

theorem rangeOf_iff {offset len : Nat} {part : List α} :
    RangeOf s offset len part ↔ offset ≤ s.length ∧ part.length = len ∧ part <+: s.drop offset := by
  constructor
  · rintro ⟨before, after, rfl, rfl, rfl⟩
    rw [List.append_assoc, List.drop_left, List.length_append]
    exact ⟨Nat.le_add_right .., rfl, List.prefix_append ..⟩
  · rintro ⟨hoff, hlen, after, hafter⟩
    refine ⟨s.take offset, after, ?_, List.length_take_of_le hoff, hlen⟩
    rw [List.append_assoc, hafter, List.take_append_drop]

/-! ## Where fields start -/

/-- Where field number `i` starts. -/
def start (fs : List (List α)) (i : Nat) : Nat := (fs.take i).flatten.length

/-- Where a field starts depends on the lengths of the fields before it. -/
theorem start_eq_sum (fs : List (List α)) (i : Nat) :
    start fs i = ((fs.map List.length).take i).sum := by
  rw [start, List.length_flatten, List.map_take]

/-- The fields in front of a field come first. -/
theorem flatten_take_isPrefix (fs : List (List α)) (i : Nat) : (fs.take i).flatten <+: fs.flatten := by
  refine ⟨(fs.drop i).flatten, ?_⟩
  rw [← List.flatten_append, List.take_append_drop]

theorem start_le (h : fs.flatten <+: s) (i : Nat) : start fs i ≤ s.length :=
  ((flatten_take_isPrefix fs i).trans h).length_le

/-- Every field lies at its start. -/
theorem prefix_drop_start {i : Nat} (h : fs.flatten <+: s) (hi : fs[i]? = some f) :
    f <+: s.drop (start fs i) := by
  obtain ⟨hlt, rfl⟩ := List.getElem?_eq_some_iff.mp hi
  have hsplit : fs.flatten = (fs.take i).flatten ++ (fs[i] ++ (fs.drop (i + 1)).flatten) := by
    rw [← List.flatten_cons, ← List.drop_eq_getElem_cons hlt, ← List.flatten_append,
      List.take_append_drop]
  rw [hsplit, append_prefix_iff] at h
  exact (append_prefix_iff.mp h.2).1

/-! ## Lists that correspond entry by entry -/

section Correspond

variable {β γ : Type} {R R' : α → β → Prop} {S : β → γ → Prop} {xs : List α} {ys : List β} {zs : List γ}

theorem exists_of_mem (h : List.Forall₂ R xs ys) {x : α} (hx : x ∈ xs) : ∃ y ∈ ys, R x y := by
  obtain ⟨i, hi, rfl⟩ := List.mem_iff_getElem.mp hx
  have hi' : i < ys.length := h.length_eq ▸ hi
  exact ⟨_, List.getElem_mem hi', h.get hi hi'⟩

theorem forall₂_imp_of_mem (h : List.Forall₂ R xs ys) (hR : ∀ x ∈ xs, ∀ y, R x y → R' x y) :
    List.Forall₂ R' xs ys := by
  induction h with
  | nil => exact .nil
  | cons hxy _ ih =>
    obtain ⟨hx, hxs⟩ := List.forall_mem_cons.mp hR
    exact .cons (hx _ hxy) (ih hxs)

theorem forall₂_comp (h : List.Forall₂ R xs ys) (h' : List.Forall₂ S ys zs) :
    List.Forall₂ (Relation.Comp R S) xs zs := by
  induction h generalizing zs with
  | nil =>
    cases h'
    exact .nil
  | cons hxy _ ih =>
    obtain ⟨z, zs, hyz, hzs, rfl⟩ := List.forall₂_cons_left_iff.mp h'
    exact .cons ⟨_, hxy, hyz⟩ (ih hzs)

end Correspond

/-! ## Lists of fields -/

section Forms

variable {Form : κ → List α → Prop} {ks : List κ} {k : κ}

theorem exists_fields_of_forall (h : ∀ k ∈ ks, ∃ f, Form k f) : ∃ fs, List.Forall₂ Form ks fs := by
  induction ks with
  | nil => exact ⟨[], .nil⟩
  | cons k ks ih =>
    obtain ⟨⟨f, hf⟩, hks⟩ := List.forall_mem_cons.mp h
    obtain ⟨fs, hfs⟩ := ih hks
    exact ⟨f :: fs, .cons hf hfs⟩

/-- Fields for a list of kinds, one of them given. -/
theorem exists_fields (h : ∀ k ∈ ks, ∃ f, Form k f) {i : Nat} (hk : ks[i]? = some k) (hf : Form k f) :
    ∃ fs, List.Forall₂ Form ks fs ∧ fs[i]? = some f := by
  induction ks generalizing i with
  | nil => simp at hk
  | cons k' ks ih =>
    obtain ⟨⟨f', hf'⟩, hks⟩ := List.forall_mem_cons.mp h
    cases i with
    | zero =>
      obtain rfl := Option.some.inj hk
      obtain ⟨fs, hfs⟩ := exists_fields_of_forall hks
      exact ⟨f :: fs, .cons hf hfs, rfl⟩
    | succ i =>
      obtain ⟨fs, hfs, hi⟩ := ih hks hk
      exact ⟨f' :: fs, .cons hf' hfs, hi⟩

end Forms

/-! ## Walks -/

variable {Form : κ → List α → Prop} {step : κ → Nat → Except ε Nat} {ks : List κ} {off : Nat}

/-- A reader that moves past every field that is there walks over all of them. -/
theorem walk_of_fields (hstep : ∀ k f off, Form k f → f <+: s.drop off → step k off = .ok (off + f.length))
    (hfs : List.Forall₂ Form ks fs) (h : fs.flatten <+: s.drop off) :
    ks.foldlM (fun off k => step k off) off = .ok (off + fs.flatten.length) := by
  induction hfs generalizing off with
  | nil => rfl
  | @cons k f ks fs hk hks ih =>
    obtain ⟨hf, hrest⟩ := append_prefix_drop_iff.mp h
    rw [List.foldlM_cons, hstep k f off hk hf, List.flatten_cons, List.length_append, ← Nat.add_assoc]
    exact ih hrest

/-- A reader that accepts exactly the fields of the right form accepts exactly the texts that start with
such fields. -/
theorem walk_eq_ok_iff {off' : Nat}
    (hstep : ∀ k off off', step k off = .ok off' ↔
      ∃ f, Form k f ∧ f <+: s.drop off ∧ off' = off + f.length) :
    ks.foldlM (fun off k => step k off) off = .ok off' ↔
      ∃ fs, List.Forall₂ Form ks fs ∧ fs.flatten <+: s.drop off ∧ off' = off + fs.flatten.length := by
  constructor
  · intro h
    induction ks generalizing off with
    | nil => exact ⟨[], .nil, List.nil_prefix, (Except.ok.inj h).symm⟩
    | cons k ks ih =>
      rw [List.foldlM_cons] at h
      cases hk : step k off with
      | error e =>
        rw [hk] at h
        cases h
      | ok off₁ =>
        rw [hk] at h
        obtain ⟨f, hform, hf, rfl⟩ := (hstep k off off₁).mp hk
        obtain ⟨fs, hfs, hrest, rfl⟩ := ih h
        refine ⟨f :: fs, .cons hform hfs, append_prefix_drop_iff.mpr ⟨hf, hrest⟩, ?_⟩
        rw [List.flatten_cons, List.length_append, Nat.add_assoc]
  · rintro ⟨fs, hfs, h, rfl⟩
    exact walk_of_fields (fun k f off hk hf => (hstep k off _).mpr ⟨f, hk, hf, rfl⟩) hfs h

end Fields
