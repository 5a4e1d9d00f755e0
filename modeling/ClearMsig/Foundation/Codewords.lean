import Mathlib.Data.List.Basic
import Mathlib.Data.Set.Basic

/-!
# Self-delimiting codes

Words that tell where they end: in a word followed by anything, the word and what follows can be told apart.
A message that is put together from such words can be taken apart again, one word after the other.
-/

namespace Codewords

variable {α β : Type} {enc : α → List β} {S : Set α}

/-- The words of the values in `S` tell where they end. -/
def SelfDelimiting (enc : α → List β) (S : Set α) : Prop :=
  ∀ ⦃x⦄, x ∈ S → ∀ ⦃y⦄, y ∈ S → ∀ ⦃r r' : List β⦄, enc x ++ r = enc y ++ r' → x = y ∧ r = r'

/-- Words of one length do. -/
theorem SelfDelimiting.ofLength {n : Nat} (hlen : ∀ x ∈ S, (enc x).length = n)
    (hinj : ∀ x ∈ S, ∀ y ∈ S, enc x = enc y → x = y) : SelfDelimiting enc S := by
  intro x hx y hy r r' h
  obtain ⟨henc, hrest⟩ := List.append_inj h ((hlen x hx).trans (hlen y hy).symm)
  exact ⟨hinj x hx y hy henc, hrest⟩

theorem SelfDelimiting.mono {T : Set α} (h : SelfDelimiting enc S) (hsub : T ⊆ S) : SelfDelimiting enc T :=
  fun _ hx _ hy _ _ heq => h (hsub hx) (hsub hy) heq

/-- The items of two lists of one length, one after the other. -/
theorem SelfDelimiting.items (h : SelfDelimiting enc S) {l l' : List α} (hl : ∀ x ∈ l, x ∈ S)
    (hl' : ∀ x ∈ l', x ∈ S) (hlen : l.length = l'.length) {r r' : List β}
    (heq : l.flatMap enc ++ r = l'.flatMap enc ++ r') : l = l' ∧ r = r' := by
  induction l generalizing l' with
  | nil =>
    obtain rfl := List.length_eq_zero_iff.mp hlen.symm
    exact ⟨rfl, heq⟩
  | cons x l ih =>
    obtain ⟨y, l', rfl⟩ := List.exists_cons_of_length_eq_add_one hlen.symm
    simp only [List.flatMap_cons, List.append_assoc] at heq
    obtain ⟨rfl, hrest⟩ := h (hl x List.mem_cons_self) (hl' y List.mem_cons_self) heq
    obtain ⟨rfl, rfl⟩ := ih (fun z hz => hl z (List.mem_cons_of_mem _ hz))
      (fun z hz => hl' z (List.mem_cons_of_mem _ hz)) (Nat.succ.inj hlen) hrest
    exact ⟨rfl, rfl⟩

/-- A list of self-delimiting words with its length in front. -/
theorem SelfDelimiting.counted {count : Nat → List β} {N : Set Nat} (hcount : SelfDelimiting count N)
    (h : SelfDelimiting enc S) :
    SelfDelimiting (fun l : List α => count l.length ++ l.flatMap enc)
      {l | l.length ∈ N ∧ ∀ x ∈ l, x ∈ S} := by
  rintro l ⟨hN, hl⟩ l' ⟨hN', hl'⟩ r r' heq
  simp only [List.append_assoc] at heq
  obtain ⟨hlen, hrest⟩ := hcount hN hN' heq
  exact h.items hl hl' hlen hrest

end Codewords
