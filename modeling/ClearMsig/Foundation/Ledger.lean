import ClearMsig.Foundation.Runs
import Mathlib.Data.Set.Card

/-!
# Ledgers

A set that a run opens and closes entries of, one at a time. What has been opened is what has been closed
and what is still there.
-/

namespace Ledger

open Runs (Event System Run)

variable {σ ι α : Type}

/-- What an event does to the set: nothing, one more entry, or one less, and how it is booked. -/
inductive Entry (opens closes : Bool) (before after : Set α) : Prop where
  | kept (ho : opens = false) (hc : closes = false) (h : after = before)
  | opened (ho : opens = true) (hc : closes = false) (a : α) (ha : a ∉ before) (h : after = insert a before)
  | closed (ho : opens = false) (hc : closes = true) (a : α) (ha : a ∈ before) (h : after = before \ {a})

variable {S : System σ ι} {tr : List (Event σ ι)} {s : σ} {view : σ → Set α} {opens closes : Event σ ι → Bool}

/-- The books of a run balance. -/
theorem balance (hrun : Run S tr s) (start : ∀ s, S.init s → view s = ∅)
    (step : ∀ e ∈ tr, Entry (opens e) (closes e) (view e.pre) (view e.post)) :
    (view s).encard + tr.countP closes = tr.countP opens := by
  induction hrun with
  | start h => simp [start _ h]
  | @next tr s s' l hr hs ih =>
    have ih := ih fun e he => step e (List.mem_cons_of_mem _ he)
    cases step ⟨s, l, s'⟩ List.mem_cons_self with
    | kept ho hc h =>
      simp only at h
      rw [h, List.countP_cons_of_neg (by rw [hc]; decide), List.countP_cons_of_neg (by rw [ho]; decide), ih]
    | opened ho hc a ha h =>
      simp only at h ha
      rw [h, List.countP_cons_of_neg (by rw [hc]; decide), List.countP_cons_of_pos ho,
        Set.encard_insert_of_notMem ha, add_right_comm, ih, Nat.cast_add, Nat.cast_one]
    | closed ho hc a ha h =>
      simp only at h ha
      rw [h, List.countP_cons_of_pos hc, List.countP_cons_of_neg (by rw [ho]; decide), Nat.cast_add,
        Nat.cast_one, ← ih, ← Set.encard_sdiff_singleton_add_one ha, add_right_comm, add_assoc]

end Ledger
