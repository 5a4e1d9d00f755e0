import ClearMsig.Basic
import ClearMsig.Foundation.Simulation
import ClearMsig.Foundation.Slots

/-!
# Runs on memory

A function that works on arrays of its own can go wrong in an access to them. Such a fault is kept apart
from the ways in which the program stops on purpose. A run on memory refines a run without it when both do
the same and no access is at fault.
-/

namespace ClearMsig

open Simulation (Sim)
open Slots (Fault)

/-- Why a run on memory stops without a result. -/
inductive Stop where
  /-- The code stops, as it also does without memory. -/
  | abort (a : Abort)
  /-- An access to memory goes wrong. -/
  | fault (f : Fault)
  deriving DecidableEq

abbrev MemResult := Except Stop

/-- A computation that touches no array. -/
def checked {α : Type} (x : Result α) : MemResult α := x.mapError .abort

/-- An access to an array. -/
def access {α : Type} (x : Except Fault α) : MemResult α := x.mapError .fault

theorem checked_bind {α β : Type} (x : Result α) (f : α → Result β) :
    checked (x >>= f) = checked x >>= fun a => checked (f a) := by
  cases x <;> rfl

/-- An access that succeeds passes on what it reads. -/
theorem access_bind_of_ok {α β : Type} {x : Except Fault α} {a : α} (hx : x = .ok a)
    (f : α → MemResult β) : (access x >>= f) = f a := by
  rw [hx]
  rfl

/-- `core::slice::from_raw_parts(ptr.add(offset), len)` over the data of an account. -/
def rawBytes (data : Bytes) (offset len : Nat) : Except Fault Bytes :=
  match getSlice data offset (offset + len) with
  | some bytes => .ok bytes
  | none => .error .outside

/-! ## Computations whose meaning is defined -/

/-- The computation does not run into undefined behaviour. -/
def Defined {α : Type} (x : Result α) : Prop := x ≠ .error .undefined

section Defined

variable {α β : Type}

theorem defined_ok (a : α) : Defined (.ok a : Result α) := by
  intro h
  cases h

theorem defined_err (e : ProgramError) : Defined (err e : Result α) := by
  intro h
  cases h

theorem Defined.bind {x : Result α} {f : α → Result β} (hx : Defined x)
    (hf : ∀ a, x = .ok a → Defined (f a)) : Defined (x >>= f) := by
  cases x with
  | ok a => exact hf a rfl
  | error e =>
    intro h
    rw [error_bind] at h
    exact hx (congrArg Except.error (Except.error.inj h))

theorem defined_require (c : Prop) [Decidable c] (e : ProgramError) : Defined (require c e) := by
  unfold require
  split_ifs
  · exact defined_ok ()
  · exact defined_err e

theorem defined_okOr (o : Option α) (e : ProgramError) : Defined (okOr o e) := by
  cases o with
  | some a => exact defined_ok a
  | none => exact defined_err e

theorem defined_slice (s : List α) (lo hi : Nat) : Defined (slice s lo hi) := by
  unfold slice
  cases getSlice s lo hi with
  | some t => exact defined_ok t
  | none =>
    intro h
    cases h

theorem defined_index (s : List α) (i : Nat) : Defined (index s i) := by
  unfold index
  cases s[i]? with
  | some a => exact defined_ok a
  | none =>
    intro h
    cases h

end Defined

/-! ## Refinement -/

/-- The run on memory stops in the same way, which is none that has no meaning. -/
def SameAbort (s : Stop) (a : Abort) : Prop := s = .abort a ∧ a ≠ .undefined

/-- The run on memory does what the run without it does. -/
abbrev Refines {α β : Type} (R : α → β → Prop) (x : MemResult α) (y : Result β) : Prop :=
  Sim SameAbort R x y

namespace Refines

variable {α β γ : Type} {R : β → γ → Prop}

theorem no_fault {x : MemResult β} {y : Result γ} (h : Refines R x y) (f : Fault) :
    x ≠ .error (.fault f) := by
  intro hx
  obtain ⟨a, -, ha, -⟩ := h.error_of_error hx
  cases ha

theorem defined {x : MemResult β} {y : Result γ} (h : Refines R x y) : Defined y := by
  intro hy
  cases h with
  | ok h => cases hy
  | error h => exact h.2 (Except.error.inj hy)

/-- A computation that touches no array is done on both sides. -/
theorem checked_bind {x : Result α} {f : α → MemResult β} {g : α → Result γ} (hx : Defined x)
    (h : ∀ a, x = .ok a → Refines R (f a) (g a)) : Refines R (checked x >>= f) (x >>= g) := by
  cases x with
  | ok a => exact h a rfl
  | error e => exact .error ⟨rfl, fun he => hx (congrArg Except.error he)⟩

theorem of_checked {x : Result α} (hx : Defined x) : Refines Eq (checked x) x := by
  cases x with
  | ok a => exact .ok rfl
  | error e => exact .error ⟨rfl, fun he => hx (congrArg Except.error he)⟩

/-- A check that is made on both sides. -/
theorem require_bind {c : Prop} [Decidable c] {e : ProgramError} {f : Unit → MemResult β}
    {g : Unit → Result γ} (h : c → Refines R (f ()) (g ())) :
    Refines R (checked (require c e) >>= f) (require c e >>= g) :=
  checked_bind (defined_require c e) fun _ hc => h (require_eq_ok.mp hc)

/-- An access that is known to succeed. -/
theorem access_bind {x : Except Fault α} {a : α} {f : α → MemResult β} {y : Result γ} (hx : x = .ok a)
    (h : Refines R (f a) y) : Refines R (access x >>= f) y := by
  rw [access_bind_of_ok hx]
  exact h

end Refines

end ClearMsig
