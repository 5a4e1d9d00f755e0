import Mathlib.Algebra.Group.Int.Defs
import Mathlib.Algebra.Group.Nat.Defs
import Mathlib.Data.List.Forall2
import Mathlib.Logic.Function.Basic
import Mathlib.Tactic.SplitIfs
import Mathlib.Tactic.Tauto

/-!
# Bytes, results and fixed-capacity values

The vocabulary every other module shares: byte strings, fixed-size arrays, the ways an instruction
can stop short, and the `PodVec` of the account structs.
-/

namespace ClearMsig

/-- A byte string (`&[u8]`). -/
abbrev Bytes := List UInt8

/-- `[u8; n]`. -/
abbrev ByteArr (n : Nat) := { b : Bytes // b.length = n }

/-- A 32-byte account address or ed25519 public key. -/
abbrev Address := ByteArr 32

/-- A 64-byte ed25519 signature. -/
abbrev Signature := ByteArr 64

/-- The bytes of an ASCII string literal. -/
def ascii (s : String) : Bytes := s.toList.map fun c => UInt8.ofNat c.toNat

/-- The first `n` bytes of `b`, zeros standing for the bytes that are missing. -/
def ByteArr.ofBytes (n : Nat) (b : Bytes) : ByteArr n :=
  ⟨(b ++ List.replicate n 0).take n, by simp⟩

/-- The errors of `ProgramError` the program returns. -/
inductive ProgramError where
  | invalidArgument
  | invalidInstructionData
  | invalidSeeds
  | missingRequiredSignature
  | arithmeticOverflow
  | notEnoughAccountKeys
  | immutable
  deriving DecidableEq, Repr

/-- The ways an instruction ends without a result. Each of them leaves the accounts unchanged. -/
inductive Abort where
  /-- The code returns `Err(e)`. -/
  | error (e : ProgramError)
  /-- A panic, such as a slice index out of range. -/
  | panic
  /-- The framework refuses the accounts it is given (wrong type, broken constraint, used address). -/
  | constraint
  /-- Behaviour Rust leaves undefined: an enum byte that is no variant, an unwritten slot. -/
  | undefined
  deriving DecidableEq, Repr

/-- `Result<T>`, with panics and undefined behaviour told apart from errors. -/
abbrev Result := Except Abort

/-- `Err(e)`. -/
abbrev err {α : Type} (e : ProgramError) : Result α := .error (.error e)

/-- `require!(c, e)`. -/
def require (c : Prop) [Decidable c] (e : ProgramError) : Result Unit :=
  if c then .ok () else err e

/-- `o.ok_or(e)?`. -/
def okOr {α : Type} (o : Option α) (e : ProgramError) : Result α :=
  match o with
  | some a => .ok a
  | none => err e

/-- `s.get(lo..hi)`. -/
def getSlice {α : Type} (s : List α) (lo hi : Nat) : Option (List α) :=
  if lo ≤ hi ∧ hi ≤ s.length then some ((s.drop lo).take (hi - lo)) else none

/-- `&s[lo..hi]`, which panics when the range is not inside `s`. -/
def slice {α : Type} (s : List α) (lo hi : Nat) : Result (List α) :=
  match getSlice s lo hi with
  | some t => .ok t
  | none => .error .panic

/-- `s[i]`, which panics when `i` is out of range. -/
def index {α : Type} (s : List α) (i : Nat) : Result α :=
  match s[i]? with
  | some a => .ok a
  | none => .error .panic

section Results

variable {α β : Type}

@[simp] theorem ok_bind (a : α) (f : α → Result β) : ((Except.ok a : Result α) >>= f) = f a := rfl

@[simp] theorem error_bind (e : Abort) (f : α → Result β) :
    ((Except.error e : Result α) >>= f) = .error e := rfl

@[simp] theorem pure_eq_ok (a : α) : (pure a : Result α) = .ok a := rfl

/-- A sequence of computations succeeds when each of them does. -/
theorem bind_eq_ok {x : Result α} {f : α → Result β} {b : β} :
    (x >>= f) = .ok b ↔ ∃ a, x = .ok a ∧ f a = .ok b := by
  cases x with
  | error e => simp
  | ok a => simp

@[simp] theorem require_eq_ok {c : Prop} [Decidable c] {e : ProgramError} {u : Unit} :
    require c e = .ok u ↔ c := by
  unfold require
  split_ifs with h <;> simp [h]

@[simp] theorem okOr_eq_ok {o : Option α} {e : ProgramError} {a : α} :
    okOr o e = .ok a ↔ o = some a := by
  cases o <;> simp [okOr]

theorem getSlice_eq_some {s t : List α} {lo hi : Nat} :
    getSlice s lo hi = some t ↔ lo ≤ hi ∧ hi ≤ s.length ∧ t = (s.drop lo).take (hi - lo) := by
  unfold getSlice
  split_ifs with h
  · simp [h, eq_comm]
  · simp only [false_iff]
    tauto

@[simp] theorem slice_eq_ok {s t : List α} {lo hi : Nat} :
    slice s lo hi = .ok t ↔ getSlice s lo hi = some t := by
  unfold slice
  cases getSlice s lo hi <;> simp

@[simp] theorem index_eq_ok {s : List α} {i : Nat} {a : α} : index s i = .ok a ↔ s[i]? = some a := by
  unfold index
  cases s[i]? <;> simp

/-- A traversal that succeeds has succeeded at every entry. -/
theorem mapM_eq_ok {f : α → Result β} {xs : List α} {ys : List β} :
    xs.mapM f = .ok ys ↔ List.Forall₂ (fun x y => f x = .ok y) xs ys := by
  induction xs generalizing ys with
  | nil =>
    rw [List.mapM_nil, List.forall₂_nil_left_iff]
    exact ⟨fun h => (Except.ok.inj h).symm, fun h => h ▸ rfl⟩
  | cons x xs ih =>
    simp only [List.mapM_cons, bind_eq_ok, pure_eq_ok, Except.ok.injEq, List.forall₂_cons_left_iff, ih]
    constructor
    · rintro ⟨y, hy, ys, hys, rfl⟩
      exact ⟨y, ys, hy, hys, rfl⟩
    · rintro ⟨y, ys, hy, hys, rfl⟩
      exact ⟨y, hy, ys, hys, rfl⟩

/-- Two traversals that agree wherever both succeed have the same result. -/
theorem mapM_unique {f g : α → Result β} {xs : List α} {ys zs : List β}
    (h : ∀ x ∈ xs, ∀ y z, f x = .ok y → g x = .ok z → y = z) (hf : xs.mapM f = .ok ys)
    (hg : xs.mapM g = .ok zs) : ys = zs := by
  rw [mapM_eq_ok] at hf hg
  induction hf generalizing zs with
  | nil => exact (List.forall₂_nil_left_iff.mp hg).symm
  | cons hxy hf ih =>
    obtain ⟨z, zs, hxz, hzs, rfl⟩ := List.forall₂_cons_left_iff.mp hg
    rw [h _ (by simp) _ _ hxy hxz, ih (fun x hx => h x (List.mem_cons_of_mem _ hx)) hzs]

/-- A loop of checks succeeds when each of them does. -/
theorem forM_eq_ok {f : α → Result Unit} {xs : List α} :
    xs.forM f = .ok () ↔ ∀ x ∈ xs, f x = .ok () := by
  induction xs with
  | nil => simp [pure_eq_ok]
  | cons x xs ih =>
    rw [List.forall_mem_cons, ← ih]
    exact bind_eq_ok.trans ⟨fun ⟨_, hx, hxs⟩ => ⟨hx, hxs⟩, fun ⟨hx, hxs⟩ => ⟨(), hx, hxs⟩⟩

theorem length_of_getSlice {s t : List α} {lo hi : Nat} (h : getSlice s lo hi = some t) :
    t.length = hi - lo := by
  obtain ⟨hlo, hhi, rfl⟩ := getSlice_eq_some.mp h
  simp only [List.length_take, List.length_drop]
  omega

end Results

/-- The number a little-endian byte string stands for (`from_le_bytes`). -/
def leNat : Bytes → Nat
  | [] => 0
  | b :: bs => b.toNat + 256 * leNat bs

/-- The `n` low bytes of `v`, least significant first (`to_le_bytes`). -/
def toLE : Nat → Nat → Bytes
  | 0, _ => []
  | n + 1, v => UInt8.ofNat v :: toLE n (v / 256)

/-- A UTF-8 continuation byte. -/
def isCont (b : UInt8) : Bool := 0x80 ≤ b && b ≤ 0xBF

/-- Whether `core::str::from_utf8` accepts the bytes: well-formed UTF-8, no overlong forms, no
surrogates, nothing above U+10FFFF. -/
def utf8Valid : Bytes → Bool
  | [] => true
  | b0 :: rest =>
    if b0 < 0x80 then utf8Valid rest
    else match rest with
      | b1 :: rest1 =>
        if 0xC2 ≤ b0 && b0 ≤ 0xDF then isCont b1 && utf8Valid rest1
        else match rest1 with
          | b2 :: rest2 =>
            if 0xE0 ≤ b0 && b0 ≤ 0xEF then
              isCont b1 && isCont b2 && (b0 != 0xE0 || 0xA0 ≤ b1) && (b0 != 0xED || b1 ≤ 0x9F) &&
                utf8Valid rest2
            else match rest2 with
              | b3 :: rest3 =>
                0xF0 ≤ b0 && b0 ≤ 0xF4 && isCont b1 && isCont b2 && isCont b3 &&
                  (b0 != 0xF0 || 0x90 ≤ b1) && (b0 != 0xF4 || b1 ≤ 0x8F) && utf8Valid rest3
              | [] => false
          | [] => false
      | [] => false

/-- `PodVec<T, N>`: a vector stored inline, with room for `N` items. -/
structure PodVec (α : Type) (N : Nat) where
  /-- The items in use (`as_slice()`). -/
  toList : List α
  len_le : toList.length ≤ N
  deriving DecidableEq

namespace PodVec

variable {α : Type} {N : Nat}

/-- The vector of a zeroed account. -/
def empty : PodVec α N := ⟨[], Nat.zero_le N⟩

/-- `set_from_slice`: store the whole slice or abort. -/
def setFromSlice (s : List α) : Result (PodVec α N) :=
  if h : s.length ≤ N then .ok ⟨s, h⟩ else .error .panic

end PodVec

/-- How `PodVec` lies in memory: a length field of `headerLen` bytes, then the `N` item slots. The
crate is not part of the repository, so the width of the field and the number of items that
`as_slice()` yields for a stored length beyond the capacity are left open. -/
structure PodVecLayout where
  /-- Width of the length field in bytes. -/
  headerLen : Nat
  /-- Number of items `as_slice()` yields, from the capacity and the length field. -/
  len : Nat → Bytes → Nat
  len_le : ∀ N header, len N header ≤ N
  len_zero : ∀ N, len N (List.replicate headerLen 0) = 0

end ClearMsig
