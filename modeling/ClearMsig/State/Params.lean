import ClearMsig.State.Intent

/-!
# What parameter data means

The encodings of the parameter types and the numbers that a constraint admits, as a definition states them.
-/

namespace ClearMsig

namespace ParamType

/-- The size of a value, for the types of one size. -/
def fixedSize : ParamType → Option Nat
  | .address => some 32
  | .u64 | .i64 => some 8
  | .string => none
  | .bool | .u8 => some 1
  | .u16 => some 2
  | .u32 => some 4
  | .u128 => some 16

/-- The bytes of a value. A text stands behind its length. -/
def Encodes (t : ParamType) (raw : Bytes) : Prop :=
  match t.fixedSize with
  | some size => raw.length = size
  | none => ∃ text, utf8Valid text = true ∧ text.length < 256 ∧ raw = UInt8.ofNat text.length :: text

/-- The unsigned integers. -/
def IsUnsigned (t : ParamType) : Prop := t ∈ [.u8, .u16, .u32, .u64, .u128]

instance (t : ParamType) : Decidable t.IsUnsigned := inferInstanceAs (Decidable (_ ∈ _))

end ParamType

/-- The numbers that meet a constraint with the given value. -/
def ConstraintType.Admits (value : UInt64) : ConstraintType → Nat → Prop
  | .none, _ => True
  | .lessThanU64, n => n < value.toNat
  | .greaterThanU64, n => value.toNat < n

instance (value : UInt64) (n : Nat) : (c : ConstraintType) → Decidable (c.Admits value n)
  | .none => inferInstanceAs (Decidable True)
  | .lessThanU64 => inferInstanceAs (Decidable (n < value.toNat))
  | .greaterThanU64 => inferInstanceAs (Decidable (value.toNat < n))

namespace ParamEntry

/-- The numbers that meet the constraint of the parameter. -/
def Admits (param : ParamEntry) (n : Nat) : Prop := param.constraintType.Admits param.constraintValue n

instance (param : ParamEntry) (n : Nat) : Decidable (param.Admits n) :=
  inferInstanceAs (Decidable (param.constraintType.Admits param.constraintValue n))

/-- A value of the parameter that meets its constraint. -/
def Holds (param : ParamEntry) (raw : Bytes) : Prop :=
  param.paramType.Encodes raw ∧ (param.paramType.IsUnsigned → param.Admits (leNat raw))

/-- No `u64` meets the constraint. -/
def Impossible (param : ParamEntry) : Prop :=
  param.constraintType = .lessThanU64 ∧ param.constraintValue = 0 ∨
    param.constraintType = .greaterThanU64 ∧ param.constraintValue.toNat = 2 ^ 64 - 1

/-- The constraint rules out no number of the type: there is none, or an upper bound above all of them. -/
def Unlimited (param : ParamEntry) : Prop :=
  param.constraintType = .none ∨
    param.constraintType = .lessThanU64 ∧
      ∃ size, param.paramType.fixedSize = some size ∧ 256 ^ size ≤ param.constraintValue.toNat

end ParamEntry

end ClearMsig
