import ClearMsig.Basic

/-!
# Intent definitions: entry types and their byte sizes

`utils/definition.rs`. The entry structs keep their field order; the byte offsets inside the packed
structs are those of `ClearMsig.State.Intent`.
-/

namespace ClearMsig

/-- The declared type of a parameter. -/
inductive ParamType where
  | address
  | u64
  | i64
  | string
  | bool
  | u8
  | u16
  | u32
  | u128
  deriving DecidableEq, Repr

/-- The constraint a parameter may carry. -/
inductive ConstraintType where
  | none
  | lessThanU64
  | greaterThanU64
  deriving DecidableEq, Repr

/-- Where an account slot gets its address from. -/
inductive AccountSourceType where
  | static
  | param
  | pdaDerived
  | hasOne
  | vault
  deriving DecidableEq, Repr

inductive SegmentType where
  | literal
  | param
  deriving DecidableEq, Repr

inductive SeedType where
  | literal
  | paramRef
  | accountRef
  deriving DecidableEq, Repr

/-- The encoding a data segment declares for the parameter it copies. -/
inductive DataEncoding where
  | rawAddress
  | littleEndianU64
  | littleEndianI64
  | bool
  | littleEndianU8
  | littleEndianU16
  | littleEndianU32
  | littleEndianU128
  deriving DecidableEq, Repr

structure ParamEntry where
  paramType : ParamType
  nameOffset : UInt16
  nameLen : UInt16
  constraintType : ConstraintType
  constraintValue : UInt64
  deriving DecidableEq

/-- Account source entry. The pool bytes at `poolOffset` depend on `sourceType`. -/
structure AccountEntry where
  isSigner : Bool
  isWritable : Bool
  sourceType : AccountSourceType
  poolOffset : UInt16
  poolLen : UInt16
  deriving DecidableEq

structure InstructionEntry where
  programAccountIndex : UInt8
  accountIndexesOffset : UInt16
  accountIndexesLen : UInt16
  segmentsStart : UInt16
  segmentsCount : UInt16
  deriving DecidableEq

/-- Data segment entry: literal pool bytes, or `[param_index, encoding]`. -/
structure DataSegmentEntry where
  segmentType : SegmentType
  poolOffset : UInt16
  poolLen : UInt16
  deriving DecidableEq

/-- PDA seed entry: literal pool bytes, `[param_index]` or `[account_index]`. -/
structure SeedEntry where
  seedType : SeedType
  poolOffset : UInt16
  poolLen : UInt16
  deriving DecidableEq

/-- `param_byte_size`: how many bytes a parameter at `offset` takes. Only a string looks at the
data, for its length byte. -/
def paramByteSize (paramType : ParamType) (paramsData : Bytes) (offset : Nat) : Result Nat :=
  match paramType with
  | .address => .ok 32
  | .u64 | .i64 => .ok 8
  | .string => do
    let len ← okOr paramsData[offset]? .invalidInstructionData
    .ok (1 + len.toNat)
  | .bool | .u8 => .ok 1
  | .u16 => .ok 2
  | .u32 => .ok 4
  | .u128 => .ok 16

/-- `DataEncoding::from_u8`. -/
def DataEncoding.fromU8 (v : UInt8) : Option DataEncoding :=
  match v with
  | 0 => some .rawAddress
  | 1 => some .littleEndianU64
  | 2 => some .littleEndianI64
  | 3 => some .bool
  | 4 => some .littleEndianU8
  | 5 => some .littleEndianU16
  | 6 => some .littleEndianU32
  | 7 => some .littleEndianU128
  | _ => none

/-- `DataEncoding::byte_size`. -/
def DataEncoding.byteSize : DataEncoding → Nat
  | .rawAddress => 32
  | .littleEndianU64 | .littleEndianI64 => 8
  | .bool | .littleEndianU8 => 1
  | .littleEndianU16 => 2
  | .littleEndianU32 => 4
  | .littleEndianU128 => 16

end ClearMsig
