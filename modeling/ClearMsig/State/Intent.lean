import ClearMsig.Utils.Definition

/-!
# The intent account

`state/intent.rs`: the intent struct, the two readers of `params_data` that live on it, and the
packed layout through which raw bytes become an intent.
-/

namespace ClearMsig

inductive IntentType where
  | addIntent
  | removeIntent
  | updateIntent
  | custom
  deriving DecidableEq, Repr

namespace IntentType

/-- The discriminant of a variant. -/
def toU8 : IntentType → UInt8
  | addIntent => 0
  | removeIntent => 1
  | updateIntent => 2
  | custom => 3

/-- The variant with a discriminant, when there is one. -/
def ofByte (val : UInt8) : Option IntentType :=
  match val with
  | 0 => some .addIntent
  | 1 => some .removeIntent
  | 2 => some .updateIntent
  | 3 => some .custom
  | _ => none

/-- `IntentType::from_u8`. -/
def fromU8 (val : UInt8) : Result IntentType := okOr (ofByte val) .invalidInstructionData

end IntentType

/-- The intent account IS the definition. `intentType` is kept as the stored byte, because an intent
copied from raw bytes may hold one that is no `IntentType`. -/
structure Intent where
  wallet : Address
  bump : UInt8
  intentIndex : UInt8
  intentType : UInt8
  approved : UInt8
  approvalThreshold : UInt8
  cancellationThreshold : UInt8
  timelockSeconds : UInt32
  templateOffset : UInt16
  templateLen : UInt16
  /-- Number of open (Active or Approved) proposals using this intent. -/
  activeProposalCount : UInt16
  proposers : PodVec Address 16
  approvers : PodVec Address 16
  params : PodVec ParamEntry 8
  accounts : PodVec AccountEntry 32
  instructions : PodVec InstructionEntry 12
  dataSegments : PodVec DataSegmentEntry 32
  seeds : PodVec SeedEntry 32
  bytePool : PodVec UInt8 4096
  deriving DecidableEq

namespace Intent

/-- Matching on the `intent_type` field; a byte that is no variant has no defined meaning. -/
def readType (intent : Intent) : Result IntentType :=
  match IntentType.ofByte intent.intentType with
  | some t => .ok t
  | none => .error .undefined

/-- `is_approved`. -/
def isApproved (intent : Intent) : Bool := intent.approved != 0

/-- `is_proposer`. -/
def isProposer (intent : Intent) (address : Address) : Bool := intent.proposers.toList.contains address

/-- `template_str`. -/
def templateStr (intent : Intent) : Result Bytes :=
  let pool := intent.bytePool.toList
  let offset := intent.templateOffset.toNat
  let len := intent.templateLen.toNat
  if offset + len > pool.length then err .invalidInstructionData
  else do
    let s ← slice pool offset (offset + len)
    require (utf8Valid s) .invalidInstructionData
    .ok s

/-- The loop `for i in 0..param_index` of `read_param_bytes`: add the sizes of the first `n` of the
parameters `params` to `offset`. -/
def skipParams (paramsData : Bytes) : List ParamEntry → Nat → Nat → Result Nat
  | _, 0, offset => .ok offset
  | [], _ + 1, _ => err .invalidInstructionData
  | param :: params, n + 1, offset => do
    let size ← paramByteSize param.paramType paramsData offset
    skipParams paramsData params n (offset + size)

/-- `read_param_bytes`. -/
def readParamBytes (intent : Intent) (paramsData : Bytes) (paramIndex : UInt8) : Result Bytes := do
  let params := intent.params.toList
  let offset ← skipParams paramsData params paramIndex.toNat 0
  let param ← okOr params[paramIndex.toNat]? .invalidInstructionData
  let size ← paramByteSize param.paramType paramsData offset
  okOr (getSlice paramsData offset (offset + size)) .invalidInstructionData

/-- One round of `validate_param_constraints`: check the parameter at `offset` and move past it. -/
def validateParam (paramsData : Bytes) (param : ParamEntry) (offset : Nat) : Result Nat :=
  match param.paramType with
  | .address => do
    require (offset + 32 ≤ paramsData.length) .invalidInstructionData
    .ok (offset + 32)
  | .u64 => do
    require (offset + 8 ≤ paramsData.length) .invalidInstructionData
    let bytes ← slice paramsData offset (offset + 8)
    let val := UInt64.ofNat (leNat bytes)
    if param.constraintType = .lessThanU64 then
      require (val < param.constraintValue) .invalidArgument
    else if param.constraintType = .greaterThanU64 then
      require (val > param.constraintValue) .invalidArgument
    .ok (offset + 8)
  | .i64 => do
    require (offset + 8 ≤ paramsData.length) .invalidInstructionData
    .ok (offset + 8)
  | .string => do
    require (offset < paramsData.length) .invalidInstructionData
    let len ← index paramsData offset
    let offset := offset + 1
    require (offset + len.toNat ≤ paramsData.length) .invalidInstructionData
    let bytes ← slice paramsData offset (offset + len.toNat)
    require (utf8Valid bytes) .invalidInstructionData
    .ok (offset + len.toNat)
  | .bool | .u8 => do
    require (offset < paramsData.length) .invalidInstructionData
    .ok (offset + 1)
  | .u16 => do
    require (offset + 2 ≤ paramsData.length) .invalidInstructionData
    .ok (offset + 2)
  | .u32 => do
    require (offset + 4 ≤ paramsData.length) .invalidInstructionData
    .ok (offset + 4)
  | .u128 => do
    require (offset + 16 ≤ paramsData.length) .invalidInstructionData
    .ok (offset + 16)

/-- The loop of `validate_param_constraints` over the declared parameters. -/
def validateLoop (paramsData : Bytes) : List ParamEntry → Nat → Result Nat
  | [], offset => .ok offset
  | param :: params, offset => do
    let offset ← validateParam paramsData param offset
    validateLoop paramsData params offset

/-- `validate_param_constraints`. Bytes beyond the last parameter are accepted. -/
def validateParamConstraints (intent : Intent) (paramsData : Bytes) : Result Unit := do
  let _ ← validateLoop paramsData intent.params.toList 0
  .ok ()

/-! ## The packed layout

All fields have alignment one, so the struct is the concatenation of its fields. -/

section Layout

variable (layout : PodVecLayout)

/-- Size of a `PodVec` of `N` items of `size` bytes. -/
def podVecSize (N size : Nat) : Nat := layout.headerLen + N * size

def offProposers : Nat := 48
def offApprovers : Nat := offProposers + podVecSize layout 16 32
def offParams : Nat := offApprovers layout + podVecSize layout 16 32
def offAccounts : Nat := offParams layout + podVecSize layout 8 14
def offInstructions : Nat := offAccounts layout + podVecSize layout 32 7
def offDataSegments : Nat := offInstructions layout + podVecSize layout 12 9
def offSeeds : Nat := offDataSegments layout + podVecSize layout 32 5
def offBytePool : Nat := offSeeds layout + podVecSize layout 32 5

/-- `size_of::<Intent>()`. -/
def sizeOfIntent : Nat := offBytePool layout + podVecSize layout 4096 1

variable (body : Bytes)

/-- `len` bytes of a body at `off`, zeros where the body is shorter. -/
def bytesAt (off len : Nat) : Bytes := (List.range len).map fun i => body.getD (off + i) 0

/-- The byte of a body at `off`. -/
def byteAt (off : Nat) : UInt8 := body.getD off 0

/-- A little-endian `u16` field. -/
def u16At (off : Nat) : UInt16 := UInt16.ofNat (leNat (bytesAt body off 2))

/-- The `PodVec` field at `off`, its items read with `item` at their own offsets. `none` when an item
in use holds a byte that is no value of its type. -/
def podVecAt {α : Type} (N size : Nat) (item : Bytes → Nat → Option α) (off : Nat) :
    Option (PodVec α N) :=
  let n := layout.len N (bytesAt body off layout.headerLen)
  match (List.range n).mapM fun k => item body (off + layout.headerLen + k * size) with
  | some items => if hn : items.length ≤ N then some ⟨items, hn⟩ else none
  | none => none

def addressAt (off : Nat) : Option Address := some (ByteArr.ofBytes 32 (bytesAt body off 32))

def boolAt (off : Nat) : Option Bool :=
  match byteAt body off with
  | 0 => some false
  | 1 => some true
  | _ => none

def paramTypeOf (b : UInt8) : Option ParamType :=
  [.address, .u64, .i64, .string, .bool, .u8, .u16, .u32, .u128][b.toNat]?

def constraintTypeOf (b : UInt8) : Option ConstraintType :=
  [.none, .lessThanU64, .greaterThanU64][b.toNat]?

def accountSourceTypeOf (b : UInt8) : Option AccountSourceType :=
  [.static, .param, .pdaDerived, .hasOne, .vault][b.toNat]?

def segmentTypeOf (b : UInt8) : Option SegmentType := [.literal, .param][b.toNat]?

def seedTypeOf (b : UInt8) : Option SeedType := [.literal, .paramRef, .accountRef][b.toNat]?

def paramEntryAt (off : Nat) : Option ParamEntry := do
  let paramType ← paramTypeOf (byteAt body off)
  let constraintType ← constraintTypeOf (byteAt body (off + 5))
  some { paramType, nameOffset := u16At body (off + 1), nameLen := u16At body (off + 3)
         constraintType, constraintValue := UInt64.ofNat (leNat (bytesAt body (off + 6) 8)) }

def accountEntryAt (off : Nat) : Option AccountEntry := do
  let isSigner ← boolAt body off
  let isWritable ← boolAt body (off + 1)
  let sourceType ← accountSourceTypeOf (byteAt body (off + 2))
  some { isSigner, isWritable, sourceType, poolOffset := u16At body (off + 3)
         poolLen := u16At body (off + 5) }

def instructionEntryAt (off : Nat) : Option InstructionEntry :=
  some { programAccountIndex := byteAt body off, accountIndexesOffset := u16At body (off + 1)
         accountIndexesLen := u16At body (off + 3), segmentsStart := u16At body (off + 5)
         segmentsCount := u16At body (off + 7) }

def dataSegmentEntryAt (off : Nat) : Option DataSegmentEntry := do
  let segmentType ← segmentTypeOf (byteAt body off)
  some { segmentType, poolOffset := u16At body (off + 1), poolLen := u16At body (off + 3) }

def seedEntryAt (off : Nat) : Option SeedEntry := do
  let seedType ← seedTypeOf (byteAt body off)
  some { seedType, poolOffset := u16At body (off + 1), poolLen := u16At body (off + 3) }

/-- The intent whose bytes are `body`, in an account that was zeroed before. `none` when an entry in
use holds a byte that is no value of its Rust type. -/
def fromBody : Option Intent := do
  let proposers ← podVecAt layout body 16 32 addressAt offProposers
  let approvers ← podVecAt layout body 16 32 addressAt (offApprovers layout)
  let params ← podVecAt layout body 8 14 paramEntryAt (offParams layout)
  let accounts ← podVecAt layout body 32 7 accountEntryAt (offAccounts layout)
  let instructions ← podVecAt layout body 12 9 instructionEntryAt (offInstructions layout)
  let dataSegments ← podVecAt layout body 32 5 dataSegmentEntryAt (offDataSegments layout)
  let seeds ← podVecAt layout body 32 5 seedEntryAt (offSeeds layout)
  let bytePool ← podVecAt layout body 4096 1 (fun b off => some (byteAt b off)) (offBytePool layout)
  some
    { wallet := ByteArr.ofBytes 32 (bytesAt body 0 32)
      bump := byteAt body 32
      intentIndex := byteAt body 33
      intentType := byteAt body 34
      approved := byteAt body 35
      approvalThreshold := byteAt body 36
      cancellationThreshold := byteAt body 37
      timelockSeconds := UInt32.ofNat (leNat (bytesAt body 38 4))
      templateOffset := u16At body 42
      templateLen := u16At body 44
      activeProposalCount := u16At body 46
      proposers, approvers, params, accounts, instructions, dataSegments, seeds, bytePool }

end Layout

end Intent

end ClearMsig
