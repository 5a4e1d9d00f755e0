import ClearMsig.Instructions.Custom
import ClearMsig.Utils.MessageText

/-!
# What the data of an invocation says

The values that a data encoding denotes and can hold, to be compared with the values that a message
shows.
-/

namespace ClearMsig

namespace DataEncoding

/-- The value of encoded bytes, of which there are as many as the encoding has. A bool is a zero or a
one. -/
def decode (encoding : DataEncoding) (bytes : Bytes) : Option Value :=
  if bytes.length = encoding.byteSize then
    match encoding with
    | rawAddress => some (.address bytes)
    | littleEndianI64 => some (.number (Int64.ofNat (leNat bytes)).toInt)
    | bool =>
      if bytes = [0] then some (.bool false) else if bytes = [1] then some (.bool true) else none
    | _ => some (.number (leNat bytes))
  else none

/-- The values an encoding has bytes for. -/
def Holds : DataEncoding → Value → Prop
  | rawAddress, v => ∃ a, v = .address a ∧ a.length = 32
  | littleEndianI64, v => ∃ n, v = .number n ∧ -2 ^ 63 ≤ n ∧ n < 2 ^ 63
  | bool, v => ∃ b, v = .bool b
  | encoding, v => ∃ n, v = .number n ∧ 0 ≤ n ∧ n < 256 ^ encoding.byteSize

/-- The encoding that is named like a type; there is none for strings. -/
def ofType : ParamType → Option DataEncoding
  | .address => some rawAddress
  | .u64 => some littleEndianU64
  | .i64 => some littleEndianI64
  | .string => none
  | .bool => some bool
  | .u8 => some littleEndianU8
  | .u16 => some littleEndianU16
  | .u32 => some littleEndianU32
  | .u128 => some littleEndianU128

end DataEncoding

namespace Execute

/-- The bytes of one data segment. -/
def segmentBytes (intent : Intent) (paramsData : Bytes) (seg : DataSegmentEntry) : Result Bytes := do
  let segPool ← slice intent.bytePool.toList seg.poolOffset.toNat (seg.poolOffset + seg.poolLen).toNat
  match seg.segmentType with
  | .literal => .ok segPool
  | .param => do
    require (2 ≤ segPool.length) .invalidInstructionData
    let paramIdx ← index segPool 0
    let encoding ← okOr (DataEncoding.fromU8 (← index segPool 1)) .invalidInstructionData
    let val ← intent.readParamBytes paramsData paramIdx
    require (encoding.byteSize ≤ val.length) .invalidInstructionData
    .ok (val.take encoding.byteSize)

/-- A `Param` segment copies the parameter `idx` under the encoding `encoding`. -/
def Copies (intent : Intent) (seg : DataSegmentEntry) (idx : UInt8) (encoding : DataEncoding) : Prop :=
  seg.segmentType = .param ∧ ∃ segPool,
    slice intent.bytePool.toList seg.poolOffset.toNat (seg.poolOffset + seg.poolLen).toNat = .ok segPool ∧
    segPool[0]? = some idx ∧ (segPool[1]?).bind DataEncoding.fromU8 = some encoding

/-- What a piece of the data is, and what it says beside the message. A `Literal` segment is its bytes of
the pool. A `Param` segment is the first bytes of a parameter, as many as the encoding has: the message
shows the value of the parameter wherever it renders it, and the piece decodes to this value exactly when
the encoding holds it. The encoding that is named like the type does. -/
def Faithful (intent : Intent) (data : Bytes) (seg : DataSegmentEntry) (piece : Bytes) : Prop :=
  (seg.segmentType = .literal →
    slice intent.bytePool.toList seg.poolOffset.toNat (seg.poolOffset + seg.poolLen).toNat = .ok piece) ∧
  (seg.segmentType = .param → ∃ idx encoding param raw,
    Copies intent seg idx encoding ∧ intent.params.toList[idx.toNat]? = some param ∧
    intent.readParamBytes data idx = .ok raw ∧
    encoding.byteSize ≤ raw.length ∧ piece = raw.take encoding.byteSize ∧
    (∀ b b' : MessageBuilder, b.renderParam intent data idx = .ok b' →
      b'.bytes = b.bytes ++ (param.paramType.valueOf raw).display) ∧
    (encoding.decode piece = some (param.paramType.valueOf raw) ↔
      encoding.Holds (param.paramType.valueOf raw) ∧
        (encoding = .bool → raw = [0] ∨ raw = [1])) ∧
    (DataEncoding.ofType param.paramType = some encoding →
      encoding.Holds (param.paramType.valueOf raw)))

end Execute

end ClearMsig
