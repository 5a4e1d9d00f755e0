import ClearMsig.Memory
import ClearMsig.Utils.Message

/-!
# Integers and the buffers their digits are written in

`push_u64`, `push_i64`, `push_u128` and `render_param` once more, with the local buffer that the digits are
written in from its end, and the values of the integer types with their little-endian encodings.
-/

namespace ClearMsig

open Slots (Fault)

namespace MessageBuilder

/-- The loop `while v > 0 { pos -= 1; buf[pos] = b'0' + (v % 10) as u8; v /= 10; }`: the buffer and `pos`
after it. A position below zero lies outside the buffer. -/
def fillDigits {n : Nat} (buf : Slots UInt8 n) (pos v : Nat) : Except Fault (Slots UInt8 n × Nat) :=
  if v = 0 then .ok (buf, pos)
  else match pos with
    | 0 => .error .outside
    | pos + 1 => do
      let buf ← buf.write pos (48 + UInt8.ofNat (v % 10))
      fillDigits buf pos (v / 10)

/-- The common body of `push_u64` and `push_u128`, with a buffer of `width` bytes. -/
def pushDecimalBuffered (b : MessageBuilder) (width v : Nat) : MemResult MessageBuilder :=
  if v = 0 then checked (b.pushBytes (ascii "0"))
  else do
    let (buf, pos) ← access (fillDigits (Slots.filled 0 : Slots UInt8 width) width v)
    let digits ← access (buf.readRange pos width)
    checked (b.pushBytes digits)

/-- `push_u64`. -/
def pushU64Buffered (b : MessageBuilder) (val : UInt64) : MemResult MessageBuilder :=
  b.pushDecimalBuffered 20 val.toNat

/-- `push_u128`. -/
def pushU128Buffered (b : MessageBuilder) (val : BitVec 128) : MemResult MessageBuilder :=
  b.pushDecimalBuffered 39 val.toNat

/-- `push_i64`. -/
def pushI64Buffered (b : MessageBuilder) (val : Int64) : MemResult MessageBuilder :=
  if val < 0 then do
    let b ← checked (b.pushBytes (ascii "-"))
    b.pushU64Buffered (-val.toUInt64)
  else b.pushU64Buffered val.toUInt64

/-- `render_param`. -/
def renderParamBuffered (b : MessageBuilder) (intent : Intent) (data : Bytes) (idx : UInt8) :
    MemResult MessageBuilder := do
  let param ← checked (okOr intent.params.toList[idx.toNat]? .invalidInstructionData)
  let offset ← checked (paramOffset intent data idx)
  match param.paramType with
  | .address => do
    let bytes ← checked (slice data offset (offset + 32))
    checked (b.pushBase58 bytes)
  | .u64 => do
    let bytes ← checked (slice data offset (offset + 8))
    b.pushU64Buffered (UInt64.ofNat (leNat bytes))
  | .i64 => do
    let bytes ← checked (slice data offset (offset + 8))
    b.pushI64Buffered (Int64.ofNat (leNat bytes))
  | .string => do
    let len ← checked (index data offset)
    let s ← checked (slice data (offset + 1) (offset + 1 + len.toNat))
    checked (require (utf8Valid s) .invalidInstructionData)
    checked (b.pushStr s)
  | .bool => do
    let v ← checked (okOr data[offset]? .invalidInstructionData)
    checked (b.pushStr (if v ≠ 0 then ascii "true" else ascii "false"))
  | .u8 => do
    let v ← checked (okOr data[offset]? .invalidInstructionData)
    b.pushU64Buffered v.toUInt64
  | .u16 => do
    let bytes ← checked (slice data offset (offset + 2))
    b.pushU64Buffered (UInt64.ofNat (leNat bytes))
  | .u32 => do
    let bytes ← checked (slice data offset (offset + 4))
    b.pushU64Buffered (UInt64.ofNat (leNat bytes))
  | .u128 => do
    let bytes ← checked (slice data offset (offset + 16))
    b.pushU128Buffered (BitVec.ofNat 128 (leNat bytes))

end MessageBuilder

/-! ## Integer values -/

/-- A value of an integer type. -/
inductive IntegerValue where
  | u8 (v : UInt8)
  | u16 (v : UInt16)
  | u32 (v : UInt32)
  | u64 (v : UInt64)
  | u128 (v : BitVec 128)
  | i64 (v : Int64)
  deriving DecidableEq

namespace IntegerValue

/-- The type of the parameters that take the value. -/
def paramType : IntegerValue → ParamType
  | u8 _ => .u8
  | u16 _ => .u16
  | u32 _ => .u32
  | u64 _ => .u64
  | u128 _ => .u128
  | i64 _ => .i64

def toInt : IntegerValue → Int
  | u8 v => v.toNat
  | u16 v => v.toNat
  | u32 v => v.toNat
  | u64 v => v.toNat
  | u128 v => v.toNat
  | i64 v => v.toInt

/-- `to_le_bytes`. -/
def encoding : IntegerValue → Bytes
  | u8 v => toLE 1 v.toNat
  | u16 v => toLE 2 v.toNat
  | u32 v => toLE 4 v.toNat
  | u64 v => toLE 8 v.toNat
  | u128 v => toLE 16 v.toNat
  | i64 v => toLE 8 v.toUInt64.toNat

/-- The data holds the encoding of the value where parameter `idx`, of the type of the value, stands. -/
structure StoredAt (v : IntegerValue) (intent : Intent) (data : Bytes) (idx : UInt8) : Prop where
  param : ∃ param, intent.params.toList[idx.toNat]? = some param ∧ param.paramType = v.paramType
  bytes : ∃ offset, MessageBuilder.paramOffset intent data idx = .ok offset ∧
    v.encoding <+: data.drop offset

end IntegerValue

end ClearMsig
