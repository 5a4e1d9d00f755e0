import ClearMsig.State.Intent
import ClearMsig.Utils.Base58
import ClearMsig.Utils.Datetime

/-!
# The signed message

`utils/message.rs`. All messages follow
`expires <ts>: <action> <content> | wallet: <name> proposal: <index>`, behind the 20-byte header of
an offchain message. `sha256` is a parameter.
-/

namespace ClearMsig

def MSG_BUF_SIZE : Nat := 2048

/-- `\xffsolana offchain`. -/
def OFFCHAIN_SIGNING_DOMAIN : Bytes := 255 :: ascii "solana offchain"

def OFFCHAIN_HEADER_LEN : Nat := 20

/-- Common fields present in every signed message. -/
structure MessageContext where
  expiry : Int64
  action : Bytes
  walletName : Bytes
  proposalIndex : UInt64

/-- The message buffer: `bytes` is `buf[..len]`, the part that has been written. -/
structure MessageBuilder where
  bytes : Bytes
  header_le : OFFCHAIN_HEADER_LEN ≤ bytes.length
  len_le : bytes.length ≤ MSG_BUF_SIZE

namespace MessageBuilder

/-- `MessageBuilder::new`: the header is reserved and still zero. -/
def new : MessageBuilder where
  bytes := List.replicate OFFCHAIN_HEADER_LEN 0
  header_le := by simp
  len_le := by simp [OFFCHAIN_HEADER_LEN, MSG_BUF_SIZE]

/-- The 20 header bytes for a message of `messageLen` bytes. -/
def offchainHeader (messageLen : Nat) : Bytes :=
  OFFCHAIN_SIGNING_DOMAIN ++ [0, 0] ++ toLE 2 messageLen

theorem offchainHeader_length (n : Nat) : (offchainHeader n).length = OFFCHAIN_HEADER_LEN := rfl

/-- `finalize`: write the header into the reserved space. -/
def finalize (b : MessageBuilder) : Result MessageBuilder :=
  let messageLen := b.bytes.length - OFFCHAIN_HEADER_LEN
  if messageLen ≤ 65535 then
    .ok { bytes := offchainHeader messageLen ++ b.bytes.drop OFFCHAIN_HEADER_LEN
          header_le := by simp [offchainHeader_length]
          len_le := by
            have h1 := b.header_le
            have h2 := b.len_le
            simp only [List.length_append, offchainHeader_length, List.length_drop]
            omega }
  else err .invalidInstructionData

/-- `push_bytes`. -/
def pushBytes (b : MessageBuilder) (data : Bytes) : Result MessageBuilder :=
  if h : b.bytes.length + data.length ≤ MSG_BUF_SIZE then
    .ok { bytes := b.bytes ++ data
          header_le := by have := b.header_le; simp only [List.length_append]; omega
          len_le := by simpa using h }
  else err .invalidInstructionData

/-- `push_str`. -/
def pushStr (b : MessageBuilder) (s : Bytes) : Result MessageBuilder := b.pushBytes s

/-- `push_base58`, through a 44-byte buffer. -/
def pushBase58 (b : MessageBuilder) (address : Bytes) : Result MessageBuilder := do
  let text ← okOr (← encodeBase58 address 44) .invalidInstructionData
  b.pushBytes text

/-- The loop `while v > 0 { pos -= 1; buf[pos] = b'0' + (v % 10) as u8; v /= 10; }` over a digit
buffer with `pos` free bytes; `acc` is `buf[pos..]`. A write below the buffer panics. -/
def digitLoop (pos v : Nat) (acc : Bytes) : Result Bytes :=
  if v = 0 then .ok acc
  else match pos with
    | 0 => .error .panic
    | pos + 1 => digitLoop pos (v / 10) ((48 + UInt8.ofNat (v % 10)) :: acc)

/-- The common body of `push_u64` and `push_u128`: `width` is the size of the digit buffer. -/
def pushDecimal (b : MessageBuilder) (width v : Nat) : Result MessageBuilder :=
  if v = 0 then b.pushBytes (ascii "0")
  else do
    let digits ← digitLoop width v []
    b.pushBytes digits

/-- `push_u64`. -/
def pushU64 (b : MessageBuilder) (val : UInt64) : Result MessageBuilder := b.pushDecimal 20 val.toNat

/-- `push_u128`. -/
def pushU128 (b : MessageBuilder) (val : BitVec 128) : Result MessageBuilder :=
  b.pushDecimal 39 val.toNat

/-- `push_i64`. -/
def pushI64 (b : MessageBuilder) (val : Int64) : Result MessageBuilder :=
  if val < 0 then do
    let b ← b.pushBytes (ascii "-")
    b.pushU64 (-val.toUInt64)
  else b.pushU64 val.toUInt64

/-- `push_timestamp`: the date is written into the zeroed rest of the buffer. -/
def pushTimestamp (b : MessageBuilder) (ts : Int64) : Result MessageBuilder := do
  let start := b.bytes.length
  require (start + 19 ≤ MSG_BUF_SIZE) .invalidInstructionData
  let (_, buf) ← okOr (formatTimestamp ts (List.replicate (MSG_BUF_SIZE - start) 0))
    .invalidInstructionData
  b.pushBytes (buf.take 19)

/-- `b"0123456789abcdef"[n]`. -/
def hexDigit (n : UInt8) : UInt8 := (ascii "0123456789abcdef").getD n.toNat 0

/-- `push_hex`. -/
def pushHex (b : MessageBuilder) (data : Bytes) : Result MessageBuilder :=
  data.foldlM (fun b (byte : UInt8) => b.pushBytes [hexDigit (byte >>> 4), hexDigit (byte &&& 0x0f)]) b

/-- `push_header`. -/
def pushHeader (b : MessageBuilder) (ctx : MessageContext) : Result MessageBuilder := do
  let b ← b.pushStr (ascii "expires ")
  let b ← b.pushTimestamp ctx.expiry
  let b ← b.pushStr (ascii ": ")
  let b ← b.pushStr ctx.action
  b.pushStr (ascii " ")

/-- `push_suffix`. -/
def pushSuffix (b : MessageBuilder) (ctx : MessageContext) : Result MessageBuilder := do
  let b ← b.pushStr (ascii " | wallet: ")
  let b ← b.pushStr ctx.walletName
  let b ← b.pushStr (ascii " proposal: ")
  b.pushU64 ctx.proposalIndex

/-- `param_offset`. -/
def paramOffset (intent : Intent) (data : Bytes) (target : UInt8) : Result Nat :=
  Intent.skipParams data intent.params.toList target.toNat 0

/-- `parse_usize`: a decimal number, digits checked and the value bounded by `usize`. -/
def parseUsize (s : Bytes) : Result Nat :=
  s.foldlM (fun r b => do
    require (48 ≤ b ∧ b ≤ 57) .invalidInstructionData
    let r := r * 10
    require (r < 2 ^ 64) .invalidInstructionData
    let r := r + (b - 48).toNat
    require (r < 2 ^ 64) .invalidInstructionData
    .ok r) 0

/-- `render_param`. -/
def renderParam (b : MessageBuilder) (intent : Intent) (data : Bytes) (idx : UInt8) :
    Result MessageBuilder := do
  let param ← okOr intent.params.toList[idx.toNat]? .invalidInstructionData
  let offset ← paramOffset intent data idx
  match param.paramType with
  | .address => do
    let bytes ← slice data offset (offset + 32)
    b.pushBase58 bytes
  | .u64 => do
    let bytes ← slice data offset (offset + 8)
    b.pushU64 (UInt64.ofNat (leNat bytes))
  | .i64 => do
    let bytes ← slice data offset (offset + 8)
    b.pushI64 (Int64.ofNat (leNat bytes))
  | .string => do
    let len ← index data offset
    let s ← slice data (offset + 1) (offset + 1 + len.toNat)
    require (utf8Valid s) .invalidInstructionData
    b.pushStr s
  | .bool => do
    let v ← okOr data[offset]? .invalidInstructionData
    b.pushStr (if v ≠ 0 then ascii "true" else ascii "false")
  | .u8 => do
    let v ← okOr data[offset]? .invalidInstructionData
    b.pushU64 v.toUInt64
  | .u16 => do
    let bytes ← slice data offset (offset + 2)
    b.pushU64 (UInt64.ofNat (leNat bytes))
  | .u32 => do
    let bytes ← slice data offset (offset + 4)
    b.pushU64 (UInt64.ofNat (leNat bytes))
  | .u128 => do
    let bytes ← slice data offset (offset + 16)
    b.pushU128 (BitVec.ofNat 128 (leNat bytes))

/-- The loop of `render_template` over the rest `bytes` of the template: a `{` opens a placeholder
that runs to the next `}` and is cast to a `u8` parameter index, any other byte is copied. -/
def renderTemplateLoop (intent : Intent) (paramsData : Bytes) (b : MessageBuilder) (bytes : Bytes) :
    Result MessageBuilder :=
  match bytes with
  | [] => .ok b
  | c :: rest =>
    if c = 123 then
      match rest.findIdx? (· = 125) with
      | none => err .invalidInstructionData
      | some e => do
        let idx ← parseUsize (rest.take e)
        let b ← b.renderParam intent paramsData (UInt8.ofNat idx)
        renderTemplateLoop intent paramsData b (rest.drop (e + 1))
    else do
      let b ← b.pushBytes [c]
      renderTemplateLoop intent paramsData b rest
termination_by bytes.length

/-- `render_template`. -/
def renderTemplate (b : MessageBuilder) (intent : Intent) (paramsData : Bytes) :
    Result MessageBuilder := do
  let template ← intent.templateStr
  renderTemplateLoop intent paramsData b template

/-- `build_custom_message`. -/
def buildCustomMessage (b : MessageBuilder) (ctx : MessageContext) (intent : Intent)
    (paramsData : Bytes) : Result MessageBuilder := do
  let b ← b.pushHeader ctx
  let b ← b.renderTemplate intent paramsData
  b.pushSuffix ctx

/-- `build_add_intent_message`. -/
def buildAddIntentMessage (b : MessageBuilder) (ctx : MessageContext) (definitionHash : ByteArr 32) :
    Result MessageBuilder := do
  let b ← b.pushHeader ctx
  let b ← b.pushStr (ascii "add intent definition_hash: ")
  let b ← b.pushHex definitionHash.val
  b.pushSuffix ctx

/-- `build_remove_intent_message`. -/
def buildRemoveIntentMessage (b : MessageBuilder) (ctx : MessageContext) (intentIndex : UInt8) :
    Result MessageBuilder := do
  let b ← b.pushHeader ctx
  let b ← b.pushStr (ascii "remove intent ")
  let b ← b.pushU64 intentIndex.toUInt64
  b.pushSuffix ctx

/-- `build_update_intent_message`. -/
def buildUpdateIntentMessage (b : MessageBuilder) (ctx : MessageContext) (intentIndex : UInt8)
    (definitionHash : ByteArr 32) : Result MessageBuilder := do
  let b ← b.pushHeader ctx
  let b ← b.pushStr (ascii "update intent ")
  let b ← b.pushU64 intentIndex.toUInt64
  let b ← b.pushStr (ascii " definition_hash: ")
  let b ← b.pushHex definitionHash.val
  b.pushSuffix ctx

/-- `build_message_for_intent`. -/
def buildMessageForIntent (sha256 : Bytes → ByteArr 32) (b : MessageBuilder) (ctx : MessageContext)
    (intent : Intent) (paramsData : Bytes) : Result MessageBuilder := do
  let b ← match ← intent.readType with
    | .addIntent => b.buildAddIntentMessage ctx (sha256 paramsData)
    | .removeIntent => do
      require (paramsData.length = 1) .invalidInstructionData
      b.buildRemoveIntentMessage ctx (paramsData.getD 0 0)
    | .updateIntent => do
      require (paramsData.length > 1) .invalidInstructionData
      b.buildUpdateIntentMessage ctx (paramsData.getD 0 0) (sha256 (paramsData.drop 1))
    | .custom => b.buildCustomMessage ctx intent paramsData
  b.finalize

end MessageBuilder

/-- The bytes handed to signature verification: the message built in a fresh buffer. -/
def signedMessage (sha256 : Bytes → ByteArr 32) (ctx : MessageContext) (intent : Intent)
    (paramsData : Bytes) : Result Bytes := do
  let msg ← MessageBuilder.new.buildMessageForIntent sha256 ctx intent paramsData
  .ok msg.bytes

end ClearMsig
