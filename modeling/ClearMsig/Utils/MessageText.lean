import ClearMsig.Foundation.Decimal
import ClearMsig.Utils.Message
import ClearMsig.Utils.Proofs.Base58Proofs

/-!
# What a message says

The text of a message as a plain concatenation, without buffers: the date, the values of the
parameters and how they are displayed, the pieces of a template, and the content of the four message
shapes. `Utils/Proofs/MessageProofs.lean` shows that the builder writes exactly this.
-/

namespace ClearMsig

/-! ## Dates -/

/-- The two characters `write_decimal_2` writes. -/
def decimal2 (val : UInt32) : Bytes := [digit (val / 10), digit (val % 10)]

/-- The four characters `write_decimal_4` writes. -/
def decimal4 (val : UInt32) : Bytes :=
  [digit (val / 1000), digit ((val / 100) % 10), digit ((val / 10) % 10), digit (val % 10)]

/-- The 19 characters of a date. -/
def dateText (p : Parts) : Bytes :=
  decimal4 (asU32 p.year) ++ [45] ++ decimal2 (asU32 p.month) ++ [45] ++ decimal2 (asU32 p.day) ++
    [32] ++ decimal2 (asU32 p.hour) ++ [58] ++ decimal2 (asU32 p.min) ++ [58] ++
    decimal2 (asU32 p.sec)

/-! ## Values -/

/-- What the raw bytes of a parameter stand for. -/
inductive Value where
  | address (a : Bytes)
  | number (n : Int)
  | bool (b : Bool)
  | text (s : Bytes)
  deriving DecidableEq

/-- How a value is displayed in a message. -/
def Value.display : Value → Bytes
  | .address a => base58Text a
  | .number n => Decimal.intText n
  | .bool b => if b then ascii "true" else ascii "false"
  | .text s => s

/-- The value of the raw bytes of a parameter under its declared type. -/
def ParamType.valueOf : ParamType → Bytes → Value
  | .address, raw => .address raw
  | .u64, raw | .u8, raw | .u16, raw | .u32, raw | .u128, raw => .number (leNat raw)
  | .i64, raw => .number (Int64.ofNat (leNat raw)).toInt
  | .string, raw => .text (raw.drop 1)
  | .bool, raw => .bool (raw.getD 0 0 ≠ 0)

/-- The text a parameter takes in a message. -/
def paramText (intent : Intent) (data : Bytes) (idx : UInt8) : Result Bytes := do
  let param ← okOr intent.params.toList[idx.toNat]? .invalidInstructionData
  let raw ← intent.readParamBytes data idx
  require (param.paramType = .string → utf8Valid (raw.drop 1) = true) .invalidInstructionData
  .ok (param.paramType.valueOf raw).display

/-! ## Templates -/

/-- A piece of a template: a byte to copy or a parameter to display. -/
inductive Token where
  | literal (b : UInt8)
  | param (idx : UInt8)
  deriving DecidableEq

/-- The pieces of a template. -/
def templateTokens (bytes : Bytes) : Result (List Token) :=
  match bytes with
  | [] => .ok []
  | c :: rest =>
    if c = 123 then
      match rest.findIdx? (· = 125) with
      | none => err .invalidInstructionData
      | some e => do
        let idx ← MessageBuilder.parseUsize (rest.take e)
        let ts ← templateTokens (rest.drop (e + 1))
        .ok (.param (UInt8.ofNat idx) :: ts)
    else do
      let ts ← templateTokens rest
      .ok (.literal c :: ts)
termination_by bytes.length

/-- The text of one piece. -/
def Token.text (intent : Intent) (data : Bytes) : Token → Result Bytes
  | .literal b => .ok [b]
  | .param idx => paramText intent data idx

/-- The text of a list of pieces. -/
def tokensText (intent : Intent) (data : Bytes) : List Token → Result Bytes
  | [] => .ok []
  | t :: ts => do
    let a ← t.text intent data
    let rest ← tokensText intent data ts
    .ok (a ++ rest)

/-- The pieces of an intent's template. -/
def Intent.tokens (intent : Intent) : Result (List Token) := do
  let template ← intent.templateStr
  templateTokens template

/-! ## Messages -/

/-- Lower-case hexadecimal text. -/
def hexText (data : Bytes) : Bytes :=
  data.flatMap fun (byte : UInt8) =>
    [MessageBuilder.hexDigit (byte >>> 4), MessageBuilder.hexDigit (byte &&& 0x0f)]

/-- The content of the message for an intent of a given type. -/
def contentOf (sha256 : Bytes → ByteArr 32) (intent : Intent) (paramsData : Bytes) :
    IntentType → Result Bytes
  | .addIntent => .ok (ascii "add intent definition_hash: " ++ hexText (sha256 paramsData).val)
  | .removeIntent => do
    require (paramsData.length = 1) .invalidInstructionData
    .ok (ascii "remove intent " ++ Decimal.natText (paramsData.getD 0 0).toNat)
  | .updateIntent => do
    require (paramsData.length > 1) .invalidInstructionData
    .ok (ascii "update intent " ++ Decimal.natText (paramsData.getD 0 0).toNat ++
      ascii " definition_hash: " ++ hexText (sha256 (paramsData.drop 1)).val)
  | .custom => do
    let tokens ← intent.tokens
    tokensText intent paramsData tokens

/-- The content of the message for an intent. -/
def contentText (sha256 : Bytes → ByteArr 32) (intent : Intent) (paramsData : Bytes) :
    Result Bytes := do
  let t ← intent.readType
  contentOf sha256 intent paramsData t

/-- The text of the message in front of the content. -/
def headText (ctx : MessageContext) : Bytes :=
  ascii "expires " ++ dateText (timestampToParts ctx.expiry) ++ ascii ": " ++ ctx.action ++ ascii " "

/-- The text of the message behind the content. -/
def tailText (ctx : MessageContext) : Bytes :=
  ascii " | wallet: " ++ ctx.walletName ++ ascii " proposal: " ++
    Decimal.natText ctx.proposalIndex.toNat

/-- The text of a message. -/
def messageText (ctx : MessageContext) (content : Bytes) : Bytes :=
  headText ctx ++ content ++ tailText ctx

end ClearMsig
