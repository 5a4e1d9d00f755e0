import ClearMsig.Foundation.Decimal
import ClearMsig.Utils.Message

/-!
# The messages of the client

The message builders of `bench/src/helpers.rs`, which `tests.rs` repeats: the client formats a body and
wraps it with the offchain header. A `String` is its UTF-8 bytes, `sha256` is a parameter.
-/

namespace ClearMsig

namespace Client

/-- `wrap_offchain`. The length is cast to a `u16`. -/
def wrapOffchain (body : Bytes) : Bytes :=
  (255 :: ascii "solana offchain") ++ [0] ++ [0] ++ toLE 2 (body.length % 2 ^ 16) ++ body

/-- `format_timestamp`. The year is a signed number, so that `{year:04}` counts a sign as one of its four
characters and lets a larger year take more. -/
def formatTimestamp (ts : Int64) : Bytes :=
  let secsPerDay : Int64 := 86400
  let days := ts / secsPerDay
  let daySecs := ((ts % secsPerDay) + secsPerDay) % secsPerDay
  let days := if ts < 0 ∧ daySecs > 0 then days - 1 else days
  let hour := daySecs / 3600
  let min := (daySecs % 3600) / 60
  let sec := daySecs % 60
  let adj := days + 719468
  let era := (if adj ≥ 0 then adj else adj - 146096) / 146097
  let doe := adj - era * 146097
  let yoe := (doe - doe / 1460 + doe / 36524 - doe / 146096) / 365
  let y := yoe + era * 400
  let doy := doe - (365 * yoe + yoe / 4 - yoe / 100)
  let mp := (5 * doy + 2) / 153
  let d := doy - (153 * mp + 2) / 5 + 1
  let m := if mp < 10 then mp + 3 else mp - 9
  let year := if m ≤ 2 then y + 1 else y
  Decimal.paddedText 4 year.toInt ++ ascii "-" ++ Decimal.paddedText 2 m.toInt ++ ascii "-" ++
    Decimal.paddedText 2 d.toInt ++ ascii " " ++ Decimal.paddedText 2 hour.toInt ++ ascii ":" ++
    Decimal.paddedText 2 min.toInt ++ ascii ":" ++ Decimal.paddedText 2 sec.toInt

/-- `{b:02x}`. -/
def hexByte (b : UInt8) : Bytes :=
  let digits := (Nat.toDigits 16 b.toNat).map fun c => UInt8.ofNat c.toNat
  List.replicate (2 - digits.length) 48 ++ digits

/-- `hex_encode`. -/
def hexEncode (data : Bytes) : Bytes := data.flatMap hexByte

/-- `suffix`. -/
def suffix (walletName : Bytes) (proposalIndex : UInt64) : Bytes :=
  ascii " | wallet: " ++ walletName ++ ascii " proposal: " ++ Decimal.natText proposalIndex.toNat

/-- `remove_intent_msg`. -/
def removeIntentMsg (action : Bytes) (expiry : Int64) (walletName : Bytes) (proposalIndex : UInt64)
    (intentIndex : UInt8) : Bytes :=
  wrapOffchain (ascii "expires " ++ formatTimestamp expiry ++ ascii ": " ++ action ++
    ascii " remove intent " ++ Decimal.natText intentIndex.toNat ++ suffix walletName proposalIndex)

/-- `add_intent_msg`. -/
def addIntentMsg (sha256 : Bytes → ByteArr 32) (action : Bytes) (expiry : Int64) (walletName : Bytes)
    (proposalIndex : UInt64) (data : Bytes) : Bytes :=
  wrapOffchain (ascii "expires " ++ formatTimestamp expiry ++ ascii ": " ++ action ++
    ascii " add intent definition_hash: " ++ hexEncode (sha256 data).val ++
    suffix walletName proposalIndex)

end Client

/-- The expiries whose year has at most four digits. -/
def FourDigitYear (ts : Int64) : Prop := -62167219200 ≤ ts.toInt ∧ ts.toInt < 253402300800

instance (ts : Int64) : Decidable (FourDigitYear ts) := inferInstanceAs (Decidable (_ ∧ _))

end ClearMsig
