import ClearMsig.Foundation.Calendar
import ClearMsig.Utils.MessageText

/-!
# The offchain message format

A message in format 0 is a header with the length of the body and a body of printable ASCII. The body is
made of a date, a wallet name, and the content of an intent; some of its parts are free.
-/

namespace ClearMsig

open Calendar

/-! ## The format -/

/-- A printable ASCII character. -/
def Printable (b : UInt8) : Prop := 0x20 ≤ b ∧ b ≤ 0x7e

instance (b : UInt8) : Decidable (Printable b) := inferInstanceAs (Decidable (_ ∧ _))

def PrintableText (text : Bytes) : Prop := ∀ b ∈ text, Printable b

instance (text : Bytes) : Decidable (PrintableText text) := List.decidableBAll _ _

/-- `msg` is the domain, version 0, format 0 and the little-endian length of `body`, then `body`. -/
def Frames (msg body : Bytes) : Prop :=
  body.length < 2 ^ 16 ∧
    msg = (255 :: ascii "solana offchain") ++ [0] ++ [0] ++ toLE 2 body.length ++ body

/-! ## The free parts of a body -/

/-- The leading character of the year, `48 + year / 1000` in bytes, is printable. -/
def PrintableYear (ts : Int64) : Prop :=
  ∃ c : Civil, c.Valid ∧ c.seconds = ts.toInt ∧
    (c.year % 2 ^ 32 / 1000 % 256 ≤ 78 ∨ 240 ≤ c.year % 2 ^ 32 / 1000 % 256)

/-- What a piece of a template writes itself is printable: the byte it copies, the string it displays. -/
def Token.Printable (intent : Intent) (data : Bytes) : Token → Prop
  | .literal b => ClearMsig.Printable b
  | .param idx => ∀ param raw, intent.params.toList[idx.toNat]? = some param →
      param.paramType = .string → intent.readParamBytes data idx = .ok raw →
      PrintableText (raw.drop 1)

/-- The free parts of a body are printable: the name of the wallet, the leading character of the year, and
in the message of a custom intent the template and the strings it displays. -/
structure PrintableParts (ctx : MessageContext) (intent : Intent) (data : Bytes) : Prop where
  name : PrintableText ctx.walletName
  year : PrintableYear ctx.expiry
  template : intent.readType = .ok .custom →
    ∀ tokens, intent.tokens = .ok tokens → ∀ t ∈ tokens, t.Printable intent data

end ClearMsig
