import ClearMsig.Foundation.Calendar
import ClearMsig.Foundation.Decimal
import ClearMsig.Foundation.WordInt
import ClearMsig.Utils.Datetime

/-!
# Timestamps, checked and read back

`timestamp_to_parts` with every operation checked, as in a build with overflow checks, and what the text of
a date says: the civil time in digits, and the timestamp that a reader takes from it.
-/

namespace ClearMsig

open Calendar WordInt

/-! ## Checked arithmetic -/

namespace Checked

def daySecsOf (totalSecs : Int64) : Option Int64 := do
  let secs ← checkedRem totalSecs 86400
  let secs ← checkedAdd secs 86400
  checkedRem secs 86400

def daysOf (totalSecs daySecs : Int64) : Option Int64 := do
  let days ← checkedDiv totalSecs 86400
  if totalSecs < 0 ∧ daySecs > 0 then checkedSub days 1 else some days

def civilFromDays (days : Int64) : Option (Int64 × Int64 × Int64) := do
  let shifted ← (if days ≥ 0 then some days else checkedSub days 146096)
  let era ← checkedDiv shifted 146097
  let doe ← checkedSub days (← checkedMul era 146097)
  let yoe ← checkedSub doe (← checkedDiv doe 1460)
  let yoe ← checkedAdd yoe (← checkedDiv doe 36524)
  let yoe ← checkedSub yoe (← checkedDiv doe 146096)
  let yoe ← checkedDiv yoe 365
  let y ← checkedAdd yoe (← checkedMul era 400)
  let elapsed ← checkedAdd (← checkedMul 365 yoe) (← checkedDiv yoe 4)
  let elapsed ← checkedSub elapsed (← checkedDiv yoe 100)
  let doy ← checkedSub doe elapsed
  let mp ← checkedDiv (← checkedAdd (← checkedMul 5 doy) 2) 153
  let d ← checkedSub doy (← checkedDiv (← checkedAdd (← checkedMul 153 mp) 2) 5)
  let d ← checkedAdd d 1
  let m ← (if mp < 10 then checkedAdd mp 3 else checkedSub mp 9)
  let year ← (if m ≤ 2 then checkedAdd y 1 else some y)
  some (year, m, d)

/-- `timestamp_to_parts`, or `none` when an operation overflows. -/
def timestampToParts (timestamp : Int64) : Option Parts := do
  let daySecs ← daySecsOf timestamp
  let days ← daysOf timestamp daySecs
  let hour ← checkedDiv daySecs 3600
  let min ← checkedDiv (← checkedRem daySecs 3600) 60
  let sec ← checkedRem daySecs 60
  let days ← checkedAdd days 719468
  let (year, month, day) ← civilFromDays days
  some { year, month, day, hour, min, sec }

end Checked

/-! ## Text -/

/-- `YYYY-MM-DD HH:MM:SS`. -/
def civilText (c : Civil) : Bytes :=
  Decimal.paddedText 4 c.year ++ ascii "-" ++ Decimal.paddedText 2 c.month ++ ascii "-" ++
    Decimal.paddedText 2 c.day ++ ascii " " ++ Decimal.paddedText 2 c.hour ++ ascii ":" ++
    Decimal.paddedText 2 c.min ++ ascii ":" ++ Decimal.paddedText 2 c.sec

/-- The civil time that a text of this form shows. -/
def readCivil (text : Bytes) : Civil where
  year := Decimal.natVal (text.take 4)
  month := Decimal.natVal ((text.drop 5).take 2)
  day := Decimal.natVal ((text.drop 8).take 2)
  hour := Decimal.natVal ((text.drop 11).take 2)
  min := Decimal.natVal ((text.drop 14).take 2)
  sec := Decimal.natVal ((text.drop 17).take 2)

end ClearMsig
