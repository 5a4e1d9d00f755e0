import ClearMsig.Basic

/-!
# Timestamps as text

`utils/datetime.rs`: an `i64` timestamp becomes `YYYY-MM-DD HH:MM:SS`. All arithmetic is the wrapping
64-bit arithmetic of a build without overflow checks, division truncates towards zero.
-/

namespace ClearMsig

/-- The parts of a civil date and time, as `timestamp_to_parts` returns them. -/
structure Parts where
  year : Int64
  month : Int64
  day : Int64
  hour : Int64
  min : Int64
  sec : Int64
  deriving DecidableEq

/-- Whole days since 1970-01-01, rounded down. -/
def daysOf (totalSecs daySecs : Int64) : Int64 :=
  let days := totalSecs / 86400
  if totalSecs < 0 ∧ daySecs > 0 then days - 1 else days

/-- The second of the day. -/
def daySecsOf (totalSecs : Int64) : Int64 := ((totalSecs % 86400) + 86400) % 86400

/-- The civil date `(year, month, day)` of a day number counted from 0000-03-01. -/
def civilFromDays (days : Int64) : Int64 × Int64 × Int64 :=
  let era := (if days ≥ 0 then days else days - 146096) / 146097
  let doe := days - era * 146097
  let yoe := (doe - doe / 1460 + doe / 36524 - doe / 146096) / 365
  let y := yoe + era * 400
  let doy := doe - (365 * yoe + yoe / 4 - yoe / 100)
  let mp := (5 * doy + 2) / 153
  let d := doy - (153 * mp + 2) / 5 + 1
  let m := if mp < 10 then mp + 3 else mp - 9
  (if m ≤ 2 then y + 1 else y, m, d)

/-- `timestamp_to_parts`. -/
def timestampToParts (timestamp : Int64) : Parts :=
  let daySecs := daySecsOf timestamp
  let (year, m, d) := civilFromDays (daysOf timestamp daySecs + 719468)
  { year := year, month := m, day := d
    hour := daySecs / 3600, min := (daySecs % 3600) / 60, sec := daySecs % 60 }

/-- `x as u32` for an `i64`. -/
def asU32 (x : Int64) : UInt32 := x.toUInt64.toUInt32

/-- `b'0' + d as u8`. -/
def digit (d : UInt32) : UInt8 := 48 + d.toUInt8

/-- `write_decimal_2`. -/
def writeDecimal2 (buf : Bytes) (offset : Nat) (val : UInt32) : Bytes :=
  (buf.set offset (digit (val / 10))).set (offset + 1) (digit (val % 10))

/-- `write_decimal_4`. The leading digit is cast to `u8` without a bound on `val / 1000`. -/
def writeDecimal4 (buf : Bytes) (offset : Nat) (val : UInt32) : Bytes :=
  (((buf.set offset (digit (val / 1000))).set (offset + 1) (digit ((val / 100) % 10))).set
    (offset + 2) (digit ((val / 10) % 10))).set (offset + 3) (digit (val % 10))

/-- `format_timestamp`: the number of bytes written and the buffer after the writes. -/
def formatTimestamp (timestamp : Int64) (buf : Bytes) : Option (Nat × Bytes) :=
  if buf.length < 19 then none
  else
    let p := timestampToParts timestamp
    let buf := writeDecimal4 buf 0 (asU32 p.year)
    let buf := buf.set 4 45
    let buf := writeDecimal2 buf 5 (asU32 p.month)
    let buf := buf.set 7 45
    let buf := writeDecimal2 buf 8 (asU32 p.day)
    let buf := buf.set 10 32
    let buf := writeDecimal2 buf 11 (asU32 p.hour)
    let buf := buf.set 13 58
    let buf := writeDecimal2 buf 14 (asU32 p.min)
    let buf := buf.set 16 58
    let buf := writeDecimal2 buf 17 (asU32 p.sec)
    some (19, buf)

end ClearMsig
