import ClearMsig.Basic

/-!
# Base58

`utils/base58.rs`: base conversion in place over a little-endian digit array of 64 slots.
-/

namespace ClearMsig

def ALPHABET : Bytes := ascii "123456789ABCDEFGHJKLMNPQRSTUVWXYZabcdefghijkmnopqrstuvwxyz"

/-- The inner `while j < digit_len || carry > 0` loop: `digits = 256 * digits + carry`. The list
holds the digits from slot `j` on, `room` is the number of slots from `j` to the end of the array;
a write beyond it panics. -/
def mulAddLoop : Nat → List Nat → Nat → Result (List Nat)
  | 0, [], carry => if carry > 0 then .error .panic else .ok []
  | 0, _ :: _, _ => .error .panic
  | room + 1, [], carry =>
    if carry > 0 then do
      let ds ← mulAddLoop room [] (carry / 58)
      .ok (carry % 58 :: ds)
    else .ok []
  | room + 1, d :: digits, carry => do
    let carry := carry + d * 256
    let ds ← mulAddLoop room digits (carry / 58)
    .ok (carry % 58 :: ds)

/-- The outer loop over the input bytes after the leading zeros. -/
def digitsLoop (input : Bytes) (digits : List Nat) : Result (List Nat) :=
  input.foldlM (fun ds byte => mulAddLoop 64 ds byte.toNat) digits

/-- `encode_base58` into a buffer of `bufLen` bytes: the bytes written, or `none` when they do not
fit. -/
def encodeBase58 (input : Bytes) (bufLen : Nat) : Result (Option Bytes) := do
  let leadingZeros := (input.takeWhile (· = 0)).length
  let digits ← digitsLoop (input.drop leadingZeros) []
  if leadingZeros + digits.length > bufLen then .ok none
  else do
    let text ← digits.reverse.mapM (index ALPHABET ·)
    .ok (some (List.replicate leadingZeros 49 ++ text))

/-- The write `buf[pos] = c`, which panics beyond the buffer. -/
def writeByte (buf : Bytes) (pos : Nat) (c : UInt8) : Result Bytes :=
  if pos < buf.length then .ok (buf.set pos c) else .error .panic

/-- The loop that writes a `1` for each leading zero byte. -/
def writeOnes (buf : Bytes) (leadingZeros : Nat) : Result Bytes :=
  (List.range leadingZeros).foldlM (fun buf pos => writeByte buf pos 49) buf

/-- The loop that writes the digits from `pos` on, the highest first. -/
def writeDigits (buf : Bytes) (pos : Nat) : List Nat → Result Bytes
  | [] => .ok buf
  | d :: digits => do
    let c ← index ALPHABET d
    let buf ← writeByte buf pos c
    writeDigits buf (pos + 1) digits

/-- `encode_base58` with its writes: the result and the buffer after it. -/
def encodeBase58Into (input buf : Bytes) : Result (Option Nat × Bytes) := do
  let leadingZeros := (input.takeWhile (· = 0)).length
  let digits ← digitsLoop (input.drop leadingZeros) []
  let totalLen := leadingZeros + digits.length
  if totalLen > buf.length then .ok (none, buf)
  else do
    let buf ← writeOnes buf leadingZeros
    let buf ← writeDigits buf leadingZeros digits.reverse
    .ok (some totalLen, buf)

end ClearMsig
