import ClearMsig.Sample
import ClearMsig.State.Proofs.ParamsProofs
import ClearMsig.Utils.Numerals

/-!
# Integers are shown exactly

The digit buffers are large enough, so that the functions on buffers do what those on texts do. An integer
parameter is therefore shown as its canonical numeral, from which it can be read back.
-/

namespace ClearMsig

open Slots (Fault)

namespace MessageBuilder

/-! ## The digit buffer -/

/-- The loop on the buffer leaves the digits behind the position that it ends at. -/
theorem fillDigits_of_digitLoop {n pos v : Nat} {buf : Slots UInt8 n} {acc digits : Bytes}
    (hbuf : buf.HoldsAt pos acc) (hpos : pos + acc.length = n) (h : digitLoop pos v acc = .ok digits) :
    ∃ buf' pos', fillDigits buf pos v = .ok (buf', pos') ∧ buf'.HoldsAt pos' digits ∧
      pos' + digits.length = n := by
  induction pos generalizing v buf acc with
  | zero =>
    unfold digitLoop at h
    split_ifs at h with hv
    obtain rfl := Except.ok.inj h
    exact ⟨buf, 0, by rw [fillDigits, if_pos hv], hbuf, hpos⟩
  | succ pos ih =>
    unfold digitLoop at h
    split_ifs at h with hv
    · obtain rfl := Except.ok.inj h
      exact ⟨buf, pos + 1, by rw [fillDigits, if_pos hv], hbuf, hpos⟩
    · obtain ⟨buf₁, hwrite, hbuf₁⟩ := hbuf.write_cons (by omega) (48 + UInt8.ofNat (v % 10))
      obtain ⟨buf', pos', hfill, hholds, hend⟩ :=
        ih hbuf₁ (by rw [List.length_cons]; omega) h
      refine ⟨buf', pos', ?_, hholds, hend⟩
      rw [fillDigits, if_neg hv, Simulation.bind_of_ok hwrite]
      exact hfill

/-- With room for the digits, the buffer changes nothing. -/
theorem pushDecimalBuffered_eq (b : MessageBuilder) {width v : Nat} (h : v < 10 ^ width) :
    b.pushDecimalBuffered width v = checked (b.pushDecimal width v) := by
  unfold pushDecimalBuffered pushDecimal
  split_ifs with hv
  · rfl
  · have hlen := (Nat.digits_length_le_iff (by decide) v).mpr h
    have hloop := digitLoop_eq width v [] hlen
    obtain ⟨buf, pos, hfill, hholds, hend⟩ := fillDigits_of_digitLoop
      (Slots.holdsAt_nil (Slots.filled 0 : Slots UInt8 width) width) (Nat.add_zero width) hloop
    have hread := hholds.readRange (by omega)
    rw [hend] at hread
    rw [access_bind_of_ok hfill, hloop]
    exact access_bind_of_ok hread _

theorem pushU64Buffered_eq (b : MessageBuilder) (val : UInt64) :
    b.pushU64Buffered val = checked (b.pushU64 val) :=
  b.pushDecimalBuffered_eq (val.toNat_lt.trans (by norm_num))

theorem pushU128Buffered_eq (b : MessageBuilder) (val : BitVec 128) :
    b.pushU128Buffered val = checked (b.pushU128 val) :=
  b.pushDecimalBuffered_eq (val.isLt.trans (by norm_num))

theorem pushI64Buffered_eq (b : MessageBuilder) (val : Int64) :
    b.pushI64Buffered val = checked (b.pushI64 val) := by
  unfold pushI64Buffered pushI64
  split_ifs
  · simp only [pushU64Buffered_eq, checked_bind]
  · exact b.pushU64Buffered_eq _

/-- No access to a digit buffer goes wrong, whatever the data. -/
theorem renderParamBuffered_eq (b : MessageBuilder) (intent : Intent) (data : Bytes) (idx : UInt8) :
    b.renderParamBuffered intent data idx = checked (b.renderParam intent data idx) := by
  unfold renderParamBuffered renderParam
  rw [checked_bind]
  congr 1
  funext param
  rw [checked_bind]
  congr 1
  funext offset
  cases param.paramType <;>
    simp only [checked_bind, pushU64Buffered_eq, pushI64Buffered_eq, pushU128Buffered_eq]

end MessageBuilder

/-! ## What a value is shown as -/

variable {intent : Intent} {data : Bytes} {idx : UInt8} {offset : Nat}

/-- Bytes are read where they stand. -/
theorem slice_of_isPrefix {raw : Bytes} {n : Nat} (hn : 0 < n) (hlen : raw.length = n)
    (h : raw <+: data.drop offset) : slice data offset (offset + n) = .ok raw := by
  have hle := h.length_le
  rw [List.length_drop] at hle
  rw [slice_eq_ok, getSlice_eq_some_iff_isPrefix]
  exact ⟨by omega, hlen, h⟩

/-- A number of at most eight bytes is decoded from its encoding and shown. -/
theorem pushU64_of_encoding (b : MessageBuilder) {size m : Nat} (hpos : 0 < size) (hsize : size ≤ 8)
    (hm : m < 256 ^ size) (h : toLE size m <+: data.drop offset) :
    (do
      let bytes ← slice data offset (offset + size)
      b.pushU64 (UInt64.ofNat (leNat bytes))) = b.pushBytes (Decimal.intText m) := by
  have hle : (toLE size m).length ≤ 8 := by rwa [toLE_length]
  rw [slice_of_isPrefix hpos (toLE_length size m) h, ok_bind, b.pushU64_eq,
    MessageBuilder.toNat_ofNat_leNat hle, leNat_toLE hm, MessageBuilder.intText_natCast]

namespace IntegerValue

variable {v : IntegerValue}

/-- Each integer type is decoded from its encoding and shown as a numeral. -/
theorem renderAt_eq (b : MessageBuilder) (h : v.encoding <+: data.drop offset) :
    MessageBuilder.renderAt data offset b v.paramType = b.pushBytes (Decimal.intText v.toInt) := by
  cases v with
  | u8 v =>
    have hval : toLE 1 v.toNat = [v] := congrArg ([·]) UInt8.ofNat_toNat
    rw [encoding, hval] at h
    have hbyte := (cons_prefix_drop.mp h).1
    simp only [MessageBuilder.renderAt, paramType, hbyte, okOr, ok_bind, b.pushU64_eq,
      UInt8.toNat_toUInt64, toInt, MessageBuilder.intText_natCast]
  | u16 v => exact pushU64_of_encoding b (by decide) (by decide) v.toNat_lt h
  | u32 v => exact pushU64_of_encoding b (by decide) (by decide) v.toNat_lt h
  | u64 v => exact pushU64_of_encoding b (by decide) (by decide) v.toNat_lt h
  | u128 v =>
    have hle : leNat (toLE 16 v.toNat) = v.toNat := leNat_toLE v.isLt
    have hslice := slice_of_isPrefix (by decide) (toLE_length 16 v.toNat) h
    simp only [MessageBuilder.renderAt, paramType, hslice, ok_bind, hle, b.pushU128_eq,
      BitVec.ofNat_toNat, BitVec.setWidth_eq, toInt, MessageBuilder.intText_natCast]
  | i64 v =>
    have hle : leNat (toLE 8 v.toUInt64.toNat) = v.toUInt64.toNat := leNat_toLE v.toUInt64.toNat_lt
    have hval : Int64.ofNat v.toUInt64.toNat = v := congrArg Int64.ofUInt64 UInt64.ofNat_toNat
    have hslice := slice_of_isPrefix (by decide) (toLE_length 8 v.toUInt64.toNat) h
    simp only [MessageBuilder.renderAt, paramType, hslice, ok_bind, hle, hval, b.pushI64_eq, toInt]

/-- A stored integer is shown as its numeral. -/
theorem renderParam_eq_pushBytes (b : MessageBuilder) (h : v.StoredAt intent data idx) :
    b.renderParam intent data idx = b.pushBytes (Decimal.intText v.toInt) := by
  obtain ⟨param, hparam, htype⟩ := h.param
  obtain ⟨offset, hoffset, hbytes⟩ := h.bytes
  rw [b.renderParam_eq, hparam, hoffset]
  show MessageBuilder.renderAt data offset b param.paramType = _
  rw [htype]
  exact renderAt_eq b hbytes

/-- Integers are shown exactly. The text of a stored integer is appended without an access outside the digit
buffer. It is the canonical numeral, with a minus sign for the negative numbers, and it can be read back. -/
theorem renderParam_exact (b : MessageBuilder) (h : v.StoredAt intent data idx) :
    b.renderParamBuffered intent data idx = checked (b.pushBytes (Decimal.intText v.toInt)) ∧
      b.renderParam intent data idx = b.pushBytes (Decimal.intText v.toInt) ∧
      Decimal.IsIntNumeral (Decimal.intText v.toInt) ∧
      ((Decimal.intText v.toInt).head? = some 45 ↔ v.toInt < 0) ∧
      Decimal.intVal (Decimal.intText v.toInt) = v.toInt ∧
      ∀ text, Decimal.IsIntNumeral text → Decimal.intVal text = v.toInt → text = Decimal.intText v.toInt := by
  have hrender := renderParam_eq_pushBytes b h
  refine ⟨?_, hrender, Decimal.intText_isIntNumeral _, Decimal.intText_head?_eq_iff _,
    Decimal.intVal_intText _, fun text htext hval => ?_⟩
  · rw [b.renderParamBuffered_eq, hrender]
  · rw [← hval, Decimal.intText_intVal htext]

/-- The least `i64` is shown with its sign. -/
theorem renderParam_exact_sample :
    (i64 Int64.minValue).StoredAt (Sample.templated [.i64] "") (i64 Int64.minValue).encoding 0 ∧
      MessageBuilder.new.renderParam (Sample.templated [.i64] "") (i64 Int64.minValue).encoding 0 =
        MessageBuilder.new.pushBytes (Decimal.intText (-9223372036854775808)) := by
  have hstored : (i64 Int64.minValue).StoredAt (Sample.templated [.i64] "") (i64 Int64.minValue).encoding 0 :=
    ⟨⟨_, rfl, rfl⟩, 0, rfl, List.prefix_rfl⟩
  exact ⟨hstored, (renderParam_exact MessageBuilder.new hstored).2.1⟩

end IntegerValue

end ClearMsig
