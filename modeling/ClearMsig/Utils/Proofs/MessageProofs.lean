import ClearMsig.Utils.MessageText

/-!
# The builder writes the text of the message

Each `push_*` function appends its text when the text fits, and fails otherwise. The same holds for a
sequence of them, so that a message that is built is the offchain header followed by `messageText`.

The proof has three parts:

1. `Writes f r`: the step `f` of the builder appends the text `r`, and fails when there is none or
   when it does not fit. Sequences of such steps append the concatenation (`Writes.bind`).
2. One lemma for each step, up to whole messages.
3. `signedMessage_eq_ok`, which is all that later modules use.
-/

namespace ClearMsig

/-! ## Dates -/

/-- `format_timestamp` writes the 19 characters of the date at the front of the buffer. -/
theorem formatTimestamp_eq (ts : Int64) {buf : Bytes} (h : 19 ≤ buf.length) :
    formatTimestamp ts buf = some (19, dateText (timestampToParts ts) ++ buf.drop 19) := by
  iterate 19
    rcases buf with _ | ⟨_, buf⟩
    · exact absurd h (by simp)
  rw [formatTimestamp, if_neg (by omega)]
  simp only [writeDecimal4, writeDecimal2, List.set_cons_zero, List.set_cons_succ]
  rfl

theorem dateText_length (p : Parts) : (dateText p).length = 19 := rfl

/-! ## Little-endian numbers and slices -/

theorem leNat_lt (bytes : Bytes) : leNat bytes < 256 ^ bytes.length := by
  induction bytes with
  | nil => simp [leNat]
  | cons b bytes ih =>
    have hb := b.toNat_lt
    rw [leNat, List.length_cons, Nat.pow_succ]
    omega

/-- Byte strings of one length are determined by their number. -/
theorem leNat_injOn {a b : Bytes} (hlen : a.length = b.length) (h : leNat a = leNat b) : a = b := by
  induction a generalizing b with
  | nil => exact (List.length_eq_zero_iff.mp hlen.symm).symm
  | cons x a ih =>
    cases b with
    | nil => simp at hlen
    | cons y b =>
      have hx := x.toNat_lt
      have hy := y.toNat_lt
      simp only [leNat] at h
      have hhead : x = y := UInt8.toNat_inj.mp (by omega)
      have htail : a = b := ih (by simpa using hlen) (by omega)
      rw [hhead, htail]

theorem toLE_length (n v : Nat) : (toLE n v).length = n := by
  induction n generalizing v with
  | zero => rfl
  | succ n ih => rw [toLE, List.length_cons, ih]

theorem leNat_toLE {n v : Nat} (hv : v < 256 ^ n) : leNat (toLE n v) = v := by
  induction n generalizing v with
  | zero =>
    obtain rfl := Nat.lt_one_iff.mp hv
    rfl
  | succ n ih =>
    have hdiv : v / 256 < 256 ^ n := Nat.div_lt_of_lt_mul (by rwa [Nat.mul_comm, ← Nat.pow_succ])
    have hbyte : (UInt8.ofNat v).toNat = v % 256 := UInt8.toNat_ofNat'
    rw [toLE, leNat, ih hdiv, hbyte]
    omega

/-- The signed reading of up to eight bytes. -/
theorem toInt_ofNat_leNat {bytes : Bytes} (h : bytes.length ≤ 8) :
    (Int64.ofNat (leNat bytes)).toInt =
      if leNat bytes < 2 ^ 63 then (leNat bytes : Int) else leNat bytes - 2 ^ 64 := by
  have hlt := (leNat_lt bytes).trans_le (Nat.pow_le_pow_right (by decide) h)
  have hword : Int64.size = 2 ^ 64 := rfl
  rw [Int64.toInt_ofNat', hword, Int.bmod_def]
  split_ifs <;> omega

/-- A slice of one byte. -/
theorem getSlice_one {s t : Bytes} {i : Nat} :
    getSlice s i (i + 1) = some t ↔ ∃ a, s[i]? = some a ∧ t = [a] := by
  rw [getSlice_eq_some]
  constructor
  · rintro ⟨-, hi, rfl⟩
    refine ⟨s[i], List.getElem?_eq_getElem (by omega), ?_⟩
    rw [Nat.add_sub_cancel_left, List.drop_eq_getElem_cons (by omega)]
    rfl
  · rintro ⟨a, ha, rfl⟩
    obtain ⟨hi, rfl⟩ := List.getElem?_eq_some_iff.mp ha
    refine ⟨by omega, by omega, ?_⟩
    rw [Nat.add_sub_cancel_left, List.drop_eq_getElem_cons hi]
    rfl

/-- A slice without its first byte. -/
theorem getSlice_drop_one {s t : Bytes} {i n : Nat} :
    getSlice s (i + 1) (i + 1 + n) = some t ↔
      ∃ raw, getSlice s i (i + (1 + n)) = some raw ∧ t = raw.drop 1 := by
  simp only [getSlice_eq_some]
  constructor
  · rintro ⟨-, hi, rfl⟩
    refine ⟨_, ⟨by omega, by omega, rfl⟩, ?_⟩
    rw [List.drop_take, List.drop_drop]
    congr 1
    omega
  · rintro ⟨raw, ⟨-, hi, rfl⟩, rfl⟩
    refine ⟨by omega, by omega, ?_⟩
    rw [List.drop_take, List.drop_drop]
    congr 1
    omega

namespace MessageBuilder

/-! ## Steps that append a text -/

/-- `f` appends the text `r`: it succeeds exactly when there is such a text and it fits. -/
def Writes (f : MessageBuilder → Result MessageBuilder) (r : Result Bytes) : Prop :=
  ∀ b b', f b = .ok b' ↔ ∃ t, r = .ok t ∧ b'.bytes = b.bytes ++ t

theorem ext_bytes {b b' : MessageBuilder} (h : b.bytes = b'.bytes) : b = b' := by
  cases b
  cases b'
  cases h
  rfl

theorem pushBytes_writes (t : Bytes) : Writes (·.pushBytes t) (.ok t) := by
  intro b b'
  simp only [Except.ok.injEq, exists_eq_left', pushBytes]
  split_ifs with h
  · simp only [Except.ok.injEq]
    exact ⟨fun he => he ▸ rfl, fun he => ext_bytes he.symm⟩
  · simp only [false_iff]
    intro he
    have hle := b'.len_le
    rw [he, List.length_append] at hle
    exact h hle

/-- A step that comes down to one `push_bytes`. -/
theorem writes_of_eq {f : MessageBuilder → Result MessageBuilder} {t : Bytes}
    (h : ∀ b, f b = b.pushBytes t) : Writes f (.ok t) := by
  intro b b'
  rw [h b]
  exact pushBytes_writes t b b'

/-- Two texts in a row fail when they do not fit together. -/
theorem pushBytes_bind (b : MessageBuilder) (t u : Bytes) :
    (b.pushBytes t >>= (·.pushBytes u)) = b.pushBytes (t ++ u) := by
  by_cases ht : b.bytes.length + t.length ≤ MSG_BUF_SIZE
  · simp only [pushBytes, dif_pos ht, ok_bind, List.length_append, Nat.add_assoc, List.append_assoc]
  · have htu : ¬ b.bytes.length + (t ++ u).length ≤ MSG_BUF_SIZE := by
      rw [List.length_append]
      omega
    simp only [pushBytes, dif_neg ht, dif_neg htu, err, error_bind]

theorem Writes.congr {f : MessageBuilder → Result MessageBuilder} {r r' : Result Bytes}
    (h : Writes f r) (hr : ∀ t, r = .ok t ↔ r' = .ok t) : Writes f r' := by
  intro b b'
  simp only [h b b', hr]

/-- Two steps in a row append both texts. -/
theorem Writes.bind {f g : MessageBuilder → Result MessageBuilder} {r r' : Result Bytes}
    (hf : Writes f r) (hg : Writes g r') :
    Writes (fun b => f b >>= g) (do let t ← r; let u ← r'; .ok (t ++ u)) := by
  intro b b'
  simp only [bind_eq_ok, hf b, hg _ b', Except.ok.injEq]
  constructor
  · rintro ⟨b1, ⟨t, ht, h1⟩, u, hu, h2⟩
    exact ⟨t ++ u, ⟨t, ht, u, hu, rfl⟩, by rw [h2, h1, List.append_assoc]⟩
  · rintro ⟨-, ⟨t, ht, u, hu, rfl⟩, h⟩
    have hle := b'.len_le
    rw [h] at hle
    -- the state in between fits because the final one does
    refine ⟨⟨b.bytes ++ t, ?_, ?_⟩, ⟨t, ht, rfl⟩, u, hu, by rw [h, List.append_assoc]⟩
    · have := b.header_le
      simp only [List.length_append]
      omega
    · simp only [List.length_append] at hle ⊢
      omega

/-- Two steps with known texts. -/
theorem Writes.append {f g : MessageBuilder → Result MessageBuilder} {t u : Bytes}
    (hf : Writes f (.ok t)) (hg : Writes g (.ok u)) :
    Writes (fun b => f b >>= g) (.ok (t ++ u)) :=
  hf.bind hg

/-! ## Numbers, addresses, dates -/

/-- The digit loop produces the decimal digits of `v`. -/
theorem digitLoop_eq (pos v : Nat) (acc : Bytes) (h : (Nat.digits 10 v).length ≤ pos) :
    digitLoop pos v acc = .ok (((Nat.digits 10 v).map Decimal.digitByte).reverse ++ acc) := by
  induction pos generalizing v acc with
  | zero =>
    have hnil : Nat.digits 10 v = [] := List.length_eq_zero_iff.mp (by omega)
    have hv := Nat.digits_eq_nil_iff_eq_zero.mp hnil
    subst hv
    rfl
  | succ pos ih =>
    by_cases hv : v = 0
    · subst hv
      simp [digitLoop]
    · have hd : Nat.digits 10 v = v % 10 :: Nat.digits 10 (v / 10) :=
        Nat.digits_def' (by decide) (by omega)
      rw [hd, List.length_cons] at h
      have hrec := ih (v / 10) ((48 + UInt8.ofNat (v % 10)) :: acc) (by omega)
      rw [digitLoop, if_neg hv, hd]
      simp [hrec, Decimal.digitByte]

/-- With enough room for the digits, the numeral is written. -/
theorem pushDecimal_eq (b : MessageBuilder) {width v : Nat} (h : v < 10 ^ width) :
    b.pushDecimal width v = b.pushBytes (Decimal.natText v) := by
  unfold pushDecimal Decimal.natText
  split_ifs with hv
  · rfl
  · have hlen := (Nat.digits_length_le_iff (by decide) v).mpr h
    simp only [digitLoop_eq width v [] hlen, List.append_nil, ok_bind]

theorem pushU64_eq (b : MessageBuilder) (val : UInt64) :
    b.pushU64 val = b.pushBytes (Decimal.natText val.toNat) :=
  b.pushDecimal_eq (val.toNat_lt.trans (by norm_num))

theorem pushU64_writes (val : UInt64) : Writes (·.pushU64 val) (.ok (Decimal.natText val.toNat)) :=
  writes_of_eq fun b => b.pushU64_eq val

theorem pushU128_eq (b : MessageBuilder) (val : BitVec 128) :
    b.pushU128 val = b.pushBytes (Decimal.natText val.toNat) :=
  b.pushDecimal_eq (val.isLt.trans (by norm_num))

theorem pushI64_eq (b : MessageBuilder) (val : Int64) :
    b.pushI64 val = b.pushBytes (Decimal.intText val.toInt) := by
  have hcond : val.toInt = if 2 * val.toUInt64.toNat < 2 ^ 64 then (val.toUInt64.toNat : Int)
      else val.toUInt64.toNat - (2 ^ 64 : Nat) := BitVec.toInt_eq_toNat_cond _
  have hlt := val.toUInt64.toNat_lt
  have hneg : val < 0 ↔ val.toInt < 0 := Int64.lt_iff_toInt_lt
  have hsize : UInt64.size = 2 ^ 64 := rfl
  unfold pushI64 Decimal.intText
  simp only [hneg]
  split_ifs with h
  · have habs : (-val.toUInt64).toNat = val.toInt.natAbs := by
      rw [UInt64.toNat_neg, hsize]
      split_ifs at hcond with hc <;> omega
    rw [← habs]
    simp only [pushU64_eq]
    exact pushBytes_bind b (ascii "-") _
  · have habs : val.toUInt64.toNat = val.toInt.natAbs := by
      split_ifs at hcond with hc <;> omega
    rw [← habs]
    exact b.pushU64_eq _

theorem pushBase58_eq (b : MessageBuilder) {address : Bytes} (h : address.length ≤ 32) :
    b.pushBase58 address = b.pushBytes (base58Text address) := by
  simp only [pushBase58, encodeBase58_eq h le_rfl, ok_bind, okOr]

theorem pushTimestamp_writes (ts : Int64) :
    Writes (·.pushTimestamp ts) (.ok (dateText (timestampToParts ts))) := by
  intro b b'
  have hpush := pushBytes_writes (dateText (timestampToParts ts)) b b'
  simp only [pushTimestamp]
  by_cases h : b.bytes.length + 19 ≤ MSG_BUF_SIZE
  · have hroom : 19 ≤ (List.replicate (MSG_BUF_SIZE - b.bytes.length) (0 : UInt8)).length := by
      rw [List.length_replicate]
      omega
    have htake (rest : Bytes) : (dateText (timestampToParts ts) ++ rest).take 19 =
        dateText (timestampToParts ts) := List.take_left' (dateText_length _)
    simpa [require, h, okOr, formatTimestamp_eq ts hroom, htake] using hpush
  · simp only [require, h, if_false, err, error_bind, false_iff, reduceCtorEq]
    rintro ⟨t, ht, hb⟩
    have hle := b'.len_le
    rw [hb, ← Except.ok.inj ht, List.length_append, dateText_length] at hle
    exact h hle

theorem pushHex_writes (data : Bytes) : Writes (·.pushHex data) (.ok (hexText data)) := by
  induction data with
  | nil =>
    intro b b'
    simp only [pushHex, List.foldlM_nil, pure_eq_ok, Except.ok.injEq, hexText, List.flatMap_nil,
      exists_eq_left', List.append_nil]
    exact ⟨fun h => h ▸ rfl, fun h => ext_bytes h.symm⟩
  | cons byte data ih =>
    have h := (pushBytes_writes [hexDigit (byte >>> 4), hexDigit (byte &&& 0x0f)]).append ih
    simpa only [pushHex, hexText, List.foldlM_cons, List.flatMap_cons] using h

theorem pushHeader_writes (ctx : MessageContext) : Writes (·.pushHeader ctx) (.ok (headText ctx)) := by
  have h := (pushBytes_writes (ascii "expires ")).append ((pushTimestamp_writes ctx.expiry).append
    ((pushBytes_writes (ascii ": ")).append
      ((pushBytes_writes ctx.action).append (pushBytes_writes (ascii " ")))))
  rw [headText]
  simp only [List.append_assoc]
  exact h

theorem pushSuffix_writes (ctx : MessageContext) : Writes (·.pushSuffix ctx) (.ok (tailText ctx)) := by
  have h := (pushBytes_writes (ascii " | wallet: ")).append ((pushBytes_writes ctx.walletName).append
    ((pushBytes_writes (ascii " proposal: ")).append (pushU64_writes ctx.proposalIndex)))
  rw [tailText]
  simp only [List.append_assoc]
  exact h

/-! ## Parameters and templates -/

theorem readParamBytes_eq_ok {intent : Intent} {data raw : Bytes} {idx : UInt8} :
    intent.readParamBytes data idx = .ok raw ↔
      ∃ offset, Intent.skipParams data intent.params.toList idx.toNat 0 = .ok offset ∧
        ∃ param, intent.params.toList[idx.toNat]? = some param ∧
          ∃ size, paramByteSize param.paramType data offset = .ok size ∧
            getSlice data offset (offset + size) = some raw := by
  simp only [Intent.readParamBytes, bind_eq_ok, okOr_eq_ok]

theorem toNat_ofNat_leNat {bytes : Bytes} (h : bytes.length ≤ 8) :
    (UInt64.ofNat (leNat bytes)).toNat = leNat bytes := by
  have hlt := (leNat_lt bytes).trans_le (Nat.pow_le_pow_right (by decide) h)
  rw [UInt64.toNat_ofNat']
  exact Nat.mod_eq_of_lt hlt

theorem toNat_ofNat_leNat128 {bytes : Bytes} (h : bytes.length ≤ 16) :
    (BitVec.ofNat 128 (leNat bytes)).toNat = leNat bytes := by
  have hlt := (leNat_lt bytes).trans_le (Nat.pow_le_pow_right (by decide) h)
  rw [BitVec.toNat_ofNat]
  exact Nat.mod_eq_of_lt hlt

/-- The numeral of a natural number read as an integer. -/
theorem intText_natCast (n : Nat) : Decimal.intText (n : Int) = Decimal.natText n := by
  rw [Decimal.intText, if_neg (by omega), Int.natAbs_natCast]

/-- Steps that first read a slice of the parameters and then append its text. -/
theorem slice_writes {data : Bytes} {offset size : Nat} {g : Bytes → MessageBuilder → Result MessageBuilder}
    {text : Bytes → Bytes} (h : ∀ raw : Bytes, raw.length = size → Writes (g raw) (.ok (text raw))) :
    Writes (fun b => do let raw ← slice data offset (offset + size); g raw b)
      (do let raw ← slice data offset (offset + size); .ok (text raw)) := by
  intro b b'
  simp only [bind_eq_ok, slice_eq_ok, Except.ok.injEq]
  constructor
  · rintro ⟨raw, hraw, hg⟩
    obtain ⟨t, ht, hb⟩ := (h raw (by rw [length_of_getSlice hraw]; omega) b b').mp hg
    exact ⟨t, ⟨raw, hraw, Except.ok.inj ht⟩, hb⟩
  · rintro ⟨t, ⟨raw, hraw, rfl⟩, hb⟩
    exact ⟨raw, hraw, (h raw (by rw [length_of_getSlice hraw]; omega) b b').mpr ⟨_, rfl, hb⟩⟩

/-- The little-endian numbers of up to eight bytes. -/
theorem unsigned_writes {data : Bytes} {offset size : Nat} (h : size ≤ 8) :
    Writes (fun b => do
        let raw ← slice data offset (offset + size)
        b.pushU64 (UInt64.ofNat (leNat raw)))
      (do let raw ← slice data offset (offset + size); .ok (Value.number (leNat raw)).display) := by
  refine slice_writes fun raw hraw => ?_
  simp only [Value.display, intText_natCast]
  have hpush := pushU64_writes (UInt64.ofNat (leNat raw))
  rwa [toNat_ofNat_leNat (by omega)] at hpush

/-- The `match` of `render_param` on the declared type, for a parameter at `offset`. -/
def renderAt (data : Bytes) (offset : Nat) (b : MessageBuilder) : ParamType → Result MessageBuilder
  | .address => do
    let bytes ← slice data offset (offset + 32)
    b.pushBase58 bytes
  | .u64 => do
    let bytes ← slice data offset (offset + 8)
    b.pushU64 (UInt64.ofNat (leNat bytes))
  | .i64 => do
    let bytes ← slice data offset (offset + 8)
    b.pushI64 (Int64.ofNat (leNat bytes))
  | .string => do
    let len ← index data offset
    let s ← slice data (offset + 1) (offset + 1 + len.toNat)
    require (utf8Valid s) .invalidInstructionData
    b.pushStr s
  | .bool => do
    let v ← okOr data[offset]? .invalidInstructionData
    b.pushStr (if v ≠ 0 then ascii "true" else ascii "false")
  | .u8 => do
    let v ← okOr data[offset]? .invalidInstructionData
    b.pushU64 v.toUInt64
  | .u16 => do
    let bytes ← slice data offset (offset + 2)
    b.pushU64 (UInt64.ofNat (leNat bytes))
  | .u32 => do
    let bytes ← slice data offset (offset + 4)
    b.pushU64 (UInt64.ofNat (leNat bytes))
  | .u128 => do
    let bytes ← slice data offset (offset + 16)
    b.pushU128 (BitVec.ofNat 128 (leNat bytes))

theorem renderParam_eq (b : MessageBuilder) (intent : Intent) (data : Bytes) (idx : UInt8) :
    b.renderParam intent data idx = (do
      let param ← okOr intent.params.toList[idx.toNat]? .invalidInstructionData
      let offset ← paramOffset intent data idx
      renderAt data offset b param.paramType) := by
  rfl

/-- The text of a parameter at `offset`. -/
def textAt (data : Bytes) (offset : Nat) (t : ParamType) : Result Bytes := do
  let size ← paramByteSize t data offset
  let raw ← slice data offset (offset + size)
  require (t = .string → utf8Valid (raw.drop 1) = true) .invalidInstructionData
  .ok (t.valueOf raw).display

theorem textAt_of_size {data : Bytes} {offset size : Nat} {t : ParamType}
    (hsize : paramByteSize t data offset = .ok size) (ht : t ≠ .string) :
    textAt data offset t =
      (do let raw ← slice data offset (offset + size); .ok (t.valueOf raw).display) := by
  simp [textAt, hsize, ht, require]

/-- Reading one byte is reading a slice of length one. -/
theorem byte_writes {data : Bytes} {offset : Nat} {g : UInt8 → MessageBuilder → Result MessageBuilder}
    {text : Bytes → Bytes} (h : ∀ v, Writes (g v) (.ok (text [v]))) :
    Writes (fun b => do let v ← okOr data[offset]? .invalidInstructionData; g v b)
      (do let raw ← slice data offset (offset + 1); .ok (text raw)) := by
  intro b b'
  simp only [bind_eq_ok, okOr_eq_ok, slice_eq_ok, getSlice_one, Except.ok.injEq]
  constructor
  · rintro ⟨v, hv, hg⟩
    obtain ⟨t, ht, hb⟩ := (h v b b').mp hg
    exact ⟨t, ⟨[v], ⟨v, hv, rfl⟩, Except.ok.inj ht⟩, hb⟩
  · rintro ⟨t, ⟨raw, ⟨v, hv, rfl⟩, rfl⟩, hb⟩
    exact ⟨v, hv, (h v b b').mpr ⟨_, rfl, hb⟩⟩

theorem renderAt_writes (data : Bytes) (offset : Nat) (t : ParamType) :
    Writes (renderAt data offset · t) (textAt data offset t) := by
  cases t with
  | address =>
    rw [textAt_of_size rfl (by decide)]
    exact slice_writes fun raw hraw => writes_of_eq fun b => b.pushBase58_eq (by omega)
  | u64 =>
    rw [textAt_of_size rfl (by decide)]
    exact unsigned_writes (by decide)
  | i64 =>
    rw [textAt_of_size rfl (by decide)]
    exact slice_writes fun raw hraw => writes_of_eq fun b => b.pushI64_eq _
  | string =>
    intro b b'
    simp only [renderAt, textAt, paramByteSize, bind_eq_ok, okOr_eq_ok, index_eq_ok, slice_eq_ok,
      require_eq_ok, Except.ok.injEq, forall_const, getSlice_drop_one]
    have hpush (t : Bytes) := pushBytes_writes t b b'
    simp only [Except.ok.injEq, exists_eq_left'] at hpush
    constructor
    · rintro ⟨len, hlen, s, ⟨raw, hraw, rfl⟩, -, hutf, hb⟩
      exact ⟨_, ⟨_, ⟨len, hlen, rfl⟩, raw, hraw, (), hutf, rfl⟩, (hpush _).mp hb⟩
    · rintro ⟨t, ⟨-, ⟨len, hlen, rfl⟩, raw, hraw, -, hutf, rfl⟩, hb⟩
      exact ⟨len, hlen, _, ⟨raw, hraw, rfl⟩, (), hutf, (hpush _).mpr hb⟩
  | bool =>
    rw [textAt_of_size rfl (by decide)]
    refine byte_writes fun v => ?_
    have h := pushBytes_writes (if v ≠ 0 then ascii "true" else ascii "false")
    simp only [ParamType.valueOf, Value.display, List.getD_cons_zero, decide_eq_true_eq]
    exact h
  | u8 =>
    rw [textAt_of_size rfl (by decide)]
    refine byte_writes fun v => ?_
    simp only [ParamType.valueOf, Value.display, intText_natCast]
    exact pushU64_writes v.toUInt64
  | u16 =>
    rw [textAt_of_size rfl (by decide)]
    exact unsigned_writes (by decide)
  | u32 =>
    rw [textAt_of_size rfl (by decide)]
    exact unsigned_writes (by decide)
  | u128 =>
    rw [textAt_of_size rfl (by decide)]
    refine slice_writes fun raw hraw => ?_
    simp only [ParamType.valueOf, Value.display, intText_natCast]
    have h := writes_of_eq fun b => b.pushU128_eq (BitVec.ofNat 128 (leNat raw))
    rwa [toNat_ofNat_leNat128 (by omega)] at h

/-- `render_param` displays the value of the bytes that `read_param_bytes` returns. -/
theorem renderParam_writes (intent : Intent) (data : Bytes) (idx : UInt8) :
    Writes (·.renderParam intent data idx) (paramText intent data idx) := by
  have hread (t : Bytes) : (∃ param offset, intent.params.toList[idx.toNat]? = some param ∧
      paramOffset intent data idx = .ok offset ∧ textAt data offset param.paramType = .ok t) ↔
      paramText intent data idx = .ok t := by
    simp only [paramText, textAt, bind_eq_ok, okOr_eq_ok, readParamBytes_eq_ok, slice_eq_ok,
      require_eq_ok, paramOffset]
    constructor
    · rintro ⟨param, offset, hp, ho, size, hsize, raw, hraw, hutf, ht⟩
      exact ⟨param, hp, raw, ⟨offset, ho, param, hp, size, hsize, hraw⟩, hutf, ht⟩
    · rintro ⟨param, hp, raw, ⟨offset, ho, param', hp', size, hsize, hraw⟩, hutf, ht⟩
      obtain rfl := Option.some.inj (hp.symm.trans hp')
      exact ⟨param, offset, hp, ho, size, hsize, raw, hraw, hutf, ht⟩
  intro b b'
  simp only [renderParam_eq, bind_eq_ok, okOr_eq_ok, renderAt_writes _ _ _ b b', ← hread]
  constructor
  · rintro ⟨param, hp, offset, ho, t, ht, hb⟩
    exact ⟨t, ⟨param, offset, hp, ho, ht⟩, hb⟩
  · rintro ⟨t, ⟨param, offset, hp, ho, ht⟩, hb⟩
    exact ⟨param, hp, offset, ho, t, ht, hb⟩

/-- The template loop appends the text of the pieces of the template. -/
theorem renderTemplateLoop_writes (intent : Intent) (data template : Bytes) :
    Writes (renderTemplateLoop intent data · template)
      (do let tokens ← templateTokens template; tokensText intent data tokens) := by
  induction template using templateTokens.induct with
  | case1 =>
    intro b b'
    simp only [renderTemplateLoop, templateTokens, tokensText, ok_bind, Except.ok.injEq,
      exists_eq_left', List.append_nil]
    exact ⟨fun h => h ▸ rfl, fun h => ext_bytes h.symm⟩
  | case2 rest hnone =>
    intro b b'
    simp [renderTemplateLoop, templateTokens, hnone]
  | case3 rest e he ih =>
    intro b b'
    have hloop (idx : Nat) := (renderParam_writes intent data (UInt8.ofNat idx)).bind ih b b'
    show renderTemplateLoop intent data b (123 :: rest) = .ok b' ↔ _
    rw [renderTemplateLoop, templateTokens]
    simp only [if_true, he, bind_eq_ok, Except.ok.injEq] at hloop ⊢
    constructor
    · rintro ⟨idx, hidx, b1, h1, h2⟩
      obtain ⟨t, ⟨a, ha, u, ⟨ts, hts, hu⟩, rfl⟩, hb⟩ := (hloop idx).mp ⟨b1, h1, h2⟩
      exact ⟨a ++ u, ⟨_, ⟨idx, hidx, ts, hts, rfl⟩, by simp [tokensText, Token.text, ha, hu]⟩, hb⟩
    · rintro ⟨t, ⟨-, ⟨idx, hidx, ts, hts, rfl⟩, ht⟩, hb⟩
      simp only [tokensText, Token.text, bind_eq_ok, Except.ok.injEq] at ht
      obtain ⟨a, ha, u, hu, rfl⟩ := ht
      obtain ⟨b1, h1, h2⟩ := (hloop idx).mpr ⟨a ++ u, ⟨a, ha, u, ⟨ts, hts, hu⟩, rfl⟩, hb⟩
      exact ⟨idx, hidx, b1, h1, h2⟩
  | case4 c rest hc ih =>
    have h := (pushBytes_writes [c]).bind ih
    simp only [renderTemplateLoop, templateTokens, if_neg hc]
    refine h.congr fun t => ?_
    simp only [ok_bind, bind_eq_ok, Except.ok.injEq]
    constructor
    · rintro ⟨u, ⟨ts, hts, hu⟩, rfl⟩
      exact ⟨_, ⟨ts, hts, rfl⟩, by simp [tokensText, Token.text, hu]⟩
    · rintro ⟨-, ⟨ts, hts, rfl⟩, ht⟩
      simp only [tokensText, Token.text, ok_bind, bind_eq_ok, Except.ok.injEq] at ht
      obtain ⟨u, hu, rfl⟩ := ht
      exact ⟨u, ⟨ts, hts, hu⟩, rfl⟩

/-! ## Messages -/

theorem renderTemplate_writes (intent : Intent) (data : Bytes) :
    Writes (·.renderTemplate intent data)
      (do let tokens ← intent.tokens; tokensText intent data tokens) := by
  intro b b'
  simp only [renderTemplate, Intent.tokens, bind_eq_ok]
  constructor
  · rintro ⟨template, htemplate, h⟩
    obtain ⟨t, ht, hb⟩ := (renderTemplateLoop_writes intent data template b b').mp h
    obtain ⟨ts, hts, ht⟩ := bind_eq_ok.mp ht
    exact ⟨t, ⟨ts, ⟨template, htemplate, hts⟩, ht⟩, hb⟩
  · rintro ⟨t, ⟨ts, ⟨template, htemplate, hts⟩, ht⟩, hb⟩
    refine ⟨template, htemplate, (renderTemplateLoop_writes intent data template b b').mpr ?_⟩
    exact ⟨t, bind_eq_ok.mpr ⟨ts, hts, ht⟩, hb⟩

/-- A message with a header, a content and a suffix. -/
theorem framed_writes (ctx : MessageContext) {g : MessageBuilder → Result MessageBuilder}
    {r : Result Bytes} (h : Writes g r) :
    Writes (fun b => do let b ← b.pushHeader ctx; let b ← g b; b.pushSuffix ctx)
      (do let content ← r; .ok (messageText ctx content)) := by
  refine ((pushHeader_writes ctx).bind (h.bind (pushSuffix_writes ctx))).congr fun t => ?_
  simp only [ok_bind, bind_eq_ok, Except.ok.injEq, messageText]
  constructor
  · rintro ⟨-, ⟨content, hc, rfl⟩, rfl⟩
    exact ⟨content, hc, by simp⟩
  · rintro ⟨content, hc, rfl⟩
    exact ⟨_, ⟨content, hc, rfl⟩, by simp⟩

theorem buildAddIntentMessage_writes (ctx : MessageContext) (hash : ByteArr 32) :
    Writes (·.buildAddIntentMessage ctx hash)
      (.ok (messageText ctx (ascii "add intent definition_hash: " ++ hexText hash.val))) := by
  have h := framed_writes ctx
    ((pushBytes_writes (ascii "add intent definition_hash: ")).append (pushHex_writes hash.val))
  simp only [bind_assoc, ok_bind] at h
  exact h

theorem buildRemoveIntentMessage_writes (ctx : MessageContext) (index : UInt8) :
    Writes (·.buildRemoveIntentMessage ctx index)
      (.ok (messageText ctx (ascii "remove intent " ++ Decimal.natText index.toNat))) := by
  have h := framed_writes ctx
    ((pushBytes_writes (ascii "remove intent ")).append (pushU64_writes index.toUInt64))
  simp only [bind_assoc, ok_bind] at h
  exact h

theorem buildUpdateIntentMessage_writes (ctx : MessageContext) (index : UInt8) (hash : ByteArr 32) :
    Writes (·.buildUpdateIntentMessage ctx index hash)
      (.ok (messageText ctx (ascii "update intent " ++ Decimal.natText index.toNat ++
        ascii " definition_hash: " ++ hexText hash.val))) := by
  have h := framed_writes ctx
    ((pushBytes_writes (ascii "update intent ")).append ((pushU64_writes index.toUInt64).append
      ((pushBytes_writes (ascii " definition_hash: ")).append (pushHex_writes hash.val))))
  simp only [bind_assoc, ok_bind] at h
  simp only [List.append_assoc]
  exact h

/-- `finalize` replaces the reserved bytes by the header and keeps the text behind them. A buffer is
too small for a length that does not fit into the header. -/
theorem finalize_spec (b : MessageBuilder) :
    ∃ b', b.finalize = .ok b' ∧
      b'.bytes = offchainHeader (b.bytes.length - OFFCHAIN_HEADER_LEN) ++ b.bytes.drop 20 := by
  have hle := b.len_le
  have hfit : b.bytes.length - OFFCHAIN_HEADER_LEN ≤ 65535 := by
    simp only [OFFCHAIN_HEADER_LEN, MSG_BUF_SIZE] at hle ⊢
    omega
  exact ⟨_, if_pos hfit, rfl⟩

/-- A check in front of a step is a check in front of its text. -/
theorem Writes.require {f : MessageBuilder → Result MessageBuilder} {r : Result Bytes}
    (h : Writes f r) (c : Prop) [Decidable c] (e : ProgramError) :
    Writes (fun b => do ClearMsig.require c e; f b) (do ClearMsig.require c e; r) := by
  intro b b'
  simp only [bind_eq_ok, require_eq_ok, h b b']
  tauto

/-- The `match` of `build_message_for_intent` on the intent type. -/
def buildShape (sha256 : Bytes → ByteArr 32) (ctx : MessageContext) (intent : Intent) (data : Bytes)
    (b : MessageBuilder) : IntentType → Result MessageBuilder
  | .addIntent => b.buildAddIntentMessage ctx (sha256 data)
  | .removeIntent => do
    ClearMsig.require (data.length = 1) .invalidInstructionData
    b.buildRemoveIntentMessage ctx (data.getD 0 0)
  | .updateIntent => do
    ClearMsig.require (data.length > 1) .invalidInstructionData
    b.buildUpdateIntentMessage ctx (data.getD 0 0) (sha256 (data.drop 1))
  | .custom => b.buildCustomMessage ctx intent data

theorem buildMessageForIntent_eq (sha256 : Bytes → ByteArr 32) (b : MessageBuilder)
    (ctx : MessageContext) (intent : Intent) (data : Bytes) :
    b.buildMessageForIntent sha256 ctx intent data = (do
      let t ← intent.readType
      let b ← buildShape sha256 ctx intent data b t
      b.finalize) := by
  unfold buildMessageForIntent
  cases intent.readType with
  | error e => rfl
  | ok t => cases t <;> simp [buildShape, bind_assoc]

/-- Without the header, the message of each shape is its text around the content. -/
theorem buildShape_writes (sha256 : Bytes → ByteArr 32) (ctx : MessageContext) (intent : Intent)
    (data : Bytes) (t : IntentType) :
    Writes (buildShape sha256 ctx intent data · t)
      (do let content ← contentOf sha256 intent data t; .ok (messageText ctx content)) := by
  cases t with
  | addIntent => exact buildAddIntentMessage_writes ctx _
  | removeIntent =>
    have h := (buildRemoveIntentMessage_writes ctx (data.getD 0 0)).require (data.length = 1)
      .invalidInstructionData
    simpa only [buildShape, contentOf, bind_assoc, ok_bind] using h
  | updateIntent =>
    have h := (buildUpdateIntentMessage_writes ctx (data.getD 0 0) (sha256 (data.drop 1))).require
      (data.length > 1) .invalidInstructionData
    simpa only [buildShape, contentOf, bind_assoc, ok_bind] using h
  | custom => exact framed_writes ctx (renderTemplate_writes intent data)

end MessageBuilder

/-- A message is built exactly when there is a content for it and everything fits into the buffer; it
is then the offchain header followed by the text. -/
theorem signedMessage_eq_ok {sha256 : Bytes → ByteArr 32} {ctx : MessageContext} {intent : Intent}
    {data m : Bytes} :
    signedMessage sha256 ctx intent data = .ok m ↔
      ∃ content, contentText sha256 intent data = .ok content ∧
        20 + (messageText ctx content).length ≤ MSG_BUF_SIZE ∧
        m = MessageBuilder.offchainHeader (messageText ctx content).length ++
          messageText ctx content := by
  have hshape (t : IntentType) (b' : MessageBuilder) :=
    MessageBuilder.buildShape_writes sha256 ctx intent data t MessageBuilder.new b'
  have hnew (t : Bytes) : (MessageBuilder.new.bytes ++ t).drop 20 = t :=
    List.drop_left' (List.length_replicate ..)
  have hlen (t : Bytes) : (MessageBuilder.new.bytes ++ t).length - OFFCHAIN_HEADER_LEN = t.length := by
    simp [MessageBuilder.new]
  simp only [bind_eq_ok, Except.ok.injEq] at hshape
  simp only [signedMessage, MessageBuilder.buildMessageForIntent_eq, bind_eq_ok, contentText,
    Except.ok.injEq]
  constructor
  · rintro ⟨msg, ⟨t, ht, b, hb, hmsg⟩, rfl⟩
    obtain ⟨-, ⟨content, hc, rfl⟩, hbytes⟩ := (hshape t b).mp hb
    obtain ⟨msg', hfin, hmsg'⟩ := b.finalize_spec
    obtain rfl := Except.ok.inj (hfin.symm.trans hmsg)
    rw [hbytes, hnew, hlen] at hmsg'
    refine ⟨content, ⟨t, ht, hc⟩, ?_, hmsg'⟩
    have hle := b.len_le
    rw [hbytes, List.length_append] at hle
    exact hle
  · rintro ⟨content, ⟨t, ht, hc⟩, hle, rfl⟩
    have hsize : (MessageBuilder.new.bytes ++ messageText ctx content).length ≤ MSG_BUF_SIZE := by
      rw [List.length_append]
      exact hle
    have hheader : OFFCHAIN_HEADER_LEN ≤
        (MessageBuilder.new.bytes ++ messageText ctx content).length := by
      rw [List.length_append]
      exact Nat.le_add_right _ _
    let b : MessageBuilder := ⟨_, hheader, hsize⟩
    obtain ⟨msg, hfin, hmsg⟩ := b.finalize_spec
    rw [hnew, hlen] at hmsg
    exact ⟨msg, ⟨t, ht, b, (hshape t b).mpr ⟨_, ⟨content, hc, rfl⟩, rfl⟩, hfin⟩, hmsg⟩

/-- Two messages with the same bytes have the same text. -/
theorem messageText_eq_of_signedMessage {sha256 : Bytes → ByteArr 32} {ctx ctx' : MessageContext}
    {intent intent' : Intent} {data data' m : Bytes}
    (h : signedMessage sha256 ctx intent data = .ok m)
    (h' : signedMessage sha256 ctx' intent' data' = .ok m) :
    ∃ content content', contentText sha256 intent data = .ok content ∧
      contentText sha256 intent' data' = .ok content' ∧
      messageText ctx content = messageText ctx' content' := by
  obtain ⟨content, hc, -, hm⟩ := signedMessage_eq_ok.mp h
  obtain ⟨content', hc', -, hm'⟩ := signedMessage_eq_ok.mp h'
  have hdrop := congrArg (List.drop OFFCHAIN_HEADER_LEN) (hm.symm.trans hm')
  rw [List.drop_left' (MessageBuilder.offchainHeader_length _),
    List.drop_left' (MessageBuilder.offchainHeader_length _)] at hdrop
  exact ⟨content, content', hc, hc', hdrop⟩

end ClearMsig
