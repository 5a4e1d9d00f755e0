import ClearMsig.Emission
import ClearMsig.Sample
import ClearMsig.Utils.Proofs.MessageProofs

/-!
# What is shown and what is executed

A `Param` segment copies the first bytes of a parameter under an encoding of its own. The bytes decode
to the value that the message shows exactly when the encoding can hold that value.
-/

namespace ClearMsig

variable {intent : Intent} {data : Bytes}

/-! ## The pieces of the data -/

namespace Execute

/-- A segment appends its bytes when they fit. -/
theorem pushSegment_eq_ok {ixData ixData' : Bytes} {seg : DataSegmentEntry} :
    pushSegment intent data ixData seg = .ok ixData' ↔
      ∃ piece, segmentBytes intent data seg = .ok piece ∧ ixData' = ixData ++ piece ∧
        ixData'.length ≤ 1024 := by
  cases hseg : seg.segmentType with
  | literal =>
    simp only [pushSegment, segmentBytes, hseg, bind_eq_ok, require_eq_ok, exists_const, Except.ok.injEq]
    constructor
    · rintro ⟨segPool, hpool, hlen, rfl⟩
      exact ⟨segPool, ⟨segPool, hpool, rfl⟩, rfl, by rwa [List.length_append]⟩
    · rintro ⟨_, ⟨segPool, hpool, rfl⟩, rfl, hlen⟩
      exact ⟨segPool, hpool, by rwa [List.length_append] at hlen, rfl⟩
  | param =>
    simp only [pushSegment, segmentBytes, hseg, bind_eq_ok, require_eq_ok, exists_const, Except.ok.injEq]
    constructor
    · rintro ⟨segPool, hpool, htwo, idx, hidx, b, hb, encoding, henc, val, hval, hsize, hlen, rfl⟩
      refine ⟨_, ⟨segPool, hpool, htwo, idx, hidx, b, hb, encoding, henc, val, hval, hsize, rfl⟩, rfl, ?_⟩
      rwa [List.length_append, List.length_take_of_le hsize]
    · rintro ⟨_, ⟨segPool, hpool, htwo, idx, hidx, b, hb, encoding, henc, val, hval, hsize, rfl⟩, rfl, hlen⟩
      rw [List.length_append, List.length_take_of_le hsize] at hlen
      exact ⟨segPool, hpool, htwo, idx, hidx, b, hb, encoding, henc, val, hval, hsize, hlen, rfl⟩

/-- The data of an invocation is the concatenation of the pieces of its segments, when it fits. -/
theorem foldlM_pushSegment {segs : List DataSegmentEntry} {ixData ixData' : Bytes}
    (hroom : ixData.length ≤ 1024) :
    segs.foldlM (pushSegment intent data) ixData = .ok ixData' ↔
      ∃ pieces, segs.mapM (segmentBytes intent data) = .ok pieces ∧ ixData' = ixData ++ pieces.flatten ∧
        ixData'.length ≤ 1024 := by
  simp only [mapM_eq_ok]
  induction segs generalizing ixData with
  | nil =>
    simp only [List.foldlM_nil, pure_eq_ok, Except.ok.injEq, List.forall₂_nil_left_iff, exists_eq_left,
      List.flatten_nil, List.append_nil]
    constructor
    · rintro rfl
      exact ⟨rfl, hroom⟩
    · rintro ⟨rfl, -⟩
      rfl
  | cons seg segs ih =>
    rw [List.foldlM_cons, bind_eq_ok]
    constructor
    · rintro ⟨ixData₁, h₁, h₂⟩
      obtain ⟨piece, hpiece, rfl, hlen⟩ := pushSegment_eq_ok.mp h₁
      obtain ⟨pieces, hpieces, rfl, hlen'⟩ := (ih hlen).mp h₂
      refine ⟨piece :: pieces, .cons hpiece hpieces, ?_, hlen'⟩
      rw [List.flatten_cons, List.append_assoc]
    · rintro ⟨_, hall, rfl, hlen⟩
      obtain ⟨piece, pieces, hpiece, hpieces, rfl⟩ := List.forall₂_cons_left_iff.mp hall
      have hsplit : ixData ++ (piece :: pieces).flatten = ixData ++ piece ++ pieces.flatten := by
        rw [List.flatten_cons, List.append_assoc]
      -- the data only grows, so what there is so far fits as well
      have hlen₁ : (ixData ++ piece).length ≤ 1024 := by
        rw [hsplit, List.length_append] at hlen
        omega
      exact ⟨_, pushSegment_eq_ok.mpr ⟨piece, hpiece, rfl, hlen₁⟩,
        (ih hlen₁).mpr ⟨pieces, hpieces, hsplit, hlen⟩⟩

end Execute

/-! ## Decoding -/

theorem leNat_take (bytes : Bytes) (k : Nat) : leNat (bytes.take k) = leNat bytes % 256 ^ k := by
  induction k generalizing bytes with
  | zero => simp [leNat, Nat.mod_one]
  | succ k ih =>
    cases bytes with
    | nil => simp [leNat]
    | cons b bytes =>
      have hb := b.toNat_lt
      have hmod : (b.toNat + 256 * leNat bytes) % 256 = b.toNat := by omega
      have hdiv : (b.toNat + 256 * leNat bytes) / 256 = leNat bytes := by omega
      rw [List.take_succ_cons, leNat, leNat, ih, Nat.pow_succ, Nat.mul_comm (256 ^ k) 256, Nat.mod_mul,
        hmod, hdiv]

/-- The number in the first bytes is the whole number when it fits. -/
theorem leNat_take_eq_iff {bytes : Bytes} {k : Nat} :
    leNat (bytes.take k) = leNat bytes ↔ leNat bytes < 256 ^ k := by
  rw [leNat_take]
  constructor
  · intro h
    rw [← h]
    exact Nat.mod_lt _ (by positivity)
  · exact Nat.mod_eq_of_lt

namespace DataEncoding

variable {encoding : DataEncoding}

/-- What decodes as a bool. -/
theorem decode_bool_iff {bytes : Bytes} {v : Value} :
    bool.decode bytes = some v ↔
      (bytes = [0] ∧ v = .bool false) ∨ (bytes = [1] ∧ v = .bool true) := by
  by_cases h0 : bytes = [0]
  · subst h0
    simp [decode, byteSize, eq_comm]
  · by_cases h1 : bytes = [1]
    · subst h1
      simp [decode, byteSize, eq_comm]
    · simp [decode, h0, h1]

/-- What decodes has the size of the encoding. -/
theorem length_of_decode {bytes : Bytes} {v : Value} (h : encoding.decode bytes = some v) :
    bytes.length = encoding.byteSize := by
  by_contra hlen
  unfold decode at h
  rw [if_neg hlen] at h
  cases h

/-- Whatever an encoding decodes to is a value it holds. -/
theorem holds_of_decode {bytes : Bytes} {v : Value} (h : encoding.decode bytes = some v) :
    encoding.Holds v := by
  have hlen := length_of_decode h
  have hlt := leNat_lt bytes
  unfold decode at h
  rw [if_pos hlen] at h
  cases encoding with
  | rawAddress => exact ⟨bytes, (Option.some.inj h).symm, hlen⟩
  | littleEndianI64 =>
    have hi := Int64.toInt_lt (Int64.ofNat (leNat bytes))
    have hi' := Int64.le_toInt (Int64.ofNat (leNat bytes))
    exact ⟨_, (Option.some.inj h).symm, hi', hi⟩
  | bool =>
    dsimp only at h
    split_ifs at h with h0 h1
    · exact ⟨false, (Option.some.inj h).symm⟩
    · exact ⟨true, (Option.some.inj h).symm⟩
  | _ =>
    refine ⟨leNat bytes, (Option.some.inj h).symm, by omega, ?_⟩
    rw [← hlen]
    exact_mod_cast hlt

/-! The kind of a value decides which encodings hold it. -/

theorem eq_rawAddress_of_holds {a : Bytes} (h : encoding.Holds (.address a)) :
    encoding = rawAddress := by
  cases encoding with
  | rawAddress => rfl
  | bool =>
    obtain ⟨b, hb⟩ := h
    cases hb
  | _ =>
    obtain ⟨n, hn, -⟩ := h
    cases hn

theorem eq_bool_of_holds {b : Bool} (h : encoding.Holds (.bool b)) : encoding = bool := by
  cases encoding with
  | bool => rfl
  | rawAddress =>
    obtain ⟨a, ha, -⟩ := h
    cases ha
  | _ =>
    obtain ⟨n, hn, -⟩ := h
    cases hn

theorem not_holds_text {s : Bytes} : ¬ encoding.Holds (.text s) := by
  intro h
  cases encoding with
  | bool =>
    obtain ⟨b, hb⟩ := h
    cases hb
  | _ =>
    obtain ⟨x, hx, -⟩ := h
    cases hx

end DataEncoding

/-- An encoding that holds the number in some bytes gives it back from its first bytes. -/
theorem decode_number {encoding : DataEncoding} {raw : Bytes} (hsize : encoding.byteSize ≤ raw.length)
    (h : encoding.Holds (.number (leNat raw))) :
    encoding.decode (raw.take encoding.byteSize) = some (.number (leNat raw)) := by
  have hlen : (raw.take encoding.byteSize).length = encoding.byteSize := List.length_take_of_le hsize
  unfold DataEncoding.decode
  rw [if_pos hlen]
  cases encoding with
  | rawAddress =>
    obtain ⟨a, ha, -⟩ := h
    cases ha
  | bool =>
    obtain ⟨b, hb⟩ := h
    cases hb
  | littleEndianI64 =>
    obtain ⟨n, hn, -, hlt⟩ := h
    cases hn
    have htake : leNat (raw.take 8) = leNat raw := leNat_take_eq_iff.mpr (by omega)
    simp only [DataEncoding.byteSize]
    rw [toInt_ofNat_leNat (List.length_take_le 8 raw), htake, if_pos (by omega)]
  | _ =>
    obtain ⟨n, hn, -, hlt⟩ := h
    cases hn
    have htake := leNat_take_eq_iff.mpr (Int.ofNat_lt.mp (by exact_mod_cast hlt))
    rw [htake]

/-- The same for the number that eight bytes stand for with a sign. -/
theorem decode_signed {encoding : DataEncoding} {raw : Bytes} (hlen : raw.length = 8)
    (hsize : encoding.byteSize ≤ raw.length) (h : encoding.Holds (.number (Int64.ofNat (leNat raw)).toInt)) :
    encoding.decode (raw.take encoding.byteSize) =
      some (.number (Int64.ofNat (leNat raw)).toInt) := by
  by_cases hi : encoding = .littleEndianI64
  · subst hi
    have htake : raw.take 8 = raw := List.take_of_length_le hlen.le
    simp only [DataEncoding.decode, DataEncoding.byteSize, htake, hlen, if_true]
  · -- any other encoding holds the number only when it is not negative
    have hnonneg : 0 ≤ (Int64.ofNat (leNat raw)).toInt := by
      cases encoding with
      | littleEndianI64 => exact absurd rfl hi
      | rawAddress =>
        obtain ⟨a, ha, -⟩ := h
        cases ha
      | bool =>
        obtain ⟨b, hb⟩ := h
        cases hb
      | _ =>
        obtain ⟨n, hn, hle, -⟩ := h
        cases hn
        exact hle
    have hsame : (Int64.ofNat (leNat raw)).toInt = leNat raw := by
      have hlt := leNat_lt raw
      rw [hlen] at hlt
      have hread := toInt_ofNat_leNat hlen.le
      split_ifs at hread <;> omega
    rw [hsame] at h ⊢
    exact decode_number hsize h

/-- The bytes of a parameter that an encoding copies decode to the value of the parameter exactly when
the encoding holds that value. -/
theorem decode_take_iff {t : ParamType} {encoding : DataEncoding} {raw : Bytes}
    (hraw : ∀ own, DataEncoding.ofType t = some own → raw.length = own.byteSize)
    (hsize : encoding.byteSize ≤ raw.length) :
    encoding.decode (raw.take encoding.byteSize) = some (t.valueOf raw) ↔
      encoding.Holds (t.valueOf raw) ∧ (encoding = .bool → raw = [0] ∨ raw = [1]) := by
  constructor
  · intro h
    have hholds := DataEncoding.holds_of_decode h
    refine ⟨hholds, ?_⟩
    rintro rfl
    cases t with
    | bool =>
      have hlen : raw.length = 1 := hraw _ rfl
      have htake : raw.take 1 = raw := List.take_of_length_le hlen.le
      simp only [DataEncoding.byteSize, htake] at h
      exact (DataEncoding.decode_bool_iff.mp h).imp And.left And.left
    | _ =>
      obtain ⟨b, hb⟩ := hholds
      cases hb
  · rintro ⟨hholds, hbool⟩
    cases t with
    | address =>
      obtain rfl := DataEncoding.eq_rawAddress_of_holds hholds
      have hlen : raw.length = 32 := hraw _ rfl
      have htake : raw.take 32 = raw := List.take_of_length_le hlen.le
      simp only [DataEncoding.decode, DataEncoding.byteSize, htake, hlen, if_true, ParamType.valueOf]
    | bool =>
      obtain rfl := DataEncoding.eq_bool_of_holds hholds
      rcases hbool rfl with rfl | rfl <;> rfl
    | string => exact absurd hholds DataEncoding.not_holds_text
    | i64 => exact decode_signed (hraw _ rfl) hsize hholds
    | u64 | u8 | u16 | u32 | u128 => exact decode_number hsize hholds

/-- The encoding that is named like a type holds its values. -/
theorem holds_of_ofType {t : ParamType} {encoding : DataEncoding} {raw : Bytes}
    (ht : DataEncoding.ofType t = some encoding) (hlen : raw.length = encoding.byteSize) :
    encoding.Holds (t.valueOf raw) := by
  have hlt := leNat_lt raw
  rw [hlen] at hlt
  cases t with
  | address =>
    cases ht
    exact ⟨raw, rfl, hlen⟩
  | bool =>
    cases ht
    exact ⟨_, rfl⟩
  | string => cases ht
  | i64 =>
    cases ht
    exact ⟨_, rfl, Int64.le_toInt _, Int64.toInt_lt _⟩
  | u64 | u8 | u16 | u32 | u128 =>
    cases ht
    exact ⟨leNat raw, rfl, by omega, by exact_mod_cast hlt⟩

/-! ## Segments -/

/-- A parameter of a type other than string has the size of its own encoding. -/
theorem length_of_readParamBytes {raw : Bytes} {idx : UInt8}
    (hread : intent.readParamBytes data idx = .ok raw) {param : ParamEntry}
    (hparam : intent.params.toList[idx.toNat]? = some param) {own : DataEncoding}
    (hown : DataEncoding.ofType param.paramType = some own) : raw.length = own.byteSize := by
  obtain ⟨offset, -, param', hparam', size, hsize, hraw⟩ := MessageBuilder.readParamBytes_eq_ok.mp hread
  obtain rfl := Option.some.inj (hparam.symm.trans hparam')
  have hlen := length_of_getSlice hraw
  cases ht : param.paramType with
  | string =>
    rw [ht] at hown
    cases hown
  | _ =>
    rw [ht] at hsize hown
    cases hsize
    cases hown
    simp only [DataEncoding.byteSize]
    omega

/-- What `render_param` appends is the display of the value that `read_param_bytes` finds. -/
theorem renderParam_shows {raw : Bytes} {idx : UInt8}
    (hread : intent.readParamBytes data idx = .ok raw) {param : ParamEntry}
    (hparam : intent.params.toList[idx.toNat]? = some param) {b b' : MessageBuilder}
    (h : b.renderParam intent data idx = .ok b') :
    b'.bytes = b.bytes ++ (param.paramType.valueOf raw).display := by
  obtain ⟨t, ht, hb⟩ := (MessageBuilder.renderParam_writes intent data idx b b').mp h
  simp only [paramText, hparam, hread, okOr, ok_bind, bind_eq_ok, require_eq_ok, Except.ok.injEq,
    exists_const] at ht
  rw [hb, ← ht.2]

/-- Each segment's piece is what the segment says, and says what the message shows when the encoding holds
it. -/
theorem segment_faithful {seg : DataSegmentEntry} {piece : Bytes}
    (h : Execute.segmentBytes intent data seg = .ok piece) : Execute.Faithful intent data seg piece := by
  constructor
  · intro hseg
    simp only [Execute.segmentBytes, hseg, bind_eq_ok, Except.ok.injEq] at h
    obtain ⟨segPool, hpool, rfl⟩ := h
    exact hpool
  · intro hseg
    simp only [Execute.segmentBytes, hseg, bind_eq_ok, require_eq_ok, okOr_eq_ok, index_eq_ok,
      Except.ok.injEq, exists_const] at h
    obtain ⟨segPool, hpool, -, idx, hidx, b, hb, encoding, henc, raw, hread, hsize, rfl⟩ := h
    obtain ⟨-, -, param, hparam, -⟩ := MessageBuilder.readParamBytes_eq_ok.mp hread
    have hraw (own : DataEncoding) : DataEncoding.ofType param.paramType = some own →
        raw.length = own.byteSize := length_of_readParamBytes hread hparam
    refine ⟨idx, encoding, param, raw, ⟨hseg, segPool, hpool, hidx, by simp [hb, henc]⟩, hparam, hread,
      hsize, rfl, fun b b' => renderParam_shows hread hparam, decode_take_iff hraw hsize, fun hown => ?_⟩
    exact holds_of_ofType hown (hraw _ hown)

/-- What is displayed is what is executed, wherever the encodings hold the values that are displayed:
the data of every invocation consists of one piece for each segment, each of them faithful. -/
theorem pieces_faithful {accountViews : List AccountView} {cpis : List Cpi}
    (hloop : Execute.executeCpiLoop intent data accountViews = .ok cpis) :
    List.Forall₂ (fun entry cpi => ∃ segs pieces,
        slice intent.dataSegments.toList entry.segmentsStart.toNat
          (entry.segmentsStart.toNat + entry.segmentsCount.toNat) = .ok segs ∧
        cpi.data = pieces.flatten ∧ List.Forall₂ (Execute.Faithful intent data) segs pieces)
      intent.instructions.toList cpis := by
  refine (mapM_eq_ok.mp hloop).imp fun entry cpi h => ?_
  simp only [Execute.buildCpi, bind_eq_ok, require_eq_ok, Except.ok.injEq, exists_const] at h
  obtain ⟨-, program, -, indexes, -, -, accounts, -, segs, hsegs, ixData, hdata, rfl⟩ := h
  obtain ⟨pieces, hpieces, rfl, -⟩ := (Execute.foldlM_pushSegment (by decide)).mp hdata
  exact ⟨segs, pieces, hsegs, List.nil_append _, (mapM_eq_ok.mp hpieces).imp fun _ _ => segment_faithful⟩

namespace EmissionSample

open Sample

/-- A custom intent that shows a `u64` and sends its first byte. -/
def narrowing : Intent :=
  { templated [.u64] "{0}" with
    accounts := vec [⟨false, false, .static, 0, 0⟩]
    instructions := vec [⟨0, 0, 0, 0, 1⟩]
    dataSegments := vec [⟨.param, 3, 2⟩]
    bytePool := vec (ascii "{0}" ++ [0, 4]) }

/-- The number 256. -/
def params : Bytes := [0, 1, 0, 0, 0, 0, 0, 0]

theorem narrowing_sends :
    Execute.executeCpiLoop narrowing params [view (key 9)] = .ok [⟨key 9, [], [0]⟩] := by
  decide +kernel

end EmissionSample

open EmissionSample Sample in
theorem pieces_faithful_sample :
    ∃ cpis, Execute.executeCpiLoop narrowing params [view (key 9)] = .ok cpis ∧
      List.Forall₂ (fun entry cpi => ∃ segs pieces,
          slice narrowing.dataSegments.toList entry.segmentsStart.toNat
            (entry.segmentsStart.toNat + entry.segmentsCount.toNat) = .ok segs ∧
          cpi.data = pieces.flatten ∧ List.Forall₂ (Execute.Faithful narrowing params) segs pieces)
        narrowing.instructions.toList cpis := by
  exact ⟨_, narrowing_sends, pieces_faithful narrowing_sends⟩

open EmissionSample Sample in
/-- The message shows 256, the invocation sends 0. -/
theorem shown_not_executed :
    narrowing.validateParamConstraints params = .ok () ∧
      messageFor "a" narrowing params =
        .ok (message "expires 1970-01-01 00:16:40: propose 256 | wallet: a proposal: 0") ∧
      Execute.executeCpiLoop narrowing params [view (key 9)] = .ok [⟨key 9, [], [0]⟩] ∧
      Execute.Copies narrowing ⟨.param, 3, 2⟩ 0 .littleEndianU8 ∧
      DataEncoding.decode .littleEndianU8 [0] ≠ some (.number 256) := by
  refine ⟨rfl, ?_, narrowing_sends, ⟨rfl, [0, 4], rfl, rfl, rfl⟩, by decide⟩
  rw [message_ofList]
  decide +kernel

end ClearMsig
