import ClearMsig.Utils.Delimiters
import ClearMsig.Utils.Proofs.MessageProofs

/-!
# A readable template determines its values

The proof has three parts:

1. The place of a cut is the same in both texts (`Cut.append_inj`), and the pieces of a part with a single
   unknown parameter have the same lengths (`agrees_of_single`).
2. So the text of a readable template determines the displays in it (`Readable.agrees`).
3. Equal displays come from equal values, and these from the same bytes, up to the two ways to say yes
   (`saysSame_of_agrees`).
-/

namespace ClearMsig

variable {intent : Intent} {p q : Bytes} {known ts us : List Token}

/-! ## Displays -/

/-- The words for two bools differ in their first byte. -/
theorem bool_display_append_inj {b b' : Bool} {s s' : Bytes}
    (h : (Value.bool b).display ++ s = (Value.bool b').display ++ s') : b = b' := by
  cases b <;> cases b'
  · rfl
  · cases h
  · cases h
  · rfl

/-- They differ in their third byte from the right, too. -/
theorem append_bool_display_inj {b b' : Bool} {s s' : Bytes}
    (h : s ++ (Value.bool b).display = s' ++ (Value.bool b').display) : b = b' := by
  have hr := congrArg List.reverse h
  rw [List.reverse_append, List.reverse_append] at hr
  cases b <;> cases b'
  · rfl
  · cases hr
  · cases hr
  · rfl

/-- Nothing can stand where every byte would go on. -/
theorem eq_nil_of_stopsAt {s : Bytes} (h : Reading.StopsAt (fun _ => true) s) : s = [] := by
  cases s with
  | nil => rfl
  | cons x s => exact absurd (h x rfl) Bool.noConfusion

/-- Two displays for one type, in front of two texts with which they do not go on. -/
theorem display_eq_of_front {t : ParamType} {raw raw' s s' : Bytes} (hs : Reading.StopsAt t.goesOnWith s)
    (hs' : Reading.StopsAt t.goesOnWith s')
    (h : (t.valueOf raw).display ++ s = (t.valueOf raw').display ++ s') :
    (t.valueOf raw).display = (t.valueOf raw').display := by
  cases t with
  | address =>
    exact (Reading.append_inj_of_stopsAt (base58Text_isBase58 raw) (base58Text_isBase58 raw') hs hs' h).1
  | bool => exact congrArg (fun b => (Value.bool b).display) (bool_display_append_inj h)
  | string =>
    rw [eq_nil_of_stopsAt hs, eq_nil_of_stopsAt hs'] at h
    exact List.append_cancel_right h
  | i64 | u64 | u8 | u16 | u32 | u128 =>
    exact congrArg Decimal.intText (Decimal.intText_append_inj hs hs' h).1

/-- A display consists of bytes that could come before it. -/
theorem display_comesBehind {t : ParamType} (raw : Bytes) :
    ∀ b ∈ (t.valueOf raw).display, t ≠ .bool → t.comesBehind b = true := by
  intro b hb ht
  cases t with
  | bool => exact absurd rfl ht
  | address => exact base58Text_isBase58 raw b hb
  | string => rfl
  | i64 => exact Decimal.intText_sign_or_digit _ b hb
  | u64 | u8 | u16 | u32 | u128 =>
    have hnat : b ∈ Decimal.natText (leNat raw) := by
      rw [← MessageBuilder.intText_natCast]
      exact hb
    exact Decimal.natText_isDigit _ b hnat

/-- Two displays for one type, behind two texts that do not belong to them. -/
theorem display_eq_of_back {t : ParamType} {raw raw' s s' : Bytes}
    (hs : Reading.StopsAt t.comesBehind s.reverse) (hs' : Reading.StopsAt t.comesBehind s'.reverse)
    (h : s ++ (t.valueOf raw).display = s' ++ (t.valueOf raw').display) :
    (t.valueOf raw).display = (t.valueOf raw').display := by
  by_cases ht : t = .bool
  · subst ht
    exact congrArg (fun b => (Value.bool b).display) (append_bool_display_inj h)
  · exact (Reading.append_inj_of_stopsAt_right (fun b hb => display_comesBehind raw b hb ht)
      (fun b hb => display_comesBehind raw' b hb ht) hs hs' h).2

/-- Values of one type have different displays. -/
theorem display_injective {t : ParamType} {raw raw' : Bytes}
    (h : (t.valueOf raw).display = (t.valueOf raw').display) : t.valueOf raw = t.valueOf raw' := by
  cases t with
  | address => exact congrArg Value.address (base58Text_injective h)
  | bool =>
    have happend := congrArg (· ++ []) h
    exact congrArg Value.bool (bool_display_append_inj happend)
  | string => exact congrArg Value.text h
  | i64 | u64 | u8 | u16 | u32 | u128 => exact congrArg Value.number (Decimal.intText_injective h)

/-- A placeholder displays the value of its parameter. -/
theorem paramText_eq_ok {data a : Bytes} {idx : UInt8} (h : paramText intent data idx = .ok a) :
    ∃ param raw, intent.params.toList[idx.toNat]? = some param ∧
      intent.readParamBytes data idx = .ok raw ∧ a = (param.paramType.valueOf raw).display := by
  simp only [paramText, bind_eq_ok, okOr_eq_ok, require_eq_ok, Except.ok.injEq, exists_const] at h
  obtain ⟨param, hparam, raw, hraw, -, rfl⟩ := h
  exact ⟨param, raw, hparam, hraw, rfl⟩

/-! ## Texts -/

theorem tokensText_cons {data r : Bytes} {t : Token} :
    tokensText intent data (t :: ts) = .ok r ↔
      ∃ a b, t.text intent data = .ok a ∧ tokensText intent data ts = .ok b ∧ r = a ++ b := by
  simp only [tokensText, bind_eq_ok, Except.ok.injEq]
  constructor
  · rintro ⟨a, ha, b, hb, rfl⟩
    exact ⟨a, b, ha, hb, rfl⟩
  · rintro ⟨a, b, ha, hb, rfl⟩
    exact ⟨a, ha, b, hb, rfl⟩

theorem tokensText_append {data r : Bytes} :
    tokensText intent data (ts ++ us) = .ok r ↔
      ∃ a b, tokensText intent data ts = .ok a ∧ tokensText intent data us = .ok b ∧ r = a ++ b := by
  induction ts generalizing r with
  | nil => simp [tokensText]
  | cons t ts ih =>
    rw [List.cons_append, tokensText_cons]
    constructor
    · rintro ⟨a, b, ha, hb, rfl⟩
      obtain ⟨b₁, b₂, hb₁, hb₂, rfl⟩ := ih.mp hb
      exact ⟨a ++ b₁, b₂, tokensText_cons.mpr ⟨a, b₁, ha, hb₁, rfl⟩, hb₂, (List.append_assoc ..).symm⟩
    · rintro ⟨r, b, hr, hb, rfl⟩
      obtain ⟨a, b₁, ha, hb₁, rfl⟩ := tokensText_cons.mp hr
      exact ⟨a, b₁ ++ b, ha, ih.mpr ⟨b₁, b, hb₁, hb, rfl⟩, List.append_assoc ..⟩

theorem tokensText_literals (data sep : Bytes) : tokensText intent data (sep.map .literal) = .ok sep := by
  induction sep with
  | nil => rfl
  | cons c sep ih => exact tokensText_cons.mpr ⟨[c], sep, rfl, ih, rfl⟩

theorem texts_append {r r' : Bytes} (h : Texts intent p q (ts ++ us) r r') :
    ∃ a a' b b', Texts intent p q ts a a' ∧ Texts intent p q us b b' ∧ r = a ++ b ∧ r' = a' ++ b' := by
  obtain ⟨a, b, ha, hb, rfl⟩ := tokensText_append.mp h.left
  obtain ⟨a', b', ha', hb', rfl⟩ := tokensText_append.mp h.right
  exact ⟨a, a', b, b', ⟨ha, ha'⟩, ⟨hb, hb'⟩, rfl, rfl⟩

/-- The parameter `idx` has one display for `p` and `q`. -/
def Agrees (intent : Intent) (p q : Bytes) (idx : UInt8) : Prop :=
  ∃ a, paramText intent p idx = .ok a ∧ paramText intent q idx = .ok a

/-- All placeholders among the pieces have one display for `p` and `q`. -/
def AgreesOn (intent : Intent) (p q : Bytes) (ts : List Token) : Prop :=
  ∀ i, Token.param i ∈ ts → Agrees intent p q i

theorem agreesOn_append : AgreesOn intent p q (ts ++ us) ↔ AgreesOn intent p q ts ∧ AgreesOn intent p q us := by
  simp only [AgreesOn, List.mem_append, or_imp, forall_and]

theorem AgreesOn.of_onlyOf (h : AgreesOn intent p q known) (honly : OnlyOf known ts) :
    AgreesOn intent p q ts := fun i hi => h i (honly i hi)

/-- Pieces with one display have one text. -/
theorem AgreesOn.text_eq {a a' : Bytes} (h : AgreesOn intent p q ts) (ht : Texts intent p q ts a a') :
    a = a' := by
  have hsame : tokensText intent p ts = tokensText intent q ts := by
    clear ht
    induction ts with
    | nil => rfl
    | cons t ts ih =>
      have htail := ih fun i hi => h i (List.mem_cons_of_mem _ hi)
      cases t with
      | literal c => simp only [tokensText, Token.text, htail]
      | param idx =>
        obtain ⟨d, hd, hd'⟩ := h idx List.mem_cons_self
        simp only [tokensText, Token.text, hd, hd', htail]
  exact Except.ok.inj (ht.left.symm.trans (hsame.trans ht.right))

/-- Where the displays have the same lengths, one text comes from one display for each placeholder. -/
theorem agreesOn_of_length {r : Bytes}
    (hlen : ∀ i, Token.param i ∈ ts → ∀ a a', paramText intent p i = .ok a → paramText intent q i = .ok a' →
      a.length = a'.length) (ht : Texts intent p q ts r r) : AgreesOn intent p q ts := by
  induction ts generalizing r with
  | nil => exact fun i hi => absurd hi List.not_mem_nil
  | cons t ts ih =>
    obtain ⟨a, b, ha, hb, rfl⟩ := tokensText_cons.mp ht.left
    obtain ⟨a', b', ha', hb', heq⟩ := tokensText_cons.mp ht.right
    have hlen' : a.length = a'.length := by
      cases t with
      | literal c =>
        cases ha
        cases ha'
        rfl
      | param idx => exact hlen idx List.mem_cons_self a a' ha ha'
    obtain ⟨rfl, rfl⟩ := List.append_inj heq hlen'
    have htail := ih (fun i hi => hlen i (List.mem_cons_of_mem _ hi)) ⟨hb, hb'⟩
    intro i hi
    rcases List.mem_cons.mp hi with rfl | hmem
    · exact ⟨a, ha, ha'⟩
    · exact htail i hmem

/-- With one parameter that is not known, the lengths of the texts differ by as many times the difference of
its displays as it has placeholders. -/
theorem length_add_count {idx : UInt8} {a a' d d' : Bytes} (hknown : AgreesOn intent p q known)
    (honly : OnlyOf (.param idx :: known) ts) (hd : paramText intent p idx = .ok d)
    (hd' : paramText intent q idx = .ok d') (ht : Texts intent p q ts a a') :
    a.length + ts.count (.param idx) * d'.length = a'.length + ts.count (.param idx) * d.length := by
  induction ts generalizing a a' with
  | nil =>
    cases ht.left
    cases ht.right
    simp
  | cons t ts ih =>
    obtain ⟨x, b, hx, hb, rfl⟩ := tokensText_cons.mp ht.left
    obtain ⟨x', b', hx', hb', rfl⟩ := tokensText_cons.mp ht.right
    have hrest := ih (fun i hi => honly i (List.mem_cons_of_mem _ hi)) ⟨hb, hb'⟩
    by_cases hidx : t = .param idx
    · subst hidx
      obtain rfl := Except.ok.inj (hd.symm.trans hx)
      obtain rfl := Except.ok.inj (hd'.symm.trans hx')
      rw [List.count_cons_self, List.length_append, List.length_append, Nat.add_mul, Nat.add_mul]
      omega
    · have hsame : x = x' := by
        cases t with
        | literal c =>
          cases hx
          cases hx'
          rfl
        | param i =>
          have hmem := (List.mem_cons.mp (honly i List.mem_cons_self)).resolve_left hidx
          obtain ⟨y, hy, hy'⟩ := hknown i hmem
          exact Except.ok.inj (hx.symm.trans (hy.trans (hy'.symm.trans hx')))
      rw [List.count_cons_of_ne hidx, List.length_append, List.length_append, hsame]
      omega

/-- So one text with a single parameter that is not known has one display for it. -/
theorem agreesOn_of_single {idx : UInt8} {r : Bytes} (hknown : AgreesOn intent p q known)
    (honly : OnlyOf (.param idx :: known) ts) (ht : Texts intent p q ts r r) : AgreesOn intent p q ts := by
  refine agreesOn_of_length (fun i hi a a' ha ha' => ?_) ht
  rcases List.mem_cons.mp (honly i hi) with hidx | hmem
  · cases hidx
    have hcount := length_add_count hknown honly ha ha' ht
    have hpos : 0 < ts.count (.param idx) := List.count_pos_iff.mpr hi
    exact (Nat.eq_of_mul_eq_mul_left hpos (Nat.add_left_cancel hcount)).symm
  · obtain ⟨y, hy, hy'⟩ := hknown i hmem
    rw [Except.ok.inj (ha.symm.trans hy), Except.ok.inj (ha'.symm.trans hy')]

/-! ## Cuts -/

/-- The display of a placeholder. -/
theorem texts_param {idx : UInt8} {param : ParamEntry} {a a' : Bytes}
    (hparam : intent.params.toList[idx.toNat]? = some param) (h : Texts intent p q [.param idx] a a') :
    ∃ raw raw', a = (param.paramType.valueOf raw).display ∧ a' = (param.paramType.valueOf raw').display := by
  have hdisplay {data x : Bytes} (hx : tokensText intent data [.param idx] = .ok x) :
      ∃ raw, x = (param.paramType.valueOf raw).display := by
    obtain ⟨d, b, hd, hb, rfl⟩ := tokensText_cons.mp hx
    cases hb
    obtain ⟨param', raw, hparam', -, rfl⟩ := paramText_eq_ok hd
    obtain rfl := Option.some.inj (hparam.symm.trans hparam')
    exact ⟨raw, List.append_nil _⟩
  obtain ⟨raw, hraw⟩ := hdisplay h.left
  obtain ⟨raw', hraw'⟩ := hdisplay h.right
  exact ⟨raw, raw', hraw, hraw'⟩

/-- The same text is cut at the same place. -/
theorem Cut.append_inj {a a' r r' : Bytes} (hcut : Cut intent p q known ts us)
    (hknown : AgreesOn intent p q known) (hts : Texts intent p q ts a a') (hus : Texts intent p q us r r')
    (h : a ++ r = a' ++ r') : a = a' ∧ r = r' := by
  cases hcut with
  | known honly =>
    rcases honly with honly | honly
    · obtain rfl := (hknown.of_onlyOf honly).text_eq hts
      exact ⟨rfl, List.append_cancel_left h⟩
    · obtain rfl := (hknown.of_onlyOf honly).text_eq hus
      exact ⟨List.append_cancel_right h, rfl⟩
  | length hlen => exact List.append_inj h (hlen a a' hts)
  | separator sep hloc =>
    obtain ⟨x, x', b, b', hx, hb, rfl, rfl⟩ := texts_append hus
    obtain rfl := Except.ok.inj ((tokensText_literals p sep).symm.trans hx.left)
    obtain rfl := Except.ok.inj ((tokensText_literals q sep).symm.trans hx.right)
    obtain ⟨rfl, rfl⟩ := (hloc a a' b b' hts hb).append_inj h
    exact ⟨rfl, rfl⟩
  | front hparam hstops =>
    obtain ⟨hr, hr'⟩ := hstops r r' hus
    obtain ⟨raw, raw', rfl, rfl⟩ := texts_param hparam hts
    have hdisplay := display_eq_of_front hr hr' h
    rw [hdisplay] at h ⊢
    exact ⟨rfl, List.append_cancel_left h⟩
  | back hparam hstops =>
    obtain ⟨ha, ha'⟩ := hstops a a' hts
    obtain ⟨raw, raw', rfl, rfl⟩ := texts_param hparam hus
    have hdisplay := display_eq_of_back ha ha' h
    rw [hdisplay] at h ⊢
    exact ⟨List.append_cancel_right h, rfl⟩

/-- The text of a readable template has one display for each placeholder. -/
theorem Readable.agrees {r : Bytes} (h : Readable intent p q known ts) (hknown : AgreesOn intent p q known)
    (ht : Texts intent p q ts r r) : AgreesOn intent p q ts := by
  induction h generalizing r with
  | single idx honly => exact agreesOn_of_single hknown honly ht
  | front hcut _ _ ihts ihus =>
    obtain ⟨a, a', b, b', hts, hus, rfl, heq⟩ := texts_append ht
    obtain ⟨rfl, rfl⟩ := hcut.append_inj hknown hts hus heq
    have hagree := ihts hknown hts
    exact agreesOn_append.mpr ⟨hagree, ihus (agreesOn_append.mpr ⟨hagree, hknown⟩) hus⟩
  | back hcut _ _ ihus ihts =>
    obtain ⟨a, a', b, b', hts, hus, rfl, heq⟩ := texts_append ht
    obtain ⟨rfl, rfl⟩ := hcut.append_inj hknown hts hus heq
    have hagree := ihus hknown hus
    exact agreesOn_append.mpr ⟨ihts (agreesOn_append.mpr ⟨hagree, hknown⟩) hts, hagree⟩

/-! ## Values and bytes -/

/-- A string parameter is its length byte and its text. -/
theorem string_raw {data raw : Bytes} {offset size : Nat}
    (hsize : paramByteSize .string data offset = .ok size)
    (hraw : getSlice data offset (offset + size) = some raw) :
    ∃ len text, raw = len :: text ∧ text.length = len.toNat := by
  simp only [paramByteSize, bind_eq_ok, okOr_eq_ok, Except.ok.injEq] at hsize
  obtain ⟨len, hlen, rfl⟩ := hsize
  obtain ⟨hlt, rfl⟩ := List.getElem?_eq_some_iff.mp hlen
  obtain ⟨-, hle, rfl⟩ := getSlice_eq_some.mp hraw
  rw [Nat.add_sub_cancel_left, List.drop_eq_getElem_cons hlt, Nat.add_comm 1, List.take_succ_cons]
  refine ⟨_, _, rfl, ?_⟩
  rw [List.length_take, List.length_drop]
  omega

/-- Only a string looks at the data for its size. -/
theorem paramByteSize_congr {t : ParamType} (ht : t ≠ .string) (data data' : Bytes) (o o' : Nat) :
    paramByteSize t data o = paramByteSize t data' o' := by
  cases t with
  | string => exact absurd rfl ht
  | _ => rfl

/-- Equal values of one parameter come from bytes that say the same. -/
theorem saysSame_of_value {param : ParamEntry} {idx : UInt8} {raw raw' : Bytes}
    (hparam : intent.params.toList[idx.toNat]? = some param)
    (hraw : intent.readParamBytes p idx = .ok raw) (hraw' : intent.readParamBytes q idx = .ok raw')
    (h : param.paramType.valueOf raw = param.paramType.valueOf raw') :
    SaysSame param.paramType raw raw' := by
  obtain ⟨offset, -, param₁, hparam₁, size, hsize, hslice⟩ :=
    MessageBuilder.readParamBytes_eq_ok.mp hraw
  obtain ⟨offset', -, param₂, hparam₂, size', hsize', hslice'⟩ :=
    MessageBuilder.readParamBytes_eq_ok.mp hraw'
  obtain rfl := Option.some.inj (hparam.symm.trans hparam₁)
  obtain rfl := Option.some.inj (hparam.symm.trans hparam₂)
  generalize param.paramType = t at h hsize hsize' ⊢
  by_cases ht : t = .string
  · subst ht
    obtain ⟨len, text, rfl, hlen⟩ := string_raw hsize hslice
    obtain ⟨len', text', rfl, hlen'⟩ := string_raw hsize' hslice'
    have htext : text = text' := Value.text.inj h
    subst htext
    exact .inl (by rw [UInt8.toNat_inj.mp (hlen.symm.trans hlen')])
  · have hlen : raw.length = raw'.length := by
      rw [paramByteSize_congr ht p q offset offset', hsize'] at hsize
      cases hsize
      rw [length_of_getSlice hslice, length_of_getSlice hslice']
      omega
    cases t with
    | string => exact absurd rfl ht
    | address => exact .inl (Value.address.inj h)
    | bool =>
      have hiff := decide_eq_decide.mp (Value.bool.inj h)
      exact .inr ⟨rfl, not_iff_not.mp hiff⟩
    | i64 =>
      cases hsize
      have h8 : raw.length = 8 := by
        rw [length_of_getSlice hslice]
        omega
      have h8' : raw'.length = 8 := hlen.symm.trans h8
      refine .inl (leNat_injOn hlen ?_)
      have hn : (Int64.ofNat (leNat raw)).toInt = (Int64.ofNat (leNat raw')).toInt := Value.number.inj h
      have hlt := leNat_lt raw
      have hlt' := leNat_lt raw'
      rw [h8] at hlt
      rw [h8'] at hlt'
      rw [toInt_ofNat_leNat h8.le, toInt_ofNat_leNat h8'.le] at hn
      split_ifs at hn <;> omega
    | u64 | u8 | u16 | u32 | u128 =>
      exact .inl (leNat_injOn hlen (Int.ofNat_inj.mp (Value.number.inj h)))

/-- Equal displays of one parameter come from bytes that say the same. -/
theorem saysSame_of_agrees {param : ParamEntry} {idx : UInt8}
    (hparam : intent.params.toList[idx.toNat]? = some param) (h : Agrees intent p q idx) :
    ∃ raw raw', intent.readParamBytes p idx = .ok raw ∧ intent.readParamBytes q idx = .ok raw' ∧
      SaysSame param.paramType raw raw' := by
  obtain ⟨a, ha, ha'⟩ := h
  obtain ⟨param₁, raw, hparam₁, hraw, rfl⟩ := paramText_eq_ok ha
  obtain ⟨param₂, raw', hparam₂, hraw', hdisplay⟩ := paramText_eq_ok ha'
  obtain rfl := Option.some.inj (hparam.symm.trans hparam₁)
  obtain rfl := Option.some.inj (hparam.symm.trans hparam₂)
  exact ⟨raw, raw', hraw, hraw', saysSame_of_value hparam hraw hraw' (display_injective hdisplay)⟩

end ClearMsig
