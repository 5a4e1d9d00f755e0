import ClearMsig.Foundation.Fields
import ClearMsig.Utils.Proofs.DateTextProofs
import ClearMsig.Utils.Proofs.MessageProofs
import ClearMsig.Utils.Timestamp

/-!
# Dates are right, and can be read back

No operation of `timestamp_to_parts` overflows, so that its wrapping arithmetic is the exact one. What
`format_timestamp` writes for a year of four digits is the civil time in digits.
-/

namespace ClearMsig

open Calendar WordInt

/-! ## Nothing overflows -/

namespace Checked

theorem daySecsOf_eq (t : Int64) : daySecsOf t = some (ClearMsig.daySecsOf t) := by
  have hmod : (t % 86400).toInt = t.toInt.tmod 86400 := toInt_mod rfl rfl
  have heq := tmod_eq t.toInt (y := 86400) (by decide)
  have hrange : -86400 < t.toInt.tmod 86400 ∧ t.toInt.tmod 86400 < 86400 := by
    rw [heq]
    split_ifs <;> omega
  have hadd : checkedAdd (t % 86400) 86400 = some (t % 86400 + 86400) :=
    checkedAdd_eq hmod (y := 86400) rfl (by omega) (by omega)
  have hrem (a : Int64) : checkedRem a 86400 = some (a % 86400) := checkedRem_eq (y := 86400) rfl (by decide)
  simp only [daySecsOf, hrem, hadd, Option.bind_eq_bind, Option.bind_some, ClearMsig.daySecsOf]

theorem daysOf_eq (t daySecs : Int64) : daysOf t daySecs = some (ClearMsig.daysOf t daySecs) := by
  have h := t.le_toInt
  have h' := t.toInt_lt
  have hval : (t / 86400).toInt = t.toInt.tdiv 86400 := toInt_div rfl rfl (by decide)
  have heq := tdiv_eq t.toInt (y := 86400) (by decide)
  have hrange : -2 ^ 62 < t.toInt.tdiv 86400 ∧ t.toInt.tdiv 86400 < 2 ^ 62 := by
    rw [heq]
    split_ifs <;> omega
  have hdiv : checkedDiv t 86400 = some (t / 86400) := checkedDiv_eq (y := 86400) rfl (by decide)
  have hsub : checkedSub (t / 86400) 1 = some (t / 86400 - 1) :=
    checkedSub_eq hval (y := 1) rfl (by omega) (by omega)
  simp only [daysOf, hdiv, hsub, Option.bind_eq_bind, Option.bind_some, ClearMsig.daysOf]
  split_ifs <;> rfl

/-- A division by a positive constant. -/
theorem div_eq (a b : Int64) (hb : 0 < b.toInt) : checkedDiv a b = some (a / b) :=
  checkedDiv_eq rfl hb

/-- The next operation succeeds. -/
theorem bind_of_eq {α β : Type} {o : Option α} {a : α} {f : α → Option β} {r : Option β} (h : o = some a)
    (hf : f a = r) : o >>= f = r := by
  rw [h]
  exact hf

/-! Each step of `civilFromDays` is followed by whatever uses its result. -/

section
variable {α : Type} {r : Option α}

/-- The era and the day in it. -/
theorem era_bind {days : Int64} (hlo : -2 ^ 60 ≤ days.toInt) (hhi : days.toInt ≤ 2 ^ 60)
    {f : Int64 → Int64 → Option α} {era : Int64}
    (hera : era = (if days ≥ 0 then days else days - 146096) / 146097)
    (hf : f era (days - era * 146097) = r) :
    (do
      let shifted ← (if days ≥ 0 then some days else checkedSub days 146096)
      let era ← checkedDiv shifted 146097
      let doe ← checkedSub days (← checkedMul era 146097)
      f era doe) = r := by
  have hval : era.toInt = days.toInt / 146097 := by
    rw [hera]
    exact era_toInt hlo hhi
  have hshift : (if days ≥ 0 then some days else checkedSub days 146096) =
      some (if days ≥ 0 then days else days - 146096) := by
    split_ifs
    · rfl
    · exact checkedSub_eq rfl (y := 146096) rfl (by omega) (by omega)
  have hmul : (era * 146097).toInt = days.toInt / 146097 * 146097 :=
    toInt_mul hval rfl (by omega) (by omega)
  refine bind_of_eq hshift (bind_of_eq (div_eq _ 146097 (by decide)) ?_)
  rw [← hera]
  refine bind_of_eq (checkedMul_eq hval (y := 146097) rfl (by omega) (by omega)) ?_
  exact bind_of_eq (checkedSub_eq rfl hmul (by omega) (by omega)) hf

/-- The year of the era. -/
theorem yoe_bind {doe : Int64} {e : Int} (hdoe : doe.toInt = e) (h0 : 0 ≤ e) (h1 : e < 146097)
    {f : Int64 → Option α} (hf : f ((doe - doe / 1460 + doe / 36524 - doe / 146096) / 365) = r) :
    (do
      let yoe ← checkedSub doe (← checkedDiv doe 1460)
      let yoe ← checkedAdd yoe (← checkedDiv doe 36524)
      let yoe ← checkedSub yoe (← checkedDiv doe 146096)
      let yoe ← checkedDiv yoe 365
      f yoe) = r := by
  have hd1 : (doe / 1460).toInt = e / 1460 := toInt_div_of_nonneg hdoe rfl h0 (by decide)
  have hd2 : (doe / 36524).toInt = e / 36524 := toInt_div_of_nonneg hdoe rfl h0 (by decide)
  have hd3 : (doe / 146096).toInt = e / 146096 := toInt_div_of_nonneg hdoe rfl h0 (by decide)
  have hs1 := toInt_sub hdoe hd1 (by omega) (by omega)
  have hs2 := toInt_add hs1 hd2 (by omega) (by omega)
  refine bind_of_eq (div_eq _ 1460 (by decide)) (bind_of_eq (checkedSub_eq hdoe hd1 (by omega) (by omega)) ?_)
  refine bind_of_eq (div_eq _ 36524 (by decide)) (bind_of_eq (checkedAdd_eq hs1 hd2 (by omega) (by omega)) ?_)
  refine bind_of_eq (div_eq _ 146096 (by decide)) (bind_of_eq (checkedSub_eq hs2 hd3 (by omega) (by omega)) ?_)
  exact bind_of_eq (div_eq _ 365 (by decide)) hf

/-- The day of the year, counted from March. -/
theorem doy_bind {doe yoe : Int64} {e q : Int} (hdoe : doe.toInt = e) (hyoe : yoe.toInt = q)
    (h0 : 0 ≤ e) (h1 : e < 146097) (hq0 : 0 ≤ q) (hq1 : q ≤ 399) {f : Int64 → Option α}
    (hf : f (doe - (365 * yoe + yoe / 4 - yoe / 100)) = r) :
    (do
      let elapsed ← checkedAdd (← checkedMul 365 yoe) (← checkedDiv yoe 4)
      let elapsed ← checkedSub elapsed (← checkedDiv yoe 100)
      let doy ← checkedSub doe elapsed
      f doy) = r := by
  have hm : (365 * yoe).toInt = 365 * q := toInt_mul rfl hyoe (by omega) (by omega)
  have hd1 : (yoe / 4).toInt = q / 4 := toInt_div_of_nonneg hyoe rfl hq0 (by decide)
  have hd2 : (yoe / 100).toInt = q / 100 := toInt_div_of_nonneg hyoe rfl hq0 (by decide)
  have hs1 := toInt_add hm hd1 (by omega) (by omega)
  have hs2 := toInt_sub hs1 hd2 (by omega) (by omega)
  refine bind_of_eq (checkedMul_eq (x := 365) rfl hyoe (by omega) (by omega)) ?_
  refine bind_of_eq (div_eq _ 4 (by decide)) (bind_of_eq (checkedAdd_eq hm hd1 (by omega) (by omega)) ?_)
  refine bind_of_eq (div_eq _ 100 (by decide)) (bind_of_eq (checkedSub_eq hs1 hd2 (by omega) (by omega)) ?_)
  exact bind_of_eq (checkedSub_eq hdoe hs2 (by omega) (by omega)) hf

/-- The month, counted from March. -/
theorem mp_bind {doy : Int64} {n : Int} (hdoy : doy.toInt = n) (h0 : 0 ≤ n) (h1 : n ≤ 365)
    {f : Int64 → Option α} (hf : f ((5 * doy + 2) / 153) = r) :
    (do
      let mp ← checkedDiv (← checkedAdd (← checkedMul 5 doy) 2) 153
      f mp) = r := by
  have hm : (5 * doy).toInt = 5 * n := toInt_mul rfl hdoy (by omega) (by omega)
  refine bind_of_eq (checkedMul_eq (x := 5) rfl hdoy (by omega) (by omega)) ?_
  refine bind_of_eq (checkedAdd_eq hm (y := 2) rfl (by omega) (by omega)) ?_
  exact bind_of_eq (div_eq _ 153 (by decide)) hf

/-- The day of the month. -/
theorem day_bind {doy mp : Int64} {n k : Int} (hdoy : doy.toInt = n) (hmp : mp.toInt = k)
    (h0 : 0 ≤ n) (h1 : n ≤ 365) (hk0 : 0 ≤ k) (hk1 : k ≤ 11) {f : Int64 → Option α}
    (hf : f (doy - (153 * mp + 2) / 5 + 1) = r) :
    (do
      let d ← checkedSub doy (← checkedDiv (← checkedAdd (← checkedMul 153 mp) 2) 5)
      let d ← checkedAdd d 1
      f d) = r := by
  have hm : (153 * mp).toInt = 153 * k := toInt_mul rfl hmp (by omega) (by omega)
  have hs1 : (153 * mp + 2).toInt = 153 * k + 2 := toInt_add hm rfl (by omega) (by omega)
  have hd : ((153 * mp + 2) / 5).toInt = (153 * k + 2) / 5 :=
    toInt_div_of_nonneg hs1 rfl (by omega) (by decide)
  have hs2 := toInt_sub hdoy hd (by omega) (by omega)
  refine bind_of_eq (checkedMul_eq (x := 153) rfl hmp (by omega) (by omega)) ?_
  refine bind_of_eq (checkedAdd_eq hm (y := 2) rfl (by omega) (by omega)) ?_
  refine bind_of_eq (div_eq _ 5 (by decide)) (bind_of_eq (checkedSub_eq hdoy hd (by omega) (by omega)) ?_)
  exact bind_of_eq (checkedAdd_eq hs2 (y := 1) rfl (by omega) (by omega)) hf

end

theorem month_eq {mp : Int64} {k : Int} (hmp : mp.toInt = k) (hk0 : 0 ≤ k) (hk1 : k ≤ 11) :
    (if mp < 10 then checkedAdd mp 3 else checkedSub mp 9) = some (if mp < 10 then mp + 3 else mp - 9) := by
  split_ifs
  · exact checkedAdd_eq hmp (y := 3) rfl (by omega) (by omega)
  · exact checkedSub_eq hmp (y := 9) rfl (by omega) (by omega)

theorem year_eq {y : Int64} {v : Int} (m : Int64) (hy : y.toInt = v) (hlo : -2 ^ 60 ≤ v)
    (hhi : v ≤ 2 ^ 60) :
    (if m ≤ 2 then checkedAdd y 1 else some y) = some (if m ≤ 2 then y + 1 else y) := by
  split_ifs
  · exact checkedAdd_eq hy (y := 1) rfl (by omega) (by omega)
  · rfl

theorem civilFromDays_eq {days : Int64} (hlo : -2 ^ 60 ≤ days.toInt) (hhi : days.toInt ≤ 2 ^ 60) :
    civilFromDays days = some (ClearMsig.civilFromDays days) := by
  have hera := era_toInt hlo hhi
  simp only [ClearMsig.civilFromDays]
  rw [civilFromDays]
  refine era_bind hlo hhi rfl ?_
  generalize (if days ≥ 0 then days else days - 146096) / 146097 = era at hera ⊢
  obtain ⟨c, hc⟩ : ∃ c, days.toInt / 146097 = c := ⟨_, rfl⟩
  rw [hc] at hera
  have hmul : (era * 146097).toInt = c * 146097 := toInt_mul hera rfl (by omega) (by omega)
  have hdoe : (days - era * 146097).toInt = days.toInt - c * 146097 :=
    toInt_sub rfl hmul (by omega) (by omega)
  generalize days - era * 146097 = doe at hdoe ⊢
  obtain ⟨e, he⟩ : ∃ e, days.toInt - c * 146097 = e := ⟨_, rfl⟩
  rw [he] at hdoe
  have he0 : 0 ≤ e := by omega
  have he1 : e < 146097 := by omega
  -- the year of the era, and the year
  have hyoe := yoe_toInt hdoe he0 he1
  obtain ⟨hq0, hq1, hdoy0, hdoy1, -⟩ := yearOfEra_spec he0 he1 rfl
  refine yoe_bind hdoe he0 he1 ?_
  generalize (doe - doe / 1460 + doe / 36524 - doe / 146096) / 365 = yoe at hyoe ⊢
  generalize (e - e / 1460 + e / 36524 - e / 146096) / 365 = q at *
  have hm4 : (era * 400).toInt = c * 400 := toInt_mul hera rfl (by omega) (by omega)
  have hy := toInt_add hyoe hm4 (by omega) (by omega)
  refine bind_of_eq (checkedMul_eq hera (y := 400) rfl (by omega) (by omega))
    (bind_of_eq (checkedAdd_eq hyoe hm4 (by omega) (by omega)) ?_)
  -- the day of the year
  have hdoy := doy_toInt hdoe hyoe he0 he1 hq0 hq1
  refine doy_bind hdoe hyoe he0 he1 hq0 hq1 ?_
  generalize doe - (365 * yoe + yoe / 4 - yoe / 100) = doy at hdoy ⊢
  -- month and day
  have hmp := mp_toInt hdoy hdoy0 hdoy1
  refine mp_bind hdoy hdoy0 hdoy1 (day_bind hdoy hmp hdoy0 hdoy1 (by omega) (by omega) ?_)
  refine bind_of_eq (month_eq hmp (by omega) (by omega)) ?_
  exact bind_of_eq (year_eq _ hy (by omega) (by omega)) rfl

/-- The checked computation succeeds on every timestamp, with the parts of the wrapping one. -/
theorem timestampToParts_eq (t : Int64) : timestampToParts t = some (ClearMsig.timestampToParts t) := by
  have hlo := t.le_toInt
  have hhi := t.toInt_lt
  have hdays : (ClearMsig.daysOf t (ClearMsig.daySecsOf t) + 719468).toInt = t.toInt / 86400 + 719468 :=
    toInt_add (daysOf_toInt t) rfl (by omega) (by omega)
  refine bind_of_eq (daySecsOf_eq t) (bind_of_eq (daysOf_eq t _) ?_)
  refine bind_of_eq (div_eq _ 3600 (by decide)) (bind_of_eq (checkedRem_eq (y := 3600) rfl (by decide)) ?_)
  refine bind_of_eq (div_eq _ 60 (by decide)) (bind_of_eq (checkedRem_eq (y := 60) rfl (by decide)) ?_)
  refine bind_of_eq (checkedAdd_eq (daysOf_toInt t) (y := 719468) rfl (by omega) (by omega)) ?_
  exact bind_of_eq (civilFromDays_eq (by omega) (by omega)) rfl

end Checked

/-! ## Reading a date back -/

/-- The date of a year of four digits is the civil time in digits. -/
theorem dateText_eq_civilText {p : Parts} (h : p.civil.Valid) (h0 : 0 ≤ p.year.toInt)
    (h1 : p.year.toInt ≤ 9999) : dateText p = civilText p.civil := by
  rw [dateText_eq_padded h, ← paddedText_four h0 h1]
  rfl

/-- The fields of a civil time in digits. -/
theorem civilText_fields (c : Civil) : civilText c = [Decimal.paddedText 4 c.year, ascii "-",
    Decimal.paddedText 2 c.month, ascii "-", Decimal.paddedText 2 c.day, ascii " ",
    Decimal.paddedText 2 c.hour, ascii ":", Decimal.paddedText 2 c.min, ascii ":",
    Decimal.paddedText 2 c.sec].flatten := by
  simp [civilText]

/-- A field that lies at an offset is found there. -/
theorem natVal_field {text : Bytes} {off width : Nat} {n : Int} (hw : 0 < width) (h0 : 0 ≤ n)
    (h1 : n < 10 ^ width) (h : Decimal.paddedText width n <+: text.drop off) :
    (Decimal.natVal ((text.drop off).take width) : Int) = n := by
  obtain ⟨k, rfl⟩ := Int.eq_ofNat_of_zero_le h0
  have hlen := Decimal.paddedText_length hw (n := k) (by exact_mod_cast h1)
  rw [List.prefix_iff_eq_take, hlen] at h
  rw [← h, Decimal.natVal_paddedText]

/-- The text of a valid civil time with a year of four digits shows it. -/
theorem readCivil_civilText {c : Civil} (h : c.Valid) (h0 : 0 ≤ c.year) (h1 : c.year ≤ 9999) :
    readCivil (civilText c) = c := by
  have hpad {width : Nat} {n : Int} (hw : 0 < width) (hn : 0 ≤ n) (hlt : n < 10 ^ width) :
      (Decimal.paddedText width n).length = width := by
    obtain ⟨k, rfl⟩ := Int.eq_ofNat_of_zero_le hn
    exact Decimal.paddedText_length hw (by exact_mod_cast hlt)
  have hy : c.year < 10 ^ 4 := by omega
  have hm : c.month < 10 ^ 2 := h.month_small.2
  have hd : c.day < 10 ^ 2 := h.day_small.2
  have hh : c.hour < 10 ^ 2 := h.hour_small
  have hmin : c.min < 10 ^ 2 := h.min_small
  have hs : c.sec < 10 ^ 2 := h.sec_small
  generalize hfs : [Decimal.paddedText 4 c.year, ascii "-", Decimal.paddedText 2 c.month, ascii "-",
    Decimal.paddedText 2 c.day, ascii " ", Decimal.paddedText 2 c.hour, ascii ":",
    Decimal.paddedText 2 c.min, ascii ":", Decimal.paddedText 2 c.sec] = fs
  have hlens : fs.map List.length = [4, 1, 2, 1, 2, 1, 2, 1, 2, 1, 2] := by
    rw [← hfs]
    simp only [List.map_cons, List.map_nil, hpad (by decide) h0 hy, hpad (by decide) h.month_small.1 hm,
      hpad (by decide) h.day_small.1 hd, hpad (by decide) h.hour_nonneg hh,
      hpad (by decide) h.min_nonneg hmin, hpad (by decide) h.sec_nonneg hs]
    rfl
  have htext : civilText c = fs.flatten := by rw [civilText_fields, hfs]
  have hfield {i off : Nat} {f : Bytes} (hi : fs[i]? = some f)
      (hoff : (([4, 1, 2, 1, 2, 1, 2, 1, 2, 1, 2] : List Nat).take i).sum = off) :
      f <+: (civilText c).drop off := by
    have hpre := Fields.prefix_drop_start (s := civilText c) (htext ▸ List.prefix_rfl) hi
    rwa [Fields.start_eq_sum, hlens, hoff] at hpre
  subst hfs
  have hyear : (Decimal.natVal (((civilText c).drop 0).take 4) : Int) = c.year :=
    natVal_field (by decide) h0 hy (hfield (i := 0) rfl rfl)
  have hmonth : (Decimal.natVal (((civilText c).drop 5).take 2) : Int) = c.month :=
    natVal_field (by decide) h.month_small.1 hm (hfield (i := 2) rfl rfl)
  have hday : (Decimal.natVal (((civilText c).drop 8).take 2) : Int) = c.day :=
    natVal_field (by decide) h.day_small.1 hd (hfield (i := 4) rfl rfl)
  have hhour : (Decimal.natVal (((civilText c).drop 11).take 2) : Int) = c.hour :=
    natVal_field (by decide) h.hour_nonneg hh (hfield (i := 6) rfl rfl)
  have hminute : (Decimal.natVal (((civilText c).drop 14).take 2) : Int) = c.min :=
    natVal_field (by decide) h.min_nonneg hmin (hfield (i := 8) rfl rfl)
  have hsec : (Decimal.natVal (((civilText c).drop 17).take 2) : Int) = c.sec :=
    natVal_field (by decide) h.sec_nonneg hs (hfield (i := 10) rfl rfl)
  rw [List.drop_zero] at hyear
  rw [readCivil, hyear, hmonth, hday, hhour, hminute, hsec]

/-- The text is ASCII. -/
theorem civilText_ascii {c : Civil} (h : c.Valid) (h0 : 0 ≤ c.year) : ∀ b ∈ civilText c, b < 128 := by
  have hpad {width : Nat} {n : Int} (hn : 0 ≤ n) : ∀ b ∈ Decimal.paddedText width n, b < 128 := by
    obtain ⟨k, rfl⟩ := Int.eq_ofNat_of_zero_le hn
    intro b hb
    have hdigit := Decimal.isDigit_iff.mp (Decimal.paddedText_isDigit width k b hb)
    rw [UInt8.lt_iff_toNat_lt]
    exact Nat.lt_of_le_of_lt hdigit.2 (by decide)
  have hdash : ∀ b ∈ ascii "-", b < 128 := by simp [ascii]
  have hspace : ∀ b ∈ ascii " ", b < 128 := by simp [ascii]
  have hcolon : ∀ b ∈ ascii ":", b < 128 := by simp [ascii]
  simp only [civilText_fields, List.forall_mem_flatten, List.forall_mem_cons]
  exact ⟨hpad h0, hdash, hpad h.month_small.1, hdash, hpad h.day_small.1, hspace, hpad h.hour_nonneg,
    hcolon, hpad h.min_nonneg, hcolon, hpad h.sec_nonneg, List.forall_mem_nil _⟩

/-- The date of a valid civil time with a year of four digits. -/
theorem dateText_spec {p : Parts} (h : p.civil.Valid) (h0 : 0 ≤ p.year.toInt) (h1 : p.year.toInt ≤ 9999) :
    dateText p = civilText p.civil ∧ (∀ b ∈ dateText p, b < 128) ∧ readCivil (dateText p) = p.civil := by
  have htext := dateText_eq_civilText h h0 h1
  refine ⟨htext, ?_, ?_⟩
  · rw [htext]
    exact civilText_ascii h h0
  · rw [htext]
    exact readCivil_civilText h h0 h1

/-- Calendar correctness. No operation of `timestamp_to_parts` overflows, its parts are a civil time of the
proleptic Gregorian calendar, and that time is the timestamp. For a year of four digits `format_timestamp`
writes the 19 ASCII characters `YYYY-MM-DD HH:MM:SS`, which give the timestamp back. -/
theorem timestampToParts_correct (t : Int64) :
    Checked.timestampToParts t = some (timestampToParts t) ∧
    (timestampToParts t).civil.Valid ∧
    (timestampToParts t).civil.seconds = t.toInt ∧
    (0 ≤ (timestampToParts t).year.toInt → (timestampToParts t).year.toInt ≤ 9999 →
      ∀ buf : Bytes, 19 ≤ buf.length → ∃ text,
        formatTimestamp t buf = some (19, text ++ buf.drop 19) ∧ text.length = 19 ∧
        (∀ b ∈ text, b < 128) ∧ text = civilText (timestampToParts t).civil ∧
        (readCivil text).seconds = t.toInt) := by
  obtain ⟨hvalid, hseconds⟩ := timestampToParts_spec t
  refine ⟨Checked.timestampToParts_eq t, hvalid, hseconds, fun h0 h1 buf hbuf => ?_⟩
  obtain ⟨htext, hascii, hread⟩ := dateText_spec hvalid h0 h1
  refine ⟨_, formatTimestamp_eq t hbuf, dateText_length _, hascii, htext, ?_⟩
  rw [hread, hseconds]

end ClearMsig
