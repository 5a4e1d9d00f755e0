import ClearMsig.Foundation.Calendar
import ClearMsig.Foundation.WordInt
import ClearMsig.Utils.Datetime

/-!
# `timestamp_to_parts` computes the civil time

The era arithmetic is exact on every day number an `i64` timestamp can have: the parts are a valid
civil time whose seconds are the timestamp.
-/

namespace ClearMsig

open Calendar WordInt

/-! ## Days and seconds -/

theorem daySecsOf_toInt (t : Int64) : (daySecsOf t).toInt = t.toInt % 86400 := by
  have hmod : (t % 86400).toInt = t.toInt.tmod 86400 := toInt_mod rfl rfl
  have heq := tmod_eq t.toInt (y := 86400) (by decide)
  have hrange : -86400 < t.toInt.tmod 86400 ∧ t.toInt.tmod 86400 < 86400 := by
    rw [heq]
    split_ifs <;> omega
  have hadd : (t % 86400 + 86400).toInt = t.toInt.tmod 86400 + 86400 :=
    toInt_add hmod rfl (by omega) (by omega)
  rw [daySecsOf, toInt_mod_of_nonneg hadd (y := 86400) rfl (by omega), heq]
  split_ifs <;> omega

/-- The correction for negative timestamps turns truncation into rounding down. -/
theorem daysOf_toInt (t : Int64) : (daysOf t (daySecsOf t)).toInt = t.toInt / 86400 := by
  have h := t.le_toInt
  have h' := t.toInt_lt
  have hdiv : (t / 86400).toInt = t.toInt.tdiv 86400 := toInt_div rfl rfl (by decide)
  have heq := tdiv_eq t.toInt (y := 86400) (by decide)
  have hrange : -2 ^ 62 < t.toInt.tdiv 86400 ∧ t.toInt.tdiv 86400 < 2 ^ 62 := by
    rw [heq]
    split_ifs <;> omega
  have hsub : (t / 86400 - 1).toInt = t.toInt.tdiv 86400 - 1 :=
    toInt_sub hdiv rfl (by omega) (by omega)
  have hzero : (0 : Int64).toInt = 0 := rfl
  simp only [daysOf, Int64.lt_iff_toInt_lt, gt_iff_lt, daySecsOf_toInt, hzero]
  rw [toInt_ite hsub hdiv, heq]
  split_ifs <;> omega

/-! ## Year of the era -/

/-- The year of a 400-year era and the day of that year, counted from March. -/
theorem yearOfEra_spec {doe yoe : Int} (h0 : 0 ≤ doe) (h1 : doe < 146097)
    (hy : yoe = (doe - doe / 1460 + doe / 36524 - doe / 146096) / 365) :
    0 ≤ yoe ∧ yoe ≤ 399 ∧ 0 ≤ doe - (365 * yoe + yoe / 4 - yoe / 100) ∧
      doe - (365 * yoe + yoe / 4 - yoe / 100) ≤ 365 ∧
      (doe - (365 * yoe + yoe / 4 - yoe / 100) = 365 →
        (yoe + 1) % 4 = 0 ∧ ((yoe + 1) % 100 ≠ 0 ∨ yoe = 399)) := by
  -- `k` is the century, `c` the number of completed 1460-day spans
  obtain ⟨k, hk⟩ : ∃ k, k = doe / 36524 - doe / 146096 := ⟨_, rfl⟩
  obtain ⟨c, hc⟩ : ∃ c, c = doe / 1460 := ⟨_, rfl⟩
  have hy' : yoe = (doe - c + k) / 365 := by
    rw [hy, hk, hc]
    congr 1
    omega
  have hk0 : 0 ≤ k := by omega
  have hk3 : k ≤ 3 := by omega
  have hlo : 36524 * k ≤ doe := by omega
  have hhi : doe < 36524 * k + 36524 ∨ doe = 146096 ∧ k = 3 := by omega
  clear hy hk
  have hcentury : yoe / 100 = k := by interval_cases k <;> omega
  have hquad : yoe / 4 = c ∨ yoe / 4 = c - 1 := by interval_cases k <;> omega
  rw [hcentury]
  refine ⟨by omega, by omega, by omega, by omega, fun h365 => ?_⟩
  have hyc : yoe + 1 = 4 * c := by omega
  refine ⟨by omega, ?_⟩
  interval_cases k <;> omega

/-! ## Month and day -/

/-- The month and day of a day of the year counted from March, in the year `y` that began in March
and is numbered by its January. -/
theorem monthDay_spec {y doy mp d m year : Int} (h0 : 0 ≤ doy) (h1 : doy ≤ 365)
    (hleap : doy = 365 → IsLeap (y + 1)) (hmp : mp = (5 * doy + 2) / 153)
    (hd : d = doy - (153 * mp + 2) / 5 + 1) (hm : m = if mp < 10 then mp + 3 else mp - 9)
    (hyear : year = if m ≤ 2 then y + 1 else y) :
    1 ≤ m ∧ m ≤ 12 ∧ 1 ≤ d ∧ d ≤ monthLength year m ∧
      daysBeforeYear year + daysBeforeMonth year m + (d - 1) =
        365 * y + y / 4 - y / 100 + y / 400 + doy - 306 := by
  have hmp0 : 0 ≤ mp := by omega
  have hmp11 : mp ≤ 11 := by omega
  have hfeb : daysBeforeYear (y + 1) = 365 * y + y / 4 - y / 100 + y / 400 := by
    unfold daysBeforeYear
    simp
  have hjan := daysBeforeYear_succ y
  have hlast : doy ≤ if IsLeap (y + 1) then 365 else 364 := by
    split_ifs with hl
    · exact h1
    · have hne : doy ≠ 365 := fun h => hl (hleap h)
      omega
  clear hleap
  by_cases hmar : mp < 10
  · -- March to December belong to the year `y`
    clear hlast
    by_cases hl : IsLeap y <;> simp only [hl, if_true, if_false] at hjan <;>
      interval_cases mp <;> simp at hm <;> subst hm <;> simp at hyear <;> subst hyear <;>
      simp [monthLength, daysBeforeMonth, hl] <;> omega
  · clear hjan
    by_cases hl : IsLeap (y + 1) <;> simp only [hl, if_true, if_false] at hlast <;>
      interval_cases mp <;> simp at hm <;> subst hm <;> simp at hyear <;> subst hyear <;>
      simp [monthLength, daysBeforeMonth, hl] <;> omega

/-! ## The steps of `civilFromDays` do not overflow -/

theorem era_toInt {days : Int64} (hlo : -2 ^ 60 ≤ days.toInt) (hhi : days.toInt ≤ 2 ^ 60) :
    ((if days ≥ 0 then days else days - 146096) / 146097).toInt = days.toInt / 146097 := by
  have hsub : (days - 146096).toInt = days.toInt - 146096 :=
    toInt_sub rfl rfl (by omega) (by omega)
  have hzero : (0 : Int64).toInt = 0 := rfl
  rw [toInt_div (toInt_ite rfl hsub) (y := 146097) rfl (by decide), tdiv_eq _ (by decide)]
  simp only [ge_iff_le, Int64.le_iff_toInt_le, hzero]
  split_ifs <;> omega

theorem yoe_toInt {doe : Int64} {e : Int} (hdoe : doe.toInt = e) (h0 : 0 ≤ e) (h1 : e < 146097) :
    ((doe - doe / 1460 + doe / 36524 - doe / 146096) / 365).toInt =
      (e - e / 1460 + e / 36524 - e / 146096) / 365 := by
  have hd1 : (doe / 1460).toInt = e / 1460 := toInt_div_of_nonneg hdoe rfl h0 (by decide)
  have hd2 : (doe / 36524).toInt = e / 36524 := toInt_div_of_nonneg hdoe rfl h0 (by decide)
  have hd3 : (doe / 146096).toInt = e / 146096 := toInt_div_of_nonneg hdoe rfl h0 (by decide)
  have hs1 := toInt_sub hdoe hd1 (by omega) (by omega)
  have hs2 := toInt_add hs1 hd2 (by omega) (by omega)
  have hs3 := toInt_sub hs2 hd3 (by omega) (by omega)
  exact toInt_div_of_nonneg hs3 rfl (by omega) (by decide)

theorem doy_toInt {doe yoe : Int64} {e q : Int} (hdoe : doe.toInt = e) (hyoe : yoe.toInt = q)
    (h0 : 0 ≤ e) (h1 : e < 146097) (hq0 : 0 ≤ q) (hq1 : q ≤ 399) :
    (doe - (365 * yoe + yoe / 4 - yoe / 100)).toInt = e - (365 * q + q / 4 - q / 100) := by
  have hm : (365 * yoe).toInt = 365 * q := toInt_mul rfl hyoe (by omega) (by omega)
  have hd1 : (yoe / 4).toInt = q / 4 := toInt_div_of_nonneg hyoe rfl hq0 (by decide)
  have hd2 : (yoe / 100).toInt = q / 100 := toInt_div_of_nonneg hyoe rfl hq0 (by decide)
  have hs1 := toInt_add hm hd1 (by omega) (by omega)
  have hs2 := toInt_sub hs1 hd2 (by omega) (by omega)
  exact toInt_sub hdoe hs2 (by omega) (by omega)

theorem mp_toInt {doy : Int64} {n : Int} (hdoy : doy.toInt = n) (h0 : 0 ≤ n) (h1 : n ≤ 365) :
    ((5 * doy + 2) / 153).toInt = (5 * n + 2) / 153 := by
  have hm : (5 * doy).toInt = 5 * n := toInt_mul rfl hdoy (by omega) (by omega)
  have hs : (5 * doy + 2).toInt = 5 * n + 2 := toInt_add hm rfl (by omega) (by omega)
  exact toInt_div_of_nonneg hs rfl (by omega) (by decide)

theorem day_toInt {doy mp : Int64} {n k : Int} (hdoy : doy.toInt = n) (hmp : mp.toInt = k)
    (h0 : 0 ≤ n) (h1 : n ≤ 365) (hk0 : 0 ≤ k) (hk1 : k ≤ 11) :
    (doy - (153 * mp + 2) / 5 + 1).toInt = n - (153 * k + 2) / 5 + 1 := by
  have hm : (153 * mp).toInt = 153 * k := toInt_mul rfl hmp (by omega) (by omega)
  have hs1 : (153 * mp + 2).toInt = 153 * k + 2 := toInt_add hm rfl (by omega) (by omega)
  have hd : ((153 * mp + 2) / 5).toInt = (153 * k + 2) / 5 :=
    toInt_div_of_nonneg hs1 rfl (by omega) (by decide)
  have hs2 := toInt_sub hdoy hd (by omega) (by omega)
  exact toInt_add hs2 rfl (by omega) (by omega)

theorem month_toInt {mp : Int64} {k : Int} (hmp : mp.toInt = k) (hk0 : 0 ≤ k) (hk1 : k ≤ 11) :
    (if mp < 10 then mp + 3 else mp - 9).toInt = if k < 10 then k + 3 else k - 9 := by
  have ha : (mp + 3).toInt = k + 3 := toInt_add hmp rfl (by omega) (by omega)
  have hs : (mp - 9).toInt = k - 9 := toInt_sub hmp rfl (by omega) (by omega)
  have hten : (10 : Int64).toInt = 10 := rfl
  rw [toInt_ite ha hs]
  simp only [Int64.lt_iff_toInt_lt, hmp, hten]

theorem year_toInt {y m : Int64} {v : Int} (hy : y.toInt = v) (hlo : -2 ^ 60 ≤ v)
    (hhi : v ≤ 2 ^ 60) :
    (if m ≤ 2 then y + 1 else y).toInt = if m.toInt ≤ 2 then v + 1 else v := by
  have ha : (y + 1).toInt = v + 1 := toInt_add hy rfl (by omega) (by omega)
  have htwo : (2 : Int64).toInt = 2 := rfl
  rw [toInt_ite ha hy]
  simp only [Int64.le_iff_toInt_le, htwo]

/-- The civil date of a day number counted from 0000-03-01. -/
theorem civilFromDays_spec {days : Int64} (hlo : -2 ^ 60 ≤ days.toInt) (hhi : days.toInt ≤ 2 ^ 60) :
    ∃ y m d : Int, (civilFromDays days).1.toInt = y ∧ (civilFromDays days).2.1.toInt = m ∧
      (civilFromDays days).2.2.toInt = d ∧ 1 ≤ m ∧ m ≤ 12 ∧ 1 ≤ d ∧ d ≤ monthLength y m ∧
      dayNumber y m d = days.toInt - 719468 := by
  obtain ⟨c, hc⟩ : ∃ c, days.toInt / 146097 = c := ⟨_, rfl⟩
  have hera := era_toInt hlo hhi
  rw [hc] at hera
  simp only [civilFromDays]
  generalize (if days ≥ 0 then days else days - 146096) / 146097 = era at hera ⊢
  have hmul : (era * 146097).toInt = c * 146097 := toInt_mul hera rfl (by omega) (by omega)
  have hdoe : (days - era * 146097).toInt = days.toInt - c * 146097 :=
    toInt_sub rfl hmul (by omega) (by omega)
  obtain ⟨e, he⟩ : ∃ e, days.toInt - c * 146097 = e := ⟨_, rfl⟩
  rw [he] at hdoe
  have he0 : 0 ≤ e := by omega
  have he1 : e < 146097 := by omega
  generalize days - era * 146097 = doe at hdoe ⊢
  have hyoe := yoe_toInt hdoe he0 he1
  obtain ⟨q, hq⟩ : ∃ q, q = (e - e / 1460 + e / 36524 - e / 146096) / 365 := ⟨_, rfl⟩
  obtain ⟨hq0, hq1, hdoy0, hdoy1, hleapDay⟩ := yearOfEra_spec he0 he1 hq
  rw [← hq] at hyoe
  clear hq
  generalize (doe - doe / 1460 + doe / 36524 - doe / 146096) / 365 = yoe at hyoe ⊢
  have hy : (yoe + era * 400).toInt = q + c * 400 := by
    have hm : (era * 400).toInt = c * 400 := toInt_mul hera rfl (by omega) (by omega)
    exact toInt_add hyoe hm (by omega) (by omega)
  have hdoy := doy_toInt hdoe hyoe he0 he1 hq0 hq1
  obtain ⟨n, hn⟩ : ∃ n, e - (365 * q + q / 4 - q / 100) = n := ⟨_, rfl⟩
  rw [hn] at hdoy hdoy0 hdoy1 hleapDay
  generalize doe - (365 * yoe + yoe / 4 - yoe / 100) = doy at hdoy ⊢
  generalize yoe + era * 400 = y at hy ⊢
  have hmp := mp_toInt hdoy hdoy0 hdoy1
  obtain ⟨k, hk⟩ : ∃ k, k = (5 * n + 2) / 153 := ⟨_, rfl⟩
  rw [← hk] at hmp
  generalize (5 * doy + 2) / 153 = mp at hmp ⊢
  have hd := day_toInt hdoy hmp hdoy0 hdoy1 (by omega) (by omega)
  have hm := month_toInt hmp (by omega) (by omega)
  generalize (if mp < 10 then mp + 3 else mp - 9) = m at hm ⊢
  have hyear := year_toInt (m := m) hy (by omega) (by omega)
  have hleap : n = 365 → IsLeap (q + c * 400 + 1) := by
    intro h365
    obtain ⟨h4, h100⟩ := hleapDay h365
    unfold IsLeap
    omega
  obtain ⟨hm1, hm12, hd1, hdl, hsum⟩ := monthDay_spec hdoy0 hdoy1 hleap hk hd hm hyear
  refine ⟨_, _, _, rfl, rfl, rfl, hm1, hm12, hd1, hdl, ?_⟩
  have h4 : (q + c * 400) / 4 = q / 4 + c * 100 := by omega
  have h100 : (q + c * 400) / 100 = q / 100 + c * 4 := by omega
  have h400 : (q + c * 400) / 400 = c := by omega
  rw [h4, h100, h400] at hsum
  unfold dayNumber
  rw [hsum]
  omega

/-- The civil time the parts stand for. -/
def Parts.civil (p : Parts) : Civil where
  year := p.year.toInt
  month := p.month.toInt
  day := p.day.toInt
  hour := p.hour.toInt
  min := p.min.toInt
  sec := p.sec.toInt

/-- `timestamp_to_parts` gives the civil time of its argument. -/
theorem timestampToParts_spec (t : Int64) :
    (timestampToParts t).civil.Valid ∧ (timestampToParts t).civil.seconds = t.toInt := by
  have hlo := t.le_toInt
  have hhi := t.toInt_lt
  have hsecs := daySecsOf_toInt t
  have hdays : (daysOf t (daySecsOf t) + 719468).toInt = t.toInt / 86400 + 719468 :=
    toInt_add (daysOf_toInt t) rfl (by omega) (by omega)
  simp only [timestampToParts]
  generalize daysOf t (daySecsOf t) + 719468 = days at hdays ⊢
  generalize daySecsOf t = daySecs at hsecs ⊢
  generalize t.toInt = v at hlo hhi hsecs hdays ⊢
  have hs0 : 0 ≤ v % 86400 := by omega
  have hhour : (daySecs / 3600).toInt = v % 86400 / 3600 :=
    toInt_div_of_nonneg hsecs rfl hs0 (by decide)
  have hrest : (daySecs % 3600).toInt = v % 86400 % 3600 := toInt_mod_of_nonneg hsecs rfl hs0
  have hmin : (daySecs % 3600 / 60).toInt = v % 86400 % 3600 / 60 :=
    toInt_div_of_nonneg hrest rfl (by omega) (by decide)
  have hsec : (daySecs % 60).toInt = v % 86400 % 60 := toInt_mod_of_nonneg hsecs rfl hs0
  obtain ⟨y, m, d, hy, hm, hd, hm1, hm12, hd1, hdl, hnum⟩ :=
    @civilFromDays_spec days (by omega) (by omega)
  rw [hdays] at hnum
  refine ⟨?_, ?_⟩
  · constructor <;> simp only [Parts.civil, hy, hm, hd, hhour, hmin, hsec] <;>
      first | assumption | omega
  · simp only [Parts.civil, Civil.seconds, hy, hm, hd, hhour, hmin, hsec, hnum]
    omega

end ClearMsig
