import Mathlib.Tactic.IntervalCases
import Mathlib.Tactic.Linarith

/-!
# The proleptic Gregorian calendar

Civil dates over all integer years, their number of days since 1970-01-01 and, with a time of day,
their number of seconds. A civil time is determined by its seconds.
-/

namespace Calendar

/-- Gregorian leap years. -/
def IsLeap (y : Int) : Prop := (y % 4 = 0 ∧ y % 100 ≠ 0) ∨ y % 400 = 0

instance (y : Int) : Decidable (IsLeap y) := inferInstanceAs (Decidable (_ ∨ _))

/-- Number of days of month `m` of year `y`. -/
def monthLength (y m : Int) : Int :=
  if m = 2 then (if IsLeap y then 29 else 28)
  else if m = 4 ∨ m = 6 ∨ m = 9 ∨ m = 11 then 30 else 31

/-- Number of days of year `y` before month `m`. -/
def daysBeforeMonth (y m : Int) : Int :=
  [0, 31, 59, 90, 120, 151, 181, 212, 243, 273, 304, 334].getD (m - 1).toNat 365 +
    (if 2 < m ∧ IsLeap y then 1 else 0)

/-- Number of days from 0001-01-01 to the first day of year `y`. -/
def daysBeforeYear (y : Int) : Int :=
  365 * (y - 1) + (y - 1) / 4 - (y - 1) / 100 + (y - 1) / 400

/-- Days from 1970-01-01 to a date. -/
def dayNumber (y m d : Int) : Int := daysBeforeYear y + daysBeforeMonth y m + (d - 1) - 719162

/-- A civil date and time of day. -/
structure Civil where
  year : Int
  month : Int
  day : Int
  hour : Int
  min : Int
  sec : Int

namespace Civil

/-- All fields are in the range a calendar and a clock show. -/
structure Valid (c : Civil) : Prop where
  month_pos : 1 ≤ c.month
  month_le : c.month ≤ 12
  day_pos : 1 ≤ c.day
  day_le : c.day ≤ monthLength c.year c.month
  hour_nonneg : 0 ≤ c.hour
  hour_lt : c.hour < 24
  min_nonneg : 0 ≤ c.min
  min_lt : c.min < 60
  sec_nonneg : 0 ≤ c.sec
  sec_lt : c.sec < 60

/-- Seconds from 1970-01-01 00:00:00 to a civil time. -/
def seconds (c : Civil) : Int :=
  dayNumber c.year c.month c.day * 86400 + c.hour * 3600 + c.min * 60 + c.sec

end Civil

/-! ## The tables agree with each other -/

theorem daysBeforeYear_succ (y : Int) :
    daysBeforeYear (y + 1) = daysBeforeYear y + (if IsLeap y then 366 else 365) := by
  unfold daysBeforeYear IsLeap
  split_ifs <;> omega

theorem daysBeforeMonth_twelve (y : Int) :
    daysBeforeMonth y 12 + monthLength y 12 = if IsLeap y then 366 else 365 := by
  by_cases h : IsLeap y <;> simp [daysBeforeMonth, monthLength, h]

theorem daysBeforeMonth_succ {y m : Int} (h1 : 1 ≤ m) (h11 : m ≤ 11) :
    daysBeforeMonth y (m + 1) = daysBeforeMonth y m + monthLength y m := by
  by_cases h : IsLeap y <;> interval_cases m <;> simp [daysBeforeMonth, monthLength, h]

theorem monthLength_nonneg (y m : Int) : 0 ≤ monthLength y m := by
  unfold monthLength
  split_ifs <;> decide

/-- The days of a month come before those of every later month. -/
theorem daysBeforeMonth_add_le {y m m' : Int} (h1 : 1 ≤ m) (hlt : m < m') (h12 : m' ≤ 12) :
    daysBeforeMonth y m + monthLength y m ≤ daysBeforeMonth y m' := by
  induction m', Int.add_one_le_iff.mpr hlt using Int.leInduction with
  | base => rw [daysBeforeMonth_succ h1 (by omega)]
  | succ k hk ih =>
    have hstep := daysBeforeMonth_succ (y := y) (m := k) (by omega) (by omega)
    have hle := ih (by omega) (by omega)
    have hlen := monthLength_nonneg y k
    omega

/-! ## A day number determines its date -/

/-- The day of the year, counted from zero. -/
theorem dayOfYear_bounds {y m d : Int} (h1 : 1 ≤ m) (h12 : m ≤ 12) (hd1 : 1 ≤ d)
    (hd : d ≤ monthLength y m) :
    0 ≤ daysBeforeMonth y m + (d - 1) ∧
      daysBeforeMonth y m + (d - 1) < if IsLeap y then 366 else 365 := by
  have h0 : 0 ≤ daysBeforeMonth y m := by
    unfold daysBeforeMonth
    interval_cases m <;> simp <;> split_ifs <;> omega
  have hlast : daysBeforeMonth y m + monthLength y m ≤ if IsLeap y then 366 else 365 := by
    rw [← daysBeforeMonth_twelve y]
    rcases eq_or_lt_of_le h12 with rfl | hlt
    · exact le_refl _
    · have := daysBeforeMonth_add_le (y := y) h1 hlt (le_refl 12)
      have hpos := monthLength_nonneg y 12
      omega
  omega

theorem daysBeforeYear_mono {y y' : Int} (h : y < y') :
    daysBeforeYear y + (if IsLeap y then 366 else 365) ≤ daysBeforeYear y' := by
  rw [← daysBeforeYear_succ]
  unfold daysBeforeYear
  omega

theorem dayNumber_injective {y m d y' m' d' : Int} (h1 : 1 ≤ m) (h12 : m ≤ 12) (hd1 : 1 ≤ d)
    (hd : d ≤ monthLength y m) (h1' : 1 ≤ m') (h12' : m' ≤ 12) (hd1' : 1 ≤ d')
    (hd' : d' ≤ monthLength y' m') (h : dayNumber y m d = dayNumber y' m' d') :
    y = y' ∧ m = m' ∧ d = d' := by
  have hb := dayOfYear_bounds h1 h12 hd1 hd
  have hb' := dayOfYear_bounds h1' h12' hd1' hd'
  unfold dayNumber at h
  -- the day number lies in the span of one year only
  have hy : y = y' := by
    rcases lt_trichotomy y y' with hlt | heq | hgt
    · have := daysBeforeYear_mono hlt
      omega
    · exact heq
    · have := daysBeforeYear_mono hgt
      omega
  subst hy
  have hm : m = m' := by
    rcases lt_trichotomy m m' with hlt | heq | hgt
    · have := daysBeforeMonth_add_le (y := y) h1 hlt h12'
      omega
    · exact heq
    · have := daysBeforeMonth_add_le (y := y) h1' hgt h12
      omega
  subst hm
  exact ⟨rfl, rfl, by omega⟩

/-- Two civil times with the same seconds are the same. -/
theorem Civil.Valid.ext {c c' : Civil} (hc : c.Valid) (hc' : c'.Valid)
    (h : c.seconds = c'.seconds) : c = c' := by
  obtain ⟨h1, h12, hd1, hd, hh0, hh, hm0, hm, hs0, hs⟩ := hc
  obtain ⟨h1', h12', hd1', hd', hh0', hh', hm0', hm', hs0', hs'⟩ := hc'
  unfold Civil.seconds at h
  have hday : dayNumber c.year c.month c.day = dayNumber c'.year c'.month c'.day := by omega
  obtain ⟨hy, hmo, hdd⟩ := dayNumber_injective h1 h12 hd1 hd h1' h12' hd1' hd' hday
  rw [hday] at h
  have hhour : c.hour = c'.hour := by omega
  have hmin : c.min = c'.min := by omega
  have hsec : c.sec = c'.sec := by omega
  cases c
  cases c'
  simp only [Civil.mk.injEq]
  exact ⟨hy, hmo, hdd, hhour, hmin, hsec⟩

/-! ## The span of a year -/

/-- The seconds from 1970-01-01 00:00:00 to the first second of year `y`. -/
def secondsBeforeYear (y : Int) : Int := (daysBeforeYear y - 719162) * 86400

/-- The year of a civil time is read off its seconds. -/
theorem Civil.Valid.le_year_iff {c : Civil} (h : c.Valid) (y : Int) :
    y ≤ c.year ↔ secondsBeforeYear y ≤ c.seconds := by
  obtain ⟨h1, h12, hd1, hd, hh0, hh, hm0, hm, hs0, hs⟩ := h
  have hb := dayOfYear_bounds h1 h12 hd1 hd
  unfold Civil.seconds dayNumber secondsBeforeYear
  constructor
  · intro hy
    rcases eq_or_lt_of_le hy with rfl | hlt
    · omega
    · have hmono := daysBeforeYear_mono hlt
      split_ifs at hmono <;> omega
  · intro hsec
    by_contra hlt
    have hmono := daysBeforeYear_mono (Int.lt_of_not_ge hlt)
    omega

/-! ## Two digits show every field but the year -/

theorem monthLength_le (y m : Int) : monthLength y m ≤ 31 := by
  unfold monthLength
  split_ifs <;> omega

theorem Civil.Valid.month_small {c : Civil} (h : c.Valid) : 0 ≤ c.month ∧ c.month < 100 := by
  have h1 := h.month_pos
  have h2 := h.month_le
  omega

theorem Civil.Valid.day_small {c : Civil} (h : c.Valid) : 0 ≤ c.day ∧ c.day < 100 := by
  have h1 := h.day_pos
  have h2 := h.day_le.trans (monthLength_le _ _)
  omega

theorem Civil.Valid.hour_small {c : Civil} (h : c.Valid) : c.hour < 100 := h.hour_lt.trans (by decide)

theorem Civil.Valid.min_small {c : Civil} (h : c.Valid) : c.min < 100 := h.min_lt.trans (by decide)

theorem Civil.Valid.sec_small {c : Civil} (h : c.Valid) : c.sec < 100 := h.sec_lt.trans (by decide)

end Calendar
