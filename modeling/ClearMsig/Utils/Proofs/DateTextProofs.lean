import ClearMsig.Utils.MessageText
import ClearMsig.Utils.Proofs.DatetimeProofs

/-!
# Which timestamps a date tells apart

The leading digit of the year is cast to a byte, so that a date shows the year (as a `u32`) modulo
256000; month, day and time are shown in full. A year of four digits is shown as its numeral.
-/

namespace ClearMsig

open Calendar

/-- The years whose four characters are the same. -/
def SameYearText (y₁ y₂ : Int) : Prop := y₁ % 2 ^ 32 % 256000 = y₂ % 2 ^ 32 % 256000

/-- The timestamps that are displayed as the same date: the same month, day and time in years with the
same four characters. -/
def ShownAlike (t₁ t₂ : Int64) : Prop :=
  ∃ c₁ c₂ : Civil, c₁.Valid ∧ c₂.Valid ∧ c₁.seconds = t₁.toInt ∧ c₂.seconds = t₂.toInt ∧
    SameYearText c₁.year c₂.year ∧ c₁.month = c₂.month ∧ c₁.day = c₂.day ∧ c₁.hour = c₂.hour ∧
    c₁.min = c₂.min ∧ c₁.sec = c₂.sec

theorem digit_eq_iff {x y : UInt32} : digit x = digit y ↔ x.toNat % 256 = y.toNat % 256 := by
  unfold digit
  rw [← UInt8.toNat_inj, UInt8.toNat_add, UInt8.toNat_add, UInt32.toNat_toUInt8,
    UInt32.toNat_toUInt8]
  show (48 + _) % 256 = (48 + _) % 256 ↔ _
  omega

theorem decimal2_eq_iff {a b : UInt32} (ha : a.toNat < 100) (hb : b.toNat < 100) :
    decimal2 a = decimal2 b ↔ a.toNat = b.toNat := by
  have h10 : (10 : UInt32).toNat = 10 := rfl
  simp only [decimal2, List.cons.injEq, digit_eq_iff, UInt32.toNat_div, UInt32.toNat_mod, h10,
    and_true]
  omega

/-- What four digits, the first of them modulo 256, say about a number. -/
theorem mod_256000 (v : Nat) :
    v % 256000 = 1000 * (v / 1000 % 256) + 100 * (v / 100 % 10) + 10 * (v / 10 % 10) + v % 10 := by
  omega

/-- The digits of a number depend on it modulo 256000. -/
theorem digits_mod_256000 (v : Nat) :
    v / 1000 % 256 = v % 256000 / 1000 ∧ v / 100 % 10 = v % 256000 / 100 % 10 ∧
      v / 10 % 10 = v % 256000 / 10 % 10 ∧ v % 10 = v % 256000 % 10 := by
  omega

theorem decimal4_eq_iff {a b : UInt32} :
    decimal4 a = decimal4 b ↔ a.toNat % 256000 = b.toNat % 256000 := by
  have h10 : (10 : UInt32).toNat = 10 := rfl
  have h100 : (100 : UInt32).toNat = 100 := rfl
  have h1000 : (1000 : UInt32).toNat = 1000 := rfl
  have hsmall (n : Nat) : n % 10 % 256 = n % 10 := by omega
  simp only [decimal4, List.cons.injEq, digit_eq_iff, UInt32.toNat_div, UInt32.toNat_mod, h10, h100,
    h1000, hsmall, and_true]
  constructor
  · rintro ⟨h1, h2, h3, h4⟩
    rw [mod_256000 a.toNat, mod_256000 b.toNat, h1, h2, h3, h4]
  · intro h
    obtain ⟨ha1, ha2, ha3, ha4⟩ := digits_mod_256000 a.toNat
    obtain ⟨hb1, hb2, hb3, hb4⟩ := digits_mod_256000 b.toNat
    rw [ha1, ha2, ha3, ha4, hb1, hb2, hb3, hb4, h]
    exact ⟨rfl, rfl, rfl, rfl⟩

theorem asU32_toNat (x : Int64) : ((asU32 x).toNat : Int) = x.toInt % 2 ^ 32 := by
  have hcond : x.toInt = if 2 * x.toUInt64.toNat < 2 ^ 64 then (x.toUInt64.toNat : Int)
      else x.toUInt64.toNat - (2 ^ 64 : Nat) := BitVec.toInt_eq_toNat_cond _
  have hlt := x.toUInt64.toNat_lt
  rw [asU32, UInt64.toNat_toUInt32]
  split_ifs at hcond with hc <;> omega

/-- Two small fields are displayed alike when they are the same. -/
theorem decimal2_asU32_eq_iff {x y : Int64} (hx0 : 0 ≤ x.toInt) (hx : x.toInt < 100)
    (hy0 : 0 ≤ y.toInt) (hy : y.toInt < 100) :
    decimal2 (asU32 x) = decimal2 (asU32 y) ↔ x.toInt = y.toInt := by
  have hax := asU32_toNat x
  have hay := asU32_toNat y
  rw [decimal2_eq_iff (by omega) (by omega)]
  omega

theorem decimal4_asU32_eq_iff {x y : Int64} :
    decimal4 (asU32 x) = decimal4 (asU32 y) ↔ SameYearText x.toInt y.toInt := by
  have hax := asU32_toNat x
  have hay := asU32_toNat y
  rw [decimal4_eq_iff, SameYearText]
  omega

/-- The text of a date is the text of each of its fields. -/
theorem dateText_eq_iff {p q : Parts} :
    dateText p = dateText q ↔ decimal4 (asU32 p.year) = decimal4 (asU32 q.year) ∧
      decimal2 (asU32 p.month) = decimal2 (asU32 q.month) ∧
      decimal2 (asU32 p.day) = decimal2 (asU32 q.day) ∧
      decimal2 (asU32 p.hour) = decimal2 (asU32 q.hour) ∧
      decimal2 (asU32 p.min) = decimal2 (asU32 q.min) ∧
      decimal2 (asU32 p.sec) = decimal2 (asU32 q.sec) := by
  simp only [dateText, decimal4, decimal2, List.cons_append, List.nil_append, List.cons.injEq,
    true_and, and_true]
  tauto

/-- A date shows all its fields, the year as far as its four characters go. -/
theorem dateText_eq_iff_civil {p q : Parts} (hp : p.civil.Valid) (hq : q.civil.Valid) :
    dateText p = dateText q ↔ SameYearText p.civil.year q.civil.year ∧
      p.civil.month = q.civil.month ∧ p.civil.day = q.civil.day ∧ p.civil.hour = q.civil.hour ∧
      p.civil.min = q.civil.min ∧ p.civil.sec = q.civil.sec := by
  rw [dateText_eq_iff, decimal4_asU32_eq_iff,
    decimal2_asU32_eq_iff hp.month_small.1 hp.month_small.2 hq.month_small.1 hq.month_small.2,
    decimal2_asU32_eq_iff hp.day_small.1 hp.day_small.2 hq.day_small.1 hq.day_small.2,
    decimal2_asU32_eq_iff hp.hour_nonneg hp.hour_small hq.hour_nonneg hq.hour_small,
    decimal2_asU32_eq_iff hp.min_nonneg hp.min_small hq.min_nonneg hq.min_small,
    decimal2_asU32_eq_iff hp.sec_nonneg hp.sec_small hq.sec_nonneg hq.sec_small]
  rfl

/-- Two timestamps have the same text exactly when they are shown alike. -/
theorem dateText_timestamp_eq_iff {t₁ t₂ : Int64} :
    dateText (timestampToParts t₁) = dateText (timestampToParts t₂) ↔ ShownAlike t₁ t₂ := by
  obtain ⟨hv₁, hs₁⟩ := timestampToParts_spec t₁
  obtain ⟨hv₂, hs₂⟩ := timestampToParts_spec t₂
  rw [dateText_eq_iff_civil hv₁ hv₂]
  constructor
  · rintro ⟨hy, hm, hd, hh, hmin, hsec⟩
    exact ⟨_, _, hv₁, hv₂, hs₁, hs₂, hy, hm, hd, hh, hmin, hsec⟩
  · rintro ⟨c₁, c₂, hc₁, hc₂, hsec₁, hsec₂, h⟩
    obtain rfl := hc₁.ext hv₁ (hsec₁.trans hs₁.symm)
    obtain rfl := hc₂.ext hv₂ (hsec₂.trans hs₂.symm)
    exact h

/-! ## Dates as numerals -/

theorem digit_eq_digitByte {x : UInt32} {n : Nat} (h : x.toNat = n) : digit x = Decimal.digitByte n := by
  rw [digit, Decimal.digitByte, ← h]
  congr 1

/-- A small field is shown alike. -/
theorem paddedText_two {x : Int64} (h0 : 0 ≤ x.toInt) (h : x.toInt < 100) :
    Decimal.paddedText 2 x.toInt = decimal2 (asU32 x) := by
  have hx := asU32_toNat x
  have h10 : (10 : UInt32).toNat = 10 := rfl
  obtain ⟨n, hn⟩ := Int.eq_ofNat_of_zero_le h0
  rw [hn, Decimal.paddedText_succ (by decide), Decimal.paddedText_one (by omega), decimal2,
    ← digit_eq_digitByte (x := asU32 x / 10) (by rw [UInt32.toNat_div, h10]; omega),
    ← digit_eq_digitByte (x := asU32 x % 10) (by rw [UInt32.toNat_mod, h10]; omega)]
  rfl

/-- A year with at most four digits is shown alike. -/
theorem paddedText_four {x : Int64} (h0 : 0 ≤ x.toInt) (h : x.toInt ≤ 9999) :
    Decimal.paddedText 4 x.toInt = decimal4 (asU32 x) := by
  have hx := asU32_toNat x
  have h10 : (10 : UInt32).toNat = 10 := rfl
  have h100 : (100 : UInt32).toNat = 100 := rfl
  have h1000 : (1000 : UInt32).toNat = 1000 := rfl
  obtain ⟨n, hn⟩ := Int.eq_ofNat_of_zero_le h0
  have hd1 : digit (asU32 x / 1000) = Decimal.digitByte (n / 10 / 10 / 10) :=
    digit_eq_digitByte (by rw [UInt32.toNat_div, h1000]; omega)
  have hd2 : digit (asU32 x / 100 % 10) = Decimal.digitByte (n / 10 / 10 % 10) :=
    digit_eq_digitByte (by rw [UInt32.toNat_mod, UInt32.toNat_div, h10, h100]; omega)
  have hd3 : digit (asU32 x / 10 % 10) = Decimal.digitByte (n / 10 % 10) :=
    digit_eq_digitByte (by rw [UInt32.toNat_mod, UInt32.toNat_div, h10]; omega)
  have hd4 : digit (asU32 x % 10) = Decimal.digitByte (n % 10) :=
    digit_eq_digitByte (by rw [UInt32.toNat_mod, h10]; omega)
  rw [hn, Decimal.paddedText_succ (by decide), Decimal.paddedText_succ (by decide),
    Decimal.paddedText_succ (by decide), Decimal.paddedText_one (by omega), decimal4, hd1, hd2, hd3, hd4]
  rfl

/-- A date but for its year. -/
theorem dateText_eq_padded {p : Parts} (h : p.civil.Valid) :
    dateText p = decimal4 (asU32 p.year) ++ [45] ++ Decimal.paddedText 2 p.month.toInt ++ [45] ++
      Decimal.paddedText 2 p.day.toInt ++ [32] ++ Decimal.paddedText 2 p.hour.toInt ++ [58] ++
      Decimal.paddedText 2 p.min.toInt ++ [58] ++ Decimal.paddedText 2 p.sec.toInt := by
  have hmonth : Decimal.paddedText 2 p.month.toInt = _ := paddedText_two h.month_small.1 h.month_small.2
  have hday : Decimal.paddedText 2 p.day.toInt = _ := paddedText_two h.day_small.1 h.day_small.2
  have hhour : Decimal.paddedText 2 p.hour.toInt = _ := paddedText_two h.hour_nonneg h.hour_small
  have hmin : Decimal.paddedText 2 p.min.toInt = _ := paddedText_two h.min_nonneg h.min_small
  have hsec : Decimal.paddedText 2 p.sec.toInt = _ := paddedText_two h.sec_nonneg h.sec_small
  rw [hmonth, hday, hhour, hmin, hsec, dateText]

end ClearMsig
