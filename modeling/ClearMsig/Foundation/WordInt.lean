import Mathlib.Data.Int.Basic

/-!
# `Int64` arithmetic without overflow

The signed value of a 64-bit operation is the integer operation as long as the result is in range.
Each rule takes the values of the operands and the range of the result. The checked operations stop where
the result is not in range.
-/

namespace WordInt

variable {a b : Int64} {x y : Int}

theorem toInt_add (ha : a.toInt = x) (hb : b.toInt = y) (hlo : -9223372036854775808 ≤ x + y)
    (hhi : x + y < 9223372036854775808) : (a + b).toInt = x + y := by
  rw [Int64.toInt_add, ha, hb, Int.bmod_eq_of_le (by omega) (by omega)]

theorem toInt_sub (ha : a.toInt = x) (hb : b.toInt = y) (hlo : -9223372036854775808 ≤ x - y)
    (hhi : x - y < 9223372036854775808) : (a - b).toInt = x - y := by
  rw [Int64.toInt_sub, ha, hb, Int.bmod_eq_of_le (by omega) (by omega)]

theorem toInt_mul (ha : a.toInt = x) (hb : b.toInt = y) (hlo : -9223372036854775808 ≤ x * y)
    (hhi : x * y < 9223372036854775808) : (a * b).toInt = x * y := by
  rw [Int64.toInt_mul, ha, hb, Int.bmod_eq_of_le (by omega) (by omega)]

/-- Truncating division by a positive number, through division that rounds down. -/
theorem tdiv_eq (x : Int) (hy : 0 < y) :
    x.tdiv y = if 0 ≤ x ∨ x % y = 0 then x / y else x / y + 1 := by
  simp only [Int.tdiv_eq_ediv, Int.dvd_iff_emod_eq_zero, Int.sign_eq_one_of_pos hy]
  split_ifs <;> omega

theorem tmod_eq (x : Int) (hy : 0 < y) :
    x.tmod y = if 0 ≤ x ∨ x % y = 0 then x % y else x % y - y := by
  simp only [Int.tmod_eq_emod, Int.dvd_iff_emod_eq_zero]
  split_ifs <;> omega

/-- Division truncates towards zero. -/
theorem toInt_div (ha : a.toInt = x) (hb : b.toInt = y) (hy : 0 < y) : (a / b).toInt = x.tdiv y := by
  have hne : b ≠ -1 := by
    rintro rfl
    have : (-1 : Int64).toInt = -1 := rfl
    omega
  rw [Int64.toInt_div_of_ne_right _ _ hne, ha, hb]

theorem toInt_div_of_nonneg (ha : a.toInt = x) (hb : b.toInt = y) (hx : 0 ≤ x) (hy : 0 < y) :
    (a / b).toInt = x / y := by
  rw [toInt_div ha hb hy, Int.tdiv_eq_ediv_of_nonneg hx]

theorem toInt_mod (ha : a.toInt = x) (hb : b.toInt = y) : (a % b).toInt = x.tmod y := by
  rw [Int64.toInt_mod, ha, hb]

theorem toInt_mod_of_nonneg (ha : a.toInt = x) (hb : b.toInt = y) (hx : 0 ≤ x) :
    (a % b).toInt = x % y := by
  rw [toInt_mod ha hb, Int.tmod_eq_emod_of_nonneg hx]

/-- The value of a conditional. -/
theorem toInt_ite {c : Prop} [Decidable c] (ha : a.toInt = x) (hb : b.toInt = y) :
    (if c then a else b).toInt = if c then x else y := by
  split_ifs <;> assumption

/-! ## Checked operations -/

/-- The word of an integer in range. -/
def ofInt? (n : Int) : Option Int64 :=
  if -9223372036854775808 ≤ n ∧ n < 9223372036854775808 then some (Int64.ofInt n) else none

def checkedAdd (a b : Int64) : Option Int64 := ofInt? (a.toInt + b.toInt)

def checkedSub (a b : Int64) : Option Int64 := ofInt? (a.toInt - b.toInt)

def checkedMul (a b : Int64) : Option Int64 := ofInt? (a.toInt * b.toInt)

/-- Truncating division, which also stops at a zero divisor. -/
def checkedDiv (a b : Int64) : Option Int64 := if b = 0 then none else ofInt? (a.toInt.tdiv b.toInt)

/-- The remainder, which stops where the division does. -/
def checkedRem (a b : Int64) : Option Int64 := do
  let _ ← checkedDiv a b
  some (a % b)

theorem ofInt?_toInt (a : Int64) : ofInt? a.toInt = some a := by
  have hlo := a.le_toInt
  have hhi := a.toInt_lt
  rw [ofInt?, if_pos (by omega), Int64.ofInt_toInt]

/-- In range, the checked operations are the wrapping ones. -/
theorem checkedAdd_eq (ha : a.toInt = x) (hb : b.toInt = y) (hlo : -9223372036854775808 ≤ x + y)
    (hhi : x + y < 9223372036854775808) : checkedAdd a b = some (a + b) := by
  rw [← ofInt?_toInt, toInt_add ha hb hlo hhi, checkedAdd, ha, hb]

theorem checkedSub_eq (ha : a.toInt = x) (hb : b.toInt = y) (hlo : -9223372036854775808 ≤ x - y)
    (hhi : x - y < 9223372036854775808) : checkedSub a b = some (a - b) := by
  rw [← ofInt?_toInt, toInt_sub ha hb hlo hhi, checkedSub, ha, hb]

theorem checkedMul_eq (ha : a.toInt = x) (hb : b.toInt = y) (hlo : -9223372036854775808 ≤ x * y)
    (hhi : x * y < 9223372036854775808) : checkedMul a b = some (a * b) := by
  rw [← ofInt?_toInt, toInt_mul ha hb hlo hhi, checkedMul, ha, hb]

theorem checkedDiv_eq (hb : b.toInt = y) (hy : 0 < y) : checkedDiv a b = some (a / b) := by
  have hne : b ≠ 0 := by
    rintro rfl
    have hzero : (0 : Int64).toInt = 0 := rfl
    omega
  rw [checkedDiv, if_neg hne, ← ofInt?_toInt (a / b), toInt_div rfl hb hy, hb]

theorem checkedRem_eq (hb : b.toInt = y) (hy : 0 < y) : checkedRem a b = some (a % b) := by
  rw [checkedRem, checkedDiv_eq hb hy]
  rfl

end WordInt
