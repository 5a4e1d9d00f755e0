import Mathlib.Data.Finset.Card
import Mathlib.Data.Finset.Range
import Mathlib.Data.Nat.Bitwise

/-!
# 16-bit words as sets of bit positions

Setting and clearing one bit of a word inserts and erases one element, and the number of set bits is
the size of the set.
-/

namespace Bitset

/-- The positions of the set bits of a word. -/
def bits (x : UInt16) : Finset Nat := {k ∈ Finset.range 16 | x.toNat.testBit k}

/-- The word with one bit, at a position below 16. -/
def single (k : Nat) : UInt16 := 1 <<< UInt16.ofNat k

theorem lt_of_testBit {x : UInt16} {k : Nat} (h : x.toNat.testBit k = true) : k < 16 := by
  by_contra hk
  have hlt : x.toNat < 2 ^ k := x.toNat_lt.trans_le (Nat.pow_le_pow_right (by decide) (by omega))
  rw [Nat.testBit_lt_two_pow hlt] at h
  cases h

@[simp] theorem mem_bits {x : UInt16} {k : Nat} : k ∈ bits x ↔ x.toNat.testBit k = true := by
  simp only [bits, Finset.mem_filter, Finset.mem_range, and_iff_right_iff_imp]
  exact lt_of_testBit

theorem bits_injective : Function.Injective bits := by
  intro x y h
  refine UInt16.toNat_inj.mp (Nat.eq_of_testBit_eq fun k => ?_)
  rw [Bool.eq_iff_iff, ← mem_bits, ← mem_bits, h]

@[simp] theorem bits_zero : bits 0 = ∅ := by
  ext k
  simp

theorem toNat_single {k : Nat} (hk : k < 16) : (single k).toNat = 2 ^ k := by
  revert k
  decide

theorem testBit_single {k j : Nat} (hk : k < 16) :
    (single k).toNat.testBit j = decide (k = j) := by
  rw [toNat_single hk, Nat.testBit_two_pow]

theorem testBit_not {x : UInt16} {k : Nat} (hk : k < 16) :
    (~~~x).toNat.testBit k = !x.toNat.testBit k := by
  have h : (~~~x.toBitVec).getLsbD k = (decide (k < 16) && !x.toBitVec.getLsbD k) :=
    BitVec.getLsbD_not
  rwa [decide_eq_true hk, Bool.true_and] at h

/-- Setting a bit. -/
theorem bits_or_single {x : UInt16} {k : Nat} (hk : k < 16) :
    bits (x ||| single k) = insert k (bits x) := by
  ext j
  simp only [mem_bits, UInt16.toNat_or, Nat.testBit_or, testBit_single hk, Bool.or_eq_true,
    decide_eq_true_eq, Finset.mem_insert, eq_comm (a := k)]
  exact or_comm

/-- Clearing a bit. -/
theorem bits_and_not_single {x : UInt16} {k : Nat} (hk : k < 16) :
    bits (x &&& ~~~(single k)) = (bits x).erase k := by
  ext j
  simp only [mem_bits, UInt16.toNat_and, Nat.testBit_and, Finset.mem_erase, Bool.and_eq_true]
  constructor
  · rintro ⟨hx, hnot⟩
    rw [testBit_not (lt_of_testBit hx), testBit_single hk] at hnot
    exact ⟨fun he => by simp [he] at hnot, hx⟩
  · rintro ⟨hne, hx⟩
    refine ⟨hx, ?_⟩
    rw [testBit_not (lt_of_testBit hx), testBit_single hk]
    simpa using Ne.symm hne

/-- Words without a common bit. -/
theorem and_eq_zero_iff {x y : UInt16} : x &&& y = 0 ↔ Disjoint (bits x) (bits y) := by
  rw [← bits_injective.eq_iff, bits_zero, Finset.disjoint_left, Finset.eq_empty_iff_forall_notMem]
  simp only [mem_bits, UInt16.toNat_and, Nat.testBit_and, Bool.and_eq_true, not_and]

/-- Testing a bit. -/
theorem and_single_eq_zero_iff {x : UInt16} {k : Nat} (hk : k < 16) :
    x &&& single k = 0 ↔ k ∉ bits x := by
  have hsingle : bits (single k) = {k} := by
    ext j
    rw [mem_bits, testBit_single hk, decide_eq_true_eq, Finset.mem_singleton, eq_comm]
  rw [and_eq_zero_iff, hsingle, Finset.disjoint_singleton_right]

end Bitset
