import ClearMsig.Foundation.Bitset
import ClearMsig.State.Proposal

/-!
# The bitmaps of a proposal as sets of votes

`yes` and `no` are the sets of list indices whose bit is set. The vote helpers of the source insert and
erase an index, and the counts are the sizes of the sets.
-/

namespace ClearMsig

namespace Proposal

variable {p : Proposal} {idx : UInt8}

/-- The list indices with a recorded approval. -/
def yes (p : Proposal) : Finset Nat := Bitset.bits p.approvalBitmap

/-- The list indices with a recorded cancellation. -/
def no (p : Proposal) : Finset Nat := Bitset.bits p.cancellationBitmap

theorem bitMask_eq_single (idx : UInt8) : bitMask idx = Bitset.single idx.toNat := by
  unfold bitMask Bitset.single
  congr 1
  exact UInt16.toNat_inj.mp (by simp)

@[simp] theorem yes_setApproval (h : idx.toNat < 16) :
    (p.setApproval idx).yes = insert idx.toNat p.yes := by
  simp only [yes, setApproval, bitMask_eq_single, Bitset.bits_or_single h]

@[simp] theorem no_setApproval (h : idx.toNat < 16) :
    (p.setApproval idx).no = p.no.erase idx.toNat := by
  simp only [no, setApproval, bitMask_eq_single, Bitset.bits_and_not_single h]

@[simp] theorem yes_setCancellation (h : idx.toNat < 16) :
    (p.setCancellation idx).yes = p.yes.erase idx.toNat := by
  simp only [yes, setCancellation, bitMask_eq_single, Bitset.bits_and_not_single h]

@[simp] theorem no_setCancellation (h : idx.toNat < 16) :
    (p.setCancellation idx).no = insert idx.toNat p.no := by
  simp only [no, setCancellation, bitMask_eq_single, Bitset.bits_or_single h]

theorem hasApprovedByIndex_eq_false (h : idx.toNat < 16) :
    p.hasApprovedByIndex idx = false ↔ idx.toNat ∉ p.yes := by
  simp only [hasApprovedByIndex, bitMask_eq_single, bne_eq_false_iff_eq, yes,
    Bitset.and_single_eq_zero_iff h]

theorem hasCancelledByIndex_eq_false (h : idx.toNat < 16) :
    p.hasCancelledByIndex idx = false ↔ idx.toNat ∉ p.no := by
  simp only [hasCancelledByIndex, bitMask_eq_single, bne_eq_false_iff_eq, no,
    Bitset.and_single_eq_zero_iff h]

/-! ## Counts -/

theorem countOnes_eq_card (x : UInt16) : countOnes x = (Bitset.bits x).card := by
  simp only [countOnes, Bitset.bits, Finset.card_def, Finset.filter_val, Finset.range_val,
    Multiset.range, Multiset.filter_coe, Multiset.coe_card, List.countP_eq_length_filter,
    Bool.decide_eq_true]

theorem countOnes_le (x : UInt16) : countOnes x ≤ 16 :=
  List.countP_le_length.trans (by simp)

theorem approvalCount_toNat (p : Proposal) : p.approvalCount.toNat = p.yes.card := by
  have h := countOnes_le p.approvalBitmap
  rw [approvalCount, yes, ← countOnes_eq_card, UInt8.toNat_ofNat']
  exact Nat.mod_eq_of_lt (by omega)

theorem cancellationCount_toNat (p : Proposal) : p.cancellationCount.toNat = p.no.card := by
  have h := countOnes_le p.cancellationBitmap
  rw [cancellationCount, no, ← countOnes_eq_card, UInt8.toNat_ofNat']
  exact Nat.mod_eq_of_lt (by omega)

end Proposal

end ClearMsig
