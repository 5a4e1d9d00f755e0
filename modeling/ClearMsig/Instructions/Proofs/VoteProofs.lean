import ClearMsig.Instructions.Cancel
import ClearMsig.State.Proofs.ProposalProofs

/-!
# What a vote does to a proposal

`approve` and `cancel` as operations on the sets of votes, and the invariant `Tallied` that ties the
sets, the thresholds and the status together whatever the order of the votes.
-/

namespace ClearMsig

variable {intent : Intent} {p : Proposal} {idx : UInt8} {clock : Int64}

/-! ## `approve` -/

namespace Approve

theorem vote_yes (h : idx.toNat < 16) :
    (vote intent p clock idx).yes = insert idx.toNat p.yes := by
  rw [← Proposal.yes_setApproval h]
  simp only [vote]
  split_ifs <;> rfl

theorem vote_no (h : idx.toNat < 16) : (vote intent p clock idx).no = p.no.erase idx.toNat := by
  rw [← Proposal.no_setApproval h]
  simp only [vote]
  split_ifs <;> rfl

/-- The status becomes approved when the votes reach the threshold and stays otherwise. -/
theorem vote_status (h : idx.toNat < 16) :
    (vote intent p clock idx).status =
      if intent.approvalThreshold.toNat ≤ (insert idx.toNat p.yes).card then .approved
      else p.status := by
  have hcount : (p.setApproval idx).approvalCount ≥ intent.approvalThreshold ↔
      intent.approvalThreshold.toNat ≤ (insert idx.toNat p.yes).card := by
    rw [← Proposal.yes_setApproval h, ← Proposal.approvalCount_toNat]
    exact UInt8.le_iff_toNat_le
  simp only [vote, hcount]
  split_ifs <;> rfl

end Approve

/-! ## `cancel` -/

namespace Cancel

theorem vote_yes (h : idx.toNat < 16) :
    (vote intent p idx).2.yes = p.yes.erase idx.toNat := by
  rw [← Proposal.yes_setCancellation h]
  simp only [vote]
  split_ifs <;> rfl

theorem vote_no (h : idx.toNat < 16) :
    (vote intent p idx).2.no = insert idx.toNat p.no := by
  rw [← Proposal.no_setCancellation h]
  simp only [vote]
  split_ifs <;> rfl

theorem cancellationCount_ge_iff (h : idx.toNat < 16) :
    (p.setCancellation idx).cancellationCount ≥ intent.cancellationThreshold ↔
      intent.cancellationThreshold.toNat ≤ (insert idx.toNat p.no).card := by
  rw [← Proposal.no_setCancellation h, ← Proposal.cancellationCount_toNat]
  exact UInt8.le_iff_toNat_le

/-- The status becomes cancelled when the votes reach the threshold; an approved proposal falls back
when the approvals no longer do. -/
theorem vote_status (h : idx.toNat < 16) :
    (vote intent p idx).2.status =
      if intent.cancellationThreshold.toNat ≤ (insert idx.toNat p.no).card then .cancelled
      else if p.status = .approved ∧
        (p.yes.erase idx.toNat).card < intent.approvalThreshold.toNat then .active
      else p.status := by
  have hcount : (p.setCancellation idx).approvalCount < intent.approvalThreshold ↔
      (p.yes.erase idx.toNat).card < intent.approvalThreshold.toNat := by
    rw [← Proposal.yes_setCancellation h, ← Proposal.approvalCount_toNat]
    exact UInt8.lt_iff_toNat_lt
  have hstatus : (p.setCancellation idx).status = p.status := rfl
  simp only [vote, cancellationCount_ge_iff h, hcount, hstatus]
  split_ifs <;> rfl

/-- The intent is released exactly when the vote closes the proposal. -/
theorem vote_intent (h : idx.toNat < 16) :
    (vote intent p idx).1 =
      if intent.cancellationThreshold.toNat ≤ (insert idx.toNat p.no).card then
        intent.releaseProposal
      else intent := by
  simp only [vote, cancellationCount_ge_iff h]
  split_ifs <;> rfl

end Cancel

/-! ## The invariant -/

/-- The thresholds of an intent satisfy the checks of `create_wallet`. -/
def Intent.ThresholdsOk (intent : Intent) : Prop :=
  1 ≤ intent.approvalThreshold.toNat ∧
    intent.approvalThreshold.toNat ≤ intent.approvers.toList.length ∧
    1 ≤ intent.cancellationThreshold.toNat ∧
    intent.cancellationThreshold.toNat ≤ intent.approvers.toList.length

instance (intent : Intent) : Decidable intent.ThresholdsOk := inferInstanceAs (Decidable (_ ∧ _))

/-- The votes recorded in a proposal of an intent: nobody votes both ways, every vote is that of a
list entry, and the status of an open proposal is the one the votes call for. -/
structure Tallied (intent : Intent) (p : Proposal) : Prop where
  disjoint : Disjoint p.yes p.no
  yes_lt : ∀ k ∈ p.yes, k < intent.approvers.toList.length
  no_lt : ∀ k ∈ p.no, k < intent.approvers.toList.length
  approved_iff : intent.ThresholdsOk → p.IsOpen →
    (p.status = .approved ↔ intent.approvalThreshold.toNat ≤ p.yes.card)
  no_card_lt : intent.ThresholdsOk → p.IsOpen → p.no.card < intent.cancellationThreshold.toNat
  voters : p.status = .approved → intent.approvers.toList ≠ []

namespace Tallied

/-- The index of a list entry is the position of a bit. -/
theorem idx_lt (h : idx.toNat < intent.approvers.toList.length) : idx.toNat < 16 :=
  h.trans_le intent.approvers.len_le

theorem approve (h : Tallied intent p) (hidx : idx.toNat < intent.approvers.toList.length)
    (hactive : p.status = .active) : Tallied intent (Approve.vote intent p clock idx) := by
  have h16 := idx_lt hidx
  have hopen : p.IsOpen := .inl hactive
  refine ⟨?_, ?_, ?_, ?_, ?_, ?_⟩
  · rw [Approve.vote_yes h16, Approve.vote_no h16, Finset.disjoint_insert_left]
    exact ⟨Finset.notMem_erase _ _, h.disjoint.mono_right (Finset.erase_subset _ _)⟩
  · rw [Approve.vote_yes h16]
    intro k hk
    rcases Finset.mem_insert.mp hk with rfl | hk
    · exact hidx
    · exact h.yes_lt k hk
  · rw [Approve.vote_no h16]
    intro k hk
    exact h.no_lt k (Finset.mem_of_mem_erase hk)
  · intro hth _
    rw [Approve.vote_yes h16, Approve.vote_status h16, hactive]
    split_ifs with hge <;> simp [hge]
  · intro hth _
    rw [Approve.vote_no h16]
    exact lt_of_le_of_lt (Finset.card_le_card (Finset.erase_subset _ _)) (h.no_card_lt hth hopen)
  · intro _ hnil
    rw [hnil] at hidx
    exact absurd hidx (Nat.not_lt_zero _)

theorem cancel (h : Tallied intent p) (hidx : idx.toNat < intent.approvers.toList.length)
    (hopen : p.IsOpen) : Tallied intent (Cancel.vote intent p idx).2 := by
  have h16 := idx_lt hidx
  refine ⟨?_, ?_, ?_, ?_, ?_, ?_⟩
  · rw [Cancel.vote_yes h16, Cancel.vote_no h16, Finset.disjoint_insert_right]
    exact ⟨Finset.notMem_erase _ _, h.disjoint.mono_left (Finset.erase_subset _ _)⟩
  · rw [Cancel.vote_yes h16]
    intro k hk
    exact h.yes_lt k (Finset.mem_of_mem_erase hk)
  · rw [Cancel.vote_no h16]
    intro k hk
    rcases Finset.mem_insert.mp hk with rfl | hk
    · exact hidx
    · exact h.no_lt k hk
  · intro hth hopen'
    have hyes := h.approved_iff hth hopen
    have hle := Finset.card_le_card (Finset.erase_subset idx.toNat p.yes)
    rw [Cancel.vote_yes h16]
    rw [Proposal.IsOpen] at hopen'
    rw [Cancel.vote_status h16] at hopen' ⊢
    split_ifs at hopen' ⊢ with hclosed hback
    · simp at hopen'
    · simp only [false_iff]
      omega
    · rw [not_and, Nat.not_lt] at hback
      exact ⟨hback, fun hge => hyes.mpr (hge.trans hle)⟩
  · intro hth hopen'
    rw [Cancel.vote_no h16]
    rw [Proposal.IsOpen, Cancel.vote_status h16] at hopen'
    split_ifs at hopen' with hclosed hback
    · simp at hopen'
    · omega
    · omega
  · intro _ hnil
    rw [hnil] at hidx
    exact absurd hidx (Nat.not_lt_zero _)

end Tallied

end ClearMsig
