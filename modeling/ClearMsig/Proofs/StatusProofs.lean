import ClearMsig.Proofs.InvariantProofs
import ClearMsig.Sample

/-!
# The status of an open proposal follows from its votes

The invariant of the votes in the terms of the bitmaps.
-/

namespace ClearMsig

/-- In every reachable state, for every proposal of an intent whose thresholds satisfy the checks of
`create_wallet`: no list entry has voted both ways, votes are those of list entries, and while it is
open it is approved exactly when the approvals reach the threshold, and the cancellations do not reach
theirs. -/
theorem status_of_votes {env : Env} {s : Accounts} (h : Runs.Reachable (program env) s) {a : Address}
    {p : Proposal} (hp : s.proposal? a = some p) {i : Intent} (hi : s.intent? p.intent = some i)
    (hth : i.ThresholdsOk) :
    p.approvalBitmap &&& p.cancellationBitmap = 0 ∧
      (∀ k, p.approvalBitmap.toNat.testBit k = true → k < i.approvers.toList.length) ∧
      (∀ k, p.cancellationBitmap.toNat.testBit k = true → k < i.approvers.toList.length) ∧
      (p.IsOpen →
        (p.status = .approved ↔ i.approvalThreshold.toNat ≤ countOnes p.approvalBitmap) ∧
        countOnes p.cancellationBitmap < i.cancellationThreshold.toNat) := by
  obtain ⟨j, hj, -, ht⟩ := (sound_of_reachable h).proposals a p hp
  obtain rfl := Option.some.inj (hi.symm.trans hj)
  refine ⟨Bitset.and_eq_zero_iff.mpr ht.disjoint, fun k hk => ?_, fun k hk => ?_, fun hopen => ?_⟩
  · exact ht.yes_lt k (Bitset.mem_bits.mpr hk)
  · exact ht.no_lt k (Bitset.mem_bits.mpr hk)
  · rw [Proposal.countOnes_eq_card, Proposal.countOnes_eq_card]
    exact ⟨ht.approved_iff hth hopen, ht.no_card_lt hth hopen⟩

namespace StatusSample

open Sample

/-- The approvals of keys 2 and 3 and the cancellation of key 2. -/
def table : List (Address × Bytes) :=
  [(key 1, message "expires 1970-01-01 00:16:40: propose remove intent 2 | wallet: a proposal: 0"),
   (key 2, message "expires 1970-01-01 00:16:40: approve remove intent 2 | wallet: a proposal: 0"),
   (key 3, message "expires 1970-01-01 00:16:40: approve remove intent 2 | wallet: a proposal: 0"),
   (key 2, message "expires 1970-01-01 00:16:40: cancel remove intent 2 | wallet: a proposal: 0")]

/-- Two of two approve, then the first of them changes the vote. -/
def calls : List Call :=
  [create "a" 2 2 [key 2, key 3], propose "a" 1 0 [2], approve "a" 1 0 0 1, approve "a" 1 0 1 2,
   cancel "a" 1 0 0 3]

end StatusSample

open StatusSample Sample in
theorem status_of_votes_sample :
    ∃ (s : Accounts) (p : Proposal) (i : Intent), s.proposal? (proposal "a" 1 0) = some p ∧
      s.intent? p.intent = some i ∧ p.IsOpen ∧ i.ThresholdsOk ∧
      p.approvalBitmap &&& p.cancellationBitmap = 0 ∧
      (p.status = .approved ↔ i.approvalThreshold.toNat ≤ countOnes p.approvalBitmap) ∧
      countOnes p.cancellationBitmap < i.cancellationThreshold.toNat := by
  have hobs : (observe (env table) calls fun _ s => (s.proposal? (proposal "a" 1 0)).bind fun p =>
      (s.intent? p.intent).map fun i => decide (p.IsOpen ∧ i.ThresholdsOk)) = some (some true) := by
    rw [table, message_ofList, message_ofList, message_ofList]
    decide +kernel
  obtain ⟨tr, s, hrun, -, hstate⟩ := run_of_observe hobs
  obtain ⟨p, hp, hmap⟩ := Option.bind_eq_some_iff.mp hstate
  obtain ⟨i, hi, hdec⟩ := Option.map_eq_some_iff.mp hmap
  obtain ⟨hopen, hth⟩ := of_decide_eq_true hdec
  obtain ⟨hdisj, -, -, hstatus⟩ := status_of_votes ⟨tr, hrun⟩ hp hi hth
  exact ⟨s, p, i, hp, hi, hopen, hth, hdisj, hstatus hopen⟩

end ClearMsig
