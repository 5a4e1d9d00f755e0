import ClearMsig.Proofs.CounterProofs
import ClearMsig.Sample

/-!
# When the counter of open proposals is exact

A new intent starts with the counter that `AddIntent` execution copies from the bytes of the proposal.
The counters are exact in a run exactly when these bytes are zero in each of its executions.
-/

namespace ClearMsig

variable {env : Env} {s s' : Accounts} {c : Call}

/-- The counters of a state are exact, no decrement in it can stop at zero, and an intent without open
proposals passes the check before a modification. -/
structure CounterExact (env : Env) (s : Accounts) : Prop where
  exact : ∀ a i, s.intent? a = some i →
    (s.openProposals a).encard = i.activeProposalCount.toNat
  pos : ∀ a p i, s.proposal? a = some p → p.IsOpen → s.intent? p.intent = some i →
    0 < i.activeProposalCount.toNat
  modifiable : ∀ (i : Intent) (ctx : Execute.Ctx) (view : AccountView) (index : UInt8),
    view.address = env.intentPda ctx.walletAddr index → view.isWritable = true →
    s.intent? view.address = some i → s.openProposals view.address = ∅ →
    Execute.validateTargetIntentForModification env s ctx view index = .ok i

/-- An event that executes an `AddIntent` copies zeros into the counter of the new intent. -/
def Unseeded (e : Runs.Event Accounts Call) : Prop :=
  ∀ declared intentAddr proposalAddr remaining p i,
    e.label.ix = .execute declared intentAddr proposalAddr remaining →
    e.pre.proposal? proposalAddr = some p → e.pre.intent? intentAddr = some i →
    i.readType = .ok .addIntent →
    p.paramsData.toList.getD 46 0 = 0 ∧ p.paramsData.toList.getD 47 0 = 0

/-- The two bytes of a counter. -/
theorem u16At_toNat (body : Bytes) (off : Nat) :
    (Intent.u16At body off).toNat =
      (body.getD off 0).toNat + 256 * (body.getD (off + 1) 0).toNat := by
  have h0 := (body.getD off 0).toNat_lt
  have h1 := (body.getD (off + 1) 0).toNat_lt
  have hbytes : Intent.bytesAt body off 2 = [body.getD off 0, body.getD (off + 1) 0] := rfl
  rw [Intent.u16At, hbytes, UInt16.toNat_ofNat']
  simp only [leNat]
  omega

theorem CounterExact.of_exact (hc : Counted s) (h : ∀ a i, s.intent? a = some i →
    (s.openProposals a).encard = i.activeProposalCount.toNat) : CounterExact env s := by
  refine ⟨h, fun a p i hp hopen hi => hc.pos hp hopen hi, ?_⟩
  intro i ctx view index haddr hwritable hi hempty
  have hcount := h _ i hi
  rw [hempty, Set.encard_empty] at hcount
  have hzero : i.activeProposalCount = 0 := UInt16.toNat_inj.mp (by simpa using hcount.symm)
  simp only [Execute.validateTargetIntentForModification, bind_eq_ok, require_eq_ok,
    Accounts.orRefuse_eq_ok, exists_const]
  exact ⟨haddr, hwritable, i, hi, hzero, rfl⟩

/-- A step keeps exact counters exact when the intents it creates start at zero. -/
theorem exact_of_effect (hs : Sound s) (h : Effect env s c s')
    (hseed : Unseeded ⟨s, c, s'⟩)
    (hex : ∀ a i, s.intent? a = some i → (s.openProposals a).encard = i.activeProposalCount.toNat) :
    ∀ a i, s'.intent? a = some i → (s'.openProposals a).encard = i.activeProposalCount.toNat := by
  intro a i' hi'
  cases hi : s.intent? a with
  | some i => exact (h.tick hi hi').encard_eq (hex a i hi)
  | none =>
    rw [h.openProposals_eq_empty hs hi, Set.encard_empty]
    rcases h.intent_origin hi' with ⟨i, hold, -⟩ | ⟨-, hnew⟩
    · rw [hi] at hold
      cases hold
    · cases hnew with
      | ofWallet hc hw hwallet hchecked ht hmeta =>
        rw [hmeta.count_eq]
        rfl
      | ofBytes hc hl ht hbytes =>
        obtain ⟨h46, h47⟩ := hseed _ _ _ _ _ _ hc (Accounts.proposal?_of_eq hl.proposal_eq)
          (Accounts.intent?_of_eq hl.intent_eq) ht
        rw [hbytes.count_eq, u16At_toNat, h46, h47]
        rfl

/-- An exact counter of a new intent was read from zeros. -/
theorem unseeded_of_exact (hs : Sound s) (h : Effect env s c s')
    (hex : ∀ a i, s'.intent? a = some i →
      (s'.openProposals a).encard = i.activeProposalCount.toNat) : Unseeded ⟨s, c, s'⟩ := by
  intro declared intentAddr proposalAddr remaining p i hc hp hi ht
  obtain ⟨w, new, -, hnew, hnone, hi'⟩ := h.addIntent_stores hc hi ht hp
  have hcount := hex _ new hi'
  rw [h.openProposals_eq_empty hs hnone, Set.encard_empty, hnew.count_eq, u16At_toNat] at hcount
  have hsum : (p.paramsData.toList.getD 46 0).toNat +
      256 * (p.paramsData.toList.getD 47 0).toNat = 0 := by exact_mod_cast hcount.symm
  exact ⟨UInt8.toNat_inj.mp (Nat.eq_zero_of_add_eq_zero_right hsum),
    UInt8.toNat_inj.mp (by simpa using Nat.eq_zero_of_add_eq_zero_left hsum)⟩

/-- The counters are exact in every state of a run exactly when each `AddIntent` it executes copies
zeros into the counter of the new intent. -/
theorem counter_exact_iff {tr : List (Runs.Event Accounts Call)} (hrun : Runs.Run (program env) tr s) :
    (∀ e ∈ tr, CounterExact env e.post) ↔ ∀ e ∈ tr, Unseeded e := by
  refine hrun.forall_post_iff (P := fun s => ∀ a i, s.intent? a = some i →
    (s.openProposals a).encard = i.activeProposalCount.toNat) ?_ ?_ ?_ ?_
  · rintro _ rfl a i hi
    exact absurd hi (by simp [Accounts.none])
  · intro tr s c s' hr hex hstep hseed
    have hs := sound_of_reachable ⟨tr, hr⟩
    exact exact_of_effect hs (hs.effect hstep) hseed hex
  · intro e he tr' hr hex
    exact CounterExact.of_exact (counted_of_reachable ⟨tr', hr⟩) hex
  · intro e he tr' hr hstep hex
    have hs := sound_of_reachable ⟨tr', hr⟩
    exact unseeded_of_exact hs (hs.effect hstep) hex.exact

namespace CounterSample

open Sample

def table : List (Address × Bytes) :=
  [(key 1, addIntentMessage "propose" (wallet "a") "a" "0"),
   (key 2, addIntentMessage "approve" (wallet "a") "a" "0")]

/-- A new intent whose bytes carry the counter 5. -/
def calls : List Call :=
  [create "a" 1 1 [key 2], propose "a" 0 0 (intentBody (wallet "a") 3 5), approve "a" 0 0 0 1,
   execute "a" 0 0 [key 9, intent "a" 3]]

end CounterSample

open CounterSample Sample in
theorem counter_exact_iff_sample :
    ∃ (tr : List (Runs.Event Accounts Call)) (s : Accounts),
      Runs.Run (program (Sample.env table)) tr s ∧ tr.map (·.label) = calls.reverse ∧
      ((∀ e ∈ tr, CounterExact (Sample.env table) e.post) ↔ ∀ e ∈ tr, Unseeded e) := by
  have hobs : observe (Sample.env table) calls (fun _ _ => ()) = some () := by decide +kernel
  obtain ⟨tr, s, hrun, hlabels, -⟩ := run_of_observe hobs
  exact ⟨tr, s, hrun, hlabels, counter_exact_iff hrun⟩

open CounterSample Sample in
/-- An intent without any proposal whose counter is 5. -/
theorem counter_seeded :
    ∃ (s : Accounts) (i : Intent), Runs.Reachable (program (Sample.env table)) s ∧
      s.intent? (intent "a" 3) = some i ∧ i.activeProposalCount = 5 ∧
      s.openProposals (intent "a" 3) = ∅ := by
  have hobs : observe (Sample.env table) calls (fun tr s => match tr with
      | e :: _ => (e.pre.intent? (intent "a" 3)).isNone &&
          decide ((s.intent? (intent "a" 3)).map (·.activeProposalCount) = some 5)
      | [] => false) = some true := by decide +kernel
  obtain ⟨tr, s, hrun, -, hstate⟩ := run_of_observe hobs
  cases tr with
  | nil => cases hstate
  | cons e tr =>
    simp only [Bool.and_eq_true, Option.isNone_iff_eq_none, decide_eq_true_eq] at hstate
    obtain ⟨hnone, hcount⟩ := hstate
    obtain ⟨hpre, hstep, rfl⟩ := hrun.last
    obtain ⟨i, hi, hi5⟩ := Option.map_eq_some_iff.mp hcount
    have hs := sound_of_reachable ⟨tr, hpre⟩
    exact ⟨e.post, i, ⟨_, hrun⟩, hi, hi5, (hs.effect hstep).openProposals_eq_empty hs hnone⟩

end ClearMsig
