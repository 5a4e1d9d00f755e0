import ClearMsig.Effects
import ClearMsig.Foundation.Registry

/-!
# Every step has an effect

Writing one account changes the map of its kind at one address; the other two maps stay as they are,
because an address that is written was unused before or holds the same kind.
-/

namespace ClearMsig

open Function (update)
open Registry

/-! ## The three maps -/

namespace AccountData

def wallet? : AccountData → Option ClearWallet
  | wallet w => some w
  | _ => none

def intent? : AccountData → Option Intent
  | intent i => some i
  | _ => none

def proposal? : AccountData → Option Proposal
  | proposal p => some p
  | _ => none

end AccountData

namespace Accounts

variable {s : Accounts} {a b : Address} {d : AccountData}

theorem wallet?_eq_bind (s : Accounts) (a : Address) : s.wallet? a = (s a).bind AccountData.wallet? := by
  unfold wallet?
  cases s a with
  | none => rfl
  | some d => cases d <;> rfl

theorem intent?_eq_bind (s : Accounts) (a : Address) : s.intent? a = (s a).bind AccountData.intent? := by
  unfold intent?
  cases s a with
  | none => rfl
  | some d => cases d <;> rfl

theorem proposal?_eq_bind (s : Accounts) (a : Address) :
    s.proposal? a = (s a).bind AccountData.proposal? := by
  unfold proposal?
  cases s a with
  | none => rfl
  | some d => cases d <;> rfl

/-- Overwriting one account changes every reading of the map at one address. -/
theorem bind_update {α : Type} (f : AccountData → Option α) (s : Accounts) (a : Address)
    (o : Option AccountData) :
    (fun b => (update s a o b).bind f) = update (fun b => (s b).bind f) a (o.bind f) := by
  funext b
  by_cases h : b = a
  · subst h
    simp only [Function.update_self]
  · simp only [Function.update_of_ne h]

theorem wallet?_set : (s.set a d).wallet? = update s.wallet? a d.wallet? := by
  rw [funext (wallet?_eq_bind _), funext (wallet?_eq_bind s)]
  exact bind_update _ s a (some d)

theorem intent?_set : (s.set a d).intent? = update s.intent? a d.intent? := by
  rw [funext (intent?_eq_bind _), funext (intent?_eq_bind s)]
  exact bind_update _ s a (some d)

theorem proposal?_set : (s.set a d).proposal? = update s.proposal? a d.proposal? := by
  rw [funext (proposal?_eq_bind _), funext (proposal?_eq_bind s)]
  exact bind_update _ s a (some d)

theorem wallet?_close : (s.close a).wallet? = update s.wallet? a Option.none := by
  rw [funext (wallet?_eq_bind _), funext (wallet?_eq_bind s)]
  exact bind_update _ s a Option.none

theorem intent?_close : (s.close a).intent? = update s.intent? a Option.none := by
  rw [funext (intent?_eq_bind _), funext (intent?_eq_bind s)]
  exact bind_update _ s a Option.none

theorem proposal?_close : (s.close a).proposal? = update s.proposal? a Option.none := by
  rw [funext (proposal?_eq_bind _), funext (proposal?_eq_bind s)]
  exact bind_update _ s a Option.none

theorem wallet?_of_eq {o : Option AccountData} (h : s a = o) : s.wallet? a = o.bind AccountData.wallet? :=
  h ▸ wallet?_eq_bind s a

theorem intent?_of_eq {o : Option AccountData} (h : s a = o) : s.intent? a = o.bind AccountData.intent? :=
  h ▸ intent?_eq_bind s a

theorem proposal?_of_eq {o : Option AccountData} (h : s a = o) :
    s.proposal? a = o.bind AccountData.proposal? :=
  h ▸ proposal?_eq_bind s a

end Accounts

/-! ## The effects -/

variable {env : Env} {s s' : Accounts}

theorem effect_createWallet {clock : Int64} {nameHash : Address} {args : CreateWalletArgs}
    (h : CreateWallet.create env s nameHash args = .ok s') :
    Effect env s ⟨clock, .createWallet nameHash args⟩ s' := by
  obtain ⟨w, i₀, i₁, i₂, hw, hchecked, h₀, h₁, h₂, s₀, s₁, s₂, bump, hfresh, rfl, hf₀, rfl, hf₁, rfl,
    hf₂, rfl⟩ := CreateWallet.of_create_eq_ok h
  obtain ⟨hne₀, hf₀⟩ := Accounts.of_set_eq_none hf₀
  obtain ⟨hne₁, hf₁⟩ := Accounts.of_set_eq_none hf₁
  obtain ⟨hne₁', hf₁⟩ := Accounts.of_set_eq_none hf₁
  obtain ⟨hne₂, hf₂⟩ := Accounts.of_set_eq_none hf₂
  obtain ⟨hne₂', hf₂⟩ := Accounts.of_set_eq_none hf₂
  obtain ⟨hne₂'', hf₂⟩ := Accounts.of_set_eq_none hf₂
  refine @Effect.created env s clock nameHash args _ w i₀ i₁ i₂ bump hw hchecked h₀ h₁ h₂ hfresh hf₀
    hf₁ hf₂ ?_ ?_ ?_
  · simp only [Accounts.wallet?_set, AccountData.wallet?]
    rw [update_none_of_ne hne₀ (Accounts.wallet?_of_eq hf₀),
      update_none_of_ne hne₁' (Accounts.wallet?_of_eq hf₁),
      update_none_of_ne hne₂'' (Accounts.wallet?_of_eq hf₂)]
  · simp only [Accounts.intent?_set, AccountData.intent?]
    rw [update_none (Accounts.intent?_of_eq hfresh)]
  · simp only [Accounts.proposal?_set, AccountData.proposal?]
    rw [update_none (Accounts.proposal?_of_eq hfresh), update_none (Accounts.proposal?_of_eq hf₀),
      update_none (Accounts.proposal?_of_eq hf₁), update_none (Accounts.proposal?_of_eq hf₂)]

theorem effect_propose {clock : Int64} {payer walletAddr intentAddr : Address} {args : ProposeArgs}
    (h : Propose.propose env clock s payer walletAddr intentAddr args = .ok s') :
    Effect env s ⟨clock, .propose payer walletAddr intentAddr args⟩ s' := by
  obtain ⟨wallet, intent, msg, data, hacc, hdata, rfl⟩ := Propose.propose_eq_ok.mp h
  have hfresh := hacc.fresh
  have hne : walletAddr ≠ intentAddr := Accounts.ne_of_data hacc.wallet_eq hacc.intent_eq (by simp)
  refine @Effect.proposed env s clock payer walletAddr intentAddr args _ wallet intent msg data
    (env.pdaBump (Env.proposalSeeds intentAddr wallet.proposalIndex)) hacc hdata ?_ ?_ ?_
  · simp only [Accounts.wallet?_set, AccountData.wallet?]
    rw [update_none (Accounts.wallet?_of_eq hfresh), update_none (Accounts.wallet?_of_eq hacc.intent_eq)]
  · simp only [Accounts.intent?_set, AccountData.intent?]
    rw [update_none (Accounts.intent?_of_eq hfresh),
      update_none_of_ne hne (Accounts.intent?_of_eq hacc.wallet_eq)]
  · have hneP {a : Address} {d : AccountData} (ha : s a = some d) :
        a ≠ env.proposalPda intentAddr wallet.proposalIndex := by
      rintro rfl
      rw [hfresh] at ha
      cases ha
    simp only [Accounts.proposal?_set, AccountData.proposal?]
    rw [update_none_of_ne (hneP hacc.intent_eq) (Accounts.proposal?_of_eq hacc.intent_eq),
      update_none_of_ne (hneP hacc.wallet_eq) (Accounts.proposal?_of_eq hacc.wallet_eq)]

theorem effect_approve {clock : Int64} {walletAddr intentAddr proposalAddr : Address}
    {args : ApproveArgs}
    (h : Approve.approve env clock s walletAddr intentAddr proposalAddr args = .ok s') :
    Effect env s ⟨clock, .approve walletAddr intentAddr proposalAddr args⟩ s' := by
  obtain ⟨wallet, intent, proposal, voter, msg, hacc, happ, hst, hbit, rfl⟩ :=
    Approve.approve_eq_ok.mp h
  refine .approved hacc happ hst hbit ?_ ?_ ?_
  · rw [Accounts.wallet?_set]
    exact update_none (Accounts.wallet?_of_eq hacc.proposal_eq)
  · rw [Accounts.intent?_set]
    exact update_none (Accounts.intent?_of_eq hacc.proposal_eq)
  · exact Accounts.proposal?_set

theorem effect_cancel {clock : Int64} {walletAddr intentAddr proposalAddr : Address}
    {args : CancelArgs}
    (h : Cancel.cancel env clock s walletAddr intentAddr proposalAddr args = .ok s') :
    Effect env s ⟨clock, .cancel walletAddr intentAddr proposalAddr args⟩ s' := by
  obtain ⟨wallet, intent, proposal, voter, msg, hacc, hopen, hbit, rfl⟩ := Cancel.cancel_eq_ok.mp h
  have hne : proposalAddr ≠ intentAddr :=
    Accounts.ne_of_data hacc.proposal_eq hacc.intent_eq (by simp)
  refine .cancelled hacc hopen hbit ?_ ?_ ?_
  · simp only [Accounts.wallet?_set, AccountData.wallet?]
    rw [update_none (Accounts.wallet?_of_eq hacc.intent_eq),
      update_none (Accounts.wallet?_of_eq hacc.proposal_eq)]
  · simp only [Accounts.intent?_set, AccountData.intent?]
    rw [update_none_of_ne hne (Accounts.intent?_of_eq hacc.proposal_eq)]
  · simp only [Accounts.proposal?_set, AccountData.proposal?]
    rw [update_none (Accounts.proposal?_of_eq hacc.intent_eq)]

theorem effect_cleanup {clock : Int64} {proposalAddr rentRefund : Address}
    (h : CleanupProposal.cleanup s proposalAddr rentRefund = .ok s') :
    Effect env s ⟨clock, .cleanupProposal proposalAddr rentRefund⟩ s' := by
  obtain ⟨proposal, hp, -, hclosed, rfl⟩ := CleanupProposal.cleanup_eq_ok.mp h
  refine .cleaned hp hclosed ?_ ?_ Accounts.proposal?_close
  · rw [Accounts.wallet?_close]
    exact update_none (Accounts.wallet?_of_eq hp)
  · rw [Accounts.intent?_close]
    exact update_none (Accounts.intent?_of_eq hp)

/-- The end of `execute` after an `AddIntent`. -/
theorem effect_addIntent {clock : Int64} {declared : Execute.Declared}
    {intentAddr proposalAddr : Address} {remaining : List AccountView} {wallet : ClearWallet}
    {intent : Intent} {proposal : Proposal} {s₁ : Accounts}
    (hl : Execute.Loaded env clock s declared.wallet.address intentAddr proposalAddr wallet intent
      proposal)
    (ht : intent.readType = .ok .addIntent)
    (hs₁ : Execute.executeAddIntent env s ⟨declared.wallet.address, intentAddr, proposalAddr, wallet,
      intent, proposal, declared, remaining⟩ = .ok s₁)
    (hfin : Execute.finish s₁ intentAddr proposalAddr = .ok s') :
    Effect env s ⟨clock, .execute declared intentAddr proposalAddr remaining⟩ s' := by
  obtain ⟨p, i, hp, hi, rfl⟩ := Execute.finish_eq_ok.mp hfin
  obtain ⟨new, hnew, hfresh, rfl⟩ := Execute.of_executeAddIntent_eq_ok hs₁
  simp only at hnew hfresh hp hi
  have hused {a : Address} {d : AccountData} (ha : s a = some d) :
      a ≠ env.intentPda declared.wallet.address (wallet.intentIndex + 1) := by
    rintro rfl
    rw [hfresh] at ha
    cases ha
  have hPW := Accounts.ne_of_data hl.proposal_eq hl.wallet_eq (by simp)
  have hIW := Accounts.ne_of_data hl.intent_eq hl.wallet_eq (by simp)
  have hIP := Accounts.ne_of_data hl.intent_eq hl.proposal_eq (by simp)
  have hNP := hused hl.proposal_eq
  have hNI := hused hl.intent_eq
  have hNW := hused hl.wallet_eq
  -- neither the proposal nor the executed intent has been touched
  rw [Accounts.set_of_ne hPW, Accounts.set_of_ne hNP, hl.proposal_eq] at hp
  rw [Accounts.set_of_ne hIP, Accounts.set_of_ne hIW, Accounts.set_of_ne hNI, hl.intent_eq] at hi
  cases hp
  cases hi
  refine .addedIntent hl ht hnew hfresh ?_ ?_ ?_
  · simp only [Accounts.wallet?_set, AccountData.wallet?]
    rw [update_none (Accounts.wallet?_of_eq hfresh),
      update_none_of_ne hPW (Accounts.wallet?_of_eq hl.proposal_eq),
      update_none_of_ne hIW (Accounts.wallet?_of_eq hl.intent_eq)]
  · simp only [Accounts.intent?_set, AccountData.intent?]
    rw [update_none_of_ne hNW (Accounts.intent?_of_eq hl.wallet_eq),
      update_none_of_ne hNP (Accounts.intent?_of_eq hl.proposal_eq)]
  · simp only [Accounts.proposal?_set, AccountData.proposal?]
    rw [update_none (Accounts.proposal?_of_eq hfresh),
      update_none (Accounts.proposal?_of_eq hl.wallet_eq),
      update_none_of_ne hIP (Accounts.proposal?_of_eq hl.intent_eq)]

/-- The end of `execute` after a `RemoveIntent`. -/
theorem effect_removeIntent {clock : Int64} {declared : Execute.Declared}
    {intentAddr proposalAddr : Address} {remaining : List AccountView} {wallet : ClearWallet}
    {intent : Intent} {proposal : Proposal} {s₁ : Accounts}
    (hl : Execute.Loaded env clock s declared.wallet.address intentAddr proposalAddr wallet intent
      proposal)
    (ht : intent.readType = .ok .removeIntent)
    (hs₁ : Execute.executeRemoveIntent env s ⟨declared.wallet.address, intentAddr, proposalAddr, wallet,
      intent, proposal, declared, remaining⟩ = .ok s₁)
    (hfin : Execute.finish s₁ intentAddr proposalAddr = .ok s') :
    Effect env s ⟨clock, .execute declared intentAddr proposalAddr remaining⟩ s' := by
  obtain ⟨p, i, hp, hi, rfl⟩ := Execute.finish_eq_ok.mp hfin
  obtain ⟨index, target, -, htarget, hcount, rfl⟩ := Execute.of_executeRemoveIntent_eq_ok hs₁
  simp only at htarget hp hi
  have hIP := Accounts.ne_of_data hl.intent_eq hl.proposal_eq (by simp)
  have hPT := Accounts.ne_of_data hl.proposal_eq htarget (by simp)
  rw [Accounts.set_of_ne hPT, hl.proposal_eq] at hp
  cases hp
  rw [Accounts.set_of_ne hIP] at hi
  have hreleased := Accounts.intent?_of_eq hi
  rw [Accounts.intent?_set] at hreleased
  refine .removedIntent hl ht htarget hcount hreleased ?_ ?_ ?_
  · simp only [Accounts.wallet?_set, AccountData.wallet?]
    rw [update_none (Accounts.wallet?_of_eq htarget),
      update_none (Accounts.wallet?_of_eq hl.proposal_eq),
      update_none (Accounts.wallet?_of_eq hl.intent_eq)]
  · simp only [Accounts.intent?_set, AccountData.intent?]
    rw [update_none_of_ne hPT (Accounts.intent?_of_eq hl.proposal_eq)]
  · simp only [Accounts.proposal?_set, AccountData.proposal?]
    rw [update_none (Accounts.proposal?_of_eq htarget),
      update_none_of_ne hIP (Accounts.proposal?_of_eq hl.intent_eq)]

theorem effect_execute {clock : Int64} {declared : Execute.Declared}
    {intentAddr proposalAddr : Address} {remaining : List AccountView} (hs : s.NoCustomApproved)
    (h : Execute.execute env clock s declared intentAddr proposalAddr remaining = .ok s') :
    Effect env s ⟨clock, .execute declared intentAddr proposalAddr remaining⟩ s' := by
  obtain ⟨wallet, intent, proposal, hl, s₁, hs₁, hfin⟩ := Execute.of_execute_eq_ok h
  obtain ⟨t, ht, hs₁⟩ := bind_eq_ok.mp hs₁
  cases t with
  | addIntent => exact effect_addIntent hl ht hs₁ hfin
  | removeIntent => exact effect_removeIntent hl ht hs₁ hfin
  | updateIntent => exact absurd hs₁ Execute.executeUpdateIntent_ne_ok
  | custom =>
    refine absurd ht (hs proposalAddr proposal intent ?_ hl.approved ?_)
    · simpa using hl.proposal_eq
    · simpa [hl.intent_addr] using hl.intent_eq

/-- Every step from a state without approved custom proposals has one of the effects. -/
theorem effect_of_process {c : Call} (hs : s.NoCustomApproved) (h : process env s c = .ok s') :
    Effect env s c s' := by
  obtain ⟨clock, ix⟩ := c
  cases ix with
  | createWallet nameHash args => exact effect_createWallet h
  | propose payer wallet intent args => exact effect_propose h
  | approve wallet intent proposal args => exact effect_approve h
  | cancel wallet intent proposal args => exact effect_cancel h
  | execute declared intent proposal remaining => exact effect_execute hs h
  | cleanupProposal proposal rentRefund => exact effect_cleanup h

end ClearMsig
