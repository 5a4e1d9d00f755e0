import ClearMsig.Invariant
import ClearMsig.Proofs.EffectsProofs

/-!
# The invariant holds in every reachable state

The proof has three parts:

1. An intent keeps its definition (`Effect.intent_step`, `Effect.intent_origin`).
2. A vote, an execution and a new proposal keep the votes tallied.
3. Approved proposals belong to meta-intents, so that every step from a sound state has one of the
   effects, and leads to a sound state (`Sound.step`).
-/

namespace ClearMsig

open Function (update)
open Registry

variable {env : Env} {s s' : Accounts} {c : Call}

/-! ## Intents -/

/-- What a step does to an intent: nothing, a proposal is counted or released, or the flag is cleared
while no proposal is counted. -/
inductive IntentStep (i : Intent) : Intent → Prop where
  | same : IntentStep i i
  | counted : IntentStep i { i with activeProposalCount := i.activeProposalCount + 1 }
  | released : IntentStep i i.releaseProposal
  | cleared (hcount : i.activeProposalCount = 0) : IntentStep i { i with approved := 0 }
  | clearedReleased (hcount : i.activeProposalCount = 0) :
      IntentStep i (Intent.releaseProposal { i with approved := 0 })

theorem IntentStep.definition {i i' : Intent} (h : IntentStep i i') : i'.definition = i.definition := by
  cases h <;> rfl

/-- An intent keeps its flag, or it is cleared while the counter is zero. -/
theorem IntentStep.approved {i i' : Intent} (h : IntentStep i i') :
    i'.approved = i.approved ∨
      (i.activeProposalCount = 0 ∧ i'.activeProposalCount = 0 ∧ i'.approved = 0) := by
  cases h with
  | same | counted | released => exact .inl rfl
  | cleared hcount => exact .inr ⟨hcount, hcount, rfl⟩
  | clearedReleased hcount =>
    refine .inr ⟨hcount, ?_, rfl⟩
    simp only [Intent.releaseProposal, hcount]
    rfl

theorem Cancel.vote_step (intent : Intent) (p : Proposal) (idx : UInt8) :
    IntentStep intent (Cancel.vote intent p idx).1 := by
  simp only [Cancel.vote]
  split_ifs
  · exact .released
  all_goals exact .same

namespace Intent

variable {i i' : Intent}

/-! The fields of a definition. -/

theorem wallet_congr (h : i'.definition = i.definition) : i'.wallet = i.wallet :=
  show i'.definition.wallet = i.definition.wallet by rw [h]

theorem intentIndex_congr (h : i'.definition = i.definition) : i'.intentIndex = i.intentIndex :=
  show i'.definition.intentIndex = i.definition.intentIndex by rw [h]

theorem intentType_congr (h : i'.definition = i.definition) : i'.intentType = i.intentType :=
  show i'.definition.intentType = i.definition.intentType by rw [h]

theorem approvers_congr (h : i'.definition = i.definition) : i'.approvers = i.approvers :=
  show i'.definition.approvers = i.definition.approvers by rw [h]

theorem approvalThreshold_congr (h : i'.definition = i.definition) :
    i'.approvalThreshold = i.approvalThreshold :=
  show i'.definition.approvalThreshold = i.definition.approvalThreshold by rw [h]

theorem cancellationThreshold_congr (h : i'.definition = i.definition) :
    i'.cancellationThreshold = i.cancellationThreshold :=
  show i'.definition.cancellationThreshold = i.definition.cancellationThreshold by rw [h]

theorem bytePool_congr (h : i'.definition = i.definition) : i'.bytePool = i.bytePool :=
  show i'.definition.bytePool = i.definition.bytePool by rw [h]

theorem thresholdsOk_congr (h : i'.definition = i.definition) : i'.ThresholdsOk ↔ i.ThresholdsOk := by
  rw [ThresholdsOk, ThresholdsOk, approvers_congr h, approvalThreshold_congr h,
    cancellationThreshold_congr h]

theorem Configured.congr (h : i'.definition = i.definition) (hi : i.Configured) : i'.Configured := by
  rwa [Configured, thresholdsOk_congr h, approvers_congr h, intentType_congr h]

end Intent

theorem Tallied.congr {i i' : Intent} {p : Proposal} (h : i'.definition = i.definition)
    (hp : Tallied i p) : Tallied i' p := by
  have happ := Intent.approvers_congr h
  obtain ⟨h1, h2, h3, h4, h5, h6⟩ := hp
  rw [← happ] at h2 h3 h6
  rw [← Intent.thresholdsOk_congr h, ← Intent.approvalThreshold_congr h] at h4
  rw [← Intent.thresholdsOk_congr h, ← Intent.cancellationThreshold_congr h] at h5
  exact ⟨h1, h2, h3, h4, h5, h6⟩

/-- Writing one value keeps a property of the value at an address if the written one has it there. -/
theorem update_some {f : Address → Option Intent} {a b : Address} {i v : Intent} {R : Intent → Prop}
    (hi : f a = some i) (hsame : R i) (hv : f b = some i → R v) :
    ∃ i', update f b (some v) a = some i' ∧ R i' := by
  by_cases h : a = b
  · subst h
    exact ⟨v, Function.update_self .., hv hi⟩
  · exact ⟨i, (Function.update_of_ne h ..).trans hi, hsame⟩

/-- Every intent stays, and one of these things happens to it. -/
theorem Effect.intent_step (h : Effect env s c s') {a : Address} {i : Intent}
    (hi : s.intent? a = some i) : ∃ i', s'.intent? a = some i' ∧ IntentStep i i' := by
  cases h with
  | created hw hchecked h₀ h₁ h₂ hfresh hfresh₀ hfresh₁ hfresh₂ hwallet hintent hproposal =>
    refine ⟨i, ?_, .same⟩
    rw [hintent, Function.update_of_ne (ne_of_fresh hi (Accounts.intent?_of_eq hfresh₂)),
      Function.update_of_ne (ne_of_fresh hi (Accounts.intent?_of_eq hfresh₁)),
      Function.update_of_ne (ne_of_fresh hi (Accounts.intent?_of_eq hfresh₀)), hi]
  | proposed h hdata hwallet hintent hproposal =>
    rw [hintent]
    refine update_some hi .same fun hj => ?_
    obtain rfl := Option.some.inj (hj.symm.trans (Accounts.intent?_of_eq h.intent_eq))
    exact .counted
  | approved h happroved hactive hbit hwallet hintent hproposal => exact ⟨i, hintent ▸ hi, .same⟩
  | cancelled h hopen hbit hwallet hintent hproposal =>
    rw [hintent]
    refine update_some hi .same fun hj => ?_
    obtain rfl := Option.some.inj (hj.symm.trans (Accounts.intent?_of_eq h.intent_eq))
    exact Cancel.vote_step ..
  | @addedIntent _ _ _ _ _ _ _ _ _ new h htype hnew hfresh hwallet hintent hproposal =>
    rw [hintent]
    refine update_some (update_fresh hi (Accounts.intent?_of_eq hfresh)) .same fun hj => ?_
    have hj' := update_fresh (o := some new) (Accounts.intent?_of_eq h.intent_eq)
      (Accounts.intent?_of_eq hfresh)
    obtain rfl := Option.some.inj (hj.symm.trans hj')
    exact .released
  | @removedIntent _ _ _ _ _ _ _ _ _ _ target _ h htype htarget hcount hreleased hwallet hintent =>
    rw [hintent]
    -- the flag of the target is cleared first, then the executed intent, maybe the same, is released
    obtain ⟨i₁, hi₁, hstep, hrelease⟩ := update_some (v := { target with approved := 0 })
        (R := fun j => IntentStep i j ∧ IntentStep i j.releaseProposal) hi ⟨.same, .released⟩ fun hj => by
      obtain rfl := Option.some.inj (hj.symm.trans (Accounts.intent?_of_eq htarget))
      exact ⟨.cleared hcount, .clearedReleased hcount⟩
    refine update_some hi₁ hstep fun hj => ?_
    obtain rfl := Option.some.inj (hj.symm.trans hreleased)
    exact hrelease
  | cleaned hp hclosed hwallet hintent hproposal => exact ⟨i, hintent ▸ hi, .same⟩

/-- Every intent stays, with its definition. -/
theorem Effect.intent_kept (h : Effect env s c s') {a : Address} {i : Intent}
    (hi : s.intent? a = some i) : ∃ i', s'.intent? a = some i' ∧ i'.definition = i.definition := by
  obtain ⟨i', hi', hstep⟩ := h.intent_step hi
  exact ⟨i', hi', hstep.definition⟩

/-- Every intent was there before, with its definition, or is new. -/
theorem Effect.intent_origin (h : Effect env s c s') {a : Address} {i' : Intent}
    (hi : s'.intent? a = some i') :
    (∃ i, s.intent? a = some i ∧ i'.definition = i.definition) ∨
      (s a = none ∧ NewIntent env s c a i') := by
  have old {i : Intent} (hi : s.intent? a = some i) :
      (∃ i₁, s.intent? a = some i₁ ∧ i.definition = i₁.definition) ∨
        (s a = none ∧ NewIntent env s c a i) := .inl ⟨i, hi, rfl⟩
  cases h with
  | created hw hchecked h₀ h₁ h₂ hfresh hfresh₀ hfresh₁ hfresh₂ hwallet hintent hproposal =>
    rw [hintent] at hi
    rcases update_origin hi with hi | ⟨rfl, rfl⟩
    · rcases update_origin hi with hi | ⟨rfl, rfl⟩
      · rcases update_origin hi with hi | ⟨rfl, rfl⟩
        · exact old hi
        · exact .inr ⟨hfresh₀, .ofWallet rfl hw hfresh hchecked (by decide) h₀⟩
      · exact .inr ⟨hfresh₁, .ofWallet rfl hw hfresh hchecked (by decide) h₁⟩
    · exact .inr ⟨hfresh₂, .ofWallet rfl hw hfresh hchecked (by decide) h₂⟩
  | proposed h hdata hwallet hintent hproposal =>
    rw [hintent] at hi
    rcases update_origin hi with hi | ⟨rfl, rfl⟩
    · exact old hi
    · exact .inl ⟨_, Accounts.intent?_of_eq h.intent_eq, rfl⟩
  | approved h happroved hactive hbit hwallet hintent hproposal => exact old (hintent ▸ hi)
  | cancelled h hopen hbit hwallet hintent hproposal =>
    rw [hintent] at hi
    rcases update_origin hi with hi | ⟨rfl, rfl⟩
    · exact old hi
    · exact .inl ⟨_, Accounts.intent?_of_eq h.intent_eq, (Cancel.vote_step ..).definition⟩
  | addedIntent h htype hnew hfresh hwallet hintent hproposal =>
    rw [hintent] at hi
    rcases update_origin hi with hi | ⟨rfl, rfl⟩
    · rcases update_origin hi with hi | ⟨rfl, rfl⟩
      · exact old hi
      · exact .inr ⟨hfresh, .ofBytes rfl h htype hnew⟩
    · exact .inl ⟨_, Accounts.intent?_of_eq h.intent_eq, rfl⟩
  | @removedIntent _ _ _ _ _ _ _ _ _ _ target released h htype htarget hcount hreleased hwallet hintent =>
    have htarget' := Accounts.intent?_of_eq htarget
    rw [hintent] at hi
    rcases update_origin hi with hi | ⟨rfl, rfl⟩
    · rcases update_origin hi with hi | ⟨rfl, rfl⟩
      · exact old hi
      · exact .inl ⟨_, htarget', rfl⟩
    · rcases update_origin hreleased with hi | ⟨rfl, rfl⟩
      · exact .inl ⟨_, hi, rfl⟩
      · exact .inl ⟨_, htarget', rfl⟩
  | cleaned hp hclosed hwallet hintent hproposal => exact old (hintent ▸ hi)

theorem NewIntent.configured {a : Address} {i : Intent} (h : NewIntent env s c a i) :
    i.Configured := by
  cases h with
  | @ofWallet _ args _ _ t _ hc hw hwallet hchecked ht h =>
    refine .inr ⟨⟨?_, ?_, ?_, ?_⟩, t, ?_, ht⟩
    · rw [h.approvalThreshold_eq]
      exact hchecked.approval_pos
    · rw [h.approvalThreshold_eq, h.approvers_eq]
      exact hchecked.approval_le
    · rw [h.cancellationThreshold_eq]
      exact hchecked.cancellation_pos
    · rw [h.cancellationThreshold_eq, h.approvers_eq]
      exact hchecked.cancellation_le
    · rw [h.intentType_eq]
      cases t <;> rfl
  | ofBytes hc hl ht h => exact .inl h.approvers_nil

/-- What the execution of an `AddIntent` stores, and where. -/
theorem Effect.addIntent_stores (h : Effect env s c s') {declared : Execute.Declared}
    {intentAddr proposalAddr : Address} {remaining : List AccountView} {i : Intent} {p : Proposal}
    (hc : c.ix = .execute declared intentAddr proposalAddr remaining)
    (hi : s.intent? intentAddr = some i) (ht : i.readType = .ok .addIntent)
    (hp : s.proposal? proposalAddr = some p) :
    ∃ w new, s.wallet? declared.wallet.address = some w ∧ Intent.FromBytes p.paramsData.toList new ∧
      s.intent? (env.intentPda declared.wallet.address (w.intentIndex + 1)) = none ∧
      s'.intent? (env.intentPda declared.wallet.address (w.intentIndex + 1)) = some new := by
  cases h with
  | created | proposed | approved | cancelled | cleaned => cases hc
  | addedIntent hl htype hnew hfresh hwallet hintent hproposal =>
    cases hc
    rw [Accounts.proposal?_of_eq hl.proposal_eq] at hp
    cases hp
    have hnone := Accounts.intent?_of_eq hfresh
    have hne := ne_of_fresh (Accounts.intent?_of_eq hl.intent_eq) hnone
    refine ⟨_, _, Accounts.wallet?_of_eq hl.wallet_eq, hnew, hnone, ?_⟩
    rw [hintent, Function.update_of_ne hne.symm, Function.update_self]
  | removedIntent hl htype htarget hcount hreleased hwallet hintent hproposal =>
    cases hc
    rw [Accounts.intent?_of_eq hl.intent_eq] at hi
    cases hi
    rw [htype] at ht
    cases ht

/-! ## Proposals -/

namespace Proposal

variable {p p' : Proposal}

theorem wallet_congr (h : p'.terms = p.terms) : p'.wallet = p.wallet :=
  show p'.terms.wallet = p.terms.wallet by rw [h]

theorem intent_congr (h : p'.terms = p.terms) : p'.intent = p.intent :=
  show p'.terms.intent = p.terms.intent by rw [h]

theorem proposalIndex_congr (h : p'.terms = p.terms) : p'.proposalIndex = p.proposalIndex :=
  show p'.terms.proposalIndex = p.terms.proposalIndex by rw [h]

theorem proposer_congr (h : p'.terms = p.terms) : p'.proposer = p.proposer :=
  show p'.terms.proposer = p.terms.proposer by rw [h]

theorem rentRefund_congr (h : p'.terms = p.terms) : p'.rentRefund = p.rentRefund :=
  show p'.terms.rentRefund = p.terms.rentRefund by rw [h]

theorem paramsData_congr (h : p'.terms = p.terms) : p'.paramsData = p.paramsData :=
  show p'.terms.paramsData = p.terms.paramsData by rw [h]

end Proposal

theorem Approve.vote_terms {intent : Intent} {p : Proposal} {clock : Int64} {idx : UInt8} :
    (Approve.vote intent p clock idx).terms = p.terms := by
  simp only [Approve.vote]
  split_ifs <;> rfl

theorem Cancel.vote_terms {intent : Intent} {p : Proposal} {idx : UInt8} :
    (Cancel.vote intent p idx).2.terms = p.terms := by
  simp only [Cancel.vote]
  split_ifs <;> rfl

/-- A new proposal has no votes. -/
theorem Tallied.newProposal {i : Intent} {walletAddr intentAddr payer : Address} {wallet : ClearWallet}
    {clock : Int64} {bump : UInt8} {args : ProposeArgs} {data : PodVec UInt8 512} :
    Tallied i (Propose.newProposal walletAddr intentAddr payer wallet clock bump args data) := by
  have hyes : (Propose.newProposal walletAddr intentAddr payer wallet clock bump args data).yes = ∅ :=
    Bitset.bits_zero
  have hno : (Propose.newProposal walletAddr intentAddr payer wallet clock bump args data).no = ∅ :=
    Bitset.bits_zero
  have hst : (Propose.newProposal walletAddr intentAddr payer wallet clock bump args data).status =
    .active := rfl
  refine ⟨?_, ?_, ?_, ?_, ?_, ?_⟩
  · rw [hyes]
    exact Finset.disjoint_empty_left _
  · simp [hyes]
  · simp [hno]
  · intro hth _
    have := hth.1
    rw [hst, hyes, Finset.card_empty]
    simp only [reduceCtorEq, false_iff]
    omega
  · intro hth _
    have := hth.2.2.1
    rw [hno, Finset.card_empty]
    omega
  · simp [hst]

/-- Execution keeps the votes and closes the proposal. -/
theorem Tallied.executed {i : Intent} {p : Proposal} (h : Tallied i p) :
    Tallied i { p with status := .executed } := by
  obtain ⟨h1, h2, h3, -, -, -⟩ := h
  have hclosed : ¬ Proposal.IsOpen { p with status := .executed } := by simp [Proposal.IsOpen]
  exact ⟨h1, h2, h3, fun _ ho => absurd ho hclosed, fun _ ho => absurd ho hclosed, by simp⟩

/-- In a sound state no custom proposal is approved. -/
theorem Sound.noCustomApproved (hs : Sound s) : s.NoCustomApproved := by
  intro a p i hp hst hi ht
  obtain ⟨j, hj, -, htally⟩ := hs.proposals a p hp
  obtain rfl := Option.some.inj (hi.symm.trans hj)
  rcases hs.intents p.intent i hi with hnil | ⟨-, t, hty, hne⟩
  · exact htally.voters hst hnil
  · rw [Intent.readType, hty] at ht
    exact hne (Except.ok.inj ht)

/-- Every step from a sound state has one of the effects. -/
theorem Sound.effect (hs : Sound s) (h : process env s c = .ok s') : Effect env s c s' :=
  effect_of_process hs.noCustomApproved h

/-- A proposal that is not touched stays tallied. -/
theorem Sound.kept (hs : Sound s) (h : Effect env s c s') {a : Address} {p : Proposal}
    (hp : s.proposal? a = some p) :
    ∃ i', s'.intent? p.intent = some i' ∧ i'.wallet = p.wallet ∧ Tallied i' p := by
  obtain ⟨i, hi, hw, htally⟩ := hs.proposals a p hp
  obtain ⟨i', hi', hd⟩ := h.intent_kept hi
  exact ⟨i', hi', (Intent.wallet_congr hd).trans hw, htally.congr hd⟩

/-- The votes of a proposal are tallied against the intent it names. -/
theorem Sound.tallied (hs : Sound s) {intentAddr proposalAddr : Address} {i : Intent} {p : Proposal}
    (hp : s proposalAddr = some (.proposal p)) (hpi : p.intent = intentAddr)
    (hi : s intentAddr = some (.intent i)) : Tallied i p := by
  obtain ⟨j, hj, -, ht⟩ := hs.proposals proposalAddr p (Accounts.proposal?_of_eq hp)
  rw [hpi, Accounts.intent?_of_eq hi] at hj
  cases hj
  exact ht

/-- A proposal of a known intent that is tallied after the step. -/
theorem Effect.tallied (h : Effect env s c s') {intentAddr walletAddr : Address} {i : Intent}
    {p' : Proposal} (hi : s intentAddr = some (.intent i)) (hw : i.wallet = walletAddr)
    (hpi : p'.intent = intentAddr) (hpw : p'.wallet = walletAddr) (ht : Tallied i p') :
    ∃ i', s'.intent? p'.intent = some i' ∧ i'.wallet = p'.wallet ∧ Tallied i' p' := by
  obtain ⟨i', hi', hd⟩ := h.intent_kept (Accounts.intent?_of_eq hi)
  exact ⟨i', hpi ▸ hi', (Intent.wallet_congr hd).trans (hw.trans hpw.symm), ht.congr hd⟩

/-- The list entry of an accepted vote. -/
theorem VoteAccepted.idx_lt {clock expiry : Int64} {walletAddr intentAddr proposalAddr voter : Address}
    {action msg : Bytes} {idx : UInt8} {signature : Signature} {wallet : ClearWallet}
    {intent : Intent} {proposal : Proposal}
    (h : VoteAccepted env clock s walletAddr intentAddr proposalAddr action expiry idx signature wallet
      intent proposal voter msg) : idx.toNat < intent.approvers.toList.length :=
  (List.getElem?_eq_some_iff.mp h.voter_eq).1

/-- Each effect preserves the invariant. -/
theorem Sound.of_effect (hs : Sound s) (h : Effect env s c s') : Sound s' := by
  refine ⟨fun a i' hi' => ?_, fun a p' hp' => ?_⟩
  · rcases h.intent_origin hi' with ⟨i, hi, hd⟩ | ⟨-, hnew⟩
    · exact (hs.intents a i hi).congr hd
    · exact hnew.configured
  · have heff := h
    cases h with
    | created hw hchecked h₀ h₁ h₂ hfresh hfresh₀ hfresh₁ hfresh₂ hwallet hintent hproposal =>
      exact hs.kept heff (hproposal ▸ hp')
    | proposed h hdata hwallet hintent hproposal =>
      rw [hproposal] at hp'
      rcases update_origin hp' with hp | ⟨-, rfl⟩
      · exact hs.kept heff hp
      · exact heff.tallied h.intent_eq h.has_one rfl rfl Tallied.newProposal
    | approved h happroved hactive hbit hwallet hintent hproposal =>
      rw [hproposal] at hp'
      rcases update_origin hp' with hp | ⟨-, rfl⟩
      · exact hs.kept heff hp
      · have ht := hs.tallied h.proposal_eq h.intent_addr h.intent_eq
        exact heff.tallied h.intent_eq h.has_one
          ((Proposal.intent_congr Approve.vote_terms).trans h.intent_addr)
          ((Proposal.wallet_congr Approve.vote_terms).trans h.wallet_addr) (ht.approve h.idx_lt hactive)
    | cancelled h hopen hbit hwallet hintent hproposal =>
      rw [hproposal] at hp'
      rcases update_origin hp' with hp | ⟨-, rfl⟩
      · exact hs.kept heff hp
      · have ht := hs.tallied h.proposal_eq h.intent_addr h.intent_eq
        exact heff.tallied h.intent_eq h.has_one
          ((Proposal.intent_congr Cancel.vote_terms).trans h.intent_addr)
          ((Proposal.wallet_congr Cancel.vote_terms).trans h.wallet_addr) (ht.cancel h.idx_lt hopen)
    | addedIntent h htype hnew hfresh hwallet hintent hproposal
    | removedIntent h htype htarget hcount hreleased hwallet hintent hproposal =>
      rw [hproposal] at hp'
      rcases update_origin hp' with hp | ⟨-, rfl⟩
      · exact hs.kept heff hp
      · have ht := hs.tallied h.proposal_eq h.intent_addr h.intent_eq
        exact heff.tallied h.intent_eq h.has_one h.intent_addr h.wallet_addr ht.executed
    | cleaned hp hclosed hwallet hintent hproposal =>
      rw [hproposal] at hp'
      exact hs.kept heff (update_none_origin hp').2

theorem sound_init : Sound Accounts.none :=
  ⟨fun _ _ h => absurd h (by simp [Accounts.none]), fun _ _ h => absurd h (by simp [Accounts.none])⟩

theorem Sound.step (hs : Sound s) (h : process env s c = .ok s') : Sound s' :=
  hs.of_effect (hs.effect h)

/-- The invariant holds in every reachable state. -/
theorem sound_of_reachable (h : Runs.Reachable (program env) s) : Sound s :=
  h.invariant (fun _ h0 => h0 ▸ sound_init) fun _ _ _ hs hstep => hs.step hstep

/-- What holds of every new intent and depends on its definition holds of every intent. -/
theorem intent_of_reachable {P : Intent → Prop} (hr : Runs.Reachable (program env) s)
    (congr : ∀ i i' : Intent, i'.definition = i.definition → P i → P i')
    (new : ∀ s c a i, NewIntent env s c a i → P i) {a : Address} {i : Intent}
    (hi : s.intent? a = some i) : P i := by
  obtain ⟨tr, hrun⟩ := hr
  induction hrun generalizing a i with
  | start h =>
    subst h
    exact absurd hi (by simp [Accounts.intent?, Accounts.none])
  | next hr hstep ih =>
    rcases ((sound_of_reachable ⟨_, hr⟩).effect hstep).intent_origin hi with ⟨j, hj, hd⟩ | ⟨-, hnew⟩
    · exact congr j i hd (ih hj)
    · exact new _ _ _ _ hnew

end ClearMsig
