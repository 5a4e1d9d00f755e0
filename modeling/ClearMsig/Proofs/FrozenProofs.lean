import ClearMsig.Proofs.CounterProofs
import ClearMsig.Sample

/-!
# Open proposals are frozen

While a proposal is open, its terms and the definition and the flag of its intent stay what they were
when it was proposed: the counter of its intent is positive, and only an intent whose counter is zero
can be modified.
-/

namespace ClearMsig

variable {env : Env} {s s' : Accounts} {c : Call}

/-- The account at `a` holds an open proposal. -/
def Accounts.OpenAt (s : Accounts) (a : Address) : Prop := ∃ p, s.proposal? a = some p ∧ p.IsOpen

/-- Two intents that differ in the counter only. -/
def Intent.SameButCount (i i' : Intent) : Prop :=
  i' = { i with activeProposalCount := i'.activeProposalCount }

theorem Intent.sameButCount_of {i i' : Intent} (hd : i'.definition = i.definition)
    (ha : i'.approved = i.approved) : i.SameButCount i' := by
  cases i
  cases i'
  simp only [definition, Intent.mk.injEq] at hd
  simp only at ha
  simp only [SameButCount, Intent.mk.injEq]
  tauto

theorem Intent.SameButCount.trans {i j k : Intent} (h : i.SameButCount j) (h' : j.SameButCount k) :
    i.SameButCount k := by
  unfold SameButCount at *
  rw [h', h]

/-- A step leaves an open proposal its terms, and its intent everything but the counter. -/
theorem frozen_step (hs : Sound s) (hc : Counted s) (h : process env s c = .ok s') {a : Address}
    {p : Proposal} (hp : s.proposal? a = some p) (hopen : p.IsOpen) :
    ∃ p' i i', s'.proposal? a = some p' ∧ p'.terms = p.terms ∧ s.intent? p.intent = some i ∧
      i.isApproved = true ∧ s'.intent? p.intent = some i' ∧ i'.isApproved = true ∧
      i.SameButCount i' := by
  have heff := hs.effect h
  obtain ⟨p', hp', hterms⟩ := heff.proposal_kept hp hopen
  obtain ⟨i, hi, -, -⟩ := hs.proposals a p hp
  obtain ⟨i', hi', hd⟩ := heff.intent_kept hi
  have happ := hc.approved a p i hp hopen hi
  have hflag : i'.approved = i.approved := by
    rcases heff.approved_kept hi hi' with heq | ⟨hzero, -⟩
    · exact heq
    · exact absurd hzero (hc.pos hp hopen hi).ne'
  refine ⟨p', i, i', hp', hterms, hi, happ, hi', ?_, Intent.sameButCount_of hd hflag⟩
  rw [Intent.isApproved, hflag]
  exact happ

/-- What `propose` stores, and the intent it stores it for. -/
theorem stored_by_propose (h : process env s c = .ok s') {payer walletAddr intentAddr : Address}
    {args : ProposeArgs} {wallet : ClearWallet} (hc : c.ix = .propose payer walletAddr intentAddr args)
    (hw : s.wallet? walletAddr = some wallet) :
    ∃ p i i', s'.proposal? (env.proposalPda intentAddr wallet.proposalIndex) = some p ∧
      p.wallet = walletAddr ∧ p.intent = intentAddr ∧ p.proposalIndex = wallet.proposalIndex ∧
      p.proposer = args.proposerPubkey ∧ p.rentRefund = payer ∧
      p.paramsData.toList = args.paramsData ∧ s.intent? intentAddr = some i ∧
      s'.intent? intentAddr = some i' ∧ i.SameButCount i' := by
  obtain ⟨clock, ix⟩ := c
  simp only at hc
  subst hc
  have heff : Effect env s _ s' := effect_propose h
  cases heff with
  | @proposed _ _ _ _ _ _ _ i _ data bump hacc hdata hwallet hintent hproposal =>
    rw [Accounts.wallet?_of_eq hacc.wallet_eq] at hw
    cases hw
    refine ⟨Propose.newProposal walletAddr intentAddr payer wallet clock bump args data, i,
      { i with activeProposalCount := i.activeProposalCount + 1 }, ?_, rfl, rfl, rfl, rfl, rfl, hdata,
      Accounts.intent?_of_eq hacc.intent_eq, ?_, rfl⟩
    · rw [hproposal]
      exact Function.update_self ..
    · rw [hintent]
      exact Function.update_self ..

/-- What has stayed the same of an open proposal, at a later state. -/
structure Frozen (env : Env) (a : Address) (p₀ : Proposal) (i₀ : Intent) (s : Accounts) : Prop where
  reachable : Runs.Reachable (program env) s
  proposal : ∃ p, s.proposal? a = some p ∧ p.terms = p₀.terms
  intent : ∃ i, s.intent? p₀.intent = some i ∧ i₀.SameButCount i

theorem Frozen.step {a : Address} {p₀ : Proposal} {i₀ : Intent} (hf : Frozen env a p₀ i₀ s)
    (hopen : s.OpenAt a) (h : process env s c = .ok s') : Frozen env a p₀ i₀ s' := by
  obtain ⟨hr, ⟨p, hp, hterms⟩, i, hi, hsame⟩ := hf
  obtain ⟨q, hq, hqopen⟩ := hopen
  obtain rfl := Option.some.inj (hp.symm.trans hq)
  obtain ⟨p', j, i', hp', hterms', hj, -, hi', -, hsame'⟩ :=
    frozen_step (sound_of_reachable hr) (counted_of_reachable hr) h hp hqopen
  rw [Proposal.intent_congr hterms] at hj hi'
  obtain rfl := Option.some.inj (hi.symm.trans hj)
  exact ⟨hr.next h, ⟨p', hp', hterms'.trans hterms⟩, i', hi', hsame.trans hsame'⟩

/-- Frozen while open. In every reachable state, a step of any instruction leaves an open proposal its
wallet, intent, index, proposer, rent refund and parameters, and its intent approved and the same in
every field but the counter. In every run in which a proposal has been open since `propose` stored it,
they are what `propose` was given and the intent it was given for. -/
theorem frozen_while_open (env : Env) :
    (∀ (s s' : Accounts) (c : Call) (a : Address) (p : Proposal), Runs.Reachable (program env) s →
      process env s c = .ok s' → s.proposal? a = some p → p.IsOpen →
      ∃ p' i i', s'.proposal? a = some p' ∧ p'.terms = p.terms ∧ s.intent? p.intent = some i ∧
        i.isApproved = true ∧ s'.intent? p.intent = some i' ∧ i'.isApproved = true ∧
        i.SameButCount i') ∧
    (∀ (later earlier : List (Runs.Event Accounts Call)) (e : Runs.Event Accounts Call) (s : Accounts)
      (payer walletAddr intentAddr : Address) (args : ProposeArgs) (wallet : ClearWallet),
      Runs.Run (program env) (later ++ e :: earlier) s →
      e.label.ix = .propose payer walletAddr intentAddr args →
      e.pre.wallet? walletAddr = some wallet →
      (∀ e' ∈ later, e'.pre.OpenAt (env.proposalPda intentAddr wallet.proposalIndex)) →
      s.OpenAt (env.proposalPda intentAddr wallet.proposalIndex) →
      ∃ p i₀ i, s.proposal? (env.proposalPda intentAddr wallet.proposalIndex) = some p ∧
        p.wallet = walletAddr ∧ p.intent = intentAddr ∧ p.proposalIndex = wallet.proposalIndex ∧
        p.proposer = args.proposerPubkey ∧ p.rentRefund = payer ∧
        p.paramsData.toList = args.paramsData ∧ e.pre.intent? intentAddr = some i₀ ∧
        s.intent? intentAddr = some i ∧ i.isApproved = true ∧ i₀.SameButCount i) := by
  constructor
  · intro s s' c a p hr h hp hopen
    exact frozen_step (sound_of_reachable hr) (counted_of_reachable hr) h hp hopen
  · intro later earlier e s payer walletAddr intentAddr args wallet hrun hix hw hlater hs
    obtain ⟨hpre, hstep⟩ := hrun.split
    obtain ⟨p₀, i₀, i₁, hp₀, hwallet, hintent, hindex, hproposer, hrent, hdata, hi₀, hi₁, hsame₁⟩ :=
      stored_by_propose hstep hix hw
    have hpost : Frozen env (env.proposalPda intentAddr wallet.proposalIndex) p₀ i₀ e.post :=
      ⟨⟨_, hpre.next hstep⟩, ⟨p₀, hp₀, rfl⟩, i₁, hintent ▸ hi₁, hsame₁⟩
    obtain ⟨hr, ⟨p, hp, hterms⟩, i, hi, hsame⟩ :=
      hrun.since hpost fun e' he' hf hstep' => hf.step (hlater e' he') hstep'
    obtain ⟨q, hq, hqopen⟩ := hs
    obtain rfl := Option.some.inj (hp.symm.trans hq)
    have hpi : p.intent = intentAddr := (Proposal.intent_congr hterms).trans hintent
    rw [hintent] at hi
    have happ := (counted_of_reachable hr).approved _ p i hp hqopen (hpi ▸ hi)
    refine ⟨p, i₀, i, hp, (Proposal.wallet_congr hterms).trans hwallet, hpi,
      (Proposal.proposalIndex_congr hterms).trans hindex,
      (Proposal.proposer_congr hterms).trans hproposer,
      (Proposal.rentRefund_congr hterms).trans hrent, ?_, hi₀, hi, happ, hsame⟩
    rw [Proposal.paramsData_congr hterms, hdata]

namespace FrozenSample

open Sample

def table : List (Address × Bytes) :=
  [(key 1, message "expires 1970-01-01 00:16:40: propose remove intent 2 | wallet: a proposal: 0"),
   (key 2, message "expires 1970-01-01 00:16:40: approve remove intent 2 | wallet: a proposal: 0")]

/-- A proposal and the first of two approvals. -/
def calls : List Call :=
  [create "a" 2 2 [key 2, key 3], propose "a" 1 0 [2], approve "a" 1 0 0 1]

/-- Whether a proposal is open. -/
def isOpenAt (s : Accounts) (a : Address) : Bool :=
  (s.proposal? a).any fun p => decide p.IsOpen

/-- The proposal is open before the approval and at the end, and it is the wallet's first. -/
def openThroughout (tr : List (Runs.Event Accounts Call)) (s : Accounts) : Bool :=
  match tr with
  | [e₂, e₁, _] =>
    isOpenAt e₂.pre (proposal "a" 1 0) && isOpenAt s (proposal "a" 1 0) &&
      decide ((e₁.pre.wallet? (wallet "a")).map (·.proposalIndex) = some 0)
  | _ => false

theorem openAt_of_isOpenAt {s : Accounts} {a : Address} (h : isOpenAt s a = true) : s.OpenAt a := by
  unfold isOpenAt at h
  cases hp : s.proposal? a with
  | none => simp [hp] at h
  | some p =>
    rw [hp, Option.any_some] at h
    exact ⟨p, hp, of_decide_eq_true h⟩

end FrozenSample

open FrozenSample Sample in
theorem frozen_while_open_sample :
    (∃ (s s' : Accounts) (p p' : Proposal) (i i' : Intent),
      s.proposal? (proposal "a" 1 0) = some p ∧ p.IsOpen ∧
      process (Sample.env table) s (approve "a" 1 0 0 1) = .ok s' ∧
      s'.proposal? (proposal "a" 1 0) = some p' ∧ p'.terms = p.terms ∧
      s'.intent? p.intent = some i' ∧ i.SameButCount i') ∧
    ∃ (s : Accounts) (p : Proposal) (i : Intent), s.proposal? (proposal "a" 1 0) = some p ∧
      p.paramsData.toList = [2] ∧ s.intent? (intent "a" 1) = some i ∧ i.isApproved = true := by
  have hobs : observe (Sample.env table) calls openThroughout = some true := by
    rw [table, message_ofList, message_ofList]
    decide +kernel
  obtain ⟨tr, s, hrun, hlabels, hstate⟩ := run_of_observe hobs
  obtain ⟨hstep, hsince⟩ := frozen_while_open (Sample.env table)
  unfold openThroughout at hstate
  split at hstate
  · rename_i e₂ e₁ e₀
    simp only [Bool.and_eq_true, decide_eq_true_eq] at hstate
    obtain ⟨⟨hopen₂, hopen⟩, hindex⟩ := hstate
    simp only [calls, List.map_cons, List.map_nil, List.reverse_cons, List.reverse_nil,
      List.nil_append, List.cons_append, List.cons.injEq, and_true] at hlabels
    obtain ⟨hl₂, hl₁, -⟩ := hlabels
    obtain ⟨w, hw, hwi⟩ := Option.map_eq_some_iff.mp hindex
    have hrun₂ : Runs.Run (program (Sample.env table)) ([] ++ e₂ :: [e₁, e₀]) s := hrun
    have hrun₁ : Runs.Run (program (Sample.env table)) ([e₂] ++ e₁ :: [e₀]) s := hrun
    constructor
    · obtain ⟨hpre, hproc⟩ := hrun₂.split
      rw [hl₂] at hproc
      obtain ⟨p, hp, hp_open⟩ := openAt_of_isOpenAt hopen₂
      obtain ⟨p', i, i', hp', hterms, -, -, hi', -, hsame⟩ :=
        hstep e₂.pre e₂.post _ _ p ⟨_, hpre⟩ hproc hp hp_open
      exact ⟨e₂.pre, e₂.post, p, p', i, i', hp, hp_open, hproc, hp', hterms, hi', hsame⟩
    · have haddr : (Sample.env table).proposalPda (intent "a" 1) w.proposalIndex =
          proposal "a" 1 0 := by
        rw [hwi]
        rfl
      obtain ⟨p, -, i, hp, -, -, -, -, -, hdata, -, hi, happ, -⟩ :=
        hsince [e₂] [e₀] e₁ s (key 9) (wallet "a") (intent "a" 1) ⟨1000, key 1, sig 0, [2]⟩ w hrun₁
          (by rw [hl₁]; rfl) hw
          (fun e' he' => by
            rw [List.mem_singleton.mp he', haddr]
            exact openAt_of_isOpenAt hopen₂)
          (haddr ▸ openAt_of_isOpenAt hopen)
      exact ⟨s, p, i, haddr ▸ hp, hdata, hi, happ⟩
  · cases hstate

end ClearMsig
