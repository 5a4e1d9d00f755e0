import ClearMsig.Proofs.CounterProofs
import ClearMsig.Proofs.WalletProofs

/-!
# The numbers of proposals

A wallet numbers its proposals by a counter that never goes back. So a number stands for one proposal
for the rest of a run, also after the proposal has been removed (`Spent.of_effect`).
-/

namespace ClearMsig

open Function (update)
open Registry

variable {env : Env} {s s' : Accounts} {c : Call} {a : Address}

/-- Every proposal has a number that its wallet has given out, and no other proposal of the wallet has
it. -/
structure Numbered (s : Accounts) : Prop where
  lt : ∀ a p, s.proposal? a = some p → ∃ w, s.wallet? p.wallet = some w ∧
    p.proposalIndex.toNat < w.proposalIndex.toNat
  unique : ∀ a a' p p', s.proposal? a = some p → s.proposal? a' = some p' → p'.wallet = p.wallet →
    p'.proposalIndex = p.proposalIndex → a' = a

/-- Wallet `W` has given out number `n`, and its proposals with this number have the property `Φ` of
address and terms. -/
structure Spent (W : Address) (n : UInt64) (Φ : Address → Proposal → Prop) (s : Accounts) : Prop where
  given : ∃ w, s.wallet? W = some w ∧ n.toNat < w.proposalIndex.toNat
  holders : ∀ a p, s.proposal? a = some p → p.wallet = W → p.proposalIndex = n → Φ a p.terms

/-- A new proposal gets the number its wallet counts from. -/
theorem NewProposal.number {p : Proposal} (hnew : NewProposal env s c a p) :
    ∃ w, s.wallet? p.wallet = some w ∧ p.proposalIndex = w.proposalIndex := by
  cases hnew with
  | mk hc hacc hdata => exact ⟨_, Accounts.wallet?_of_eq hacc.wallet_eq, rfl⟩

/-- The wallet of a new proposal has counted it. -/
theorem Effect.counted_new (h : Effect env s c s') {p : Proposal} (hnew : NewProposal env s c a p) :
    ∃ w, s'.wallet? p.wallet = some w ∧ p.proposalIndex.toNat < w.proposalIndex.toNat := by
  cases hnew with
  | mk hc hacc hdata =>
    cases h with
    | created | approved | cancelled | addedIntent | removedIntent | cleaned => cases hc
    | proposed hacc' hdata' hwallet hintent hproposal =>
      cases hc
      obtain rfl := Option.some.inj ((Accounts.wallet?_of_eq hacc.wallet_eq).symm.trans
        (Accounts.wallet?_of_eq hacc'.wallet_eq))
      refine ⟨_, by rw [hwallet]; exact Function.update_self .., ?_⟩
      rw [index_add_one hacc.index_lt]
      exact Nat.lt_succ_self _

/-- A call makes at most one new proposal. -/
theorem NewProposal.addr_unique {a' : Address} {p p' : Proposal} (h : NewProposal env s c a p)
    (h' : NewProposal env s c a' p') : a' = a := by
  cases h with
  | mk hc hacc hdata =>
    cases h' with
    | mk hc' hacc' hdata' =>
      rw [hc] at hc'
      cases hc'
      obtain rfl := Option.some.inj ((Accounts.wallet?_of_eq hacc.wallet_eq).symm.trans
        (Accounts.wallet?_of_eq hacc'.wallet_eq))
      rfl

/-- No proposal has the number that is given out next. -/
theorem Numbered.ne_new (hn : Numbered s) {a' : Address} {p p' : Proposal} (hp : s.proposal? a = some p)
    (hnew : NewProposal env s c a' p') (hw : p'.wallet = p.wallet) :
    p'.proposalIndex ≠ p.proposalIndex := by
  intro heq
  obtain ⟨w, hw', hlt⟩ := hn.lt a p hp
  obtain ⟨w', hw'', hnum⟩ := hnew.number
  rw [hw, hw'] at hw''
  obtain rfl := Option.some.inj hw''
  rw [← heq, hnum] at hlt
  exact lt_irrefl _ hlt

theorem Numbered.of_effect (hn : Numbered s) (h : Effect env s c s') : Numbered s' := by
  constructor
  · intro a p' hp'
    rcases h.proposal_origin hp' with ⟨p, hp, hterms, -⟩ | ⟨-, hnew⟩
    · obtain ⟨w, hw, hlt⟩ := hn.lt a p hp
      obtain ⟨w', hw', hlater⟩ := h.wallet_later hw
      rw [Proposal.wallet_congr hterms, Proposal.proposalIndex_congr hterms]
      exact ⟨w', hw', hlt.trans_le hlater.index_le⟩
    · exact h.counted_new hnew
  · intro a a' p p' hp hp' hwallet hindex
    rcases h.proposal_origin hp with ⟨q, hq, hterms, -⟩ | ⟨-, hnew⟩
    · rcases h.proposal_origin hp' with ⟨q', hq', hterms', -⟩ | ⟨-, hnew'⟩
      · rw [Proposal.wallet_congr hterms, Proposal.wallet_congr hterms'] at hwallet
        rw [Proposal.proposalIndex_congr hterms, Proposal.proposalIndex_congr hterms'] at hindex
        exact hn.unique a a' q q' hq hq' hwallet hindex
      · rw [Proposal.wallet_congr hterms] at hwallet
        rw [Proposal.proposalIndex_congr hterms] at hindex
        exact absurd hindex (hn.ne_new hq hnew' hwallet)
    · rcases h.proposal_origin hp' with ⟨q', hq', hterms', -⟩ | ⟨-, hnew'⟩
      · rw [Proposal.wallet_congr hterms'] at hwallet
        rw [Proposal.proposalIndex_congr hterms'] at hindex
        exact absurd hindex.symm (hn.ne_new hq' hnew hwallet.symm)
      · exact hnew.addr_unique hnew'

theorem numbered_init : Numbered Accounts.none :=
  ⟨fun _ _ h => absurd h (by simp [Accounts.none]), fun _ _ _ _ h => absurd h (by simp [Accounts.none])⟩

/-- In every reachable state the proposals of a wallet are numbered. -/
theorem numbered_of_reachable (hr : Runs.Reachable (program env) s) : Numbered s := by
  obtain ⟨tr, hrun⟩ := hr
  induction hrun with
  | start h =>
    subst h
    exact numbered_init
  | next hr hstep ih => exact ih.of_effect ((sound_of_reachable ⟨_, hr⟩).effect hstep)

/-! ## Numbers over a run -/

variable {W : Address} {n : UInt64} {Φ : Address → Proposal → Prop}

/-- A number that has been given out keeps its holders. -/
theorem Spent.of_effect (hsp : Spent W n Φ s) (h : Effect env s c s') : Spent W n Φ s' := by
  obtain ⟨⟨w, hw, hlt⟩, hholders⟩ := hsp
  constructor
  · obtain ⟨w', hw', hlater⟩ := h.wallet_later hw
    exact ⟨w', hw', hlt.trans_le hlater.index_le⟩
  · intro a p' hp' hwallet hindex
    rcases h.proposal_origin hp' with ⟨p, hp, hterms, -⟩ | ⟨-, hnew⟩
    · rw [hterms]
      rw [Proposal.wallet_congr hterms] at hwallet
      rw [Proposal.proposalIndex_congr hterms] at hindex
      exact hholders a p hp hwallet hindex
    · obtain ⟨w', hw', hnum⟩ := hnew.number
      rw [hwallet, hw] at hw'
      obtain rfl := Option.some.inj hw'
      rw [← hindex, hnum] at hlt
      exact absurd hlt (lt_irrefl _)

/-- The number of a proposal is held by it alone. -/
theorem Numbered.spent (hn : Numbered s) {p : Proposal} (hp : s.proposal? a = some p) :
    Spent p.wallet p.proposalIndex (fun b t => b = a ∧ t = p.terms) s := by
  refine ⟨hn.lt a p hp, fun b q hq hwallet hindex => ?_⟩
  obtain rfl := hn.unique a b p q hp hq hwallet hindex
  obtain rfl := Option.some.inj (hp.symm.trans hq)
  exact ⟨rfl, rfl⟩

/-- The number of a proposal that is not there any more is held by none. -/
theorem Spent.nobody {t : Proposal} (hsp : Spent W n (fun b u => b = a ∧ u = t) s)
    (hnone : s.proposal? a = none) : Spent W n (fun _ _ => False) s := by
  refine ⟨hsp.given, fun b q hq hwallet hindex => ?_⟩
  obtain ⟨rfl, -⟩ := hsp.holders b q hq hwallet hindex
  rw [hnone] at hq
  cases hq

/-- What is known of a number after an event of a run is known at its end. -/
theorem Spent.of_run {later earlier : List (Runs.Event Accounts Call)} {e : Runs.Event Accounts Call}
    (hrun : Runs.Run (program env) (later ++ e :: earlier) s) (hsp : Spent W n Φ e.post) :
    Spent W n Φ s := by
  obtain ⟨hpre, hstep⟩ := hrun.split
  have hboth : Runs.Reachable (program env) s ∧ Spent W n Φ s := by
    refine hrun.since (P := fun t => Runs.Reachable (program env) t ∧ Spent W n Φ t)
      ⟨⟨_, hpre.next hstep⟩, hsp⟩ ?_
    rintro e' - ⟨hr, hsp'⟩ hstep'
    exact ⟨hr.next hstep', hsp'.of_effect ((sound_of_reachable hr).effect hstep')⟩
  exact hboth.2

end ClearMsig
