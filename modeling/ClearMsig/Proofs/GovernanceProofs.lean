import ClearMsig.Proofs.BoardProofs
import ClearMsig.Proofs.ConfigurationProofs
import ClearMsig.Proofs.IsolationProofs
import ClearMsig.Proofs.LocalityProofs

/-!
# What governance cannot do

Three limits of the program, over whole runs. A wallet never loses its `RemoveIntent`: the removal of an
intent needs an open proposal of another one. A proposal on an intent without approvers, as those that
`execute_add_intent` stores, stays as it was proposed for ever. And no run ever gets to a cross-program
invocation. The first two are facts about boards.
-/

namespace ClearMsig

open Function (update)
open Registry
open Motions

variable {env : Env} {s s' : Accounts} {c : Call} {a W : Address}

namespace Board

variable {locate : Address → UInt8 → Address} {b b' : Board} {x : Act} {r : Address} {i : Intent}

/-! ## The rule to remove rules -/

/-- Every rule to remove rules that has members is the one of its wallet, and every motion belongs to the
wallet of its rule. -/
structure Governed (locate : Address → UInt8 → Address) (b : Board) : Prop where
  removers : ∀ r i, b.rules r = some i → i.readType = .ok .removeIntent → i.approvers.toList ≠ [] →
    r = locate i.wallet 1
  motions : ∀ a m, b.motions a = some m → ∃ i, b.rules m.terms.intent = some i ∧ i.wallet = m.terms.wallet

/-- A new rule that is no remover, or the one of its wallet. -/
theorem removers_adopt (hb : ∀ r i, b.rules r = some i → i.readType = .ok .removeIntent →
      i.approvers.toList ≠ [] → r = locate i.wallet 1) {new : Intent}
    (hnew : new.readType = .ok .removeIntent → new.approvers.toList ≠ [] → a = locate new.wallet 1) :
    ∀ r i, (b.adopt a new).rules r = some i → i.readType = .ok .removeIntent →
      i.approvers.toList ≠ [] → r = locate i.wallet 1 := by
  intro r i hi ht hmembers
  rcases update_origin hi with hi | ⟨rfl, rfl⟩
  · exact hb r i hi ht hmembers
  · exact hnew ht hmembers

theorem Step.governed (h : Step locate b x b') (hb : b.Governed locate) : b'.Governed locate := by
  have hkept : ∀ m : Motion Nat Proposal,
      (∃ i, b.rules m.terms.intent = some i ∧ i.wallet = m.terms.wallet) →
      ∃ i, b'.rules m.terms.intent = some i ∧ i.wallet = m.terms.wallet := by
    rintro m ⟨i, hi, hw⟩
    exact ⟨i, h.rules_kept hi, hw⟩
  have hrecord {a₀ : Address} {m₀ : Motion Nat Proposal} (hmotions : b'.motions = update b.motions a₀ (some m₀))
      (hm₀ : ∃ i, b.rules m₀.terms.intent = some i ∧ i.wallet = m₀.terms.wallet) :
      ∀ a m, b'.motions a = some m → ∃ i, b'.rules m.terms.intent = some i ∧ i.wallet = m.terms.wallet := by
    intro a m hm
    rw [hmotions] at hm
    rcases update_origin hm with hm | ⟨rfl, rfl⟩
    · exact hkept m (hb.motions a m hm)
    · exact hkept m hm₀
  cases h with
  | found h₀ h₁ h₂ =>
    refine ⟨?_, fun a m hm => hkept m (hb.motions a m hm)⟩
    refine removers_adopt (removers_adopt (removers_adopt hb.removers ?_) ?_) ?_
    · exact fun ht => absurd (h₀.type_eq.symm.trans ht) (by simp)
    · exact fun _ _ => by rw [h₁.wallet_eq]
    · exact fun ht => absurd (h₂.type_eq.symm.trans ht) (by simp)
  | move hrule hwallet hforce hproposer hfresh =>
    exact ⟨hb.removers, hrecord rfl ⟨_, hrule, hwallet⟩⟩
  | vote hm hrule hforce hk h =>
    refine ⟨hb.removers, hrecord rfl ?_⟩
    rw [h.terms]
    exact hb.motions _ _ hm
  | add hm hrule hmembers hready htype hnew hfresh =>
    refine ⟨removers_adopt hb.removers fun _ hne => ?_, hrecord rfl (hb.motions _ _ hm :)⟩
    exact absurd hnew.approvers_nil hne
  | remove hm hrule hmembers hready htype hk hidle => exact ⟨hb.removers, hrecord rfl (hb.motions _ _ hm :)⟩
  | clear hm hended =>
    exact ⟨hb.removers, fun a m hm => hkept m (hb.motions a m (update_none_origin hm).2)⟩

/-- A rule with members is in force. -/
def ForceAt (b : Board) (r : Address) : Prop :=
  ∀ i, b.rules r = some i → i.approvers.toList ≠ [] → r ∈ b.inForce

theorem ForceAt.adopt (h : b.ForceAt r) {new : Intent}
    (hnew : new.approvers.toList ≠ [] → new.isApproved = true) : (b.adopt a new).ForceAt r := by
  intro i hi hmembers
  rcases update_origin hi with hi | ⟨rfl, rfl⟩
  · have hr := h i hi hmembers
    rw [Board.adopt]
    split_ifs
    · exact Set.mem_insert_of_mem _ hr
    · exact hr
  · rw [Board.adopt, if_pos (hnew hmembers)]
    exact Set.mem_insert _ _

/-- The rule of a wallet to remove rules stays in force. A motion that names it would be open under it. -/
theorem Step.remover_inForce (hW : ∀ W' k, locate W' k = locate W 1 → W' = W ∧ k = 1)
    (hg : b.Governed locate) (h : Step locate b x b') (hb : b.ForceAt (locate W 1)) :
    b'.ForceAt (locate W 1) := by
  cases h with
  | found h₀ h₁ h₂ =>
    exact ((hb.adopt fun _ => h₀.approved).adopt fun _ => h₁.approved).adopt fun _ => h₂.approved
  | add hm hrule hmembers hready htype hnew hfresh =>
    exact hb.adopt fun hne => absurd hnew.approvers_nil hne
  | @remove t a m i k hm hrule hmembers hready htype hk hidle =>
    intro j hj hne
    refine ⟨hb j hj hne, fun heq => ?_⟩
    obtain ⟨hwallet, rfl⟩ := hW _ _ heq.symm
    obtain ⟨i', hi', hown⟩ := hg.motions a m hm
    cases hrule.symm.trans hi'
    have hopen : a ∈ b.openMotions (locate m.terms.wallet 1) :=
      ⟨m, hm, hown ▸ hg.removers _ _ hrule htype hmembers, hready.isOpen⟩
    rw [hidle] at hopen
    exact hopen
  | move | vote | clear => exact hb

end Board

/-- The rule of a wallet to remove rules is in force on every board. -/
theorem Board.forceAt_of_reachable {locate : Address → UInt8 → Address} {b : Board}
    (hW : ∀ W' k, locate W' k = locate W 1 → W' = W ∧ k = 1) (h : Runs.Reachable (Board.system locate) b) :
    b.ForceAt (locate W 1) := by
  have hboth : b.Governed locate ∧ b.ForceAt (locate W 1) := by
    refine h.invariant (P := fun b => b.Governed locate ∧ b.ForceAt (locate W 1)) ?_
      fun _ _ _ hb hstep => ⟨hstep.governed hb.1, hstep.remover_inForce hW hb.1 hb.2⟩
    rintro _ rfl
    exact ⟨⟨fun _ _ hi => (nomatch hi), fun _ _ hm => (nomatch hm)⟩, fun _ hi => (nomatch hi)⟩
  exact hboth.2

/-- The meta-intents of a wallet are there. -/
theorem metaIntents_of_reachable (hr : Runs.Reachable (program env) s) {w : ClearWallet}
    (hw : s.wallet? W = some w) : ∀ m ∈ CreateWallet.metaIntents, ∃ i,
      s.intent? (env.intentPda W m.1) = some i ∧ i.wallet = W ∧ i.readType = .ok m.2 ∧ i.ThresholdsOk := by
  intro m hm
  obtain ⟨tr, hrun⟩ := hr
  induction hrun generalizing w with
  | start h =>
    subst h
    exact absurd hw (by simp [Accounts.wallet?, Accounts.none])
  | @next tr s s' c hr hs ih =>
    have heff := (sound_of_reachable ⟨_, hr⟩).effect hs
    rcases heff.wallet_origin hw with ⟨w₁, hw₁, -⟩ | ⟨nameHash, args, hix, rfl, -⟩
    · obtain ⟨i, hi, hwallet, ht, hth⟩ := ih hw₁
      obtain ⟨i', hi', hd⟩ := heff.intent_kept hi
      refine ⟨i', hi', (Intent.wallet_congr hd).trans hwallet, ?_, (Intent.thresholdsOk_congr hd).mpr hth⟩
      rw [Intent.readType, Intent.intentType_congr hd, ← Intent.readType, ht]
    · obtain ⟨clock, ix⟩ := c
      subst hix
      obtain ⟨i, hi, hstored⟩ := (CreateWallet.stores_of_create hs).intents m hm
      obtain ⟨_, _, _, _, rfl, hchecked, -⟩ := CreateWallet.of_create_eq_ok hs
      have hmeta := hstored.toMetaIntent
      exact ⟨i, hi, hmeta.wallet_eq, hmeta.readType_eq, hmeta.thresholdsOk hchecked⟩

/-- The `RemoveIntent` of a wallet is there and in force. -/
theorem remover_of_reachable (hr : Runs.Reachable (program env) s) (hinj : PdaInjective env s) {w : ClearWallet}
    (hw : s.wallet? W = some w) :
    ∃ i, s.intent? (env.intentPda W 1) = some i ∧ i.wallet = W ∧ i.readType = .ok .removeIntent ∧
      i.ThresholdsOk ∧ i.isApproved = true := by
  obtain ⟨i, hi, hwallet, ht, hth⟩ := metaIntents_of_reachable hr hw (1, .removeIntent)
    (by simp [CreateWallet.metaIntents])
  have hforce := Board.forceAt_of_reachable (fun W' k h => hinj W 1 W' k w hw h) ((implements_board env).reachable hr)
  obtain ⟨i', hi', happ⟩ := hforce i.definition (board_intent (Accounts.intent?_eq_some.mp hi)) (by
    intro hnil
    have hle := hth.1.trans hth.2.1
    have hnil' : i.approvers.toList = [] := hnil
    rw [hnil'] at hle
    exact absurd hle (by decide))
  cases hi.symm.trans hi'
  exact ⟨i, hi, hwallet, ht, hth, happ⟩

/-- A wallet never loses its `RemoveIntent`: in every reachable state its intent at index 1 is approved, is
of that type and has thresholds its approvers can reach. -/
theorem remover_in_force (hr : Runs.Reachable (program env) s) (hinj : PdaInjective env s) {w : ClearWallet}
    (hw : s.wallet? W = some w) :
    ∃ i, s.intent? (env.intentPda W 1) = some i ∧ i.isApproved = true ∧ i.wallet = W ∧
      i.readType = .ok .removeIntent ∧ i.ThresholdsOk := by
  obtain ⟨i, hi, hwallet, ht, hth, happ⟩ := remover_of_reachable hr hinj hw
  exact ⟨i, hi, happ, hwallet, ht, hth⟩

open IsolationSample Sample in
theorem remover_in_force_sample :
    ∃ (s : Accounts) (i : Intent), Runs.Reachable (program (Sample.env table)) s ∧
      s.intent? ((Sample.env table).intentPda (wallet "a") 1) = some i ∧ i.isApproved = true := by
  have hobs : observe (Sample.env table) calls (fun _ s => (s.wallet? (wallet "a")).isSome) = some true := by
    rw [table, message_ofList]
    decide +kernel
  obtain ⟨tr, s, hrun, hlabels, hsome⟩ := run_of_observe hobs
  obtain ⟨w, hw⟩ := Option.isSome_iff_exists.mp hsome
  have hinj : PdaInjective (Sample.env table) s := by
    refine pdaInjective_of_short hrun ?_
    rw [hlabels]
    decide +kernel
  obtain ⟨i, hi, happ, -⟩ := remover_in_force ⟨tr, hrun⟩ hinj hw
  exact ⟨s, i, ⟨tr, hrun⟩, hi, happ⟩

/-! ## Proposals that nobody can vote on -/

namespace Board

variable {locate : Address → UInt8 → Address} {b b' : Board} {x : Act} {i : Intent} {m : Motion Nat Proposal}

/-- A motion under a rule without members is as it was put. -/
def Unheard (b : Board) : Prop :=
  ∀ a m i, b.motions a = some m → b.rules m.terms.intent = some i → i.approvers.toList = [] →
    m = .new m.terms

/-- Nothing happens to an open motion under a rule without members. -/
theorem Step.motion_kept (h : Step locate b x b') (hm : b.motions a = some m)
    (hi : b.rules m.terms.intent = some i) (hnil : i.approvers.toList = []) (hopen : m.outcome = none) :
    b'.motions a = some m := by
  have hother {a₀ : Address} {m₀ : Motion Nat Proposal} (hm₀ : b.motions a₀ = some m₀)
      (hne : m ≠ m₀) {o : Option (Motion Nat Proposal)} : update b.motions a₀ o a = some m := by
    refine (Function.update_of_ne ?_ ..).trans hm
    rintro rfl
    exact hne (Option.some.inj (hm.symm.trans hm₀))
  cases h with
  | found => exact hm
  | move _ _ _ _ hfresh => exact update_fresh hm hfresh
  | vote hm₀ hrule _ hk _ =>
    refine hother hm₀ ?_
    rintro rfl
    cases hi.symm.trans hrule
    rw [hnil] at hk
    exact absurd hk (Nat.not_lt_zero _)
  | add hm₀ hrule hmembers | remove hm₀ hrule hmembers =>
    refine hother hm₀ ?_
    rintro rfl
    cases hi.symm.trans hrule
    exact hmembers hnil
  | clear hm₀ hended =>
    refine hother hm₀ ?_
    rintro rfl
    cases hopen.symm.trans hended

theorem Step.unheard (h : Step locate b x b') (hfair : b.Fair) (hb : b.Unheard) : b'.Unheard := by
  intro a m i hm hi hnil
  have hold (hm : b.motions a = some m) : m = .new m.terms := by
    obtain ⟨j, hj, -⟩ := hfair a m hm
    cases hi.symm.trans (h.rules_kept hj)
    exact hb a m i hm hj hnil
  have hmember {m₀ : Motion Nat Proposal} {i₀ : Intent} (hr₀ : b.rules m₀.terms.intent = some i₀)
      (hne : i₀.approvers.toList ≠ []) (heq : m.terms = m₀.terms) : m = .new m.terms := by
    rw [← heq] at hr₀
    cases hi.symm.trans (h.rules_kept hr₀)
    exact absurd hnil hne
  cases h with
  | found => exact hold hm
  | move =>
    rcases update_origin hm with hm | ⟨rfl, rfl⟩
    · exact hold hm
    · rfl
  | vote hm₀ hrule _ hk hvote =>
    rcases update_origin hm with hm | ⟨rfl, rfl⟩
    · exact hold hm
    · exact hmember hrule (List.ne_nil_of_length_pos (Nat.zero_lt_of_lt hk)) hvote.terms
  | add hm₀ hrule hmembers | remove hm₀ hrule hmembers =>
    rcases update_origin hm with hm | ⟨rfl, rfl⟩
    · exact hold hm
    · exact hmember hrule hmembers rfl
  | clear => exact hold (update_none_origin hm).2

theorem unheard_of_reachable (h : Runs.Reachable (system locate) b) : b.Unheard := by
  have hboth : b.Fair ∧ b.Unheard := by
    refine h.invariant (P := fun b => b.Fair ∧ b.Unheard) ?_
      fun _ _ _ hb hstep => ⟨hstep.fair hb.1, hstep.unheard hb.1 hb.2⟩
    rintro _ rfl
    exact ⟨fun _ _ hm => (nomatch hm), fun _ _ _ hm => (nomatch hm)⟩
  exact hboth.2

end Board

/-- A motion nobody has voted on is that of a proposal in its first state. -/
theorem Proposal.eq_terms {p : Proposal} (h : p.motion = .new p.terms) (hst : p.status = .active)
    (hd : Disjoint p.yes p.no) : p = p.terms := by
  have hyes : p.yes = ∅ := by
    rw [← Finset.coe_eq_empty, ← backers_yea, h]
    exact Set.eq_empty_iff_forall_notMem.mpr fun _ hk => nomatch hk
  have hno : p.no = ∅ := by
    rw [← Finset.coe_eq_empty, ← backers_nay hd, h]
    exact Set.eq_empty_iff_forall_notMem.mpr fun _ hk => nomatch hk
  have hat : p.approvedAt = 0 := Int64.toInt_inj.mp (congrArg Motion.since h)
  have happrovals : p.approvalBitmap = 0 := Bitset.bits_injective (hyes.trans Bitset.bits_zero.symm)
  have hcancellations : p.cancellationBitmap = 0 := Bitset.bits_injective (hno.trans Bitset.bits_zero.symm)
  cases p
  simp only at hst hat happrovals hcancellations
  subst hst hat happrovals hcancellations
  rfl

/-- A proposal on an intent without approvers is as it was proposed. -/
theorem eq_terms_of_nobody (hr : Runs.Reachable (program env) s) {p : Proposal} {i : Intent}
    (hp : s.proposal? a = some p) (hi : s.intent? p.intent = some i) (hnil : i.approvers.toList = []) :
    p.status = .active ∧ p = p.terms := by
  obtain ⟨j, hj, -, ht⟩ := (sound_of_reachable hr).proposals a p hp
  cases hi.symm.trans hj
  have hnew := Board.unheard_of_reachable ((implements_board env).reachable hr) a p.motion i.definition
    (board_proposal (Accounts.proposal?_eq_some.mp hp)) (board_intent (Accounts.intent?_eq_some.mp hi)) hnil
  have hopen : p.IsOpen := Proposal.outcome_eq_none.mp (congrArg Motion.outcome hnew)
  have hactive : p.status = .active := hopen.resolve_right fun h => ht.voters h hnil
  exact ⟨hactive, Proposal.eq_terms hnew hactive ht.disjoint⟩

/-- A proposal on an intent without approvers stays as it was proposed for ever: it is active in every later
state, with the same contents and without votes, so its rent is never paid back, and its intent can no longer
be removed. -/
theorem proposal_stuck {later earlier : List (Runs.Event Accounts Call)} {e : Runs.Event Accounts Call}
    (hrun : Runs.Run (program env) (later ++ e :: earlier) s) {p : Proposal} {i : Intent}
    (hp : e.post.proposal? a = some p) (hi : e.post.intent? p.intent = some i)
    (hnil : i.approvers.toList = []) :
    p.status = .active ∧ p = p.terms ∧ s.proposal? a = some p ∧
      ∃ i', s.intent? p.intent = some i' ∧ i'.definition = i.definition ∧ i'.isApproved = true := by
  obtain ⟨hpre, hstep⟩ := hrun.split
  have hreach : Runs.Reachable (program env) e.post := ⟨_, hpre.next hstep⟩
  obtain ⟨hactive, hterms₀⟩ := eq_terms_of_nobody hreach hp hi hnil
  have hnow : Runs.Reachable (program env) s ∧ s.proposal? a = some p ∧
      ∃ i', s.intent? p.intent = some i' ∧ i'.definition = i.definition := by
    refine hrun.since (P := fun t => Runs.Reachable (program env) t ∧ t.proposal? a = some p ∧
      ∃ i', t.intent? p.intent = some i' ∧ i'.definition = i.definition) ⟨hreach, hp, i, hi, rfl⟩ ?_
    rintro e' - ⟨hr, hp', i', hi', hd⟩ hstep'
    have hr' := hr.next hstep'
    obtain ⟨i₂, hi₂, hd₂⟩ := ((sound_of_reachable hr).effect hstep').intent_kept hi'
    refine ⟨hr', ?_, i₂, hi₂, hd₂.trans hd⟩
    have hkept := ((implements_board env).step _ _ _ hr hstep').motion_kept
      (board_proposal (Accounts.proposal?_eq_some.mp hp')) (board_intent (Accounts.intent?_eq_some.mp hi'))
      ((congrArg PodVec.toList (Intent.approvers_congr hd)).trans hnil)
      (Proposal.outcome_eq_none.mpr (.inl hactive))
    obtain ⟨p', hp₂, hmotion⟩ := Option.map_eq_some_iff.mp hkept
    have hterms : p'.terms = p.terms := congrArg Motion.terms hmotion
    obtain ⟨-, hp₃⟩ := eq_terms_of_nobody hr' hp₂ ((Proposal.intent_congr hterms).symm ▸ hi₂)
      ((congrArg PodVec.toList (Intent.approvers_congr (hd₂.trans hd))).trans hnil)
    rw [hp₂, hp₃, hterms, ← hterms₀]
  obtain ⟨hr, hp', i', hi', hd⟩ := hnow
  exact ⟨hactive, hterms₀, hp', i', hi', hd, (counted_of_reachable hr).approved a p i' hp' (.inl hactive) hi'⟩

namespace StuckSample

open Sample

/-- A new intent of wallet `a` to remove intents, with key 1 as its proposer. -/
def body : Bytes :=
  (wallet "a").val ++ [255, 3, 1, 1, 1, 1] ++ List.replicate 10 0 ++ [1, 0] ++ (key 1).val

def table : List (Address × Bytes) :=
  [(key 1, addIntentMessage "propose" (wallet "a") "a" "0"),
   (key 2, addIntentMessage "approve" (wallet "a") "a" "0"),
   (key 1, message "expires 1970-01-01 00:16:40: propose remove intent 2 | wallet: a proposal: 1")]

/-- The intent is added, there is a proposal on it, and another wallet follows. -/
def calls : List Call :=
  [create "a" 1 1 [key 2], propose "a" 0 0 body, approve "a" 0 0 0 1,
   execute "a" 0 0 [key 9, intent "a" 3], propose "a" 3 2 [2], create "b" 1 1 [key 3]]

/-- The approvers of the intent of the new proposal. -/
def observed (tr : List (Runs.Event Accounts Call)) (_ : Accounts) : Option (List Address) :=
  tr[1]?.bind fun e => (e.post.proposal? (proposal "a" 3 1)).bind fun p =>
    (e.post.intent? p.intent).map (·.approvers.toList)

end StuckSample

open StuckSample Sample in
theorem proposal_stuck_sample :
    ∃ (tr : List (Runs.Event Accounts Call)) (s : Accounts) (p : Proposal),
      Runs.Run (program (Sample.env table)) tr s ∧ tr.map (·.label) = calls.reverse ∧
      s.proposal? (proposal "a" 3 1) = some p ∧ p.status = .active ∧ p = p.terms := by
  have hobs : observe (Sample.env table) calls observed = some (some []) := by
    rw [table, message_ofList]
    decide +kernel
  obtain ⟨tr, s, hrun, hlabels, hstate⟩ := run_of_observe hobs
  have hmap := hlabels
  simp only [calls, List.reverse_cons, List.reverse_nil, List.nil_append, List.cons_append,
    List.map_eq_cons_iff] at hlabels
  obtain ⟨e', -, rfl, -, e, earlier, rfl, -⟩ := hlabels
  simp only [observed, List.getElem?_cons_succ, List.getElem?_cons_zero, Option.bind_some,
    Option.bind_eq_some_iff, Option.map_eq_some_iff] at hstate
  obtain ⟨p, hp, i, hi, hnil⟩ := hstate
  have hrun' : Runs.Run (program (Sample.env table)) ([e'] ++ e :: earlier) s := hrun
  obtain ⟨hactive, hterms, hkept, -⟩ := proposal_stuck hrun' hp hi hnil
  exact ⟨_, s, p, hrun', hmap, hkept, hactive, hterms⟩

/-! ## Invocations -/

variable {invoke : List Cpi → Accounts → Result Accounts}

theorem Execute.dispatch_invoke {ctx : Ctx} (h : ctx.intent.readType ≠ .ok .custom) :
    dispatch { env with invoke } s ctx = dispatch env s ctx := by
  unfold dispatch
  cases ht : ctx.intent.readType with
  | error e => rfl
  | ok t =>
    cases t with
    | addIntent | removeIntent | updateIntent => rfl
    | custom => exact absurd ht h

/-- A call that is accepted does not depend on what foreign programs do. -/
theorem process_invoke (hs : s.NoCustomApproved) (h : process env s c = .ok s') :
    process { env with invoke } s c = .ok s' := by
  obtain ⟨clock, ix⟩ := c
  cases ix with
  | createWallet | propose | approve | cancel | cleanupProposal => exact h
  | execute declared intentAddr proposalAddr remaining =>
    simp only [process, Execute.execute, bind_eq_ok] at h ⊢
    obtain ⟨ctx, hctx, unlock, hunlock, u, hclock, s₁, hs₁, hfin⟩ := h
    refine ⟨ctx, hctx, unlock, hunlock, u, hclock, s₁, ?_, hfin⟩
    obtain ⟨wallet, intent, proposal, hl, -, hst, -, rfl⟩ := Execute.load_eq_ok.mp hctx
    refine (Execute.dispatch_invoke ?_).trans hs₁
    exact hs proposalAddr proposal intent (Accounts.proposal?_of_eq hl.proposal_eq) hst
      (hl.intent_addr ▸ Accounts.intent?_of_eq hl.intent_eq)

/-- No run gets to a cross-program invocation: the runs of the program are the same whatever the programs
do that the executed intents could invoke. -/
theorem run_invoke_iff (env : Env) (invoke : List Cpi → Accounts → Result Accounts)
    (tr : List (Runs.Event Accounts Call)) (s : Accounts) :
    Runs.Run (program { env with invoke }) tr s ↔ Runs.Run (program env) tr s := by
  have hmap {env : Env} {invoke : List Cpi → Accounts → Result Accounts}
      (h : Runs.Run (program env) tr s) : Runs.Run (program { env with invoke }) tr s := by
    have himpl : Runs.Implements (program env) (program { env with invoke }) id id :=
      ⟨fun _ h => h, fun _ _ _ hr h => process_invoke (sound_of_reachable hr).noCustomApproved h⟩
    have hrun := himpl.run h
    rwa [show Runs.Event.map id id = (id : Runs.Event Accounts Call → _) from rfl, List.map_id] at hrun
  exact ⟨@hmap { env with invoke } env.invoke, hmap⟩

end ClearMsig
