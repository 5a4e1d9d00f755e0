import ClearMsig.Board
import ClearMsig.Proofs.QuorumProofs
import ClearMsig.Proofs.RemovalProofs
import ClearMsig.Votes

/-!
# The program implements the board

Every call is one step of the board: bitmaps stand for ballots, the status byte for what the ballots call
for, `approved_at` for the time a motion was carried, and a counter that is zero for a rule without open
motions. So every run of the program is a run of the board, and what holds of all boards holds of the
accounts.
-/

namespace ClearMsig

open Function (update)
open Motions
open Registry

variable {env : Env} {s s' : Accounts} {c : Call} {a : Address} {i : Intent} {p : Proposal}

/-! ## Rules -/

namespace Intent

variable {f : Address → Option Intent} {i i' : Intent}

theorem rulesOf_update (f : Address → Option Intent) (a : Address) (i : Intent) :
    rulesOf (update f a (some i)) = update (rulesOf f) a (some i.definition) :=
  Function.comp_update (Option.map definition) f a (some i)

/-- An intent that keeps its definition is the same rule. -/
theorem rulesOf_congr (hi : f a = some i) (hd : i'.definition = i.definition) :
    rulesOf (update f a (some i')) = rulesOf f := by
  rw [rulesOf_update, hd]
  exact Function.update_eq_self_iff.mpr (by rw [rulesOf, hi, Option.map_some])

/-- An intent that keeps its flag is in force as before. -/
theorem flagged_congr (hi : f a = some i) (h : i'.approved = i.approved) :
    flagged (update f a (some i')) = flagged f :=
  keys_update_congr hi (by rw [isApproved, isApproved, h])

theorem flagged_update_of_pos (h : i.isApproved = true) :
    flagged (update f a (some i)) = insert a (flagged f) := keys_update_of_pos h

theorem flagged_update_of_neg (h : ¬ i.isApproved = true) :
    flagged (update f a (some i)) = flagged f \ {a} :=
  keys_update_of_neg fun v hv => by
    cases hv
    exact h

theorem flagged_update_of_fresh (ha : f a = none) :
    flagged (update f a (some i)) = if i.isApproved = true then insert a (flagged f) else flagged f := by
  split_ifs with h
  · exact flagged_update_of_pos h
  · rw [flagged_update_of_neg h]
    exact Set.sdiff_singleton_eq_self (notMem_keys_of_none ha)

end Intent

/-! ## Motions -/

namespace Proposal

variable {p : Proposal} {i : Intent} {idx : UInt8}

theorem backers_yea (p : Proposal) : p.motion.backers .yea = p.yes := by
  ext k
  by_cases hy : k ∈ p.yes
  · simp [Motion.backers, motion, hy]
  · simp [Motion.backers, motion, hy]

theorem backers_nay (hd : Disjoint p.yes p.no) : p.motion.backers .nay = p.no := by
  ext k
  by_cases hy : k ∈ p.yes
  · simp [Motion.backers, motion, hy, Finset.disjoint_left.mp hd hy]
  · by_cases hn : k ∈ p.no <;> simp [Motion.backers, motion, hy, hn]

theorem carried_iff : p.motion.Carried i.rules ↔ p.approvalCount ≥ i.approvalThreshold := by
  rw [Motion.Carried, backers_yea, Set.encard_coe_eq_coe_finsetCard, Nat.cast_le, ge_iff_le,
    UInt8.le_iff_toNat_le, approvalCount_toNat]
  rfl

theorem vetoed_iff (hd : Disjoint p.yes p.no) :
    p.motion.Vetoed i.rules ↔ p.cancellationCount ≥ i.cancellationThreshold := by
  rw [Motion.Vetoed, backers_nay hd, Set.encard_coe_eq_coe_finsetCard, Nat.cast_le, ge_iff_le,
    UInt8.le_iff_toNat_le, cancellationCount_toNat]
  rfl

theorem outcome_eq_none : p.motion.outcome = none ↔ p.IsOpen := by
  rw [motion, IsOpen]
  cases p.status <;> simp

/-- Setting a bit is casting a ballot for the motion. -/
theorem motion_setApproval (h : idx.toNat < 16) : (p.setApproval idx).motion = p.motion.mark idx.toNat .yea := by
  refine Motion.ext rfl ?_ rfl rfl
  funext k
  by_cases hk : k = idx.toNat
  · simp [motion, Motion.mark, h, hk]
  · simp [motion, Motion.mark, h, hk]

theorem motion_setCancellation (h : idx.toNat < 16) :
    (p.setCancellation idx).motion = p.motion.mark idx.toNat .nay := by
  refine Motion.ext rfl ?_ rfl rfl
  funext k
  by_cases hk : k = idx.toNat
  · simp [motion, Motion.mark, h, hk]
  · simp [motion, Motion.mark, h, hk]

/-- The bits that the vote instructions test are the ballots. -/
theorem ballots_ne_yea_iff (h : idx.toNat < 16) :
    p.motion.ballots idx.toNat ≠ some .yea ↔ p.hasApprovedByIndex idx = false := by
  rw [hasApprovedByIndex_eq_false h, ← Finset.mem_coe, ← backers_yea]
  rfl

theorem ballots_ne_nay_iff (h : idx.toNat < 16) (hd : Disjoint p.yes p.no) :
    p.motion.ballots idx.toNat ≠ some .nay ↔ p.hasCancelledByIndex idx = false := by
  rw [hasCancelledByIndex_eq_false h, ← Finset.mem_coe, ← backers_nay hd]
  rfl

end Proposal

/-- An open proposal is approved when its motion is carried. -/
theorem Tallied.carried_iff {intent : Intent} (ht : Tallied intent p) (hth : intent.ThresholdsOk)
    (hopen : p.IsOpen) : p.motion.Carried intent.rules ↔ p.status = .approved := by
  rw [Proposal.carried_iff, ge_iff_le, UInt8.le_iff_toNat_le, Proposal.approvalCount_toNat,
    ht.approved_iff hth hopen]

/-- An approval is a ballot for the motion. -/
theorem Approve.vote_motion (clock : Int64) {intent : Intent} {p : Proposal} {idx : UInt8}
    (h : idx.toNat < 16) (ht : Tallied intent p) (hth : intent.ThresholdsOk) (hactive : p.status = .active)
    (hbit : p.hasApprovedByIndex idx = false) :
    Motions.Vote intent.rules clock.toInt p.motion idx.toNat .yea (vote intent p clock idx).motion := by
  have hopen : p.motion.outcome = none := Proposal.outcome_eq_none.mpr (.inl hactive)
  have hnew := (Proposal.ballots_ne_yea_iff h).mpr hbit
  have hnot : ¬ p.motion.Carried intent.rules := by
    rw [ht.carried_iff hth (.inl hactive), hactive]
    simp
  have hcarried := Proposal.carried_iff (p := p.setApproval idx) (i := intent)
  rw [Proposal.motion_setApproval h] at hcarried
  simp only [vote]
  split_ifs with hge
  · have hvote := Motions.Vote.carry (t := clock.toInt) hopen hnew hnot (hcarried.mpr hge)
    rw [← Proposal.motion_setApproval h] at hvote
    convert hvote using 1
    refine Motion.ext rfl rfl rfl ?_
    simp [Proposal.motion, Proposal.setApproval, hactive]
  · rw [Proposal.motion_setApproval h]
    exact .yea hopen hnew hnot fun hc => hge (hcarried.mp hc)

/-- A cancellation is a ballot against the motion. -/
theorem Cancel.vote_motion (t : Int) {intent : Intent} {p : Proposal} {idx : UInt8} (h : idx.toNat < 16)
    (ht : Tallied intent p) (hopen : p.IsOpen) (hbit : p.hasCancelledByIndex idx = false) :
    Motions.Vote intent.rules t p.motion idx.toNat .nay (vote intent p idx).2.motion := by
  have hopen' : p.motion.outcome = none := Proposal.outcome_eq_none.mpr hopen
  have hnew := (Proposal.ballots_ne_nay_iff h ht.disjoint).mpr hbit
  have hdisjoint : Disjoint (p.setCancellation idx).yes (p.setCancellation idx).no := by
    rw [Proposal.yes_setCancellation h, Proposal.no_setCancellation h, Finset.disjoint_insert_right]
    exact ⟨Finset.notMem_erase _ _, ht.disjoint.mono_left (Finset.erase_subset _ _)⟩
  have hvetoed := Proposal.vetoed_iff (i := intent) hdisjoint
  rw [Proposal.motion_setCancellation h] at hvetoed
  simp only [vote]
  split_ifs with hge hback
  · have hvote := Motions.Vote.reject (t := t) hopen' hnew (hvetoed.mpr hge)
    rw [← Proposal.motion_setCancellation h] at hvote
    exact hvote
  · have hvote := Motions.Vote.nay (t := t) hopen' hnew fun hv => hge (hvetoed.mp hv)
    rw [← Proposal.motion_setCancellation h] at hvote
    convert hvote using 1
    refine Motion.ext rfl rfl rfl ?_
    simp [Proposal.motion, hback.1]
  · rw [Proposal.motion_setCancellation h]
    exact .nay hopen' hnew fun hv => hge (hvetoed.mp hv)

/-! ## One step -/

theorem board_intent (hi : s a = some (.intent i)) : s.board.rules a = some i.definition :=
  congrArg (Option.map Intent.definition) (Accounts.intent?_of_eq hi)

theorem board_rule (hi : s a = some (.intent i)) (hp : p.intent = a) :
    s.board.rules p.motion.terms.intent = some i.definition := hp ▸ board_intent hi

theorem board_proposal (hp : s a = some (.proposal p)) : s.board.motions a = some p.motion :=
  congrArg (Option.map Proposal.motion) (Accounts.proposal?_of_eq hp)

/-- Writing a proposal is recording a motion. -/
theorem board_record {o : Option Proposal} (hrules : s'.board.rules = s.board.rules)
    (hforce : s'.board.inForce = s.board.inForce) (hproposal : s'.proposal? = update s.proposal? a o) :
    s'.board = s.board.record a (o.map Proposal.motion) := by
  refine Board.ext hrules hforce ?_
  rw [Accounts.board, Board.record, Accounts.board, hproposal]
  exact Function.comp_update (Option.map Proposal.motion) s.proposal? a o

/-- The same with an intent whose counter changes. -/
theorem board_recount {b : Address} {i i' : Intent} {p : Proposal} (hi : s b = some (.intent i))
    (hintent : s'.intent? = update s.intent? b (some i'))
    (hproposal : s'.proposal? = update s.proposal? a (some p)) (hd : i'.definition = i.definition)
    (hf : i'.approved = i.approved) :
    s'.board = s.board.record a (some p.motion) := by
  refine board_record ?_ ?_ hproposal
  · rw [Accounts.board, hintent]
    exact Intent.rulesOf_congr (Accounts.intent?_of_eq hi) hd
  · rw [Accounts.board, hintent]
    exact Intent.flagged_congr (Accounts.intent?_of_eq hi) hf

namespace CreateWallet.MetaIntent

variable {args : CreateWalletArgs} {w r : Address} {index : UInt8} {t : IntentType} {nameHash : Address}

theorem thresholdsOk (h : MetaIntent args w index t i) (hchecked : Checked env nameHash args) :
    i.ThresholdsOk := by
  rw [Intent.ThresholdsOk, h.approvalThreshold_eq, h.cancellationThreshold_eq, h.approvers_eq]
  exact ⟨hchecked.approval_pos, hchecked.approval_le, hchecked.cancellation_pos, hchecked.cancellation_le⟩

theorem readType_eq (h : MetaIntent args w index t i) : i.readType = .ok t := by
  rw [Intent.readType, h.intentType_eq]
  cases t <;> rfl

/-- A meta-intent of a new wallet is one of its first rules. -/
theorem founds (h : MetaIntent args w index t i) (hchecked : Checked env nameHash args) (hfresh : s r = none) :
    s.board.Founds r w i t where
  fresh := congrArg (Option.map Intent.definition) (Accounts.intent?_of_eq hfresh)
  wallet_eq := h.wallet_eq
  type_eq := h.readType_eq
  thresholds := h.thresholdsOk hchecked
  approved := by
    rw [Intent.isApproved, h.approved_eq]
    rfl

end CreateWallet.MetaIntent

/-- An approved proposal past its timelock is a motion that is ready. -/
theorem Execute.Loaded.ready {clock : Int64} {walletAddr intentAddr proposalAddr : Address}
    {wallet : ClearWallet} {intent : Intent} {proposal : Proposal} (hs : Sound s)
    (h : Loaded env clock s walletAddr intentAddr proposalAddr wallet intent proposal) :
    proposal.motion.Ready intent.rules clock.toInt where
  isOpen := Proposal.outcome_eq_none.mpr (.inr h.approved)
  carried := by
    have ht := hs.tallied h.proposal_eq h.intent_addr h.intent_eq
    have hth := hs.thresholdsOk h.intent_eq ht h.approved
    exact (ht.carried_iff hth (.inr h.approved)).mpr h.approved
  waited := h.unlocked

/-- The open motions under a rule are the open proposals of the intent. -/
theorem board_openMotions (s : Accounts) (r : Address) : s.board.openMotions r = s.openProposals r := by
  ext a
  simp only [Board.openMotions, Accounts.openProposals, keys, Accounts.board, Set.mem_ofPred_eq,
    Option.map_eq_some_iff, exists_exists_and_eq_and, Proposal.outcome_eq_none]
  rfl

section Votes

variable {clock expiry : Int64} {walletAddr intentAddr proposalAddr voter : Address} {action msg : Bytes}
  {idx : UInt8} {signature : Signature} {wallet : ClearWallet} {intent : Intent} {proposal : Proposal}

/-- The thresholds of an intent that is voted on can be reached. -/
theorem VoteAccepted.thresholdsOk (hs : Sound s)
    (h : VoteAccepted env clock s walletAddr intentAddr proposalAddr action expiry idx signature wallet
      intent proposal voter msg) : intent.ThresholdsOk := by
  rcases hs.intents intentAddr intent (Accounts.intent?_of_eq h.intent_eq) with hnil | ⟨hth, -⟩
  · have hlt := h.idx_lt
    rw [hnil] at hlt
    exact absurd hlt (Nat.not_lt_zero _)
  · exact hth

/-- The intent of an open proposal that is voted on is in force. -/
theorem VoteAccepted.inForce (hc : Counted s)
    (h : VoteAccepted env clock s walletAddr intentAddr proposalAddr action expiry idx signature wallet
      intent proposal voter msg) (hopen : proposal.IsOpen) : proposal.intent ∈ s.board.inForce := by
  have hi := Accounts.intent?_of_eq h.intent_eq
  rw [← h.intent_addr] at hi
  exact ⟨intent, hi, hc.approved _ _ _ (Accounts.proposal?_of_eq h.proposal_eq) hopen hi⟩

/-- A vote of the board is one on the proposal and by the rules of its intent. -/
theorem VoteAccepted.vote_of_step {t : Int} {k : Nat} {c : Choice} {b : Board}
    (h : VoteAccepted env clock s walletAddr intentAddr proposalAddr action expiry idx signature wallet
      intent proposal voter msg) (hstep : Board.Step env.intentPda s.board (.vote t proposalAddr k c) b) :
    intent.isApproved = true ∧ ∃ m', Motions.Vote intent.rules t proposal.motion k c m' := by
  cases hstep with
  | vote hm hrule hforce hk hvote =>
    cases hm.symm.trans (board_proposal h.proposal_eq)
    cases hrule.symm.trans (board_rule h.intent_eq h.intent_addr)
    obtain ⟨i, hi, happ⟩ := hforce
    cases hi.symm.trans (h.intent_addr ▸ Accounts.intent?_of_eq h.intent_eq)
    exact ⟨happ, _, hvote⟩

end Votes

/-- A new wallet is three new rules. -/
theorem board_created {w : Address} {i₀ i₁ i₂ : Intent} (h₀ : i₀.isApproved = true)
    (h₁ : i₁.isApproved = true) (h₂ : i₂.isApproved = true)
    (hintent : s'.intent? = update (update (update s.intent? (env.intentPda w 0) (some i₀))
      (env.intentPda w 1) (some i₁)) (env.intentPda w 2) (some i₂))
    (hproposal : s'.proposal? = s.proposal?) :
    s'.board = ((s.board.adopt (env.intentPda w 0) i₀).adopt (env.intentPda w 1) i₁).adopt
      (env.intentPda w 2) i₂ := by
  refine Board.ext ?_ ?_ ?_
  · rw [Accounts.board, hintent, Intent.rulesOf_update, Intent.rulesOf_update, Intent.rulesOf_update]
    rfl
  · rw [Accounts.board, hintent, Intent.flagged_update_of_pos h₂, Intent.flagged_update_of_pos h₁,
      Intent.flagged_update_of_pos h₀]
    simp only [Board.adopt, h₀, h₁, h₂, if_true, Accounts.board]
  · rw [Accounts.board, hproposal]
    rfl

/-- The execution of an `AddIntent` is a new rule. -/
theorem board_addIntent {r intentAddr : Address} {new intent : Intent} {p' : Proposal}
    (hi : s intentAddr = some (.intent intent)) (hfresh : s r = none)
    (hintent : s'.intent? =
      update (update s.intent? r (some new)) intentAddr (some intent.releaseProposal))
    (hproposal : s'.proposal? = update s.proposal? a (some p')) :
    s'.board = (s.board.adopt r new).record a (some p'.motion) := by
  have hnone := Accounts.intent?_of_eq hfresh
  have hi' := update_fresh (o := some new) (Accounts.intent?_of_eq hi) hnone
  have hkept : intent.releaseProposal.definition = intent.definition := rfl
  have hflag : intent.releaseProposal.approved = intent.approved := rfl
  refine Board.ext ?_ ?_ ?_
  · rw [Accounts.board, hintent, Intent.rulesOf_congr hi' hkept, Intent.rulesOf_update]
    rfl
  · rw [Accounts.board, hintent, Intent.flagged_congr hi' hflag, Intent.flagged_update_of_fresh hnone]
    rfl
  · rw [Accounts.board, hproposal]
    exact Function.comp_update (Option.map Proposal.motion) s.proposal? a (some p')

/-- What the execution of a `RemoveIntent` does to the intent that the proposal names, which is not the
executed one. -/
theorem of_removeIntent (hc : Counted s) {clock : Int64} {declared : Execute.Declared}
    {intentAddr proposalAddr : Address} {remaining : List AccountView} {wallet : ClearWallet}
    {intent : Intent} {proposal : Proposal}
    (hl : Execute.Loaded env clock s declared.wallet.address intentAddr proposalAddr wallet intent proposal)
    (ht : intent.readType = .ok .removeIntent)
    (h : process env s ⟨clock, .execute declared intentAddr proposalAddr remaining⟩ = .ok s') :
    ∃ k target, proposal.paramsData.toList = [k] ∧
      s (env.intentPda proposal.wallet k) = some (.intent target) ∧ target.activeProposalCount = 0 ∧
      env.intentPda proposal.wallet k ≠ intentAddr ∧
      s'.intent? = update (update s.intent? (env.intentPda proposal.wallet k)
        (some { target with approved := 0 })) intentAddr (some intent.releaseProposal) ∧
      s'.proposal? = update s.proposal? proposalAddr (some { proposal with status := .executed }) := by
  obtain ⟨w, j, q, hl', s₁, hs₁, hfin⟩ := Execute.of_execute_eq_ok h
  cases hl.wallet_eq.symm.trans hl'.wallet_eq
  cases hl.intent_eq.symm.trans hl'.intent_eq
  cases hl.proposal_eq.symm.trans hl'.proposal_eq
  rw [Execute.dispatch, ht, ok_bind] at hs₁
  obtain ⟨k, target, hk, htarget, hcount, rfl⟩ := Execute.of_executeRemoveIntent_eq_ok hs₁
  obtain ⟨p', i', hp', hi', rfl⟩ := Execute.finish_eq_ok.mp hfin
  simp only at hk htarget hp' hi'
  -- the executed intent has an open proposal, the target has none
  have hne : env.intentPda declared.wallet.address k ≠ intentAddr := by
    intro heq
    rw [heq, hl.intent_eq] at htarget
    cases htarget
    have hpos := hc.pos (Accounts.proposal?_of_eq hl.proposal_eq) (.inr hl.approved)
      (hl.intent_addr ▸ Accounts.intent?_of_eq hl.intent_eq)
    rw [hcount] at hpos
    exact absurd hpos (by decide)
  have hIP := Accounts.ne_of_data hl.intent_eq hl.proposal_eq (by simp)
  have hPT := Accounts.ne_of_data hl.proposal_eq htarget (by simp)
  rw [Accounts.set_of_ne hPT, hl.proposal_eq] at hp'
  rw [Accounts.set_of_ne hIP, Accounts.set_of_ne hne.symm, hl.intent_eq] at hi'
  cases hp'
  cases hi'
  rw [hl.wallet_addr]
  refine ⟨k, target, hk, htarget, hcount, hne, ?_, ?_⟩
  · simp only [Accounts.intent?_set, AccountData.intent?]
    rw [update_none_of_ne hPT (Accounts.intent?_of_eq hl.proposal_eq)]
  · simp only [Accounts.proposal?_set, AccountData.proposal?]
    rw [update_none (Accounts.proposal?_of_eq htarget),
      update_none_of_ne hIP (Accounts.proposal?_of_eq hl.intent_eq)]

/-- The execution of a `RemoveIntent` takes a rule out of force. -/
theorem board_removeIntent {r intentAddr : Address} {target intent : Intent} {p' : Proposal}
    (hi : s intentAddr = some (.intent intent)) (htarget : s r = some (.intent target))
    (hne : r ≠ intentAddr)
    (hintent : s'.intent? =
      update (update s.intent? r (some { target with approved := 0 })) intentAddr (some intent.releaseProposal))
    (hproposal : s'.proposal? = update s.proposal? a (some p')) :
    s'.board = (s.board.repeal r).record a (some p'.motion) := by
  have hkept : intent.releaseProposal.definition = intent.definition := rfl
  have hflag : intent.releaseProposal.approved = intent.approved := rfl
  have htarget' := Accounts.intent?_of_eq htarget
  have hi' : update s.intent? r (some { target with approved := 0 }) intentAddr = some intent :=
    (Function.update_of_ne hne.symm ..).trans (Accounts.intent?_of_eq hi)
  refine Board.ext ?_ ?_ ?_
  · rw [Accounts.board, hintent, Intent.rulesOf_congr hi' hkept]
    exact Intent.rulesOf_congr htarget' rfl
  · rw [Accounts.board, hintent, Intent.flagged_congr hi' hflag,
      Intent.flagged_update_of_neg (by simp [Intent.isApproved])]
    rfl
  · rw [Accounts.board, hproposal]
    exact Function.comp_update (Option.map Proposal.motion) s.proposal? a (some p')

theorem Cancel.vote_flag {intent : Intent} {p : Proposal} {idx : UInt8} :
    (vote intent p idx).1.approved = intent.approved := by
  simp only [vote]
  split_ifs <;> rfl

/-- A new proposal is a new motion. -/
theorem motion_newProposal {walletAddr intentAddr payer : Address} {wallet : ClearWallet} {clock : Int64}
    {bump : UInt8} {args : ProposeArgs} {data : PodVec UInt8 512} :
    (Propose.newProposal walletAddr intentAddr payer wallet clock bump args data).motion =
      .new (Propose.newProposal walletAddr intentAddr payer wallet clock bump args data).terms := by
  refine Motion.ext rfl ?_ rfl rfl
  funext k
  simp [Proposal.motion, Motion.new, Proposal.yes, Proposal.no, Propose.newProposal]

/-- Every accepted call is a step of the board. -/
theorem board_step (hs : Sound s) (hc : Counted s) (h : process env s c = .ok s') :
    Board.Step env.intentPda s.board c.act s'.board := by
  have hstep := h
  cases hs.effect h with
  | created hw hchecked h₀ h₁ h₂ hfresh hfresh₀ hfresh₁ hfresh₂ hwallet hintent hproposal =>
    have hf₀ := h₀.founds hchecked hfresh₀
    have hf₁ := h₁.founds hchecked hfresh₁
    have hf₂ := h₂.founds hchecked hfresh₂
    rw [board_created hf₀.approved hf₁.approved hf₂.approved hintent hproposal]
    exact .found hf₀ hf₁ hf₂
  | proposed hacc hdata hwallet hintent hproposal =>
    rw [board_recount hacc.intent_eq hintent hproposal rfl rfl, motion_newProposal]
    refine .move (board_intent hacc.intent_eq) hacc.has_one
      ⟨_, Accounts.intent?_of_eq hacc.intent_eq, hacc.approved⟩ ?_ ?_
    · exact List.contains_iff_mem.mp hacc.proposer
    · exact congrArg (Option.map Proposal.motion) (Accounts.proposal?_of_eq hacc.fresh)
  | approved hv happroved hactive hbit hwallet hintent hproposal =>
    have hforce := hv.inForce hc (.inl hactive)
    have hth := hv.thresholdsOk hs
    have ht := hs.tallied hv.proposal_eq hv.intent_addr hv.intent_eq
    rw [board_record (congrArg Intent.rulesOf hintent) (congrArg Intent.flagged hintent) hproposal]
    have hvote (t : Int64) := Approve.vote_motion t (Tallied.idx_lt hv.idx_lt) ht hth hactive hbit
    exact .vote (board_proposal hv.proposal_eq) (board_rule hv.intent_eq hv.intent_addr) hforce hv.idx_lt
      (hvote _)
  | cancelled hv hopen hbit hwallet hintent hproposal =>
    have hforce := hv.inForce hc hopen
    have ht := hs.tallied hv.proposal_eq hv.intent_addr hv.intent_eq
    rw [board_recount hv.intent_eq hintent hproposal (Cancel.vote_step ..).definition Cancel.vote_flag]
    have hvote (t : Int) := Cancel.vote_motion t (Tallied.idx_lt hv.idx_lt) ht hopen hbit
    exact .vote (board_proposal hv.proposal_eq) (board_rule hv.intent_eq hv.intent_addr) hforce hv.idx_lt
      (hvote _)
  | addedIntent hl htype hnew hfresh hwallet hintent hproposal =>
    have hready := hl.ready hs
    have hmembers := (hs.tallied hl.proposal_eq hl.intent_addr hl.intent_eq).voters hl.approved
    rw [board_addIntent hl.intent_eq hfresh hintent hproposal]
    exact .add (board_proposal hl.proposal_eq) (board_rule hl.intent_eq hl.intent_addr) hmembers hready htype
      hnew (congrArg (Option.map Intent.definition) (Accounts.intent?_of_eq hfresh))
  | removedIntent hl htype =>
    obtain ⟨k, target, hk, htarget, hcount, hne, hintent, hproposal⟩ := of_removeIntent hc hl htype hstep
    have hready := hl.ready hs
    have hmembers := (hs.tallied hl.proposal_eq hl.intent_addr hl.intent_eq).voters hl.approved
    rw [board_removeIntent hl.intent_eq htarget hne hintent hproposal]
    refine .remove (board_proposal hl.proposal_eq) (board_rule hl.intent_eq hl.intent_addr) hmembers hready
      htype hk ?_
    rw [board_openMotions]
    exact hc.openProposals_eq_empty (Accounts.intent?_of_eq htarget) hcount
  | cleaned hp hclosed hwallet hintent hproposal =>
    rw [board_record (congrArg Intent.rulesOf hintent) (congrArg Intent.flagged hintent) hproposal]
    obtain ⟨o, ho⟩ := Option.ne_none_iff_exists'.mp (mt Proposal.outcome_eq_none.mp hclosed)
    exact .clear (board_proposal hp) ho

/-! ## Boards -/

namespace Board

variable {locate : Address → UInt8 → Address} {b b' : Board} {x : Act} {r : Address}

theorem rules_adopt_of_ne (h : a ≠ r) : (b.adopt r i).rules a = b.rules a := Function.update_of_ne h ..

/-- Rules are never given up. -/
theorem Step.rules_kept (h : Step locate b x b') (hi : b.rules a = some i) : b'.rules a = some i := by
  cases h with
  | found h₀ h₁ h₂ =>
    have hne₀ := ne_of_fresh hi h₀.fresh
    have hne₁ := ne_of_fresh hi h₁.fresh
    have hne₂ := ne_of_fresh hi h₂.fresh
    rw [rules_adopt_of_ne hne₂, rules_adopt_of_ne hne₁, rules_adopt_of_ne hne₀, hi]
  | add _ _ _ _ _ _ hfresh => exact update_fresh hi hfresh
  | move | vote | remove | clear => exact hi

/-- The motion recorded last is fair, and the others are as they were. -/
theorem Fair.of_record (hb : b.Fair) (hrules : ∀ a i, b.rules a = some i → b'.rules a = some i)
    {m : Motion Nat Proposal} (hmotions : b'.motions = update b.motions a (some m))
    (hi : b.rules m.terms.intent = some i) (hs : Settled i.rules m)
    (hk : ∀ k c, m.ballots k = some c → k < i.approvers.toList.length) : b'.Fair := by
  intro a' m' hm'
  rw [hmotions] at hm'
  rcases update_origin hm' with hm | ⟨rfl, rfl⟩
  · obtain ⟨i', hi', h⟩ := hb a' m' hm
    exact ⟨i', hrules _ _ hi', h⟩
  · exact ⟨i, hrules _ _ hi, hs, hk⟩

/-- Boards stay fair. -/
theorem Step.fair (h : Step locate b x b') (hb : b.Fair) : b'.Fair := by
  have hrules : ∀ a i, b.rules a = some i → b'.rules a = some i := fun a i hi => h.rules_kept hi
  cases h with
  | found h₀ h₁ h₂ =>
    intro a m hm
    obtain ⟨i, hi, hfair⟩ := hb a m hm
    exact ⟨i, hrules _ _ hi, hfair⟩
  | move hrule hwallet hforce hproposer hfresh =>
    exact hb.of_record hrules rfl hrule (settled_of_isOpen rfl) fun k c hk => nomatch hk
  | vote hm hrule hforce hk h =>
    obtain ⟨i, hi, -, hmembers⟩ := hb _ _ hm
    cases hrule.symm.trans hi
    refine hb.of_record hrules rfl (h.terms ▸ hrule) h.settled fun k' c' hk' => ?_
    rw [h.ballots] at hk'
    rcases update_origin hk' with hk' | ⟨rfl, -⟩
    · exact hmembers k' c' hk'
    · exact hk
  | add hm hrule hmem hready htype hnew hfresh =>
    obtain ⟨i, hi, -, hmembers⟩ := hb _ _ hm
    cases hrule.symm.trans hi
    exact hb.of_record hrules rfl hrule hready.settled hmembers
  | remove hm hrule hmem hready htype hk hidle =>
    obtain ⟨i, hi, -, hmembers⟩ := hb _ _ hm
    cases hrule.symm.trans hi
    exact hb.of_record hrules rfl hrule hready.settled hmembers
  | clear hm hended =>
    intro a m hm
    obtain ⟨-, hm⟩ := update_none_origin hm
    exact hb a m hm

theorem fair_of_reachable (h : Runs.Reachable (system locate) b) : b.Fair :=
  h.invariant (fun _ hb => hb ▸ fun _ _ hm => nomatch hm) fun _ _ _ hb hstep => hstep.fair hb

end Board

/-! ## Runs -/

theorem board_none : Accounts.none.board = Board.blank := by
  refine Board.ext rfl ?_ rfl
  refine Set.eq_empty_iff_forall_notMem.mpr ?_
  rintro a ⟨i, hi, -⟩
  cases hi

theorem implements_board (env : Env) :
    Runs.Implements (program env) (Board.system env.intentPda) Accounts.board Call.act where
  init _ h := h ▸ board_none
  step _ _ _ hr h := board_step (sound_of_reachable hr) (counted_of_reachable hr) h

/-- Every run of the program is a run of the board, call by call. -/
theorem run_board {tr : List (Runs.Event Accounts Call)} (hrun : Runs.Run (program env) tr s) :
    Runs.Run (Board.system env.intentPda) (tr.map (Runs.Event.map Accounts.board Call.act)) s.board :=
  (implements_board env).run hrun

namespace BoardSample

open Sample

def table : List (Address × Bytes) :=
  [(key 1, message "expires 1970-01-01 00:16:40: propose remove intent 2 | wallet: a proposal: 0"),
   (key 2, message "expires 1970-01-01 00:16:40: approve remove intent 2 | wallet: a proposal: 0"),
   (key 1, message "expires 1970-01-01 00:16:40: propose remove intent 0 | wallet: a proposal: 1"),
   (key 2, message "expires 1970-01-01 00:16:40: cancel remove intent 0 | wallet: a proposal: 1")]

/-- One proposal is executed, the next is cancelled. -/
def calls : List Call :=
  [create "a" 1 1 [key 2], propose "a" 1 0 [2], approve "a" 1 0 0 1, execute "a" 1 0 [intent "a" 2],
   propose "a" 1 2 [0], cancel "a" 1 1 0 3]

/-- The statuses of the two proposals. -/
def statuses (_ : List (Runs.Event Accounts Call)) (s : Accounts) : Option ProposalStatus × Option ProposalStatus :=
  ((s.proposal? (proposal "a" 1 0)).map (·.status), (s.proposal? (proposal "a" 1 1)).map (·.status))

theorem run_calls : observe (Sample.env table) calls statuses = some (some .executed, some .cancelled) := by
  rw [table, message_ofList, message_ofList, message_ofList, message_ofList]
  decide +kernel

end BoardSample

open BoardSample Sample in
theorem run_board_sample :
    ∃ (tr : List (Runs.Event Accounts Call)) (s : Accounts), tr.map (·.label) = calls.reverse ∧
      Runs.Run (Board.system (Sample.env table).intentPda)
        (tr.map (Runs.Event.map Accounts.board Call.act)) s.board := by
  obtain ⟨tr, s, hrun, hlabels, -⟩ := run_of_observe run_calls
  exact ⟨tr, s, hlabels, run_board hrun⟩

/-- A vote that is signed as it has to be is accepted exactly when the board takes it. -/
theorem signed_vote_accepted_iff (hr : Runs.Reachable (program env) s) {clock expiry : Int64}
    {walletAddr intentAddr proposalAddr voter : Address} {msg : Bytes} {idx : UInt8} {signature : Signature}
    {wallet : ClearWallet} {intent : Intent} {proposal : Proposal} (v : Vote)
    (h : VoteAccepted env clock s walletAddr intentAddr proposalAddr v.action expiry idx signature wallet
      intent proposal voter msg) {ix : Instruction}
    (hix : ix.ballot? = some ⟨v, walletAddr, intentAddr, proposalAddr, expiry, idx, signature⟩) :
    (∃ s', process env s ⟨clock, ix⟩ = .ok s') ↔
      ∃ b, Board.Step env.intentPda s.board (Call.act ⟨clock, ix⟩) b := by
  have hs := sound_of_reachable hr
  have hc := counted_of_reachable hr
  have h16 := Tallied.idx_lt h.idx_lt
  have ht := hs.tallied h.proposal_eq h.intent_addr h.intent_eq
  refine ⟨fun ⟨s', hstep⟩ => ⟨_, board_step hs hc hstep⟩, fun ⟨b, hstep⟩ => ?_⟩
  cases ix with
  | createWallet | propose | execute | cleanupProposal => cases hix
  | approve _ _ _ args =>
    cases hix
    obtain ⟨happ, m', hvote⟩ := h.vote_of_step hstep
    have hopen := Proposal.outcome_eq_none.mp hvote.isOpen
    have hactive : proposal.status = .active :=
      hopen.resolve_right (mt (ht.carried_iff (h.thresholdsOk hs) hopen).mpr hvote.not_carried)
    have hbit := (Proposal.ballots_ne_yea_iff h16).mp hvote.ballot_ne
    exact ⟨_, Approve.approve_eq_ok.mpr ⟨_, _, _, _, _, h, happ, hactive, hbit, rfl⟩⟩
  | cancel _ _ _ args =>
    cases hix
    obtain ⟨-, m', hvote⟩ := h.vote_of_step hstep
    have hopen := Proposal.outcome_eq_none.mp hvote.isOpen
    have hbit := (Proposal.ballots_ne_nay_iff h16 ht.disjoint).mp hvote.ballot_ne
    exact ⟨_, Cancel.cancel_eq_ok.mpr ⟨_, _, _, _, _, h, hopen, hbit, rfl⟩⟩

open BoardSample Sample in
theorem signed_vote_accepted_iff_sample :
    ∃ s b, Runs.Reachable (program (Sample.env table)) s ∧
      Board.Step (Sample.env table).intentPda s.board (Call.act (approve "a" 1 0 0 1)) b := by
  obtain ⟨s, s', hr, hstep⟩ := accepted_of_replay (Sample.env table) (calls.take 2) (approve "a" 1 0 0 1)
    (by
      rw [table, message_ofList, message_ofList, message_ofList, message_ofList]
      decide +kernel)
  obtain ⟨_, _, _, _, _, hacc, -⟩ := Approve.approve_eq_ok.mp hstep
  obtain ⟨b, hb⟩ := (signed_vote_accepted_iff hr .approve hacc rfl).mp ⟨s', hstep⟩
  exact ⟨s, b, hr, hb⟩

/-- The votes in a proposal account account for its status as long as the account exists: an executed
proposal shows the approvals its intent asks for, a cancelled one the cancellations, each of an entry of the
list, and no entry is counted both ways. -/
theorem votes_account_for_status (hr : Runs.Reachable (program env) s) (hp : s.proposal? a = some p) :
    ∃ i, s.intent? p.intent = some i ∧
      (p.status = .executed → p.approvalCount ≥ i.approvalThreshold) ∧
      (p.status = .cancelled → p.cancellationCount ≥ i.cancellationThreshold) ∧
      Disjoint p.yes p.no ∧ ∀ k ∈ p.yes ∪ p.no, k < i.approvers.toList.length := by
  obtain ⟨i, hi, -, ht⟩ := (sound_of_reachable hr).proposals a p hp
  have hfair := (implements_board env).transfer (fun _ => Board.fair_of_reachable) hr
  obtain ⟨j, hj, hsettled, -⟩ := hfair a p.motion (board_proposal (Accounts.proposal?_eq_some.mp hp))
  cases hj.symm.trans (board_intent (Accounts.intent?_eq_some.mp hi))
  refine ⟨i, hi, fun hst => ?_, fun hst => ?_, ht.disjoint, fun k hk => ?_⟩
  · exact Proposal.carried_iff.mp (hsettled.done (by rw [Proposal.motion, hst]))
  · exact (Proposal.vetoed_iff ht.disjoint).mp (hsettled.rejected (by rw [Proposal.motion, hst]))
  · rcases Finset.mem_union.mp hk with hk | hk
    · exact ht.yes_lt k hk
    · exact ht.no_lt k hk

open BoardSample Sample in
theorem votes_account_for_status_sample :
    ∃ (s : Accounts) (p : Proposal) (i : Intent), s.proposal? (proposal "a" 1 1) = some p ∧
      p.status = .cancelled ∧ s.intent? p.intent = some i ∧ p.cancellationCount ≥ i.cancellationThreshold := by
  obtain ⟨tr, s, hrun, -, hst⟩ := run_of_observe run_calls
  obtain ⟨p, hp, hcancelled⟩ := Option.map_eq_some_iff.mp (congrArg Prod.snd hst)
  obtain ⟨i, hi, -, hcount, -, -⟩ := votes_account_for_status ⟨tr, hrun⟩ hp
  exact ⟨s, p, i, hp, hcancelled, hi, hcount hcancelled⟩

end ClearMsig
