import ClearMsig.Flow
import ClearMsig.Foundation.Reordering
import ClearMsig.Proofs.ClientProofs
import ClearMsig.Proofs.ClosingProofs
import ClearMsig.Proofs.DraftProofs
import ClearMsig.Proofs.GovernanceProofs
import ClearMsig.Proofs.SeparationProofs
import ClearMsig.Proofs.TimelockProofs

/-!
# The flow of the client goes through

From every reachable state the calls that the client makes to remove or to add an intent are accepted one
after the other: the proposal, as many approvals as the threshold asks for, and after the timelock the
execution.
-/

namespace ClearMsig

open Registry
open Runs (Takes)

variable {env : Env} {sign : Address → Bytes → Signature} {s s' : Accounts}

namespace ProposeApproveExecuteArgs

variable {args : ProposeApproveExecuteArgs} {w : ClearWallet} {i j : Intent} {base : Accounts}
  {clock late : Int64} {n : Nat} {p : Proposal}

/-! ## The proposal in flight -/

/-- The wallet and the intent that a flow is made for, and the keys that sign its messages. -/
structure MadeFor (env : Env) (sign : Address → Bytes → Signature) (args : ProposeApproveExecuteArgs)
    (w : ClearWallet) (i : Intent) : Prop where
  name_eq : w.name = args.walletName
  own : i.wallet = args.wallet
  approved : i.isApproved = true
  thresholds : i.ThresholdsOk
  proposer_mem : args.proposer ∈ i.proposers.toList
  approvers_eq : i.approvers.toList = args.approvers
  params : ∀ j : Intent, j.definition = i.definition → Propose.checkParams j args.paramsData = .ok ()
  built : ∀ (j : Intent) (action : Bytes), j.definition = i.definition →
    (action = ascii "propose" ∨ action = ascii "approve") →
    signedMessage env.sha256 ⟨args.expiry, action, args.walletName, args.proposalIndex⟩ j args.paramsData =
      .ok (args.message action)
  proposer_signs : env.sigVerify args.proposer (sign args.proposer (args.message (ascii "propose")))
    (args.message (ascii "propose")) = true
  approvers_sign : ∀ key ∈ args.approvers, env.sigVerify key (sign key (args.message (ascii "approve")))
    (args.message (ascii "approve")) = true

/-- The proposal after the approvals of the first `n` approvers at a clock value. -/
structure Approved (env : Env) (args : ProposeApproveExecuteArgs) (i : Intent) (clock : Int64) (n : Nat)
    (p : Proposal) : Prop where
  wallet_eq : p.wallet = args.wallet
  intent_eq : p.intent = args.intent
  index_eq : p.proposalIndex = args.proposalIndex
  params_eq : p.paramsData.toList = args.paramsData
  yes_eq : p.yes = Finset.range n
  active : n < i.approvalThreshold.toNat → p.status = .active
  approved : n = i.approvalThreshold.toNat → p.status = .approved ∧ p.approvedAt = clock

/-- The accounts after the approvals of the first `n` approvers. The rest is as it was before the flow. -/
structure InFlight (env : Env) (args : ProposeApproveExecuteArgs) (base : Accounts) (w : ClearWallet)
    (i : Intent) (clock : Int64) (n : Nat) (s : Accounts) : Prop where
  wallet_eq : s args.wallet = some (.wallet w)
  intent_eq : s args.intent = some (.intent i)
  proposal_eq : ∃ p, s (args.proposal env) = some (.proposal p) ∧ args.Approved env i clock n p
  others : ∀ a, a ≠ args.wallet → a ≠ args.intent → a ≠ args.proposal env → s a = base a

/-- A new proposal has no votes. -/
theorem Approved.newProposal {bump : UInt8} {proposeArgs : ProposeArgs} {data : PodVec UInt8 512}
    (hpos : 1 ≤ i.approvalThreshold.toNat) (hindex : w.proposalIndex = args.proposalIndex)
    (hdata : data.toList = args.paramsData) :
    args.Approved env i clock 0
      (Propose.newProposal args.wallet args.intent args.payer w clock bump proposeArgs data) where
  wallet_eq := rfl
  intent_eq := rfl
  index_eq := hindex
  params_eq := hdata
  yes_eq := Bitset.bits_zero
  active _ := rfl
  approved h := absurd hpos (h ▸ by decide)

/-- The next approver can approve. -/
theorem Approved.vote (h : args.Approved env i clock n p) (hn : n < i.approvalThreshold.toNat)
    {idx : UInt8} (hidx : idx.toNat = n) (h16 : n < 16) :
    args.Approved env i clock (n + 1) (Approve.vote i p clock idx) where
  wallet_eq := (Proposal.wallet_congr Approve.vote_terms).trans h.wallet_eq
  intent_eq := (Proposal.intent_congr Approve.vote_terms).trans h.intent_eq
  index_eq := (Proposal.proposalIndex_congr Approve.vote_terms).trans h.index_eq
  params_eq := (congrArg PodVec.toList (Proposal.paramsData_congr Approve.vote_terms)).trans h.params_eq
  yes_eq := by rw [Approve.vote_yes (hidx ▸ h16), h.yes_eq, hidx, Finset.range_add_one]
  active hlt := by
    rw [Approve.vote_status (hidx ▸ h16), h.yes_eq, hidx, ← Finset.range_add_one, Finset.card_range,
      if_neg (by omega), h.active hn]
  approved heq := by
    have hst : (Approve.vote i p clock idx).status = .approved := by
      rw [Approve.vote_status (hidx ▸ h16), h.yes_eq, hidx, ← Finset.range_add_one, Finset.card_range,
        if_pos (by omega)]
    exact ⟨hst, Approve.vote_approvedAt (h.active hn) hst⟩

/-- The proposal is accepted. -/
theorem MadeFor.propose (h : args.MadeFor env sign w i) (hw : s args.wallet = some (.wallet w))
    (hi : s args.intent = some (.intent i)) (hindex : w.proposalIndex = args.proposalIndex)
    (hclock : args.expiry > clock) (hlen : args.paramsData.length ≤ 512)
    (hcount : i.activeProposalCount.toNat + 1 < 2 ^ 16) (hnext : w.proposalIndex.toNat + 1 < 2 ^ 64)
    (hfresh : s (args.proposal env) = none) :
    ∃ s', process env s (args.propose sign clock) = .ok s' ∧
      args.InFlight env s { w with proposalIndex := w.proposalIndex + 1 }
        { i with activeProposalCount := i.activeProposalCount + 1 } clock 0 s' := by
  have hmsg : signedMessage env.sha256 (Propose.messageContext w args.expiry) i args.paramsData =
      .ok (args.message (ascii "propose")) := by
    have hctx : Propose.messageContext w args.expiry =
        ⟨args.expiry, ascii "propose", args.walletName, args.proposalIndex⟩ := by
      rw [Propose.messageContext, h.name_eq, hindex]
    rw [hctx]
    exact h.built i _ rfl (.inl rfl)
  have hacc : Propose.Accepted env clock s args.wallet args.intent
      { expiry := args.expiry
        proposerPubkey := args.proposer
        signature := sign args.proposer (args.message (ascii "propose"))
        paramsData := args.paramsData } w i (args.message (ascii "propose")) :=
    ⟨hw, hi, h.own, h.approved, hclock, List.elem_eq_true_of_mem h.proposer_mem, h.params i rfl, hmsg,
      h.proposer_signs, hcount, hnext, by rwa [hindex]⟩
  have hproposal {a : Address} {d : AccountData} (ha : s a = some d) : args.proposal env ≠ a := by
    rintro rfl
    cases hfresh.symm.trans ha
  have hne : args.intent ≠ args.wallet := Accounts.ne_of_data hi hw (by simp)
  have haddr : args.proposal env = env.proposalPda args.intent w.proposalIndex := by
    rw [proposal, hindex]
  refine ⟨_, Propose.propose_eq_ok.mpr ⟨w, i, _, ⟨args.paramsData, hlen⟩, hacc, rfl, rfl⟩,
    Function.update_self .., ?_, ?_, fun a hwallet hintent hprop => ?_⟩
  · rw [Accounts.set_of_ne hne]
    exact Function.update_self ..
  · rw [Accounts.set_of_ne (hproposal hw), Accounts.set_of_ne (hproposal hi), haddr]
    exact ⟨_, Function.update_self .., .newProposal h.thresholds.1 hindex rfl⟩
  · rw [Accounts.set_of_ne hwallet, Accounts.set_of_ne hintent, ← haddr]
    exact Accounts.set_of_ne hprop

/-- The flow is made for what the proposal leaves. -/
theorem MadeFor.proposed (h : args.MadeFor env sign w i) :
    args.MadeFor env sign { w with proposalIndex := w.proposalIndex + 1 }
      { i with activeProposalCount := i.activeProposalCount + 1 } :=
  ⟨h.name_eq, h.own, h.approved, h.thresholds, h.proposer_mem, h.approvers_eq, h.params, h.built,
    h.proposer_signs, h.approvers_sign⟩

/-- An approval is accepted. -/
theorem InFlight.approve (h : args.InFlight env base w i clock n s) (hm : args.MadeFor env sign w i)
    (hn : n < i.approvalThreshold.toNat) (hclock : args.expiry > clock) {key : Address}
    (hkey : args.approvers[n]? = some key) :
    ∃ s', process env s (args.approve env sign clock n key) = .ok s' ∧
      args.InFlight env base w i clock (n + 1) s' := by
  obtain ⟨p, hp, happ⟩ := h.proposal_eq
  have hlen : n < i.approvers.toList.length := by
    rw [hm.approvers_eq]
    exact (List.getElem?_eq_some_iff.mp hkey).1
  have h16 : n < 16 := hlen.trans_le i.approvers.len_le
  have hidx : (UInt8.ofNat n).toNat = n := UInt8.toNat_ofNat_of_lt' (h16.trans (by decide))
  have hmsg : signedMessage env.sha256 (voteContext w p (ascii "approve") args.expiry) i
      p.paramsData.toList = .ok (args.message (ascii "approve")) := by
    rw [happ.params_eq, voteContext, hm.name_eq, happ.index_eq]
    exact hm.built i _ rfl (.inr rfl)
  have hbit : p.hasApprovedByIndex (UInt8.ofNat n) = false := by
    rw [Proposal.hasApprovedByIndex_eq_false (hidx.symm ▸ h16), happ.yes_eq, hidx]
    exact Finset.notMem_range_self
  have hacc : VoteAccepted env clock s args.wallet args.intent (args.proposal env) (ascii "approve")
      args.expiry (UInt8.ofNat n) (sign key (args.message (ascii "approve"))) w i p key
      (args.message (ascii "approve")) :=
    ⟨h.wallet_eq, h.intent_eq, hm.own, hp, happ.wallet_eq, happ.intent_eq, hclock,
      by rw [hidx, hm.approvers_eq, hkey], hmsg, hm.approvers_sign key (List.mem_of_getElem? hkey)⟩
  refine ⟨_, Approve.approve_eq_ok.mpr
    ⟨w, i, p, key, _, hacc, hm.approved, happ.active hn, hbit, rfl⟩, ?_⟩
  have hne {a : Address} {d : AccountData} (ha : s a = some d) (hd : d ≠ .proposal p) :
      s.set (args.proposal env) (.proposal (Approve.vote i p clock (UInt8.ofNat n))) a = some d :=
    (Accounts.set_of_ne (Accounts.ne_of_data ha hp hd)).trans ha
  exact ⟨hne h.wallet_eq (by simp), hne h.intent_eq (by simp),
    ⟨Approve.vote i p clock (UInt8.ofNat n), Function.update_self .., happ.vote hn hidx h16⟩,
    fun a hwallet hintent hprop => (Accounts.set_of_ne hprop).trans (h.others a hwallet hintent hprop)⟩

/-- The first approvals are accepted one after the other. -/
theorem InFlight.approvals (hm : args.MadeFor env sign w i) (hclock : args.expiry > clock)
    {labels : List Call} (ht : Takes (program env) labels s) (h : args.InFlight env base w i clock 0 s)
    (hn : n ≤ i.approvalThreshold.toNat) :
    ∃ s', Takes (program env) ((args.approvals env sign clock n).reverse ++ labels) s' ∧
      args.InFlight env base w i clock n s' := by
  induction n with
  | zero => exact ⟨s, ht, h⟩
  | succ n ih =>
    obtain ⟨t, hlabels, hflight⟩ := ih (Nat.le_of_succ_le hn)
    have hlen : n < args.approvers.length := by
      rw [← hm.approvers_eq]
      exact Nat.lt_of_lt_of_le hn hm.thresholds.2.1
    obtain ⟨s', hstep, hnext⟩ := hflight.approve hm hn hclock (List.getElem?_eq_getElem hlen)
    refine ⟨s', ?_, hnext⟩
    have hlast : args.approvals env sign clock (n + 1) =
        args.approvals env sign clock n ++ [args.approve env sign clock n args.approvers[n]] := by
      rw [ProposeApproveExecuteArgs.approvals, List.take_add_one, List.getElem?_eq_getElem hlen,
        Option.toList_some, List.mapIdx_concat, List.length_take, Nat.min_eq_left hlen.le]
      rfl
    rw [hlast, List.reverse_append]
    exact hlabels.next hstep

/-! ## The execution -/

/-- What `execute` loads for a proposal. -/
def ctx (env : Env) (args : ProposeApproveExecuteArgs) (w : ClearWallet) (i : Intent) (p : Proposal) :
    Execute.Ctx :=
  ⟨args.wallet, args.intent, args.proposal env, w, i, p, args.declared env, args.executeRemaining⟩

theorem unlocked_of_le {approvedAt clock : Int64} {timelock : UInt32}
    (h : approvedAt.toInt + timelock.toNat ≤ clock.toInt) :
    ∃ unlockAt, Execute.checkedAdd approvedAt (Int64.ofNat timelock.toNat) = some unlockAt ∧
      clock ≥ unlockAt := by
  have htime : (Int64.ofNat timelock.toNat).toInt = timelock.toNat := by
    have := timelock.toNat_lt
    exact Int64.toInt_ofNat_of_lt (by omega)
  have hunlock : (Int64.ofInt (approvedAt.toInt + timelock.toNat)).toInt =
      approvedAt.toInt + timelock.toNat := by
    have hmax := clock.toInt_lt
    have hmin := approvedAt.le_toInt
    exact Int64.toInt_ofInt_of_le (by omega) (by omega)
  refine ⟨_, Execute.checkedAdd_eq_some.mpr (hunlock.trans ?_), ?_⟩
  · rw [htime]
  · rw [ge_iff_le, Int64.le_iff_toInt_le, hunlock]
    exact h

/-- The execution is accepted where its kind is, marks the proposal and gives the counter back. -/
theorem InFlight.execute (h : args.InFlight env base w i clock n s) (hown : i.wallet = args.wallet)
    (hn : n = i.approvalThreshold.toNat) (hlate : clock.toInt + i.timelockSeconds.toNat ≤ late.toInt)
    {s₁ : Accounts}
    (hrun : ∀ p : Proposal, p.paramsData.toList = args.paramsData →
      Execute.dispatch env s (args.ctx env w i p) = .ok s₁)
    (hi : s₁ args.intent = s args.intent) (hp : s₁ (args.proposal env) = s (args.proposal env)) :
    ∃ s', process env s (args.execute env late) = .ok s' ∧
      (∃ p, s'.proposal? (args.proposal env) = some p ∧ p.status = .executed) ∧
      s'.intent? args.intent = some i.releaseProposal ∧
      ∀ a, a ≠ args.intent → a ≠ args.proposal env → s' a = s₁ a := by
  obtain ⟨p, hp₀, happ⟩ := h.proposal_eq
  obtain ⟨hst, rfl⟩ := happ.approved hn
  obtain ⟨unlockAt, hunlock, hge⟩ := unlocked_of_le hlate
  have hne : args.intent ≠ args.proposal env := Accounts.ne_of_data h.intent_eq hp₀ (by simp)
  have hexecute : process env s (args.execute env late) =
      .ok ((s₁.set (args.proposal env) (.proposal { p with status := .executed })).set args.intent
        (.intent i.releaseProposal)) := by
    simp only [process, ProposeApproveExecuteArgs.execute, Execute.execute, bind_eq_ok]
    refine ⟨args.ctx env w i p, Execute.load_eq_ok.mpr ⟨w, i, p,
        ⟨h.wallet_eq, h.intent_eq, hown, hp₀, happ.wallet_eq, happ.intent_eq⟩, rfl, hst, rfl, rfl⟩,
      unlockAt, okOr_eq_ok.mpr hunlock, (), require_eq_ok.mpr hge, s₁, hrun p happ.params_eq,
      Execute.finish_eq_ok.mpr ⟨p, i, hp.trans hp₀, ?_, rfl⟩⟩
    rw [Accounts.set_of_ne hne, hi]
    exact h.intent_eq
  refine ⟨_, hexecute, ⟨{ p with status := .executed }, ?_, rfl⟩, ?_, fun a hintent hprop => ?_⟩
  · rw [Accounts.proposal?_eq_some, Accounts.set_of_ne hne.symm]
    exact Function.update_self ..
  · exact Accounts.intent?_eq_some.mpr (Function.update_self ..)
  · rw [Accounts.set_of_ne hintent, Accounts.set_of_ne hprop]

/-- The whole flow is accepted where the execution is. -/
theorem MadeFor.takes_calls (h : args.MadeFor env sign w i) {labels : List Call}
    (hlabels : Takes (program env) labels s) (hw : s args.wallet = some (.wallet w))
    (hi : s args.intent = some (.intent i)) (hindex : w.proposalIndex = args.proposalIndex)
    (hclock : args.expiry > clock) (hlen : args.paramsData.length ≤ 512)
    (hcount : i.activeProposalCount.toNat + 1 < 2 ^ 16) (hnext : w.proposalIndex.toNat + 1 < 2 ^ 64)
    (hfresh : s (args.proposal env) = none)
    (hlate : clock.toInt + i.timelockSeconds.toNat ≤ late.toInt) (post : Accounts → Accounts)
    (hrun : ∀ (t : Accounts) (p : Proposal),
      args.InFlight env s { w with proposalIndex := w.proposalIndex + 1 }
        { i with activeProposalCount := i.activeProposalCount + 1 } clock i.approvalThreshold.toNat t →
      p.paramsData.toList = args.paramsData →
      Execute.dispatch env t (args.ctx env { w with proposalIndex := w.proposalIndex + 1 }
          { i with activeProposalCount := i.activeProposalCount + 1 } p) = .ok (post t) ∧
        post t args.intent = t args.intent ∧ post t (args.proposal env) = t (args.proposal env)) :
    ∃ t s', Takes (program env)
        ((args.calls env sign clock late i.approvalThreshold.toNat).reverse ++ labels) s' ∧
      (∃ p, s'.proposal? (args.proposal env) = some p ∧ p.status = .executed) ∧
      s'.intent? args.intent = some i ∧
      args.InFlight env s { w with proposalIndex := w.proposalIndex + 1 }
        { i with activeProposalCount := i.activeProposalCount + 1 } clock i.approvalThreshold.toNat t ∧
      ∀ a, a ≠ args.intent → a ≠ args.proposal env → s' a = post t a := by
  obtain ⟨s₁, hstep₁, hflight⟩ := h.propose hw hi hindex hclock hlen hcount hnext hfresh
  obtain ⟨t, hlabels₂, hflight₂⟩ := hflight.approvals h.proposed hclock (hlabels.next hstep₁) le_rfl
  obtain ⟨p₀, -, happ₀⟩ := hflight₂.proposal_eq
  obtain ⟨-, hkept⟩ := hrun t p₀ hflight₂ happ₀.params_eq
  obtain ⟨s', hstep₃, hexecuted, hreleased, hothers⟩ := hflight₂.execute h.own rfl hlate
    (fun p hp => (hrun t p hflight₂ hp).1) hkept.1 hkept.2
  have hback := hreleased.trans (congrArg some (Intent.releaseProposal_countProposal hcount))
  refine ⟨t, s', ?_, hexecuted, hback, hflight₂, hothers⟩
  have hcalls : (args.calls env sign clock late i.approvalThreshold.toNat).reverse ++ labels =
      args.execute env late :: ((args.approvals env sign clock i.approvalThreshold.toNat).reverse ++
        args.propose sign clock :: labels) := by
    simp [calls]
  rw [hcalls]
  exact hlabels₂.next hstep₃

end ProposeApproveExecuteArgs

/-! ## Messages of the clients -/

theorem ClearWallet.name_length_le (w : ClearWallet) : w.name.length ≤ 64 := by
  rw [name, List.length_take, w.nameBuf.property]
  exact Nat.min_le_right _ _

/-- The client's message with a short content is the one the program builds. -/
theorem Client.contentMsg_built {sha256 : Bytes → ByteArr 32} {ctx : MessageContext} {i : Intent}
    {data content : Bytes} (hcontent : contentText sha256 i data = .ok content) (hlen : content.length ≤ 128)
    (hyear : FourDigitYear ctx.expiry) (hname : ctx.walletName.length ≤ 64) (haction : ctx.action.length ≤ 7) :
    signedMessage sha256 ctx i data = .ok (contentMsg ctx content) := by
  have hindex : (Decimal.natText ctx.proposalIndex.toNat).length ≤ 20 :=
    (Decimal.natText_length_le_iff (by decide)).mpr (ctx.proposalIndex.toNat_lt.trans (by decide))
  have hfit : 20 + (messageText ctx content).length ≤ MSG_BUF_SIZE := by
    simp only [messageText, headText, tailText, List.length_append, dateText_length, MSG_BUF_SIZE]
    simp only [ascii, List.length_map, String.length_toList]
    have h1 : "expires ".length = 8 := rfl
    have h2 : ": ".length = 2 := rfl
    have h3 : " ".length = 1 := rfl
    have h4 : " | wallet: ".length = 11 := rfl
    have h5 : " proposal: ".length = 11 := rfl
    omega
  exact signedMessage_eq_ok.mpr ⟨_, hcontent, hfit, ((contentMsg_eq_iff hfit).mpr hyear).symm⟩

theorem action_length_le {action : Bytes} (h : action = ascii "propose" ∨ action = ascii "approve") :
    action.length ≤ 7 := by
  rcases h with rfl | rfl <;> decide

theorem Client.removeIntentMsg_built {sha256 : Bytes → ByteArr 32} {ctx : MessageContext} {i : Intent}
    {k : UInt8} (ht : i.readType = .ok .removeIntent) (hyear : FourDigitYear ctx.expiry)
    (hname : ctx.walletName.length ≤ 64) (haction : ctx.action.length ≤ 7) :
    signedMessage sha256 ctx i [k] =
      .ok (removeIntentMsg ctx.action ctx.expiry ctx.walletName ctx.proposalIndex k) := by
  rw [removeIntentMsg_eq]
  refine contentMsg_built ?_ ?_ hyear hname haction
  · rw [contentText, ht]
    rfl
  · have hk : (Decimal.natText k.toNat).length ≤ 3 :=
      (Decimal.natText_length_le_iff (by decide)).mpr (k.toNat_lt.trans (by decide))
    have htext : (ascii "remove intent ").length = 14 := by decide
    rw [List.length_append]
    omega

theorem Client.addIntentMsg_built {sha256 : Bytes → ByteArr 32} {ctx : MessageContext} {i : Intent}
    {data : Bytes} (ht : i.readType = .ok .addIntent) (hyear : FourDigitYear ctx.expiry)
    (hname : ctx.walletName.length ≤ 64) (haction : ctx.action.length ≤ 7) :
    signedMessage sha256 ctx i data =
      .ok (addIntentMsg sha256 ctx.action ctx.expiry ctx.walletName ctx.proposalIndex data) := by
  rw [addIntentMsg_eq]
  refine contentMsg_built ?_ ?_ hyear hname haction
  · rw [contentText, ht]
    rfl
  · have htext : (ascii "add intent definition_hash: ").length = 28 := by decide +kernel
    rw [List.length_append, hexText_length, (sha256 data).property]
    omega

namespace WalletSetup

variable {setup : WalletSetup} {w : ClearWallet} {i j : Intent} {clock late expiry : Int64}

/-- What the setup knows of the chain: the wallet and its name, and the keys of the intent it proposes on. -/
structure UpToDate (setup : WalletSetup) (s : Accounts) (intent : Address) (w : ClearWallet) (i : Intent) :
    Prop where
  wallet_eq : s.wallet? setup.wallet = some w
  name_eq : w.name = setup.walletName
  intent_eq : s.intent? intent = some i
  proposer_mem : setup.proposer ∈ i.proposers.toList
  approvers_eq : i.approvers.toList = setup.approvers

theorem UpToDate.name_length_le {a : Address} (h : setup.UpToDate s a w i) : setup.walletName.length ≤ 64 :=
  h.name_eq ▸ w.name_length_le

/-- The keys of a flow sign its messages. -/
structure Signs (env : Env) (sign : Address → Bytes → Signature) (args : ProposeApproveExecuteArgs) : Prop where
  propose : env.sigVerify args.proposer (sign args.proposer (args.message (ascii "propose")))
    (args.message (ascii "propose")) = true
  approve : ∀ key ∈ args.approvers, env.sigVerify key (sign key (args.message (ascii "approve")))
    (args.message (ascii "approve")) = true

end WalletSetup

/-! ## Removing an intent -/

/-- `execute_remove_intent` runs on an intent of the wallet whose counter is zero. -/
theorem Execute.dispatch_removeIntent {ctx : Ctx} {view : AccountView} {target : Address} {k : UInt8} {j : Intent}
    (htype : ctx.intent.readType = .ok .removeIntent) (hparams : ctx.proposal.paramsData.toList = [k])
    (hview : ctx.remaining[0]? = some view) (htarget : view.address = target)
    (haddr : target = env.intentPda ctx.walletAddr k) (hwritable : view.isWritable = true)
    (hj : s target = some (.intent j)) (hidle : j.activeProposalCount = 0) :
    dispatch env s ctx = .ok (s.set target (.intent { j with approved := 0 })) := by
  subst htarget
  rw [dispatch, htype]
  simp only [ok_bind, executeRemoveIntent, validateTargetIntentForModification, bind_eq_ok, require_eq_ok,
    index_eq_ok, okOr_eq_ok, Accounts.orRefuse_eq_ok, Accounts.intent?_eq_some, Except.ok.injEq, exists_const]
  exact ⟨congrArg List.length hparams, k, congrArg (·[0]?) hparams, view, hview, j,
    ⟨haddr, hwritable, j, hj, hidle, rfl⟩, rfl⟩

open WalletSetup in
/-- The removal of an intent goes through: from every reachable state in which the setup is up to date, the
counter of the intent is zero and the proposal account is unused, with room for one more proposal, the calls of
the client are accepted one after the other. The intent ends without its flag and the proposal executed, the
wallet counts the proposal, the `RemoveIntent` is as before, and so is every other account. -/
theorem removal_goes_through {setup : WalletSetup} {labels : List Call}
    (hlabels : Takes (program env) labels s) (hinj : PdaInjective env s) {w : ClearWallet} {i j : Intent}
    (h : setup.UpToDate s (env.intentPda setup.wallet 1) w i) {k : UInt8} (hk : k ≠ 1)
    (hj : s.intent? (env.intentPda setup.wallet k) = some j) (hidle : j.activeProposalCount = 0)
    {expiry clock late : Int64} {args : ProposeApproveExecuteArgs}
    (hargs : args = setup.removal env w.proposalIndex expiry k) (hfresh : s (args.proposal env) = none)
    (hcount : i.activeProposalCount.toNat + 1 < 2 ^ 16) (hnext : w.proposalIndex.toNat + 1 < 2 ^ 64)
    (hyear : FourDigitYear expiry) (hclock : expiry > clock)
    (hlate : clock.toInt + i.timelockSeconds.toNat ≤ late.toInt) (hsigns : Signs env sign args) :
    ∃ s', Takes (program env)
        ((args.calls env sign clock late i.approvalThreshold.toNat).reverse ++ labels) s' ∧
      s'.intent? (env.intentPda setup.wallet k) = some { j with approved := 0 } ∧
      (∃ p, s'.proposal? (args.proposal env) = some p ∧ p.status = .executed) ∧
      s'.wallet? setup.wallet = some { w with proposalIndex := w.proposalIndex + 1 } ∧
      s'.intent? (env.intentPda setup.wallet 1) = some i ∧
      ∀ a, a ≠ setup.wallet → a ≠ env.intentPda setup.wallet 1 → a ≠ env.intentPda setup.wallet k →
        a ≠ args.proposal env → s' a = s a := by
  obtain ⟨tr, hrun, -⟩ := id hlabels
  obtain ⟨i', hi', hown, htype, hth, happroved⟩ := remover_of_reachable ⟨tr, hrun⟩ hinj h.wallet_eq
  cases h.intent_eq.symm.trans hi'
  have hw := Accounts.wallet?_eq_some.mp h.wallet_eq
  have hj' := Accounts.intent?_eq_some.mp hj
  have hother : env.intentPda setup.wallet k ≠ env.intentPda setup.wallet 1 := fun heq =>
    hk (hinj _ _ _ _ w h.wallet_eq heq).2
  have hwallet : env.intentPda setup.wallet k ≠ setup.wallet := Accounts.ne_of_data hj' hw (by simp)
  have hprop : env.intentPda setup.wallet k ≠ args.proposal env := Registry.ne_of_fresh hj' hfresh
  have hwprop : setup.wallet ≠ args.proposal env := Registry.ne_of_fresh hw hfresh
  have hwmeta : setup.wallet ≠ env.intentPda setup.wallet 1 :=
    Accounts.ne_of_data hw (Accounts.intent?_eq_some.mp h.intent_eq) (by simp)
  subst hargs
  have htypes {j' : Intent} (hd : j'.definition = i.definition) : j'.readType = .ok .removeIntent := by
    rw [Intent.readType, Intent.intentType_congr hd, ← Intent.readType, htype]
  have hm : (setup.removal env w.proposalIndex expiry k).MadeFor env sign w i := by
    refine ⟨h.name_eq, hown, happroved, hth, h.proposer_mem, h.approvers_eq, fun j' hd => ?_,
      fun j' action hd haction => ?_, hsigns.propose, hsigns.approve⟩
    · rw [Propose.checkParams, htypes hd]
      rfl
    · exact Client.removeIntentMsg_built (htypes hd) hyear h.name_length_le
        (action_length_le haction)
  obtain ⟨t, s', htakes, hexecuted, hback, hflight, hothers⟩ := hm.takes_calls hlabels hw
    (Accounts.intent?_eq_some.mp h.intent_eq) rfl hclock (Nat.le_of_ble_eq_true rfl) hcount
    hnext hfresh hlate
    (fun t => t.set (env.intentPda setup.wallet k) (.intent { j with approved := 0 }))
    (fun t p hflight hp => ⟨Execute.dispatch_removeIntent htype hp rfl rfl rfl rfl
      ((hflight.others _ hwallet hother hprop).trans hj') hidle,
      Accounts.set_of_ne hother.symm, Accounts.set_of_ne hprop.symm⟩)
  refine ⟨s', htakes, ?_, hexecuted, ?_, hback, fun a ha₁ ha₂ ha₃ ha₄ => ?_⟩
  · rw [Accounts.intent?_eq_some, hothers _ hother hprop]
    exact Function.update_self ..
  · rw [Accounts.wallet?_eq_some, hothers _ hwmeta hwprop]
    exact (Accounts.set_of_ne hwallet.symm).trans hflight.wallet_eq
  · rw [hothers a ha₂ ha₄]
    exact (Accounts.set_of_ne ha₃).trans (hflight.others a ha₁ ha₂ ha₄)

namespace FlowSample

open Sample

/-- The wallet `a` with two approvers. -/
def setup : WalletSetup where
  creator := key 9
  proposer := key 1
  approvers := [key 2, key 3]
  wallet := wallet "a"
  walletName := ascii "a"

def isMeta (i : Intent) : Bool :=
  decide (i.proposers.toList = [key 1] ∧ i.approvers.toList = [key 2, key 3] ∧ i.activeProposalCount = 0 ∧
    i.timelockSeconds = 0 ∧ i.approvalThreshold = 2 ∧ i.approved = 1)

/-- Whether the setup is up to date, and what the flows need beyond it. -/
def observed (_ : List (Runs.Event Accounts Call)) (s : Accounts) : List (Option Bool) :=
  [(s.wallet? (wallet "a")).map fun w =>
      decide (w.name = ascii "a" ∧ w.proposalIndex = 0 ∧ w.intentIndex = 2),
    (s.intent? (intent "a" 0)).map isMeta, (s.intent? (intent "a" 1)).map isMeta,
    (s.intent? (intent "a" 2)).map isMeta, (s (intent "a" 3)).map fun _ => true,
    (s (proposal "a" 0 0)).map fun _ => true, (s (proposal "a" 1 0)).map fun _ => true]

/-- The two approvers sign every message. -/
theorem signs (args : ProposeApproveExecuteArgs) :
    WalletSetup.Signs ClosingSample.signingEnv ClosingSample.sign args :=
  ⟨decide_eq_true rfl, fun _ _ => decide_eq_true rfl⟩

end FlowSample

open FlowSample Sample in
open ClosingSample (signingEnv) in
theorem removal_goes_through_sample :
    ∃ s', Takes (program signingEnv)
        (((FlowSample.setup.removal signingEnv 0 1000 2).calls signingEnv ClosingSample.sign 0 0 2).reverse ++
          [create "a" 2 2 [key 2, key 3]]) s' ∧
      ∃ j, s'.intent? (intent "a" 2) = some j ∧ j.approved = 0 := by
  have hobs : observe signingEnv [create "a" 2 2 [key 2, key 3]] observed =
      some [some true, some true, some true, some true, none, none, none] := by decide +kernel
  obtain ⟨tr, s, hrun, hlabels, hstate⟩ := run_of_observe hobs
  simp only [observed, isMeta, List.cons.injEq, Option.map_eq_some_iff, Option.map_eq_none_iff, decide_eq_true_eq,
    and_true] at hstate
  obtain ⟨⟨w, hw, hname, hindex, -⟩, -, ⟨i, hi, hproposers, happrovers, hcount, htimelock, hthreshold, -⟩,
    ⟨j, hj, -, -, hidle, -⟩, -, -, hfresh⟩ := hstate
  have hinj : PdaInjective signingEnv s := by
    intro W k W' k' w hw heq
    obtain ⟨c, hc, nameHash, args, hix, rfl⟩ := wallet_of_run hrun hw
    rw [hlabels, List.reverse_singleton, List.mem_singleton] at hc
    subst hc
    cases hix
    exact @intentPda_injective [] _ _ _ _ (by decide +kernel) heq
  have h : FlowSample.setup.UpToDate s (signingEnv.intentPda (wallet "a") 1) w i :=
    ⟨hw, hname, hi, by rw [hproposers]; exact List.mem_singleton_self _, happrovers⟩
  have hargs : FlowSample.setup.removal signingEnv 0 1000 2 =
      FlowSample.setup.removal signingEnv w.proposalIndex 1000 2 := by rw [hindex]
  have htwo : 2 = i.approvalThreshold.toNat := by
    rw [hthreshold]
    rfl
  rw [htwo]
  have hclock : (0 : Int64) < 1000 := by decide
  have hlate : (0 : Int64).toInt + i.timelockSeconds.toNat ≤ (0 : Int64).toInt := by
    rw [htimelock]
    decide
  obtain ⟨s', htakes, hremoved, -⟩ := removal_goes_through ⟨tr, hrun, hlabels⟩ hinj h (by decide) hj hidle hargs
    hfresh (by rw [hcount]; decide) (by rw [hindex]; decide) (by decide +kernel) hclock hlate (FlowSample.signs _)
  exact ⟨s', htakes, _, hremoved, rfl⟩

/-! ## Adding an intent -/

/-- `execute_add_intent` runs when the payer has signed and the next intent account is free. -/
theorem Execute.dispatch_addIntent {ctx : Ctx} {payer view : AccountView} {new : Address} {i : Intent}
    (htype : ctx.intent.readType = .ok .addIntent) (hroom : ctx.wallet.intentIndex < 255)
    (hremaining : ctx.remaining = [payer, view]) (hsigner : payer.isSigner = true)
    (hview : view.address = new) (haddr : new = env.intentPda ctx.walletAddr (ctx.wallet.intentIndex + 1))
    (hfresh : s new = none)
    (hbody : Intent.fromBody env.podVec ctx.proposal.paramsData.toList = some i) :
    dispatch env s ctx = .ok ((s.set new (.intent i)).set ctx.walletAddr
      (.wallet { ctx.wallet with intentIndex := ctx.wallet.intentIndex + 1 })) := by
  subst hview
  have htake : ctx.proposal.paramsData.toList.take (Intent.sizeOfIntent env.podVec) =
      ctx.proposal.paramsData.toList := by
    have hlen := ctx.proposal.paramsData.len_le
    have hsize := Intent.sizeOfIntent_ge env.podVec
    exact List.take_of_length_le (by omega)
  rw [dispatch, htype]
  simp only [ok_bind, executeAddIntent, htake, hbody, bind_eq_ok, require_eq_ok, index_eq_ok,
    Accounts.create_eq_ok, Except.ok.injEq, exists_const]
  rw [hremaining]
  exact ⟨hroom, le_rfl, payer, rfl, view, rfl, hsigner, haddr, _, ⟨hfresh, rfl⟩, rfl⟩

open WalletSetup in
/-- The addition of an intent goes through: from every reachable state in which the setup is up to date, the
`AddIntent` of the wallet is approved and the accounts of the next intent and of the proposal are free and not
the same, with room for one more of each, the calls of the client are accepted one after the other. The new
intent has the settings that `build_intent_params` has written, and no approvers. The proposal ends executed,
the wallet counts both, the `AddIntent` is as before, and so is every other account. -/
theorem addition_goes_through {setup : WalletSetup} {labels : List Call}
    (hlabels : Takes (program env) labels s) {w : ClearWallet} {i : Intent}
    (h : setup.UpToDate s (env.intentPda setup.wallet 0) w i) (happroved : i.isApproved = true)
    (hroom : w.intentIndex < 255) {proposers : List Address} {approvalThreshold cancellationThreshold : UInt8}
    {timelockSeconds : UInt32} {expiry clock late : Int64} {args : ProposeApproveExecuteArgs} {new : Address}
    (hnew : new = env.intentPda setup.wallet (w.intentIndex + 1))
    (hargs : args = setup.addition env w.proposalIndex expiry (buildIntentParams env.podVec setup.wallet
      proposers approvalThreshold cancellationThreshold timelockSeconds) (w.intentIndex + 1))
    (hunused : s new = none) (hfresh : s (args.proposal env) = none) (hne : new ≠ args.proposal env)
    (hcount : i.activeProposalCount.toNat + 1 < 2 ^ 16) (hnext : w.proposalIndex.toNat + 1 < 2 ^ 64)
    (hyear : FourDigitYear expiry) (hclock : expiry > clock)
    (hlate : clock.toInt + i.timelockSeconds.toNat ≤ late.toInt) (hsigns : Signs env sign args) :
    ∃ s' j, Takes (program env)
        ((args.calls env sign clock late i.approvalThreshold.toNat).reverse ++ labels) s' ∧
      s'.intent? new = some j ∧
      j.Drafted setup.wallet approvalThreshold cancellationThreshold timelockSeconds ∧
      (env.podVec.CountsInU32 → j.proposers.toList = proposers.take 14) ∧
      s'.wallet? setup.wallet = some { w with
        proposalIndex := w.proposalIndex + 1
        intentIndex := w.intentIndex + 1 } ∧
      (∃ p, s'.proposal? (args.proposal env) = some p ∧ p.status = .executed) ∧
      s'.intent? (env.intentPda setup.wallet 0) = some i ∧
      ∀ a, a ≠ setup.wallet → a ≠ env.intentPda setup.wallet 0 → a ≠ new → a ≠ args.proposal env →
        s' a = s a := by
  obtain ⟨tr, hrun, -⟩ := id hlabels
  obtain ⟨i', hi', hown, htype, hth⟩ := metaIntents_of_reachable ⟨tr, hrun⟩ h.wallet_eq (0, .addIntent)
    (by simp [CreateWallet.metaIntents])
  cases h.intent_eq.symm.trans hi'
  obtain ⟨j, hj, hdrafted, hproposers⟩ := fromBody_buildIntentParams env.podVec setup.wallet proposers
    approvalThreshold cancellationThreshold timelockSeconds
  have hw := Accounts.wallet?_eq_some.mp h.wallet_eq
  have hi := Accounts.intent?_eq_some.mp h.intent_eq
  have hother : new ≠ env.intentPda setup.wallet 0 := (Registry.ne_of_fresh hi hunused).symm
  have hwallet : new ≠ setup.wallet := (Registry.ne_of_fresh hw hunused).symm
  have hprop : args.proposal env ≠ setup.wallet := (Registry.ne_of_fresh hw hfresh).symm
  have hmeta : env.intentPda setup.wallet 0 ≠ setup.wallet := Accounts.ne_of_data hi hw (by simp)
  subst hargs hnew
  have htypes {j' : Intent} (hd : j'.definition = i.definition) : j'.readType = .ok .addIntent := by
    rw [Intent.readType, Intent.intentType_congr hd, ← Intent.readType, htype]
  have hm : (setup.addition env w.proposalIndex expiry (buildIntentParams env.podVec setup.wallet proposers
      approvalThreshold cancellationThreshold timelockSeconds) (w.intentIndex + 1)).MadeFor env sign w i := by
    refine ⟨h.name_eq, hown, happroved, hth, h.proposer_mem, h.approvers_eq, fun j' hd => ?_,
      fun j' action hd haction => ?_, hsigns.propose, hsigns.approve⟩
    · rw [Propose.checkParams, htypes hd]
      rfl
    · exact Client.addIntentMsg_built (htypes hd) hyear h.name_length_le (action_length_le haction)
  obtain ⟨t, s', htakes, hexecuted, hback, hflight, hothers⟩ := hm.takes_calls hlabels hw hi rfl hclock
    length_buildIntentParams.le hcount hnext hfresh hlate
    (fun t => (t.set (env.intentPda setup.wallet (w.intentIndex + 1)) (.intent j)).set setup.wallet
      (.wallet { w with proposalIndex := w.proposalIndex + 1, intentIndex := w.intentIndex + 1 }))
    (fun t p hflight hp => ⟨Execute.dispatch_addIntent htype hroom rfl rfl rfl rfl
      ((hflight.others _ hwallet hother hne).trans hunused) ((congrArg (Intent.fromBody env.podVec) hp).trans hj),
      (Accounts.set_of_ne hmeta).trans (Accounts.set_of_ne hother.symm),
      (Accounts.set_of_ne hprop).trans (Accounts.set_of_ne hne.symm)⟩)
  refine ⟨s', j, htakes, ?_, hdrafted, hproposers, ?_, hexecuted, hback, fun a ha₁ ha₂ ha₃ ha₄ => ?_⟩
  · rw [Accounts.intent?_eq_some, hothers _ hother hne]
    exact (Accounts.set_of_ne hwallet).trans (Function.update_self ..)
  · rw [Accounts.wallet?_eq_some, hothers _ hmeta.symm hprop.symm]
    exact Function.update_self ..
  · rw [hothers a ha₂ ha₄]
    exact (Accounts.set_of_ne ha₁).trans ((Accounts.set_of_ne ha₃).trans (hflight.others a ha₁ ha₂ ha₄))

open FlowSample Sample in
open ClosingSample (signingEnv) in
theorem addition_goes_through_sample :
    ∃ s' j, Takes (program signingEnv)
        (((FlowSample.setup.addition signingEnv 0 1000
            (buildIntentParams signingEnv.podVec (wallet "a") [key 1] 1 1 0) 3).calls
          signingEnv ClosingSample.sign 0 0 2).reverse ++ [create "a" 2 2 [key 2, key 3]]) s' ∧
      s'.intent? (intent "a" 3) = some j ∧ j.Drafted (wallet "a") 1 1 0 := by
  have hobs : observe signingEnv [create "a" 2 2 [key 2, key 3]] observed =
      some [some true, some true, some true, some true, none, none, none] := by decide +kernel
  obtain ⟨tr, s, hrun, hlabels, hstate⟩ := run_of_observe hobs
  simp only [observed, isMeta, List.cons.injEq, Option.map_eq_some_iff, Option.map_eq_none_iff, decide_eq_true_eq,
    and_true] at hstate
  obtain ⟨⟨w, hw, hname, hindex, hlast⟩,
    ⟨i, hi, hproposers, happrovers, hcount, htimelock, hthreshold, happroved⟩, -, -, hunused, hfresh, -⟩ := hstate
  have h : FlowSample.setup.UpToDate s (signingEnv.intentPda (wallet "a") 0) w i :=
    ⟨hw, hname, hi, by rw [hproposers]; exact List.mem_singleton_self _, happrovers⟩
  have hargs : FlowSample.setup.addition signingEnv 0 1000
        (buildIntentParams signingEnv.podVec (wallet "a") [key 1] 1 1 0) 3 =
      FlowSample.setup.addition signingEnv w.proposalIndex 1000
        (buildIntentParams signingEnv.podVec (wallet "a") [key 1] 1 1 0) (w.intentIndex + 1) := by
    rw [hindex, hlast]
    rfl
  have hnew : intent "a" 3 = signingEnv.intentPda (wallet "a") (w.intentIndex + 1) := by
    rw [hlast]
    rfl
  have htwo : 2 = i.approvalThreshold.toNat := by
    rw [hthreshold]
    rfl
  rw [htwo]
  have hclock : (0 : Int64) < 1000 := by decide
  have hlate : (0 : Int64).toInt + i.timelockSeconds.toNat ≤ (0 : Int64).toInt := by
    rw [htimelock]
    decide
  obtain ⟨s', j, htakes, hj, hdrafted, -⟩ := addition_goes_through ⟨tr, hrun, hlabels⟩ h
    (by rw [Intent.isApproved, happroved]; decide) (by rw [hlast]; decide) hnew hargs hunused hfresh
    (by decide +kernel) (by rw [hcount]; decide) (by rw [hindex]; decide) (by decide +kernel) hclock hlate
    (FlowSample.signs _)
  exact ⟨s', j, htakes, hj, hdrafted⟩

end ClearMsig
