import ClearMsig.Foundation.Noninterference
import ClearMsig.Proofs.CounterProofs
import ClearMsig.Proofs.IsolationProofs
import ClearMsig.Proofs.LocalityProofs

/-!
# Wallets do not interfere

Where every executed `AddIntent` names its own wallet, every account belongs to one wallet, and a call
touches accounts of the wallet it works on alone. So the calls on one wallet are a run by themselves,
which ends in the accounts of that wallet, whatever happens in the other wallets in between.
-/

namespace ClearMsig

open Footprint (Local)
open Noninterference (purge)

variable {env : Env} {s s' : Accounts} {c : Call} {R W : Set Address} {a : Address}

/-- The wallet an account belongs to. -/
def AccountData.owner (a : Address) : AccountData → Address
  | .wallet _ => a
  | .intent i => i.wallet
  | .proposal p => p.wallet

/-- The accounts of one wallet. -/
def Accounts.only (s : Accounts) (owner : Address) : Accounts := fun a =>
  (s a).filter fun d => decide (d.owner a = owner)

/-- The wallet a call works on. -/
def Call.worksOn (env : Env) (s : Accounts) (c : Call) : Option Address :=
  match c.ix with
  | .createWallet nameHash _ => some (env.pda (Env.walletSeeds nameHash))
  | .propose _ wallet _ _ => some wallet
  | .approve wallet _ _ _ => some wallet
  | .cancel wallet _ _ _ => some wallet
  | .execute declared _ _ _ => some declared.wallet.address
  | .cleanupProposal proposal _ => (s.proposal? proposal).map (·.wallet)

/-- The event is a call on the wallet. -/
def concerns (env : Env) (owner : Address) (e : Runs.Event Accounts Call) : Bool :=
  decide (e.label.worksOn env e.pre = some owner)

/-- The calls of a history on one wallet, on the accounts of that wallet. -/
def callsOn (env : Env) (owner : Address) (tr : List (Runs.Event Accounts Call)) :
    List (Runs.Event Accounts Call) :=
  purge (concerns env owner) (·.only owner) tr

/-- An event that executes an `AddIntent` names in the new intent the wallet it runs in. -/
def NamesOwn (e : Runs.Event Accounts Call) : Prop :=
  ∀ declared intentAddr proposalAddr remaining i p,
    e.label.ix = .execute declared intentAddr proposalAddr remaining → e.pre.intent? intentAddr = some i →
    i.readType = .ok .addIntent → e.pre.proposal? proposalAddr = some p →
    ByteArr.ofBytes 32 (Intent.bytesAt p.paramsData.toList 0 32) = declared.wallet.address

/-! ## The accounts of one wallet -/

/-- Every intent lies at an address of its wallet, and the wallet exists. -/
def Accounts.Placed (env : Env) (s : Accounts) : Prop :=
  ∀ a i, s.intent? a = some i → (∃ k, a = env.intentPda i.wallet k) ∧ ∃ w, s.wallet? i.wallet = some w

/-- A step keeps intents at addresses of their wallets when the intents it adds name theirs. -/
theorem Accounts.Placed.of_effect (ho : s.Placed env) (h : Effect env s c s') (hadd : NamesOwn ⟨s, c, s'⟩) :
    s'.Placed env := by
  intro a i' hi'
  rcases h.intent_origin hi' with ⟨i, hi, hd⟩ | ⟨-, hnew⟩
  · obtain ⟨haddr, w, hw⟩ := ho a i hi
    rw [Intent.wallet_congr hd]
    exact ⟨haddr, h.wallet_kept hw⟩
  · cases hnew with
    | ofWallet hc hw hwallet hchecked ht hmeta =>
      obtain ⟨w, hw'⟩ := h.wallet_created hc
      rw [hmeta.wallet_eq]
      exact ⟨⟨_, rfl⟩, w, hw ▸ hw'⟩
    | ofBytes hc hl ht hbytes =>
      have hw := hadd _ _ _ _ _ _ hc (Accounts.intent?_of_eq hl.intent_eq) ht
        (Accounts.proposal?_of_eq hl.proposal_eq)
      rw [hbytes.wallet_eq, hw]
      exact ⟨⟨_, rfl⟩, h.wallet_kept (Accounts.wallet?_of_eq hl.wallet_eq)⟩

theorem Accounts.placed_init : Accounts.none.Placed env :=
  fun _ _ h => absurd h (by simp [Accounts.none])

/-- Whose an intent at an address of a wallet is. -/
theorem Accounts.Placed.wallet_of_pda (ho : s.Placed env) (hinj : PdaInjective env s) {W : Address}
    {k : UInt8} {i : Intent} (hi : s.intent? (env.intentPda W k) = some i) : i.wallet = W := by
  obtain ⟨⟨k', haddr⟩, w, hw⟩ := ho _ i hi
  exact (hinj _ _ W k w hw haddr).1.symm

theorem Accounts.only_of_owner {owner : Address} (h : ∀ d, s a = some d → d.owner a = owner) :
    s.only owner a = s a := by
  cases hd : s a with
  | none => simp [Accounts.only, hd]
  | some d => simp [Accounts.only, hd, h d hd]

theorem Accounts.only_of_other {owner : Address} (h : ∀ d, s a = some d → d.owner a ≠ owner) :
    s.only owner a = Option.none := by
  cases hd : s a with
  | none => simp [Accounts.only, hd]
  | some d => simp [Accounts.only, hd, h d hd]

theorem Accounts.only_congr {owner : Address} (h : s' a = s a) : s'.only owner a = s.only owner a := by
  simp only [Accounts.only, h]

/-- The intent, the proposal and the wallet a call has loaded belong to the wallet. -/
theorem Linked.owner {walletAddr intentAddr proposalAddr : Address} {wallet : ClearWallet}
    {intent : Intent} {proposal : Proposal}
    (h : Linked s walletAddr intentAddr proposalAddr wallet intent proposal) {d : AccountData}
    (ha : a ∈ ({walletAddr, intentAddr, proposalAddr} : Set Address)) (hd : s a = some d) :
    d.owner a = walletAddr := by
  rcases ha with rfl | rfl | rfl
  · cases h.wallet_eq.symm.trans hd
    rfl
  · cases h.intent_eq.symm.trans hd
    exact h.has_one
  · cases h.proposal_eq.symm.trans hd
    exact h.wallet_addr

/-- A call touches accounts of the wallet it works on, and unused addresses. -/
theorem Touches.owner (h : Touches env s c R W) (ho : s.Placed env) (hinj : PdaInjective env s)
    {d : AccountData} (ha : a ∈ R) (hd : s a = some d) : c.worksOn env s = some (d.owner a) := by
  have hfresh {x : Address} (hx : s x = none) : a ≠ x := by
    rintro rfl
    rw [hx] at hd
    cases hd
  cases h with
  | createWallet hw hname hunused => exact absurd rfl (hfresh (hunused a ha))
  | propose h =>
    rcases ha with rfl | rfl | rfl
    · cases h.wallet_eq.symm.trans hd
      rfl
    · cases h.intent_eq.symm.trans hd
      exact congrArg some h.has_one.symm
    · exact absurd rfl (hfresh h.fresh)
  | approve h => exact congrArg some (h.owner ha hd).symm
  | cancel h => exact congrArg some (h.owner ha hd).symm
  | addIntent h hnew hunused hmem =>
    rcases ha with ha | ha | ha | rfl
    · exact congrArg some (h.owner (.inl ha) hd).symm
    · exact congrArg some (h.owner (.inr (.inl ha)) hd).symm
    · exact congrArg some (h.owner (.inr (.inr ha)) hd).symm
    · exact absurd rfl (hfresh hunused)
  | removeIntent h htarget htarget_eq hmem =>
    rcases ha with ha | ha | ha | rfl
    · exact congrArg some (h.owner (.inl ha) hd).symm
    · exact congrArg some (h.owner (.inr (.inl ha)) hd).symm
    · exact congrArg some (h.owner (.inr (.inr ha)) hd).symm
    · cases htarget_eq.symm.trans hd
      exact congrArg some (ho.wallet_of_pda hinj (htarget ▸ Accounts.intent?_of_eq htarget_eq)).symm
  | cleanupProposal hp =>
    cases ha
    cases hp.symm.trans hd
    show (s.proposal? _).map _ = _
    rw [Accounts.proposal?_of_eq hp]
    rfl

/-- An account that is there after a call had its owner before, or belongs to the wallet of the call. -/
theorem Effect.owner_origin (h : Effect env s c s') (hadd : NamesOwn ⟨s, c, s'⟩) {d' : AccountData}
    (hd : s' a = some d') :
    (∃ d, s a = some d ∧ d.owner a = d'.owner a) ∨ c.worksOn env s = some (d'.owner a) := by
  cases d' with
  | wallet w' =>
    rcases h.wallet_origin (Accounts.wallet?_of_eq hd) with ⟨w, hw, -⟩ | ⟨nameHash, args, hc, hW, -⟩
    · exact .inl ⟨_, Accounts.wallet?_eq_some.mp hw, rfl⟩
    · refine .inr ?_
      simp only [Call.worksOn, hc, AccountData.owner, hW]
  | intent i' =>
    rcases h.intent_origin (Accounts.intent?_of_eq hd) with ⟨i, hi, hdef⟩ | ⟨-, hnew⟩
    · exact .inl ⟨_, Accounts.intent?_eq_some.mp hi, (Intent.wallet_congr hdef).symm⟩
    · refine .inr ?_
      cases hnew with
      | ofWallet hc hw hwallet hchecked ht hmeta =>
        simp only [Call.worksOn, hc, AccountData.owner, hmeta.wallet_eq, hw]
      | ofBytes hc hl ht hbytes =>
        have hW := hadd _ _ _ _ _ _ hc (Accounts.intent?_of_eq hl.intent_eq) ht
          (Accounts.proposal?_of_eq hl.proposal_eq)
        simp only [Call.worksOn, hc, AccountData.owner, hbytes.wallet_eq, hW]
  | proposal p' =>
    rcases h.proposal_origin (Accounts.proposal?_of_eq hd) with ⟨p, hp, hterms, -⟩ | ⟨-, hnew⟩
    · exact .inl ⟨_, Accounts.proposal?_eq_some.mp hp, (Proposal.wallet_congr hterms).symm⟩
    · refine .inr ?_
      cases hnew with
      | mk hc hacc hdata => simp only [Call.worksOn, hc, AccountData.owner, Propose.newProposal]

/-! ## One step -/

/-- What a step means for the accounts of a wallet: nothing, or the same call on them alone. -/
structure Steps (env : Env) (owner : Address) (e : Runs.Event Accounts Call) : Prop where
  silent : concerns env owner e = false → e.post.only owner = e.pre.only owner
  alone : concerns env owner e = true →
    process env (e.pre.only owner) e.label = .ok (e.post.only owner)

theorem steps_of_process (hs : Sound s) (ho : s.Placed env) (hinj : PdaInjective env s)
    (h : process env s c = .ok s') (hadd : NamesOwn ⟨s, c, s'⟩) (owner : Address) :
    Steps env owner ⟨s, c, s'⟩ := by
  obtain ⟨R, W, htouch, hlocal⟩ := local_of_process hs.noCustomApproved h
  have hpre {a : Address} (ha : a ∈ R) {d : AccountData} (hd : s a = some d) :
      c.worksOn env s = some (d.owner a) := htouch.owner ho hinj ha hd
  have hpost {a : Address} (ha : a ∈ R) {d : AccountData} (hd : s' a = some d) :
      c.worksOn env s = some (d.owner a) := by
    rcases (hs.effect h).owner_origin hadd hd with ⟨d₀, hd₀, heq⟩ | hworks
    · rw [← heq]
      exact hpre ha hd₀
    · exact hworks
  constructor
  · intro hno
    have hne : c.worksOn env s ≠ some owner := of_decide_eq_false hno
    funext a
    by_cases ha : a ∈ W
    · rw [Accounts.only_of_other fun d hd heq => hne ((hpost (hlocal.sub ha) hd).trans (by rw [heq])),
        Accounts.only_of_other fun d hd heq => hne ((hpre (hlocal.sub ha) hd).trans (by rw [heq]))]
    · exact Accounts.only_congr (hlocal.frame ha)
  · intro hyes
    have heq : c.worksOn env s = some owner := of_decide_eq_true hyes
    have hmine {a : Address} {o : Address} (ho : c.worksOn env s = some o) : o = owner :=
      Option.some.inj (ho.symm.trans heq)
    have hR : Set.EqOn (s.only owner) s R := fun a ha =>
      Accounts.only_of_owner fun d hd => hmine (a := a) (hpre ha hd)
    obtain ⟨t, hrun, ht, hframe⟩ := hlocal.again _ hR
    have hts : t = s'.only owner := by
      funext a
      by_cases ha : a ∈ R
      · rw [ht ha, Accounts.only_of_owner fun d hd => hmine (a := a) (hpost ha hd)]
      · have haW : a ∉ W := fun haW => ha (hlocal.sub haW)
        rw [hframe haW, Accounts.only_congr (hlocal.frame haW)]
    rw [← hts]
    exact hrun

/-! ## Runs -/

variable {tr : List (Runs.Event Accounts Call)}

/-- Where each `AddIntent` names its own wallet, the intents lie at addresses of their wallets. -/
theorem placed_of_run (hrun : Runs.Run (program env) tr s) (hadd : ∀ e ∈ tr, NamesOwn e) :
    s.Placed env := by
  refine hrun.inductionOn (P := fun _ s => s.Placed env) hadd ?_ ?_
  · rintro _ rfl
    exact Accounts.placed_init
  · intro tr s c s' hr ho hstep hadd
    exact ho.of_effect ((sound_of_reachable ⟨tr, hr⟩).effect hstep) hadd

theorem steps_of_run (hrun : Runs.Run (program env) tr s) (hinj : PdaInjective env s)
    (hadd : ∀ e ∈ tr, NamesOwn e) (owner : Address) {e : Runs.Event Accounts Call} (he : e ∈ tr) :
    Steps env owner e := by
  obtain ⟨later, earlier, rfl, hpre, hstep⟩ := hrun.step_of_mem he
  have hs := sound_of_reachable ⟨earlier, hpre⟩
  have hinj' : PdaInjective env e.pre := by
    intro A k A' k' w hw heq
    obtain ⟨w', hw'⟩ := (hs.effect hstep).wallet_kept hw
    exact hinj.earlier hrun A k A' k' w' hw' heq
  exact steps_of_process hs (placed_of_run hpre fun e he => hadd e (by simp [he])) hinj' hstep
    (hadd e he) owner

/-- The calls of a run on one wallet are a run by themselves, and it ends in the accounts of that wallet. -/
theorem run_callsOn (hrun : Runs.Run (program env) tr s) (hinj : PdaInjective env s)
    (hadd : ∀ e ∈ tr, NamesOwn e) (owner : Address) :
    Runs.Run (program env) (callsOn env owner tr) (s.only owner) := by
  refine Noninterference.run_purge hrun ?_ ?_ ?_
  · rintro _ rfl
    rfl
  · exact fun e he hno => (steps_of_run hrun hinj hadd owner he).silent hno
  · exact fun e he hyes => (steps_of_run hrun hinj hadd owner he).alone hyes

/-- The accounts at the end depend on the order of the calls within each wallet only, not on how the calls
on different wallets are interleaved. -/
theorem state_of_callsOn {tr' : List (Runs.Event Accounts Call)} (hrun : Runs.Run (program env) tr s)
    (hrun' : Runs.Run (program env) tr' s') (hinj : PdaInjective env s) (hinj' : PdaInjective env s')
    (hadd : ∀ e ∈ tr, NamesOwn e) (hadd' : ∀ e ∈ tr', NamesOwn e)
    (hcalls : ∀ owner, (tr.filter (concerns env owner)).map (·.label) =
      (tr'.filter (concerns env owner)).map (·.label)) : s = s' := by
  have honly (owner : Address) : s.only owner = s'.only owner := by
    refine Noninterference.run_unique ?_ ?_ (run_callsOn hrun hinj hadd owner)
      (run_callsOn hrun' hinj' hadd' owner) ?_
    · rintro _ _ rfl rfl
      rfl
    · intro s l t t' ht ht'
      exact Except.ok.inj (ht.symm.trans ht')
    · rw [callsOn, callsOn, Noninterference.labels_purge, Noninterference.labels_purge, hcalls]
  have hle {s s' : Accounts} (honly : ∀ owner, s.only owner = s'.only owner) {a : Address}
      {d : AccountData} (hd : s a = some d) : s' a = some d := by
    have h := congrFun (honly (d.owner a)) a
    rw [Accounts.only, Accounts.only, hd] at h
    simp only [Option.filter_some, decide_true, if_true] at h
    exact (Option.eq_some_of_filter_eq_some h.symm)
  funext a
  cases hd : s a with
  | some d => exact (hle honly hd).symm
  | none =>
    cases hd' : s' a with
    | none => rfl
    | some d => exact absurd (hd.symm.trans (hle (fun o => (honly o).symm) hd')) (by simp)

/-! ## Nobody is in the way -/

/-- Whatever the users of a wallet can do on its accounts alone they can do among all the others, with the
same outcome, unless an account of another wallet lies at an address that the call touches. -/
theorem accepted_among_others (hrun : Runs.Run (program env) tr s) (hinj : PdaInjective env s)
    (hadd : ∀ e ∈ tr, NamesOwn e) {owner : Address} {t : Accounts}
    (hfree : ∀ R W, Touches env (s.only owner) c R W → ∀ a ∈ R, ∀ d, s a = some d → d.owner a = owner)
    (hworks : c.worksOn env (s.only owner) = some owner) (h : process env (s.only owner) c = .ok t)
    (hown : NamesOwn ⟨s.only owner, c, t⟩) :
    ∃ s', process env s c = .ok s' ∧ s'.only owner = t := by
  have hs := sound_of_reachable ⟨_, run_callsOn hrun hinj hadd owner⟩
  obtain ⟨R, W, htouch, hlocal⟩ := local_of_process hs.noCustomApproved h
  have hR : Set.EqOn s (s.only owner) R := fun a ha =>
    (Accounts.only_of_owner (hfree R W htouch a ha)).symm
  obtain ⟨s', hrun', hpost, hframe⟩ := hlocal.again s hR
  refine ⟨s', hrun', ?_⟩
  funext a
  by_cases ha : a ∈ R
  · rw [← hpost ha]
    refine Accounts.only_of_owner fun d hd => ?_
    have hd' : t a = some d := (hpost ha).symm.trans hd
    rcases (hs.effect h).owner_origin hown hd' with ⟨d₀, hd₀, heq⟩ | hworks'
    · rw [← heq]
      exact of_decide_eq_true (Option.filter_eq_some_iff.mp hd₀).2
    · exact Option.some.inj (hworks'.symm.trans hworks)
  · have haW : a ∉ W := fun haW => ha (hlocal.sub haW)
    rw [Accounts.only_congr (hframe haW), ← hlocal.frame haW]

namespace NoninterferenceSample

open Sample

def table : List (Address × Bytes) :=
  [(key 1, message "expires 1970-01-01 00:16:40: propose remove intent 2 | wallet: a proposal: 0"),
   (key 2, message "expires 1970-01-01 00:16:40: approve remove intent 2 | wallet: a proposal: 0"),
   (key 1, message "expires 1970-01-01 00:16:40: propose remove intent 0 | wallet: b proposal: 0"),
   (key 3, message "expires 1970-01-01 00:16:40: approve remove intent 0 | wallet: b proposal: 0")]

/-- A removal in wallet `a`, with the first calls of wallet `b` in between. -/
def calls : List Call :=
  [create "a" 1 1 [key 2], create "b" 1 1 [key 3], propose "a" 1 0 [2], propose "b" 1 2 [0],
   approve "a" 1 0 0 1, execute "a" 1 0 [intent "a" 2]]

/-- The calls of the wallets one after the other. -/
def apart : List Call :=
  [create "a" 1 1 [key 2], propose "a" 1 0 [2], approve "a" 1 0 0 1, execute "a" 1 0 [intent "a" 2],
   create "b" 1 1 [key 3], propose "b" 1 2 [0]]

/-- The wallets that a call creates have addresses that end in zeros. -/
def shortWallet (c : Call) : Bool :=
  match c.ix with
  | .createWallet nameHash _ => decide ((findPda (Env.walletSeeds nameHash) (key 0)).1.val.drop 30 = [0, 0])
  | _ => true

/-- The event executes no `AddIntent`. -/
def addsNothing (e : Runs.Event Accounts Call) : Bool :=
  match e.label.ix with
  | .execute _ intent _ _ =>
    (e.pre.intent? intent).all fun i => decide (i.readType ≠ .ok .addIntent)
  | _ => true

theorem namesOwn_of_addsNothing {e : Runs.Event Accounts Call} (h : addsNothing e = true) :
    NamesOwn e := by
  intro declared intentAddr proposalAddr remaining i p hix hi ht hp
  simp only [addsNothing, hix, hi, Option.all_some, decide_eq_true_eq] at h
  exact absurd ht h

/-- A run of calls that create no wallet at an odd address and add no intent. -/
theorem run_of_calls {table : List (Address × Bytes)} {cs : List Call}
    (h : observe (Sample.env table) cs (fun tr _ => tr.all fun e => shortWallet e.label && addsNothing e) =
      some true) :
    ∃ tr s, Runs.Run (program (Sample.env table)) tr s ∧ tr.map (·.label) = cs.reverse ∧
      PdaInjective (Sample.env table) s ∧ ∀ e ∈ tr, NamesOwn e := by
  obtain ⟨tr, s, hrun, hlabels, hall⟩ := run_of_observe h
  have hevent {e : Runs.Event Accounts Call} (he : e ∈ tr) :
      shortWallet e.label = true ∧ addsNothing e = true :=
    (Bool.and_eq_true _ _).mp (List.all_eq_true.mp hall e he)
  refine ⟨tr, s, hrun, hlabels, ?_, fun e he => namesOwn_of_addsNothing (hevent he).2⟩
  intro W k W' k' w hw heq
  obtain ⟨c, hc, nameHash, args, hix, rfl⟩ := wallet_of_run hrun hw
  obtain ⟨e, he, rfl⟩ := List.mem_map.mp hc
  have hshort := (hevent he).1
  simp only [shortWallet, hix, decide_eq_true_eq] at hshort
  exact intentPda_injective hshort heq

theorem run_calls : observe (Sample.env table) calls
    (fun tr _ => tr.all fun e => shortWallet e.label && addsNothing e) = some true := by
  rw [table, message_ofList, message_ofList, message_ofList, message_ofList]
  decide +kernel

theorem run_apart : observe (Sample.env table) apart
    (fun tr _ => tr.all fun e => shortWallet e.label && addsNothing e) = some true := by
  rw [table, message_ofList, message_ofList, message_ofList, message_ofList]
  decide +kernel

end NoninterferenceSample

open NoninterferenceSample Sample in
theorem run_callsOn_sample :
    ∃ (tr : List (Runs.Event Accounts Call)) (s : Accounts),
      tr.map (·.label) = calls.reverse ∧
      Runs.Run (program (Sample.env table)) (callsOn (Sample.env table) (wallet "a") tr)
        (s.only (wallet "a")) := by
  obtain ⟨tr, s, hrun, hlabels, hinj, hadd⟩ := run_of_calls run_calls
  exact ⟨tr, s, hlabels, run_callsOn hrun hinj hadd (wallet "a")⟩

namespace NoninterferenceSample

open Sample

/-- The call is no cleanup, so the wallet it works on does not depend on the state. -/
def isPlain (c : Call) : Bool :=
  match c.ix with
  | .cleanupProposal _ _ => false
  | _ => true

theorem labels_concerns {tr : List (Runs.Event Accounts Call)} (owner : Address)
    (h : ∀ c ∈ tr.map (·.label), isPlain c = true) :
    (tr.filter (concerns (Sample.env table) owner)).map (·.label) =
      (tr.map (·.label)).filter fun c =>
        decide (c.worksOn (Sample.env table) Accounts.none = some owner) := by
  rw [List.filter_map]
  congr 1
  refine List.filter_congr fun e he => ?_
  have hplain := h e.label (List.mem_map_of_mem he)
  obtain ⟨s, ⟨clock, ix⟩, s'⟩ := e
  cases ix with
  | cleanupProposal => cases hplain
  | createWallet | propose | approve | cancel | execute => rfl

/-- Both orders hold the same calls on each wallet. -/
theorem same_calls (owner : Address) :
    calls.reverse.filter (fun c => decide (c.worksOn (Sample.env table) Accounts.none = some owner)) =
      apart.reverse.filter fun c =>
        decide (c.worksOn (Sample.env table) Accounts.none = some owner) := by
  have hcreate (name : String) (keys : List Address) :
      (create name 1 1 keys).worksOn (Sample.env table) Accounts.none = some (wallet name) := rfl
  have hpropose (name : String) (index g : UInt8) (data : Bytes) :
      (propose name index g data).worksOn (Sample.env table) Accounts.none = some (wallet name) := rfl
  have happrove (name : String) (index v g : UInt8) (n : UInt64) :
      (approve name index n v g).worksOn (Sample.env table) Accounts.none = some (wallet name) := rfl
  have hexecute (name : String) (index : UInt8) (n : UInt64) (views : List Address) :
      (execute name index n views).worksOn (Sample.env table) Accounts.none = some (wallet name) := rfl
  have hne : wallet "a" ≠ wallet "b" := by decide +kernel
  simp only [calls, apart, List.reverse_cons, List.reverse_nil, List.nil_append, List.cons_append,
    List.filter_cons, List.filter_nil, hcreate, hpropose, happrove, hexecute, Option.some.injEq]
  by_cases ha : wallet "a" = owner
  · subst ha
    simp [hne.symm]
  · simp [ha]

end NoninterferenceSample

open NoninterferenceSample Sample in
theorem state_of_callsOn_sample :
    ∃ (tr tr' : List (Runs.Event Accounts Call)) (s s' : Accounts),
      Runs.Run (program (Sample.env table)) tr s ∧ Runs.Run (program (Sample.env table)) tr' s' ∧
      tr.map (·.label) = calls.reverse ∧ tr'.map (·.label) = apart.reverse ∧ s = s' := by
  obtain ⟨tr, s, hrun, hlabels, hinj, hadd⟩ := run_of_calls run_calls
  obtain ⟨tr', s', hrun', hlabels', hinj', hadd'⟩ := run_of_calls run_apart
  have hplain : ∀ c ∈ calls.reverse, isPlain c = true := by decide
  have hplain' : ∀ c ∈ apart.reverse, isPlain c = true := by decide
  refine ⟨tr, tr', s, s', hrun, hrun', hlabels, hlabels',
    state_of_callsOn hrun hrun' hinj hinj' hadd hadd' fun owner => ?_⟩
  rw [labels_concerns owner (hlabels ▸ hplain), labels_concerns owner (hlabels' ▸ hplain'), hlabels,
    hlabels', same_calls]

namespace NoninterferenceSample

open Sample

theorem run_other : observe (Sample.env table) [create "b" 1 1 [key 3]]
    (fun tr _ => tr.all fun e => shortWallet e.label && addsNothing e) = some true := by
  decide +kernel

theorem run_first : observe (Sample.env table) [create "a" 1 1 [key 2]]
    (fun tr _ => tr.all fun e => shortWallet e.label && addsNothing e) = some true := by
  decide +kernel

/-- The accounts of the new wallets `a` and `b` have different addresses. -/
theorem notMem_newWalletAddrs {x : Address}
    (h : x ∈ newWalletAddrs (Sample.env table) (wallet "a")) :
    x ∉ newWalletAddrs (Sample.env table) (wallet "b") := by
  rcases h with rfl | rfl | rfl | rfl <;> (rintro (h | h | h | h) <;> revert h <;> decide +kernel)

end NoninterferenceSample

open NoninterferenceSample Sample in
theorem accepted_among_others_sample :
    ∃ s s' t : Accounts, s (wallet "b") ≠ none ∧
      process (Sample.env table) (s.only (wallet "a")) (create "a" 1 1 [key 2]) = .ok t ∧
      process (Sample.env table) s (create "a" 1 1 [key 2]) = .ok s' ∧ s'.only (wallet "a") = t := by
  obtain ⟨tr, s, hrun, hlabels, hinj, hadd⟩ := run_of_calls run_other
  obtain ⟨e, rfl, hlabel⟩ := List.map_eq_singleton_iff.mp hlabels
  obtain ⟨hpre, hstep, hpost⟩ := hrun.last
  have hnot : concerns (Sample.env table) (wallet "a") e = false := by
    rw [concerns, hlabel]
    show decide (some (wallet "b") = some (wallet "a")) = false
    decide +kernel
  have hempty : s.only (wallet "a") = Accounts.none := by
    have halone := run_callsOn hrun hinj hadd (wallet "a")
    rw [callsOn, Noninterference.purge, List.filter_cons_of_neg (by simp [hnot])] at halone
    cases halone with
    | start h => exact h
  have hfree : ∀ R W, Touches (Sample.env table) (s.only (wallet "a")) (create "a" 1 1 [key 2]) R W →
      ∀ x ∈ R, ∀ d, s x = some d → d.owner x = wallet "a" := by
    intro R W htouch x hx d hd
    cases htouch with
    | createWallet hw =>
      subst hw
      have hlocal := local_of_step ⟨_, hpre⟩ hstep
      rw [hlabel] at hlocal
      have hframe := hlocal.frame (notMem_newWalletAddrs hx)
      rw [hpost, hd] at hframe
      cases hpre with
      | start h =>
        rw [h] at hframe
        cases hframe
  obtain ⟨tr', t, hrun', hlabels', -⟩ := run_of_calls run_first
  obtain ⟨e', rfl, hlabel'⟩ := List.map_eq_singleton_iff.mp hlabels'
  obtain ⟨hpre', hstep', rfl⟩ := hrun'.last
  have halone : process (Sample.env table) (s.only (wallet "a")) (create "a" 1 1 [key 2]) = .ok e'.post := by
    cases hpre' with
    | start h =>
      rw [hempty, ← hlabel', ← h]
      exact hstep'
  obtain ⟨s', hs', honly⟩ := accepted_among_others hrun hinj hadd hfree rfl halone
    (fun _ _ _ _ _ _ hix => by cases hix)
  obtain ⟨w, hw⟩ := ((sound_of_reachable ⟨_, hpre⟩).effect hstep).wallet_created
    (congrArg Call.ix hlabel)
  refine ⟨s, s', e'.post, fun hnone => ?_, halone, hs', honly⟩
  have hused : s (wallet "b") = some (.wallet w) := hpost ▸ Accounts.wallet?_eq_some.mp hw
  rw [hnone] at hused
  cases hused

end ClearMsig
