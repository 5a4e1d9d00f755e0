import ClearMsig.Proofs.WalletProofs
import ClearMsig.Sample

/-!
# Isolation of wallets

Every intent a new wallet starts with lies at the address of its own wallet and index. `AddIntent`
execution derives the address of the new intent from the wallet it runs in, but takes the wallet and
the index that stand in the intent from the bytes of the proposal. Wallets are isolated in a run
exactly when the two agree in each of its executions.
-/

namespace ClearMsig

open Function (update)
open Registry

variable {env : Env} {s s' : Accounts} {c : Call}

/-- The intent account whose keys authorise an instruction. -/
def Instruction.intentAccount : Instruction → Option Address
  | .propose _ _ intent _ => some intent
  | .approve _ intent _ _ => some intent
  | .cancel _ intent _ _ => some intent
  | .execute _ intent _ _ => some intent
  | _ => none

/-- The intents of the wallets there are have addresses of their own. -/
def PdaInjective (env : Env) (s : Accounts) : Prop :=
  ∀ W k W' k' w, s.wallet? W = some w → env.intentPda W' k' = env.intentPda W k → W' = W ∧ k' = k

/-- A step leaves a wallet, the intents at its addresses and the proposals recorded for it alone. -/
structure Untouched (env : Env) (B : Address) (s s' : Accounts) : Prop where
  wallet : s'.wallet? B = s.wallet? B
  intents : ∀ k, s'.intent? (env.intentPda B k) = s.intent? (env.intentPda B k)
  proposals : ∀ a p, p.wallet = B → (s'.proposal? a = some p ↔ s.proposal? a = some p)

/-- Isolation in a state: an intent at the address of a wallet and an index belongs to them, and a call
authorised by the keys of an intent of one wallet leaves every other wallet alone. -/
structure Isolated (env : Env) (s : Accounts) : Prop where
  own : ∀ W k i, s.intent? (env.intentPda W k) = some i → i.wallet = W ∧ i.intentIndex = k
  frame : ∀ c s' A B k, process env s c = .ok s' → c.ix.intentAccount = some (env.intentPda A k) →
    B ≠ A → Untouched env B s s'

/-- An event that executes an `AddIntent` copies the wallet it runs in and the index of the new intent
into the new intent. -/
def AddsOwn (e : Runs.Event Accounts Call) : Prop :=
  ∀ declared intentAddr proposalAddr remaining w i p,
    e.label.ix = .execute declared intentAddr proposalAddr remaining →
    e.pre.wallet? declared.wallet.address = some w → e.pre.intent? intentAddr = some i →
    i.readType = .ok .addIntent → e.pre.proposal? proposalAddr = some p →
    ByteArr.ofBytes 32 (Intent.bytesAt p.paramsData.toList 0 32) = declared.wallet.address ∧
      Intent.byteAt p.paramsData.toList 33 = w.intentIndex + 1

/-! ## The addresses of intents -/

/-- Every intent lies at the address of its wallet and index, and the wallet exists. -/
def Accounts.Owned (env : Env) (s : Accounts) : Prop :=
  ∀ a i, s.intent? a = some i →
    a = env.intentPda i.wallet i.intentIndex ∧ ∃ w, s.wallet? i.wallet = some w

/-- A step keeps intents at their addresses when the intents it adds get theirs. -/
theorem Accounts.Owned.of_effect (ho : s.Owned env) (h : Effect env s c s') (hadd : AddsOwn ⟨s, c, s'⟩) :
    s'.Owned env := by
  intro a i' hi'
  rcases h.intent_origin hi' with ⟨i, hi, hd⟩ | ⟨-, hnew⟩
  · obtain ⟨haddr, w, hw⟩ := ho a i hi
    rw [Intent.wallet_congr hd, Intent.intentIndex_congr hd]
    exact ⟨haddr, h.wallet_kept hw⟩
  · cases hnew with
    | ofWallet hc hw hwallet hchecked ht hmeta =>
      obtain ⟨w, hw'⟩ := h.wallet_created hc
      rw [hmeta.wallet_eq, hmeta.intentIndex_eq]
      exact ⟨rfl, w, hw ▸ hw'⟩
    | ofBytes hc hl ht hbytes =>
      obtain ⟨hw, hk⟩ := hadd _ _ _ _ _ _ _ hc (Accounts.wallet?_of_eq hl.wallet_eq)
        (Accounts.intent?_of_eq hl.intent_eq) ht (Accounts.proposal?_of_eq hl.proposal_eq)
      rw [hbytes.wallet_eq, hbytes.intentIndex_eq, hw, hk]
      exact ⟨rfl, h.wallet_kept (Accounts.wallet?_of_eq hl.wallet_eq)⟩

theorem Accounts.owned_init : Accounts.none.Owned env :=
  fun _ _ h => absurd h (by simp [Accounts.none])

/-- Who the intent at an address belongs to. -/
theorem Accounts.Owned.eq_of_pda (ho : s.Owned env) (hinj : PdaInjective env s) {W : Address}
    {k : UInt8} {i : Intent} (hi : s.intent? (env.intentPda W k) = some i) :
    i.wallet = W ∧ i.intentIndex = k := by
  obtain ⟨haddr, w, hw⟩ := ho _ i hi
  obtain ⟨hW, hk⟩ := hinj _ _ W k w hw haddr
  exact ⟨hW.symm, hk.symm⟩

/-! ## The frame of a step -/

/-- The intents of other wallets lie elsewhere. -/
theorem PdaInjective.ne (hinj : PdaInjective env s) {A B : Address} {w : ClearWallet}
    (hw : s A = some (.wallet w)) (hne : B ≠ A) (j k : UInt8) :
    env.intentPda B j ≠ env.intentPda A k :=
  fun heq => hne (hinj A k B j w (Accounts.wallet?_of_eq hw) heq).1

/-- Writing a proposal of another wallet over one of another wallet. -/
theorem update_proposal_iff {f : Address → Option Proposal} {a b B : Address} {p v : Proposal}
    (hp : p.wallet = B) (hv : B ≠ v.wallet) (hold : ∀ q, f b = some q → B ≠ q.wallet) :
    update f b (some v) a = some p ↔ f a = some p := by
  by_cases h : a = b
  · subst h
    rw [Function.update_self]
    constructor
    · intro heq
      exact absurd (Option.some.inj heq ▸ hp).symm hv
    · intro heq
      exact absurd hp.symm (hold p heq)
  · rw [Function.update_of_ne h]

/-- A call that an intent of wallet `A` authorises leaves every other wallet alone. -/
theorem Effect.untouched (h : Effect env s c s') (ho : s.Owned env) (hinj : PdaInjective env s)
    {A B : Address} {k : UInt8} (hA : c.ix.intentAccount = some (env.intentPda A k)) (hne : B ≠ A) :
    Untouched env B s s' := by
  -- The intent belongs to `A`, so by `has_one` the instruction runs in `A`.
  have hwalletAddr {intentAddr walletAddr : Address} {i : Intent}
      (haddr : intentAddr = env.intentPda A k) (hi : s intentAddr = some (.intent i))
      (hone : i.wallet = walletAddr) : walletAddr = A :=
    hone.symm.trans (ho.eq_of_pda hinj (haddr ▸ Accounts.intent?_of_eq hi)).1
  have hold {walletAddr proposalAddr : Address} {proposal : Proposal}
      (hp : s proposalAddr = some (.proposal proposal)) (hpw : proposal.wallet = walletAddr)
      (hw : walletAddr = A) : ∀ q, s.proposal? proposalAddr = some q → B ≠ q.wallet := by
    intro q hq
    rw [Accounts.proposal?_of_eq hp] at hq
    cases hq
    rwa [hpw, hw]
  cases h with
  | created | cleaned => cases hA
  | proposed h hdata hwallet hintent hproposal =>
    obtain rfl := hwalletAddr (Option.some.inj hA) h.intent_eq h.has_one
    refine ⟨?_, fun j => ?_, fun a p hp => ?_⟩
    · rw [hwallet, Function.update_of_ne hne]
    · rw [hintent, Option.some.inj hA, Function.update_of_ne (hinj.ne h.wallet_eq hne j k)]
    · rw [hproposal]
      refine update_proposal_iff hp hne fun q hq => ?_
      rw [Accounts.proposal?_of_eq h.fresh] at hq
      cases hq
  | approved h happroved hactive hbit hwallet hintent hproposal =>
    have hw := hwalletAddr (Option.some.inj hA) h.intent_eq h.has_one
    refine ⟨by rw [hwallet], fun j => by rw [hintent], fun a p hp => ?_⟩
    rw [hproposal]
    refine update_proposal_iff hp ?_ (hold h.proposal_eq h.wallet_addr hw)
    rw [Proposal.wallet_congr Approve.vote_terms, h.wallet_addr, hw]
    exact hne
  | cancelled h hopen hbit hwallet hintent hproposal =>
    obtain rfl := hwalletAddr (Option.some.inj hA) h.intent_eq h.has_one
    refine ⟨by rw [hwallet], fun j => ?_, fun a p hp => ?_⟩
    · rw [hintent, Option.some.inj hA, Function.update_of_ne (hinj.ne h.wallet_eq hne j k)]
    · rw [hproposal]
      refine update_proposal_iff hp ?_ (hold h.proposal_eq h.wallet_addr rfl)
      rw [Proposal.wallet_congr Cancel.vote_terms, h.wallet_addr]
      exact hne
  | addedIntent h htype hnew hfresh hwallet hintent hproposal =>
    obtain rfl := hwalletAddr (Option.some.inj hA) h.intent_eq h.has_one
    refine ⟨?_, fun j => ?_, fun a p hp => ?_⟩
    · rw [hwallet, Function.update_of_ne hne]
    · rw [hintent, Option.some.inj hA, Function.update_of_ne (hinj.ne h.wallet_eq hne j k),
        Function.update_of_ne (hinj.ne h.wallet_eq hne j _)]
    · rw [hproposal]
      refine update_proposal_iff hp ?_ (hold h.proposal_eq h.wallet_addr rfl)
      rwa [h.wallet_addr]
  | removedIntent h htype htarget hcount hreleased hwallet hintent hproposal =>
    obtain rfl := hwalletAddr (Option.some.inj hA) h.intent_eq h.has_one
    refine ⟨by rw [hwallet], fun j => ?_, fun a p hp => ?_⟩
    · rw [hintent, Option.some.inj hA, Function.update_of_ne (hinj.ne h.wallet_eq hne j k),
        Function.update_of_ne (hinj.ne h.wallet_eq hne j _)]
    · rw [hproposal]
      refine update_proposal_iff hp ?_ (hold h.proposal_eq h.wallet_addr rfl)
      rwa [h.wallet_addr]

/-! ## Runs -/

/-- What is known of the addresses at the end of a run was true throughout. -/
theorem PdaInjective.earlier (hinj : PdaInjective env s) {later earlier : List (Runs.Event Accounts Call)}
    {e : Runs.Event Accounts Call} (hrun : Runs.Run (program env) (later ++ e :: earlier) s) :
    PdaInjective env e.post := by
  obtain ⟨hpre, hstep⟩ := hrun.split
  have hkept : Runs.Reachable (program env) s ∧
      ∀ W w, e.post.wallet? W = some w → ∃ w', s.wallet? W = some w' := by
    refine hrun.since (P := fun t => Runs.Reachable (program env) t ∧
      ∀ W w, e.post.wallet? W = some w → ∃ w', t.wallet? W = some w') ?_ ?_
    · exact ⟨⟨_, hpre.next hstep⟩, fun W w hw => ⟨w, hw⟩⟩
    · rintro e' - ⟨hr, hkept⟩ hstep'
      refine ⟨hr.next hstep', fun W w hw => ?_⟩
      obtain ⟨w₁, hw₁⟩ := hkept W w hw
      exact ((sound_of_reachable hr).effect hstep').wallet_kept hw₁
  intro W k W' k' w hw heq
  obtain ⟨w', hw'⟩ := hkept.2 W w hw
  exact hinj W k W' k' w' hw' heq

theorem Accounts.Owned.isolated (hs : Sound s) (ho : s.Owned env) (hinj : PdaInjective env s) :
    Isolated env s :=
  ⟨fun _ _ _ hi => ho.eq_of_pda hinj hi,
    fun _ _ _ _ _ h hA hne => (hs.effect h).untouched ho hinj hA hne⟩

/-- An added intent that belongs to the wallet and index of its address was copied from them. -/
theorem addsOwn_of_isolated (h : Effect env s c s') (hi : Isolated env s') :
    AddsOwn ⟨s, c, s'⟩ := by
  intro declared intentAddr proposalAddr remaining w i p hc hw hint ht hp
  obtain ⟨w', new, hw', hnew, -, hnew'⟩ := h.addIntent_stores hc hint ht hp
  obtain rfl := Option.some.inj (hw.symm.trans hw')
  obtain ⟨hW, hk⟩ := hi.own _ _ _ hnew'
  exact ⟨hnew.wallet_eq.symm.trans hW, hnew.intentIndex_eq.symm.trans hk⟩

/-- Wallets are isolated in every state of a run exactly when each `AddIntent` it executes copies the
wallet it runs in and the index of the new intent. -/
theorem isolated_iff_addsOwn {tr : List (Runs.Event Accounts Call)}
    (hrun : Runs.Run (program env) tr s) (hinj : PdaInjective env s) :
    (∀ e ∈ tr, Isolated env e.post) ↔ ∀ e ∈ tr, AddsOwn e := by
  refine hrun.forall_post_iff (P := fun s => s.Owned env) ?_ ?_ ?_ ?_
  · rintro _ rfl
    exact Accounts.owned_init
  · intro tr s c s' hr ho hstep hadd
    exact ho.of_effect ((sound_of_reachable ⟨tr, hr⟩).effect hstep) hadd
  · intro e he tr' hr ho
    obtain ⟨later, earlier, rfl, -⟩ := hrun.step_of_mem he
    exact ho.isolated (sound_of_reachable ⟨tr', hr⟩) (hinj.earlier hrun)
  · intro e he tr' hr hstep hiso
    exact addsOwn_of_isolated ((sound_of_reachable ⟨tr', hr⟩).effect hstep) hiso

namespace IsolationSample

open Sample

def table : List (Address × Bytes) :=
  [(key 1, addIntentMessage "propose" (wallet "b") "a" "0"),
   (key 2, addIntentMessage "approve" (wallet "b") "a" "0"),
   (key 1, message "expires 1970-01-01 00:16:40: propose  | wallet: b proposal: 0")]

/-- Wallet `a` adds an intent that names wallet `b` as its wallet and key 1 as its proposer. -/
def calls : List Call :=
  [create "b" 1 1 [key 3], create "a" 1 1 [key 2],
   propose "a" 0 0 (intentBody (wallet "b") 3 0 ++ [1, 0] ++ (key 1).val), approve "a" 0 0 0 1,
   execute "a" 0 0 [key 9, intent "a" 3]]

/-- A proposal in wallet `b` through the intent of wallet `a`. -/
def intrusion : Call :=
  ⟨0, .propose (key 9) (wallet "b") (intent "a" 3) ⟨1000, key 1, sig 2, []⟩⟩

/-- The wallets that a call of the sample creates have addresses that end in zeros. -/
def shortWallet (c : Call) : Bool :=
  match c.ix with
  | .createWallet nameHash _ =>
    decide (((Sample.env table).pda (Env.walletSeeds nameHash)).val.drop 30 = [0, 0])
  | _ => true

theorem pdaInjective_of_short {tr : List (Runs.Event Accounts Call)} {s : Accounts}
    (hrun : Runs.Run (program (Sample.env table)) tr s)
    (hshort : ∀ c ∈ tr.map (·.label), shortWallet c = true) : PdaInjective (Sample.env table) s := by
  intro W k W' k' w hw heq
  obtain ⟨c, hc, nameHash, args, hix, rfl⟩ := wallet_of_run hrun hw
  have h := hshort c hc
  simp only [shortWallet, hix, decide_eq_true_eq] at h
  exact intentPda_injective h heq

end IsolationSample

open IsolationSample Sample in
theorem isolated_iff_addsOwn_sample :
    ∃ (tr : List (Runs.Event Accounts Call)) (s : Accounts),
      Runs.Run (program (Sample.env table)) tr s ∧ tr.map (·.label) = calls.reverse ∧
      PdaInjective (Sample.env table) s ∧
      ((∀ e ∈ tr, Isolated (Sample.env table) e.post) ↔ ∀ e ∈ tr, AddsOwn e) := by
  have hobs : observe (Sample.env table) calls (fun _ _ => ()) = some () := by
    rw [table, message_ofList]
    decide +kernel
  obtain ⟨tr, s, hrun, hlabels, -⟩ := run_of_observe hobs
  have hinj : PdaInjective (Sample.env table) s := by
    refine pdaInjective_of_short hrun ?_
    rw [hlabels]
    decide +kernel
  exact ⟨tr, s, hrun, hlabels, hinj, isolated_iff_addsOwn hrun hinj⟩

open IsolationSample Sample in
/-- The intent of wallet `a` at index 3 belongs to wallet `b`, and a proposal through it takes a
proposal number of wallet `b`. -/
theorem intrusion_accepted :
    ∃ (s s' : Accounts) (i : Intent) (w w' : ClearWallet),
      Runs.Reachable (program (Sample.env table)) s ∧ PdaInjective (Sample.env table) s ∧
      s.intent? ((Sample.env table).intentPda (wallet "a") 3) = some i ∧ i.wallet = wallet "b" ∧
      wallet "b" ≠ wallet "a" ∧
      intrusion.ix.intentAccount = some ((Sample.env table).intentPda (wallet "a") 3) ∧
      process (Sample.env table) s intrusion = .ok s' ∧ s.wallet? (wallet "b") = some w ∧
      s'.wallet? (wallet "b") = some w' ∧ w'.proposalIndex ≠ w.proposalIndex := by
  have hobs : observe (Sample.env table) (calls ++ [intrusion]) (fun tr s => match tr with
      | e :: _ =>
        decide ((e.pre.intent? (intent "a" 3)).map (·.wallet) = some (wallet "b")) &&
          decide ((e.pre.wallet? (wallet "b")).map (·.proposalIndex) = some 0) &&
          decide ((s.wallet? (wallet "b")).map (·.proposalIndex) = some 1)
      | [] => false) = some true := by
    rw [table, message_ofList]
    decide +kernel
  obtain ⟨tr, s', hrun, hlabels, hstate⟩ := run_of_observe hobs
  cases tr with
  | nil => cases hstate
  | cons e tr =>
    simp only [Bool.and_eq_true, decide_eq_true_eq] at hstate
    obtain ⟨⟨hi, hw⟩, hw'⟩ := hstate
    obtain ⟨i, hi, hib⟩ := Option.map_eq_some_iff.mp hi
    obtain ⟨w, hw, hw0⟩ := Option.map_eq_some_iff.mp hw
    obtain ⟨w', hw', hw1⟩ := Option.map_eq_some_iff.mp hw'
    rw [List.reverse_append, List.reverse_singleton, List.singleton_append, List.map_cons,
      List.cons.injEq] at hlabels
    obtain ⟨hpre, hstep, rfl⟩ := hrun.last
    have hinj : PdaInjective (Sample.env table) e.pre := by
      refine pdaInjective_of_short hpre ?_
      rw [hlabels.2]
      decide +kernel
    refine ⟨e.pre, e.post, i, w, w', ⟨tr, hpre⟩, hinj, hi, hib, by decide +kernel, rfl, ?_, hw, hw', ?_⟩
    · rw [← hlabels.1]
      exact hstep
    · rw [hw0, hw1]
      decide

end ClearMsig
