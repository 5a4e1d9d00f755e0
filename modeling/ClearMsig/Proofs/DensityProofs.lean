import ClearMsig.Proofs.IsolationProofs

/-!
# Intent indices are dense

A new wallet comes with the intents 0, 1 and 2, and the execution of an `AddIntent` creates the next one and
raises the index with it. An address is used once, and every intent stays at its address. So the intents
created under a wallet are those at the indices up to its `intent_index`, one for each.

The proof has three parts:

1. `IndexStep`: what a step does to the index of one wallet, and which intents it creates under it.
2. `Indexed`: what holds of all indices and intents after a run.
3. An intent stays once it is there (`Effect.intent_kept`), so that it is created once.
-/

namespace ClearMsig

open Function (update)
open Registry

/-! ## Indices and what is created under them -/

/-- The `intent_index` of the wallet at an address. -/
def Accounts.intentIndex? (s : Accounts) (W : Address) : Option UInt8 :=
  (s.wallet? W).map (·.intentIndex)

/-- The wallet under which an instruction can create an intent. -/
def Instruction.createsUnder (env : Env) : Instruction → Option Address
  | .createWallet nameHash _ => some (env.pda (Env.walletSeeds nameHash))
  | .execute declared _ _ _ => some declared.wallet.address
  | _ => none

/-- The event creates the intent account at `a` under the wallet `W`. -/
structure CreatesIntent (env : Env) (W a : Address) (e : Runs.Event Accounts Call) : Prop where
  under : e.label.ix.createsUnder env = some W
  before : e.pre.intent? a = none
  after : ∃ i, e.post.intent? a = some i

/-- What an event does to the index of a wallet: nothing, the wallet is new, or one intent is added. -/
inductive IndexStep (env : Env) (W : Address) (e : Runs.Event Accounts Call) : Prop where
  | kept (hindex : e.post.intentIndex? W = e.pre.intentIndex? W) (hnone : ∀ a, ¬ CreatesIntent env W a e)
  | opened (hpre : e.pre.intentIndex? W = none) (hpost : e.post.intentIndex? W = some 2)
      (hcreates : ∀ a, CreatesIntent env W a e ↔ ∃ k ≤ 2, a = env.intentPda W k)
      (hdistinct : ∀ k ≤ 2, ∀ k' ≤ 2, env.intentPda W k = env.intentPda W k' → k = k')
  | raised {n : UInt8} (hpre : e.pre.intentIndex? W = some n)
      (hpost : e.post.intentIndex? W = some (n + 1))
      (hcreates : ∀ a, CreatesIntent env W a e ↔ a = env.intentPda W (n + 1))
      (hfresh : e.pre.intent? (env.intentPda W (n + 1)) = none)

variable {env : Env} {s s' : Accounts} {c : Call} {W a : Address}

/-! ## One step -/

theorem byte_le_two_iff {k : UInt8} : k ≤ 2 ↔ k = 0 ∨ k = 1 ∨ k = 2 := by
  have h0 : (0 : UInt8).toNat = 0 := rfl
  have h1 : (1 : UInt8).toNat = 1 := rfl
  have h2 : (2 : UInt8).toNat = 2 := rfl
  rw [UInt8.le_iff_toNat_le, ← UInt8.toNat_inj, ← UInt8.toNat_inj, ← UInt8.toNat_inj]
  omega

theorem byte_le_add_one_iff {n k : UInt8} (h : n < 255) : k ≤ n + 1 ↔ k ≤ n ∨ k = n + 1 := by
  have h1 : (1 : UInt8).toNat = 1 := rfl
  have h255 : (255 : UInt8).toNat = 255 := rfl
  rw [UInt8.lt_iff_toNat_lt, h255] at h
  have hadd : (n + 1).toNat = n.toNat + 1 := by
    rw [UInt8.toNat_add, h1]
    omega
  rw [UInt8.le_iff_toNat_le, UInt8.le_iff_toNat_le, ← UInt8.toNat_inj, hadd]
  omega

/-- An accepted `create_wallet` has three different addresses for its intents. -/
theorem CreateWallet.intentPda_distinct {nameHash : Address} {args : CreateWalletArgs}
    (h : CreateWallet.create env s nameHash args = .ok s') :
    let w := env.pda (Env.walletSeeds nameHash)
    ∀ k ≤ 2, ∀ k' ≤ 2, env.intentPda w k = env.intentPda w k' → k = k' := by
  obtain ⟨w, i₀, i₁, i₂, rfl, -, -, -, -, s₀, s₁, s₂, bump, -, -, -, rfl, hf₁, rfl, hf₂, -⟩ :=
    CreateWallet.of_create_eq_ok h
  obtain ⟨h10, -⟩ := Accounts.of_set_eq_none hf₁
  obtain ⟨h21, hf₂⟩ := Accounts.of_set_eq_none hf₂
  obtain ⟨h20, -⟩ := Accounts.of_set_eq_none hf₂
  intro w k hk k' hk' heq
  rcases byte_le_two_iff.mp hk with rfl | rfl | rfl <;>
    rcases byte_le_two_iff.mp hk' with rfl | rfl | rfl
  · rfl
  · exact absurd heq.symm h10
  · exact absurd heq.symm h20
  · exact absurd heq h10
  · rfl
  · exact absurd heq.symm h21
  · exact absurd heq h20
  · exact absurd heq h21
  · rfl

/-- The event creates nothing under a wallet that its instruction does not work for. -/
theorem not_createsIntent_of_ne {e : Runs.Event Accounts Call} (h : e.label.ix.createsUnder env ≠ some W) :
    ¬ CreatesIntent env W a e :=
  fun hc => h hc.under

theorem intentIndex?_update {w' : ClearWallet} {b : Address}
    (hwallet : s'.wallet? = update s.wallet? b (some w')) :
    s'.intentIndex? W = if W = b then some w'.intentIndex else s.intentIndex? W := by
  rw [Accounts.intentIndex?, hwallet, Function.update_apply]
  split_ifs <;> rfl

/-- A wallet that is written with its index. -/
theorem intentIndex?_congr {w w' : ClearWallet} {b : Address}
    (hwallet : s'.wallet? = update s.wallet? b (some w')) (hw : s.wallet? b = some w)
    (hindex : w'.intentIndex = w.intentIndex) : s'.intentIndex? W = s.intentIndex? W := by
  rw [intentIndex?_update hwallet]
  split_ifs with h
  · subst h
    rw [Accounts.intentIndex?, hw, hindex]
    rfl
  · rfl

/-- The wallet of a new name. -/
theorem indexStep_createWallet {clock : Int64} {nameHash : Address} {args : CreateWalletArgs}
    (h : CreateWallet.create env s nameHash args = .ok s') (W : Address) :
    IndexStep env W ⟨s, ⟨clock, .createWallet nameHash args⟩, s'⟩ := by
  have hdistinct := CreateWallet.intentPda_distinct h
  have heff : Effect env s ⟨clock, .createWallet nameHash args⟩ s' := effect_createWallet h
  cases heff with
  | @created _ _ _ _ w _ _ _ _ hw _ _ _ _ hfresh hfresh₀ hfresh₁ hfresh₂ hwallet hintent _ =>
    by_cases hW : W = w
    · subst hW
      rw [← hw] at hdistinct
      have hnone : ∀ k ≤ 2, s.intent? (env.intentPda W k) = none := by
        intro k hk
        rcases byte_le_two_iff.mp hk with rfl | rfl | rfl
        · exact Accounts.intent?_of_eq hfresh₀
        · exact Accounts.intent?_of_eq hfresh₁
        · exact Accounts.intent?_of_eq hfresh₂
      refine .opened ?_ ?_ (fun a => ⟨?_, ?_⟩) hdistinct
      · rw [Accounts.intentIndex?, Accounts.wallet?_of_eq hfresh]
        rfl
      · rw [intentIndex?_update hwallet, if_pos rfl]
        rfl
      · rintro ⟨-, hbefore, i, hi⟩
        rw [hintent] at hi
        rcases update_origin hi with hi | ⟨rfl, -⟩
        · rcases update_origin hi with hi | ⟨rfl, -⟩
          · rcases update_origin hi with hi | ⟨rfl, -⟩
            · rw [hbefore] at hi
              cases hi
            · exact ⟨0, by decide, rfl⟩
          · exact ⟨1, by decide, rfl⟩
        · exact ⟨2, by decide, rfl⟩
      · rintro ⟨k, hk, rfl⟩
        have hne (j : UInt8) (hj : j ≤ 2) (hjk : k ≠ j) : env.intentPda W k ≠ env.intentPda W j :=
          fun heq => hjk (hdistinct k hk j hj heq)
        refine ⟨congrArg some hw.symm, hnone k hk, ?_⟩
        rw [hintent]
        rcases byte_le_two_iff.mp hk with rfl | rfl | rfl
        · rw [Function.update_of_ne (hne 2 (by decide) (by decide)),
            Function.update_of_ne (hne 1 (by decide) (by decide)), Function.update_self]
          exact ⟨_, rfl⟩
        · rw [Function.update_of_ne (hne 2 (by decide) (by decide)), Function.update_self]
          exact ⟨_, rfl⟩
        · exact ⟨_, Function.update_self ..⟩
    · refine .kept ?_ fun a => not_createsIntent_of_ne ?_
      · rw [intentIndex?_update hwallet, if_neg hW]
      · intro hunder
        exact hW ((Option.some.inj hunder).symm.trans hw.symm)

section AddIntent

variable {clock : Int64} {declared : Execute.Declared} {intentAddr proposalAddr : Address}
  {remaining : List AccountView} {wallet : ClearWallet} {intent new released : Intent}

/-- The execution of an `AddIntent` creates one intent. -/
theorem createsIntent_addedIntent_iff (hintent_eq : s.intent? intentAddr = some intent) {b : Address}
    (hfresh : s.intent? b = none)
    (hintent : s'.intent? = update (update s.intent? b (some new)) intentAddr (some released)) :
    CreatesIntent env declared.wallet.address a
      ⟨s, ⟨clock, .execute declared intentAddr proposalAddr remaining⟩, s'⟩ ↔ a = b := by
  constructor
  · rintro ⟨-, hbefore, i, hi⟩
    rw [hintent] at hi
    rcases update_origin hi with hi | ⟨rfl, -⟩
    · rcases update_origin hi with hi | ⟨rfl, -⟩
      · rw [hbefore] at hi
        cases hi
      · rfl
    · rw [hbefore] at hintent_eq
      cases hintent_eq
  · rintro rfl
    refine ⟨rfl, hfresh, new, ?_⟩
    rw [hintent, Function.update_of_ne (ne_of_fresh hintent_eq hfresh).symm, Function.update_self]

/-- It raises the index of the wallet that it runs in. -/
theorem indexStep_addedIntent (hwallet_eq : s.wallet? declared.wallet.address = some wallet)
    (hintent_eq : s.intent? intentAddr = some intent)
    (hfresh : s.intent? (env.intentPda declared.wallet.address (wallet.intentIndex + 1)) = none)
    (hwallet : s'.wallet? = update s.wallet? declared.wallet.address
      (some { wallet with intentIndex := wallet.intentIndex + 1 }))
    (hintent : s'.intent? = update
      (update s.intent? (env.intentPda declared.wallet.address (wallet.intentIndex + 1)) (some new))
      intentAddr (some released)) (W : Address) :
    IndexStep env W ⟨s, ⟨clock, .execute declared intentAddr proposalAddr remaining⟩, s'⟩ := by
  by_cases hW : W = declared.wallet.address
  · subst hW
    refine .raised ?_ ?_ (fun a => createsIntent_addedIntent_iff hintent_eq hfresh hintent) hfresh
    · rw [Accounts.intentIndex?, hwallet_eq]
      rfl
    · rw [intentIndex?_update hwallet, if_pos rfl]
  · refine .kept ?_ fun a => not_createsIntent_of_ne fun hunder => hW (Option.some.inj hunder).symm
    rw [intentIndex?_update hwallet, if_neg hW]

end AddIntent

/-- What a step does to the index of each wallet. -/
theorem indexStep_of_process (hs : Sound s) (h : process env s c = .ok s') (W : Address) :
    IndexStep env W ⟨s, c, s'⟩ := by
  have heff := hs.effect h
  have kept (hwallet : s'.wallet? = s.wallet?) : s'.intentIndex? W = s.intentIndex? W := by
    rw [Accounts.intentIndex?, hwallet]
    rfl
  have none_under (hunder : c.ix.createsUnder env = none) (a : Address) :
      ¬ CreatesIntent env W a ⟨s, c, s'⟩ :=
    not_createsIntent_of_ne fun h => Option.some_ne_none _ (h.symm.trans hunder)
  cases heff with
  | created => exact indexStep_createWallet h W
  | proposed hacc _ hwallet _ _ =>
    exact .kept (intentIndex?_congr hwallet (Accounts.wallet?_of_eq hacc.wallet_eq) rfl) (none_under rfl)
  | approved _ _ _ _ hwallet _ _
  | cancelled _ _ _ hwallet _ _
  | cleaned _ _ hwallet _ _ => exact .kept (kept hwallet) (none_under rfl)
  | addedIntent hl _ _ hfresh hwallet hintent _ =>
    exact indexStep_addedIntent (Accounts.wallet?_of_eq hl.wallet_eq) (Accounts.intent?_of_eq hl.intent_eq)
      (Accounts.intent?_of_eq hfresh) hwallet hintent W
  | @removedIntent _ _ _ _ _ _ _ _ _ _ target released hl _ htarget _ hreleased hwallet hintent _ =>
    refine .kept (kept hwallet) ?_
    rintro a ⟨-, hbefore, i, hi⟩
    have htarget' := Accounts.intent?_of_eq htarget
    have hold := Accounts.intent?_of_eq hl.intent_eq
    rw [hintent] at hi
    rcases update_origin hi with hi | ⟨rfl, -⟩
    · rcases update_origin hi with hi | ⟨rfl, -⟩
      · rw [hbefore] at hi
        cases hi
      · rw [hbefore] at htarget'
        cases htarget'
    · rw [hbefore] at hold
      cases hold

/-! ## All indices of a state -/

/-- `a` is the address of an intent of the wallet `W` at an index up to its `intent_index`. -/
def Accounts.Indexes (env : Env) (s : Accounts) (W a : Address) : Prop :=
  ∃ n k, s.intentIndex? W = some n ∧ k ≤ n ∧ a = env.intentPda W k

/-- The intents after a run are those at the indices of the wallets, each created under its wallet and at
an address of its own. -/
structure Indexed (env : Env) (tr : List (Runs.Event Accounts Call)) (s : Accounts) : Prop where
  created_iff : ∀ W a, (∃ e ∈ tr, CreatesIntent env W a e) ↔ s.Indexes env W a
  present : ∀ W a, s.Indexes env W a → ∃ i, s.intent? a = some i
  distinct : ∀ W n k k', s.intentIndex? W = some n → k ≤ n → k' ≤ n →
    env.intentPda W k = env.intentPda W k' → k = k'
  every : ∀ a i, s.intent? a = some i → ∃ W, s.Indexes env W a

theorem indexed_init : Indexed env [] Accounts.none := by
  have hindex (W a : Address) : ¬ Accounts.none.Indexes env W a := by
    rintro ⟨n, k, hn, -⟩
    cases hn
  refine ⟨fun W a => ⟨?_, fun h => absurd h (hindex W a)⟩, fun W a h => absurd h (hindex W a), ?_, ?_⟩
  · rintro ⟨e, he, -⟩
    cases he
  · intro W n k k' hn
    cases hn
  · intro a i hi
    cases hi

variable {tr : List (Runs.Event Accounts Call)}

/-- An index that is raised does not wrap around: the address of index 0 is in use. -/
theorem Indexed.index_lt (hx : Indexed env tr s) {n : UInt8} (hn : s.intentIndex? W = some n)
    (hfresh : s.intent? (env.intentPda W (n + 1)) = none) : n < 255 := by
  by_contra hge
  have hlt := n.toNat_lt
  have h255 : n = 255 := by
    rw [← UInt8.toNat_inj]
    rw [UInt8.lt_iff_toNat_lt] at hge
    have : (255 : UInt8).toNat = 255 := rfl
    omega
  subst h255
  obtain ⟨i, hi⟩ := hx.present W _ ⟨255, 0, hn, by decide, rfl⟩
  exact ne_of_fresh hi hfresh rfl

/-- The indices after a step are the old ones and what the step creates. -/
theorem Indexed.indexes_step (hx : Indexed env tr s) (h : IndexStep env W ⟨s, c, s'⟩) :
    s'.Indexes env W a ↔ s.Indexes env W a ∨ CreatesIntent env W a ⟨s, c, s'⟩ := by
  cases h with
  | kept hindex hnone =>
    simp only [Accounts.Indexes, hindex, hnone, or_false]
  | opened hpre hpost hcreates hdistinct =>
    simp only [Accounts.Indexes, hpre, hpost, hcreates, reduceCtorEq, false_and, exists_const, false_or,
      Option.some.injEq, exists_and_left, exists_eq_left']
  | @raised n hpre hpost hcreates hfresh =>
    have hlt := hx.index_lt hpre hfresh
    simp only [Accounts.Indexes, hpre, hpost, hcreates, Option.some.injEq, exists_and_left, exists_eq_left',
      byte_le_add_one_iff hlt]
    constructor
    · rintro ⟨k, hk | rfl, rfl⟩
      · exact .inl ⟨k, hk, rfl⟩
      · exact .inr rfl
    · rintro (⟨k, hk, rfl⟩ | rfl)
      · exact ⟨k, .inl hk, rfl⟩
      · exact ⟨_, .inr rfl, rfl⟩

/-- A new intent is created under a wallet. -/
theorem NewIntent.creates {i : Intent} (h : NewIntent env s c a i) (hbefore : s a = none)
    (hafter : s'.intent? a = some i) : ∃ W, CreatesIntent env W a ⟨s, c, s'⟩ := by
  have hold := Accounts.intent?_of_eq hbefore
  cases h with
  | @ofWallet nameHash _ _ _ _ _ hc => exact ⟨env.pda (Env.walletSeeds nameHash), by rw [hc]; rfl, hold, i, hafter⟩
  | @ofBytes declared _ _ _ _ _ _ _ hc => exact ⟨declared.wallet.address, by rw [hc]; rfl, hold, i, hafter⟩

theorem Indexed.next (hx : Indexed env tr s) (hs : Sound s) (h : process env s c = .ok s') :
    Indexed env (⟨s, c, s'⟩ :: tr) s' := by
  have hstep (W : Address) := indexStep_of_process hs h W
  have heff := hs.effect h
  refine ⟨fun W a => ?_, fun W a ha => ?_, fun W n k k' hn hk hk' heq => ?_, fun a i hi => ?_⟩
  · rw [hx.indexes_step (hstep W), ← hx.created_iff, List.exists_mem_cons_iff, or_comm]
  · rcases (hx.indexes_step (hstep W)).mp ha with hold | hnew
    · obtain ⟨i, hi⟩ := hx.present W a hold
      obtain ⟨i', hi', -⟩ := heff.intent_kept hi
      exact ⟨i', hi'⟩
    · exact hnew.after
  · cases hstep W with
    | kept hindex hnone => exact hx.distinct W n k k' (hindex ▸ hn) hk hk' heq
    | opened hpre hpost hcreates hdistinct =>
      obtain rfl := Option.some.inj (hpost.symm.trans hn)
      exact hdistinct k hk k' hk' heq
    | @raised m hpre hpost hcreates hfresh =>
      obtain rfl := Option.some.inj (hpost.symm.trans hn)
      have hlt := hx.index_lt hpre hfresh
      have hne {j : UInt8} (hj : j ≤ m) : env.intentPda W j ≠ env.intentPda W (m + 1) := by
        obtain ⟨i, hi⟩ := hx.present W _ ⟨m, j, hpre, hj, rfl⟩
        exact ne_of_fresh hi hfresh
      rcases (byte_le_add_one_iff hlt).mp hk with hk | rfl <;>
        rcases (byte_le_add_one_iff hlt).mp hk' with hk' | rfl
      · exact hx.distinct W m k k' hpre hk hk' heq
      · exact absurd heq (hne hk)
      · exact absurd heq.symm (hne hk')
      · rfl
  · rcases heff.intent_origin hi with ⟨j, hj, -⟩ | ⟨hnone, hnew⟩
    · obtain ⟨W, hW⟩ := hx.every a j hj
      exact ⟨W, (hx.indexes_step (hstep W)).mpr (.inl hW)⟩
    · obtain ⟨W, hW⟩ := hnew.creates hnone hi
      exact ⟨W, (hx.indexes_step (hstep W)).mpr (.inr hW)⟩

theorem indexed_of_run (hrun : Runs.Run (program env) tr s) : Indexed env tr s := by
  induction hrun with
  | start h =>
    subst h
    exact indexed_init
  | next hr hstep ih => exact ih.next (sound_of_reachable ⟨_, hr⟩) hstep

/-! ## The claims of an index -/

/-- The intents created under the wallet `W`, whose `intent_index` is `n`, are those at its addresses for
`0..=n`: all of them are there, at addresses of their own, and none is beyond them. -/
structure Dense (env : Env) (tr : List (Runs.Event Accounts Call)) (s : Accounts) (W : Address)
    (n : UInt8) : Prop where
  created_iff : ∀ a, (∃ e ∈ tr, CreatesIntent env W a e) ↔ ∃ k ≤ n, a = env.intentPda W k
  present : ∀ k ≤ n, ∃ i, s.intent? (env.intentPda W k) = some i
  distinct : ∀ k ≤ n, ∀ k' ≤ n, env.intentPda W k = env.intentPda W k' → k = k'
  unused_above : PdaInjective env s → ∀ k, n < k → s.intent? (env.intentPda W k) = none

theorem Indexed.dense (hx : Indexed env tr s) {n : UInt8} (hn : s.intentIndex? W = some n) :
    Dense env tr s W n := by
  have hindexes (a : Address) : s.Indexes env W a ↔ ∃ k ≤ n, a = env.intentPda W k := by
    simp only [Accounts.Indexes, hn, Option.some.injEq, exists_and_left, exists_eq_left']
  refine ⟨fun a => (hx.created_iff W a).trans (hindexes a), fun k hk => ?_, fun k hk k' hk' heq => ?_, ?_⟩
  · exact hx.present W _ ((hindexes _).mpr ⟨k, hk, rfl⟩)
  · exact hx.distinct W n k k' hn hk hk' heq
  · intro hinj k hk
    by_contra hne
    obtain ⟨i, hi⟩ := Option.ne_none_iff_exists'.mp hne
    obtain ⟨w, hw, -⟩ := Option.map_eq_some_iff.mp hn
    obtain ⟨W', m, j, hm, hj, heq⟩ := hx.every _ i hi
    obtain ⟨w', hw', -⟩ := Option.map_eq_some_iff.mp hm
    obtain ⟨rfl, rfl⟩ := hinj W' j W k w' hw' heq
    obtain rfl := Option.some.inj (hn.symm.trans hm)
    exact absurd hj (UInt8.not_le.mpr hk)

/-- The intent that an event has created stays through the later events, with its definition, and is not
created again. -/
def CreatedOnce (env : Env) (a : Address) (e : Runs.Event Accounts Call)
    (later : List (Runs.Event Accounts Call)) : Prop :=
  ∃ i, e.post.intent? a = some i ∧ ∀ e' ∈ later, (∀ W, ¬ CreatesIntent env W a e') ∧
    ∃ i', e'.post.intent? a = some i' ∧ i'.definition = i.definition

/-- An intent that is there stays through the events of a run. -/
theorem kept_of_run {later earlier : List (Runs.Event Accounts Call)} {e : Runs.Event Accounts Call}
    (hrun : Runs.Run (program env) (later ++ e :: earlier) s) {i : Intent}
    (hi : e.post.intent? a = some i) : CreatedOnce env a e later := by
  have hfrom (mid : List (Runs.Event Accounts Call)) (t : Accounts)
      (hmid : Runs.Run (program env) (mid ++ e :: earlier) t) :
      Runs.Reachable (program env) t ∧ ∃ i', t.intent? a = some i' ∧ i'.definition = i.definition := by
    refine hmid.since (P := fun t => Runs.Reachable (program env) t ∧
      ∃ i', t.intent? a = some i' ∧ i'.definition = i.definition) ?_ ?_
    · obtain ⟨hpre, hstep⟩ := hmid.split
      exact ⟨⟨_, hpre.next hstep⟩, i, hi, rfl⟩
    · rintro e' - ⟨hr, i', hi', hd⟩ hstep
      obtain ⟨i'', hi'', hd'⟩ := ((sound_of_reachable hr).effect hstep).intent_kept hi'
      exact ⟨hr.next hstep, i'', hi'', hd'.trans hd⟩
  refine ⟨i, hi, fun e' he' => ?_⟩
  obtain ⟨mid₁, mid₂, rfl⟩ := List.append_of_mem he'
  have hsplit : mid₁ ++ e' :: mid₂ ++ e :: earlier = mid₁ ++ e' :: (mid₂ ++ e :: earlier) := by simp
  obtain ⟨hpre, hstep⟩ := Runs.Run.split (hsplit ▸ hrun)
  obtain ⟨-, j, hj, -⟩ := hfrom mid₂ _ hpre
  obtain ⟨-, hpost⟩ := hfrom (e' :: mid₂) _ (hpre.next hstep)
  refine ⟨fun W hc => ?_, hpost⟩
  rw [hc.before] at hj
  cases hj

/-- The event raises the index of the wallet `W` by one and creates the intent there. Of the other intents
it changes the counter of the one at `intentAddr` only. -/
structure RaisesIndex (env : Env) (W intentAddr : Address) (e : Runs.Event Accounts Call) : Prop where
  index : ∃ n n', e.pre.intentIndex? W = some n ∧ e.post.intentIndex? W = some n' ∧
    n'.toNat = n.toNat + 1 ∧ ∀ a, CreatesIntent env W a e ↔ a = env.intentPda W n'
  frame : ∀ a i, e.pre.intent? a = some i → a ≠ intentAddr → e.post.intent? a = some i
  counter : ∀ i, e.pre.intent? intentAddr = some i → e.post.intent? intentAddr = some i.releaseProposal

theorem Indexed.raises (hx : Indexed env tr s) (hs : Sound s) (h : process env s c = .ok s')
    {declared : Execute.Declared} {intentAddr proposalAddr : Address} {remaining : List AccountView}
    {i : Intent} (hc : c.ix = .execute declared intentAddr proposalAddr remaining)
    (hi : s.intent? intentAddr = some i) (ht : i.readType = .ok .addIntent) :
    RaisesIndex env declared.wallet.address intentAddr ⟨s, c, s'⟩ := by
  have heff := hs.effect h
  cases heff with
  | created | proposed | approved | cancelled | cleaned => cases hc
  | @addedIntent _ _ _ _ _ _ wallet intent _ new hl _ _ hfresh hwallet hintent _ =>
    cases hc
    have hold := Accounts.intent?_of_eq hl.intent_eq
    have hnone := Accounts.intent?_of_eq hfresh
    have hindex : s.intentIndex? declared.wallet.address = some wallet.intentIndex := by
      rw [Accounts.intentIndex?, Accounts.wallet?_of_eq hl.wallet_eq]
      rfl
    have hlt := hx.index_lt hindex hnone
    refine ⟨⟨_, _, hindex, ?_, ?_, fun a => createsIntent_addedIntent_iff hold hnone hintent⟩, ?_, ?_⟩
    · rw [intentIndex?_update hwallet, if_pos rfl]
    · rw [UInt8.lt_iff_toNat_lt] at hlt
      have h255 : (255 : UInt8).toNat = 255 := rfl
      have h1 : (1 : UInt8).toNat = 1 := rfl
      rw [UInt8.toNat_add, h1]
      omega
    · intro a j hj hne
      show s'.intent? a = some j
      rw [hintent, Function.update_of_ne hne]
      exact update_fresh hj hnone
    · intro j hj
      obtain rfl := Option.some.inj (hj.symm.trans hold)
      show s'.intent? intentAddr = _
      rw [hintent, Function.update_self]
  | removedIntent hl htype =>
    cases hc
    obtain rfl := Option.some.inj (hi.symm.trans (Accounts.intent?_of_eq hl.intent_eq))
    rw [htype] at ht
    cases ht

/-- No index goes back. -/
theorem Indexed.index_le (hx : Indexed env tr s) (hs : Sound s) (h : process env s c = .ok s') {n : UInt8}
    (hn : s.intentIndex? W = some n) : ∃ n', s'.intentIndex? W = some n' ∧ n ≤ n' := by
  cases indexStep_of_process hs h W with
  | kept hindex => exact ⟨n, hindex.trans hn, UInt8.le_refl n⟩
  | opened hpre => exact absurd (hn.symm.trans hpre) (Option.some_ne_none n)
  | @raised m hpre hpost _ hfresh =>
    obtain rfl := Option.some.inj (hn.symm.trans hpre)
    exact ⟨_, hpost, (byte_le_add_one_iff (hx.index_lt hpre hfresh)).mpr (.inl (UInt8.le_refl n))⟩

/-- Intent indices are dense and never reused. After every run the intents created under a wallet are those
at its addresses for the indices up to its `intent_index`, which never goes back. Each of them is created
by one event and stays in all later ones, with its definition, and every execution of an `AddIntent` raises
the index by one and changes nothing else than the counter of its own intent. -/
theorem intents_dense (hrun : Runs.Run (program env) tr s) :
    (∀ W n, s.intentIndex? W = some n → Dense env tr s W n) ∧
    (∀ e ∈ tr, ∀ W n, e.pre.intentIndex? W = some n → ∃ n', e.post.intentIndex? W = some n' ∧ n ≤ n') ∧
    (∀ later e earlier W a, tr = later ++ e :: earlier → CreatesIntent env W a e →
      CreatedOnce env a e later) ∧
    ∀ e ∈ tr, ∀ declared intentAddr proposalAddr remaining i,
      e.label.ix = .execute declared intentAddr proposalAddr remaining →
      e.pre.intent? intentAddr = some i → i.readType = .ok .addIntent →
      RaisesIndex env declared.wallet.address intentAddr e := by
  refine ⟨fun W n hn => (indexed_of_run hrun).dense hn, ?_, ?_, ?_⟩
  · intro e he W n hn
    obtain ⟨later, earlier, rfl, hpre, hstep⟩ := hrun.step_of_mem he
    exact (indexed_of_run hpre).index_le (sound_of_reachable ⟨_, hpre⟩) hstep hn
  · rintro later e earlier W a rfl hcreates
    obtain ⟨i, hi⟩ := hcreates.after
    exact kept_of_run hrun hi
  · intro e he declared intentAddr proposalAddr remaining i hc hi ht
    obtain ⟨later, earlier, rfl, hpre, hstep⟩ := hrun.step_of_mem he
    exact (indexed_of_run hpre).raises (sound_of_reachable ⟨_, hpre⟩) hstep hc hi ht

namespace DensitySample

open Sample

def body : Bytes := (wallet "a").val ++ [255, 3, 9, 1, 1, 1]

def table : List (Address × Bytes) :=
  [(key 1, addIntentMessage "propose" (wallet "a") "a" "0"),
   (key 2, addIntentMessage "approve" (wallet "a") "a" "0")]

/-- An `AddIntent` and its execution. -/
def calls : List Call :=
  [create "a" 1 1 [key 2], propose "a" 0 0 body, approve "a" 0 0 0 1,
   execute "a" 0 0 [key 9, intent "a" 3]]

end DensitySample

open DensitySample Sample in
/-- The wallet has the intents 0 to 3. -/
theorem intents_dense_sample :
    ∃ (tr : List (Runs.Event Accounts Call)) (s : Accounts),
      Runs.Run (program (Sample.env table)) tr s ∧ tr.map (·.label) = calls.reverse ∧
      Dense (Sample.env table) tr s (wallet "a") 3 := by
  have hobs : observe (Sample.env table) calls (fun _ s => s.intentIndex? (wallet "a")) =
      some (some 3) := by decide +kernel
  obtain ⟨tr, s, hrun, hlabels, hindex⟩ := run_of_observe hobs
  exact ⟨tr, s, hrun, hlabels, (intents_dense hrun).1 _ _ hindex⟩

end ClearMsig
