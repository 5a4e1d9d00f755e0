import ClearMsig.Proofs.InvariantProofs

/-!
# Wallets over a run

Every wallet stays under the name it was created with, at the address of the hash of that name, and its
proposal index only grows.
-/

namespace ClearMsig

open Function (update)
open Registry

variable {env : Env} {s s' : Accounts} {c : Call}

/-- A wallet at a later time: it keeps its name and counts upwards. -/
structure ClearWallet.Later (w w' : ClearWallet) : Prop where
  name_eq : w'.name = w.name
  index_le : w.proposalIndex.toNat ≤ w'.proposalIndex.toNat

theorem ClearWallet.Later.refl (w : ClearWallet) : w.Later w := ⟨rfl, le_refl _⟩

/-- Writing a later wallet over a wallet. -/
theorem update_later {f : Address → Option ClearWallet} {a b : Address} {w v : ClearWallet}
    (hw : f a = some w) (hv : ∀ u, f b = some u → u.Later v) :
    ∃ w', update f b (some v) a = some w' ∧ w.Later w' := by
  by_cases h : a = b
  · subst h
    exact ⟨v, Function.update_self .., hv w hw⟩
  · exact ⟨w, (Function.update_of_ne h ..).trans hw, .refl w⟩

theorem index_add_one {w : ClearWallet} (h : w.proposalIndex.toNat + 1 < 2 ^ 64) :
    (w.proposalIndex + 1).toNat = w.proposalIndex.toNat + 1 := by
  rw [UInt64.toNat_add]
  exact Nat.mod_eq_of_lt h

/-- Every wallet stays, with its name, and its proposal index does not go back. -/
theorem Effect.wallet_later (h : Effect env s c s') {W : Address} {w : ClearWallet}
    (hw : s.wallet? W = some w) : ∃ w', s'.wallet? W = some w' ∧ w.Later w' := by
  cases h with
  | created hpda hchecked h₀ h₁ h₂ hfresh hfresh₀ hfresh₁ hfresh₂ hwallet hintent hproposal =>
    rw [hwallet, update_fresh hw (Accounts.wallet?_of_eq hfresh)]
    exact ⟨w, rfl, .refl w⟩
  | proposed h hdata hwallet hintent hproposal =>
    rw [hwallet]
    refine update_later hw fun u hu => ?_
    obtain rfl := Option.some.inj (hu.symm.trans (Accounts.wallet?_of_eq h.wallet_eq))
    refine ⟨rfl, ?_⟩
    rw [index_add_one h.index_lt]
    exact Nat.le_succ _
  | addedIntent h htype hnew hfresh hwallet hintent hproposal =>
    rw [hwallet]
    refine update_later hw fun u hu => ?_
    obtain rfl := Option.some.inj (hu.symm.trans (Accounts.wallet?_of_eq h.wallet_eq))
    exact ⟨rfl, le_refl _⟩
  | approved _ _ _ _ hwallet _ _
  | cancelled _ _ _ hwallet _ _
  | removedIntent _ _ _ _ _ hwallet _ _
  | cleaned _ _ hwallet _ _ =>
    rw [hwallet]
    exact ⟨w, hw, .refl w⟩

/-- Every wallet stays. -/
theorem Effect.wallet_kept (h : Effect env s c s') {W : Address} {w : ClearWallet}
    (hw : s.wallet? W = some w) : ∃ w', s'.wallet? W = some w' := by
  obtain ⟨w', hw', -⟩ := h.wallet_later hw
  exact ⟨w', hw'⟩

/-- The wallet of an accepted `create_wallet`. -/
theorem Effect.wallet_created (h : Effect env s c s') {nameHash : Address} {args : CreateWalletArgs}
    (hc : c.ix = .createWallet nameHash args) :
    ∃ w, s'.wallet? (env.pda (Env.walletSeeds nameHash)) = some w := by
  cases h with
  | created hw _ _ _ _ _ _ _ _ hwallet _ _ =>
    cases hc
    rw [hwallet, ← hw]
    exact ⟨_, Function.update_self ..⟩
  | proposed | approved | cancelled | addedIntent | removedIntent | cleaned => cases hc

/-- It was not there before. -/
theorem Effect.wallet_fresh (h : Effect env s c s') {nameHash : Address} {args : CreateWalletArgs}
    (hc : c.ix = .createWallet nameHash args) : s.wallet? (env.pda (Env.walletSeeds nameHash)) = none := by
  cases h with
  | created hw _ _ _ _ hfresh =>
    cases hc
    rw [← hw]
    exact Accounts.wallet?_of_eq hfresh
  | proposed | approved | cancelled | addedIntent | removedIntent | cleaned => cases hc

/-- The name of a new wallet is the one `create_wallet` was given. -/
theorem CreateWallet.newWallet_name {args : CreateWalletArgs} {bump : UInt8}
    (h : args.name.length ≤ 64) : (newWallet args bump).name = args.name := by
  have hlen : (UInt8.ofNat args.name.length).toNat = args.name.length :=
    UInt8.toNat_ofNat_of_lt' (Nat.lt_of_le_of_lt h (by decide))
  simp only [ClearWallet.name, newWallet, ByteArr.ofBytes, hlen, List.take_take]
  rw [Nat.min_eq_left h, List.take_append_of_le_length (le_refl _), List.take_length]

/-- Every wallet was there before, under its name, or is that of an accepted `create_wallet`. -/
theorem Effect.wallet_origin (h : Effect env s c s') {W : Address} {w' : ClearWallet}
    (hw : s'.wallet? W = some w') :
    (∃ w, s.wallet? W = some w ∧ w'.name = w.name) ∨
      ∃ nameHash args, c.ix = .createWallet nameHash args ∧
        W = env.pda (Env.walletSeeds nameHash) ∧ nameHash = env.sha256 w'.name := by
  cases h with
  | created hpda hchecked _ _ _ _ _ _ _ hwallet _ _ =>
    rw [hwallet] at hw
    rcases update_origin hw with hw | ⟨rfl, rfl⟩
    · exact .inl ⟨w', hw, rfl⟩
    · rw [CreateWallet.newWallet_name hchecked.name_le]
      exact .inr ⟨_, _, rfl, hpda, hchecked.name_eq⟩
  | proposed h _ hwallet _ _
  | addedIntent h _ _ _ hwallet _ _ =>
    rw [hwallet] at hw
    rcases update_origin hw with hw | ⟨rfl, rfl⟩
    · exact .inl ⟨w', hw, rfl⟩
    · exact .inl ⟨_, Accounts.wallet?_of_eq h.wallet_eq, rfl⟩
  | approved _ _ _ _ hwallet _ _
  | cancelled _ _ _ hwallet _ _
  | removedIntent _ _ _ _ _ hwallet _ _
  | cleaned _ _ hwallet _ _ => exact .inl ⟨w', hwallet ▸ hw, rfl⟩

/-- The wallets of a state are those of the accepted `create_wallet` calls. -/
theorem wallet_of_run {tr : List (Runs.Event Accounts Call)} (hrun : Runs.Run (program env) tr s)
    {W : Address} {w : ClearWallet} (hw : s.wallet? W = some w) :
    ∃ c ∈ tr.map (·.label), ∃ nameHash args, c.ix = .createWallet nameHash args ∧
      W = env.pda (Env.walletSeeds nameHash) := by
  induction hrun generalizing w with
  | start h =>
    subst h
    exact absurd hw (by simp [Accounts.wallet?, Accounts.none])
  | next hr hs ih =>
    rcases ((sound_of_reachable ⟨_, hr⟩).effect hs).wallet_origin hw with
      ⟨w₁, hw₁, -⟩ | ⟨nameHash, args, hix, hW, -⟩
    · obtain ⟨c, hc, hnew⟩ := ih hw₁
      exact ⟨c, List.mem_cons_of_mem _ hc, hnew⟩
    · exact ⟨_, List.mem_cons_self, nameHash, args, hix, hW⟩

/-- The wallet of a `create_wallet` of a run is there at its end. -/
theorem wallet_of_created {tr : List (Runs.Event Accounts Call)} (hrun : Runs.Run (program env) tr s)
    (hc : c ∈ tr.map (·.label)) {nameHash : Address} {args : CreateWalletArgs}
    (hix : c.ix = .createWallet nameHash args) :
    ∃ w, s.wallet? (env.pda (Env.walletSeeds nameHash)) = some w := by
  induction hrun with
  | start h => exact absurd hc List.not_mem_nil
  | next hr hs ih =>
    have heff := (sound_of_reachable ⟨_, hr⟩).effect hs
    rcases List.mem_cons.mp hc with rfl | hold
    · exact heff.wallet_created hix
    · obtain ⟨w, hw⟩ := ih hold
      exact heff.wallet_kept hw

/-- A run creates a wallet once. -/
theorem created_once {tr : List (Runs.Event Accounts Call)} (hrun : Runs.Run (program env) tr s)
    {c' : Call} (hc : c ∈ tr.map (·.label)) (hc' : c' ∈ tr.map (·.label)) {nameHash nameHash' : Address}
    {args args' : CreateWalletArgs} (hix : c.ix = .createWallet nameHash args)
    (hix' : c'.ix = .createWallet nameHash' args')
    (heq : env.pda (Env.walletSeeds nameHash) = env.pda (Env.walletSeeds nameHash')) : c.ix = c'.ix := by
  induction hrun with
  | start h => exact absurd hc List.not_mem_nil
  | next hr hs ih =>
    have heff := (sound_of_reachable ⟨_, hr⟩).effect hs
    rcases List.mem_cons.mp hc with rfl | hold <;> rcases List.mem_cons.mp hc' with rfl | hold'
    · rfl
    · obtain ⟨w, hw⟩ := wallet_of_created hr hold' hix'
      rw [← heq, heff.wallet_fresh hix] at hw
      cases hw
    · obtain ⟨w, hw⟩ := wallet_of_created hr hold hix
      rw [heq, heff.wallet_fresh hix'] at hw
      cases hw
    · exact ih hold hold'

/-- A wallet lies at the address of its name. -/
theorem wallet_addr_of_reachable (hr : Runs.Reachable (program env) s) {W : Address} {w : ClearWallet}
    (hw : s.wallet? W = some w) : W = env.pda (Env.walletSeeds (env.sha256 w.name)) := by
  obtain ⟨tr, hrun⟩ := hr
  induction hrun generalizing w with
  | start h =>
    subst h
    exact absurd hw (by simp [Accounts.wallet?, Accounts.none])
  | next hr hs ih =>
    rcases ((sound_of_reachable ⟨_, hr⟩).effect hs).wallet_origin hw with
      ⟨w₁, hw₁, hname⟩ | ⟨nameHash, args, -, hW, hhash⟩
    · rw [hname]
      exact ih hw₁
    · rw [← hhash]
      exact hW

end ClearMsig
