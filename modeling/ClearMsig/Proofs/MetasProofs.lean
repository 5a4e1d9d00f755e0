import ClearMsig.Proofs.LocalityProofs
import ClearMsig.Sample

/-!
# Calls act on their account lists

The runtime gives an instruction the accounts of its list, and lets it write only those marked writable. The
program needs no more than the client puts into the lists.
-/

namespace ClearMsig

open Footprint (Local)

variable {env : Env} {s s' : Accounts} {c : Call} {R W : Set Address}

/-- An account of the list is writable, or it is created. -/
def Listed (metas : List AccountMeta) (s : Accounts) (a : Address) : Prop :=
  ∃ m ∈ metas, m.pubkey = a ∧ (m.isWritable = true ∨ s a = none)

theorem listed_new {metas : List AccountMeta} {a : Address} (h : AccountMeta.new a false ∈ metas) : Listed metas s a :=
  ⟨_, h, rfl, .inl rfl⟩

theorem listed_view {metas : List AccountMeta} {remaining : List AccountView} {view : AccountView}
    (hsub : remaining.map (·.toMeta) ⊆ metas) (h : view ∈ remaining)
    (hw : view.isWritable = true ∨ s view.address = none) : Listed metas s view.address :=
  ⟨view.toMeta, hsub (List.mem_map_of_mem h), rfl, hw⟩

/-- The accounts that a call touches are on its list, those it writes as writable. -/
theorem Touches.listed (h : Touches env s c R W) (payer : Address) :
    (∀ a ∈ R, ∃ m ∈ c.ix.metas env s payer, m.pubkey = a) ∧
      ∀ a ∈ W, Listed (c.ix.metas env s payer) s a := by
  have hread {metas : List AccountMeta} {a : Address} (h : Listed metas s a) :
      ∃ m ∈ metas, m.pubkey = a := by
    obtain ⟨m, hm, ha, -⟩ := h
    exact ⟨m, hm, ha⟩
  cases h with
  | @createWallet clock nameHash w args hw hname hfresh =>
    subst hw
    subst hname
    have hwrite : ∀ a ∈ newWalletAddrs env (env.pda (Env.walletSeeds (env.sha256 args.name))),
        Listed (createWalletMetas env payer args.name) s a := by
      rintro a (rfl | rfl | rfl | rfl) <;> exact listed_new (by simp [createWalletMetas, walletPda])
    exact ⟨fun a ha => hread (hwrite a ha), hwrite⟩
  | @propose clock payer' walletAddr intentAddr args wallet intent msg h =>
    have hwallet : s.wallet? walletAddr = some wallet := Accounts.wallet?_of_eq h.wallet_eq
    have hwrite : ∀ a ∈ ({walletAddr, intentAddr,
        env.proposalPda intentAddr wallet.proposalIndex} : Set Address),
        Listed ((Instruction.propose payer' walletAddr intentAddr args).metas env s payer) s a := by
      simp only [Instruction.metas, hwallet, Option.map_some, Option.getD_some]
      rintro a (rfl | rfl | rfl) <;> exact listed_new (by simp [proposeMetas])
    exact ⟨fun a ha => hread (hwrite a ha), hwrite⟩
  | approve h =>
    refine ⟨?_, ?_⟩
    · rintro a (rfl | rfl | rfl)
      · exact ⟨_, List.mem_cons_self, rfl⟩
      · exact hread (listed_new (by simp [Instruction.metas, approveMetas]))
      · exact hread (listed_new (by simp [Instruction.metas, approveMetas]))
    · rintro a rfl
      exact listed_new (by simp [Instruction.metas, approveMetas])
  | cancel h =>
    refine ⟨?_, ?_⟩
    · rintro a (rfl | rfl | rfl)
      · exact ⟨_, List.mem_cons_self, rfl⟩
      · exact hread (listed_new (by simp [Instruction.metas, cancelMetas]))
      · exact hread (listed_new (by simp [Instruction.metas, cancelMetas]))
    · rintro a (rfl | rfl) <;> exact listed_new (by simp [Instruction.metas, cancelMetas])
  | @addIntent clock declared intentAddr proposalAddr new remaining wallet intent proposal h hnew hfresh hmem =>
    have hwrite : ∀ a ∈ ({declared.wallet.address, intentAddr, proposalAddr, new} : Set Address),
        Listed ((Instruction.execute declared intentAddr proposalAddr remaining).metas env s payer) s a := by
      rintro a (rfl | rfl | rfl | rfl)
      · exact listed_new (by simp [Instruction.metas, executeMetas])
      · exact listed_new (by simp [Instruction.metas, executeMetas])
      · exact listed_new (by simp [Instruction.metas, executeMetas])
      · obtain ⟨view, hview, rfl⟩ := List.mem_map.mp hmem
        exact listed_view (List.subset_append_right _ _) hview (.inr hfresh)
    exact ⟨fun a ha => hread (hwrite a ha), hwrite⟩
  | @removeIntent clock declared intentAddr proposalAddr targetAddr remaining wallet intent target proposal
      index h htarget htarget_eq hmem =>
    have hwrite : ∀ a ∈ ({intentAddr, proposalAddr, targetAddr} : Set Address),
        Listed ((Instruction.execute declared intentAddr proposalAddr remaining).metas env s payer) s a := by
      rintro a (rfl | rfl | rfl)
      · exact listed_new (by simp [Instruction.metas, executeMetas])
      · exact listed_new (by simp [Instruction.metas, executeMetas])
      · obtain ⟨view, hview, rfl, hw⟩ := hmem
        exact listed_view (List.subset_append_right _ _) hview (.inl hw)
    refine ⟨?_, hwrite⟩
    rintro a (rfl | ha)
    · exact ⟨.new declared.wallet.address false, by simp [Instruction.metas, executeMetas], rfl⟩
    · exact hread (hwrite a ha)
  | cleanupProposal hp =>
    have hwrite {a proposalAddr rentRefund : Address} (ha : a = proposalAddr) :
        Listed (cleanupMetas proposalAddr rentRefund) s a := by
      subst ha
      exact listed_new (by simp [cleanupMetas])
    exact ⟨fun a ha => hread (hwrite ha), fun a ha => hwrite ha⟩

/-- An accepted call changes no account but those its list marks as writable and those of the list that it
creates. It makes the same changes in every state in which the accounts of the list are the same. -/
theorem acts_on_metas (hr : Runs.Reachable (program env) s) (h : process env s c = .ok s')
    (payer : Address) :
    (∀ a, s' a ≠ s a → ∃ m ∈ c.ix.metas env s payer, m.pubkey = a ∧
      (m.isWritable = true ∨ s a = none)) ∧
    ∀ t : Accounts, (∀ m ∈ c.ix.metas env s payer, t m.pubkey = s m.pubkey) →
      ∃ t', process env t c = .ok t' ∧ (∀ a, s' a ≠ s a → t' a = s' a) ∧
        ∀ a, s' a = s a → t' a = t a := by
  obtain ⟨R, W, htouch, hlocal⟩ := local_of_process (sound_of_reachable hr).noCustomApproved h
  obtain ⟨hread, hwrite⟩ := htouch.listed payer
  have hchanged {a : Address} (ha : s' a ≠ s a) : a ∈ W := by
    by_contra haW
    exact ha (hlocal.frame haW)
  refine ⟨fun a ha => hwrite a (hchanged ha), fun t ht => ?_⟩
  have htR : Set.EqOn t s R := by
    intro a ha
    obtain ⟨m, hm, rfl⟩ := hread a ha
    exact ht m hm
  obtain ⟨t', hrun, hpost, hframe⟩ := hlocal.again t htR
  refine ⟨t', hrun, fun a ha => hpost (hlocal.sub (hchanged ha)), fun a ha => ?_⟩
  by_cases haW : a ∈ W
  · rw [hpost (hlocal.sub haW), ha, htR (hlocal.sub haW)]
  · exact hframe haW

namespace MetasSample

open Sample

def table : List (Address × Bytes) :=
  [(key 1, message "expires 1970-01-01 00:16:40: propose remove intent 2 | wallet: a proposal: 0"),
   (key 2, message "expires 1970-01-01 00:16:40: approve remove intent 2 | wallet: a proposal: 0")]

def calls : List Call := [create "a" 1 1 [key 2], propose "a" 1 0 [2], approve "a" 1 0 0 1]

/-- The removal of an intent of the wallet. -/
def removal : Call := execute "a" 1 0 [intent "a" 2]

end MetasSample

open MetasSample Sample in
theorem acts_on_metas_sample :
    ∃ s s' : Accounts, process (Sample.env table) s removal = .ok s' ∧
      ∀ a, s' a ≠ s a → ∃ m ∈ removal.ix.metas (Sample.env table) s (key 9), m.pubkey = a ∧
        (m.isWritable = true ∨ s a = none) := by
  have hreplay : (replay (Sample.env table) (calls ++ [removal])).isSome = true := by
    rw [table, message_ofList, message_ofList]
    decide +kernel
  obtain ⟨s, s', hr, h⟩ := accepted_of_replay (Sample.env table) calls removal hreplay
  exact ⟨s, s', h, (acts_on_metas hr h (key 9)).1⟩

end ClearMsig
