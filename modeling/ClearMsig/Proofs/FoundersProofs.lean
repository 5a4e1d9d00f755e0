import ClearMsig.Proofs.BoardProofs
import ClearMsig.Proofs.ConfigurationProofs
import ClearMsig.Proofs.DensityProofs
import ClearMsig.Proofs.RemovalProofs
import ClearMsig.Proofs.SingleUseProofs
import ClearMsig.Proofs.WalletProofs

/-!
# The founders stay in charge

Only `create_wallet` stores intents with approvers. So every vote on a wallet is signed with a key it was
created with, whatever is executed for it was approved under one of its own meta-intents, and once its
`AddIntent` is removed no intent is ever added to it.
-/

namespace ClearMsig

open Function (update)
open Registry
open CreateWallet (MetaIntent)

variable {env : Env} {s s' : Accounts} {c : Call} {a W : Address} {i i' : Intent}

/-! ## Where intents with approvers come from -/

/-- The intent is the meta-intent of a type, as a call of `create_wallet` has stored it. -/
def Founded (env : Env) (nameHash : Address) (args : CreateWalletArgs) (t : IntentType) (a : Address)
    (i : Intent) : Prop :=
  a = env.intentPda (env.pda (Env.walletSeeds nameHash)) t.toU8 ∧
    ∃ i₀, i.definition = i₀.definition ∧ MetaIntent args (env.pda (Env.walletSeeds nameHash)) t.toU8 t i₀

theorem Founded.congr {nameHash : Address} {args : CreateWalletArgs} {t : IntentType}
    (h : Founded env nameHash args t a i) (hd : i'.definition = i.definition) :
    Founded env nameHash args t a i' := by
  obtain ⟨ha, i₀, hi₀, hmeta⟩ := h
  exact ⟨ha, i₀, hd.trans hi₀, hmeta⟩

/-- A new intent with approvers is a meta-intent of a new wallet. -/
theorem Effect.founded (h : Effect env s c s') (hi : s'.intent? a = some i) (hne : i.approvers.toList ≠ []) :
    (∃ j, s.intent? a = some j ∧ i.definition = j.definition) ∨
      ∃ nameHash args t, c.ix = .createWallet nameHash args ∧ Founded env nameHash args t a i := by
  cases id h with
  | created hw hchecked h₀ h₁ h₂ hfresh hfresh₀ hfresh₁ hfresh₂ hwallet hintent hproposal =>
    subst hw
    rw [hintent] at hi
    rcases update_origin hi with hi | ⟨rfl, rfl⟩
    · rcases update_origin hi with hi | ⟨rfl, rfl⟩
      · rcases update_origin hi with hi | ⟨rfl, rfl⟩
        · exact .inl ⟨i, hi, rfl⟩
        · exact .inr ⟨_, _, .addIntent, rfl, rfl, _, rfl, h₀⟩
      · exact .inr ⟨_, _, .removeIntent, rfl, rfl, _, rfl, h₁⟩
    · exact .inr ⟨_, _, .updateIntent, rfl, rfl, _, rfl, h₂⟩
  | proposed | approved | cancelled | addedIntent | removedIntent | cleaned =>
    rcases h.intent_origin hi with hold | ⟨-, hnew⟩
    · exact .inl hold
    · cases hnew with
      | ofWallet hc => cases hc
      | ofBytes hc hl ht hbytes => exact absurd hbytes.approvers_nil hne

/-- Every intent with approvers is a meta-intent that an earlier `create_wallet` has stored. -/
theorem founded_of_run {tr : List (Runs.Event Accounts Call)} (hrun : Runs.Run (program env) tr s)
    (hi : s.intent? a = some i) (hne : i.approvers.toList ≠ []) :
    ∃ c ∈ tr.map (·.label), ∃ nameHash args t, c.ix = .createWallet nameHash args ∧
      Founded env nameHash args t a i := by
  induction hrun generalizing i with
  | start h =>
    subst h
    exact absurd hi (by simp [Accounts.intent?, Accounts.none])
  | next hr hs ih =>
    rcases ((sound_of_reachable ⟨_, hr⟩).effect hs).founded hi hne with
      ⟨j, hj, hd⟩ | ⟨nameHash, args, t, hix, hfounded⟩
    · obtain ⟨c, hc, nameHash, args, t, hix, hfounded⟩ := ih hj (Intent.approvers_congr hd ▸ hne)
      exact ⟨c, List.mem_cons_of_mem _ hc, nameHash, args, t, hix, hfounded.congr hd⟩
    · exact ⟨_, List.mem_cons_self, nameHash, args, t, hix, hfounded⟩

/-! ## Executions -/

/-- What is executed adds or removes an intent. -/
theorem Effect.executed_kind (h : Effect env s c s') {declared : Execute.Declared}
    {intentAddr proposalAddr : Address} {remaining : List AccountView}
    (hc : c.ix = .execute declared intentAddr proposalAddr remaining) :
    ∃ w i p t, Execute.Loaded env c.clock s declared.wallet.address intentAddr proposalAddr w i p ∧
      i.readType = .ok t ∧ (t = .addIntent ∨ t = .removeIntent) := by
  cases h with
  | created | proposed | approved | cancelled | cleaned => cases hc
  | addedIntent hl ht =>
    cases hc
    exact ⟨_, _, _, _, hl, ht, .inl rfl⟩
  | removedIntent hl ht =>
    cases hc
    exact ⟨_, _, _, _, hl, ht, .inr rfl⟩

/-- An executed intent is the one that `create_wallet` has stored for its type. -/
theorem founded_of_loaded {tr : List (Runs.Event Accounts Call)} (hrun : Runs.Run (program env) tr s)
    {clock : Int64} {proposalAddr : Address} {w : ClearWallet} {p : Proposal} {t : IntentType}
    (hl : Execute.Loaded env clock s W a proposalAddr w i p) (ht : i.readType = .ok t) :
    ∃ c ∈ tr.map (·.label), ∃ nameHash args, c.ix = .createWallet nameHash args ∧
      W = env.pda (Env.walletSeeds nameHash) ∧ Founded env nameHash args t a i := by
  have htally := (sound_of_reachable ⟨_, hrun⟩).tallied hl.proposal_eq hl.intent_addr hl.intent_eq
  obtain ⟨c, hc, nameHash, args, t', hix, hfounded⟩ :=
    founded_of_run hrun (Accounts.intent?_of_eq hl.intent_eq) (htally.voters hl.approved)
  obtain ⟨-, i₀, hd, hmeta⟩ := id hfounded
  have htype : t' = t := by
    have hread := hmeta.readType_eq
    rw [Intent.readType, ← Intent.intentType_congr hd, ← Intent.readType, ht] at hread
    exact (Except.ok.inj hread).symm
  subst htype
  exact ⟨c, hc, nameHash, args, hix,
    hl.has_one.symm.trans ((Intent.wallet_congr hd).trans hmeta.wallet_eq), hfounded⟩

/-- The key of an accepted vote stands, at the index of the vote, in the list that `create_wallet` was given
for the wallet. -/
theorem voter_founded {tr : List (Runs.Event Accounts Call)} (hrun : Runs.Run (program env) tr s)
    {e : Runs.Event Accounts Call} (he : e ∈ tr) {b : Ballot} (hb : e.label.ix.ballot? = some b) :
    ∃ c ∈ tr.map (·.label), ∃ nameHash args, c.ix = .createWallet nameHash args ∧
      b.wallet = env.pda (Env.walletSeeds nameHash) ∧
      ∃ w i p k msg, VoteAccepted env e.label.clock e.pre b.wallet b.intent b.proposal b.vote.action b.expiry
        b.index b.signature w i p k msg ∧ args.approvers[b.index.toNat]? = some k := by
  obtain ⟨later, earlier, rfl, hpre, -⟩ := hrun.step_of_mem he
  obtain ⟨w, i, p, k, msg, hacc⟩ := accepted_of_ballot hrun he hb
  have hne : i.approvers.toList ≠ [] := by
    intro hnil
    have hvoter := hacc.voter_eq
    rw [hnil] at hvoter
    cases hvoter
  obtain ⟨c, hc, nameHash, args, t, hix, -, i₀, hd, hmeta⟩ :=
    founded_of_run hpre (Accounts.intent?_of_eq hacc.intent_eq) hne
  have hwallet : i.wallet = env.pda (Env.walletSeeds nameHash) :=
    (Intent.wallet_congr hd).trans hmeta.wallet_eq
  have happrovers : i.approvers.toList = args.approvers :=
    (congrArg PodVec.toList (Intent.approvers_congr hd)).trans hmeta.approvers_eq
  refine ⟨c, ?_, nameHash, args, hix, hacc.has_one.symm.trans hwallet, w, i, p, k, msg, hacc,
    happrovers ▸ hacc.voter_eq⟩
  rw [List.map_append, List.map_cons]
  exact List.mem_append_right _ (List.mem_cons_of_mem _ hc)

/-- Whatever is executed for a wallet runs under the wallet's own `AddIntent` or `RemoveIntent`, and has the
votes of as many entries of the approvers' list as the threshold says, where list and threshold are those
passed to the `create_wallet` call that has made the wallet. Every vote that the run ever accepts on the
wallet, before or after, is signed with the key at its index in that list. -/
theorem executed_by_founders {later earlier : List (Runs.Event Accounts Call)}
    {e : Runs.Event Accounts Call} (hrun : Runs.Run (program env) (later ++ e :: earlier) s)
    {declared : Execute.Declared} {intentAddr proposalAddr : Address} {remaining : List AccountView}
    (hix : e.label.ix = .execute declared intentAddr proposalAddr remaining) :
    ∃ c ∈ earlier.map (·.label), ∃ nameHash args, c.ix = .createWallet nameHash args ∧
      declared.wallet.address = env.pda (Env.walletSeeds nameHash) ∧
      (intentAddr = env.intentPda declared.wallet.address 0 ∨
        intentAddr = env.intentPda declared.wallet.address 1) ∧
      (∃ i p, e.pre.intent? intentAddr = some i ∧ i.approvers.toList = args.approvers ∧
        e.pre.proposal? proposalAddr = some p ∧ p.intent = intentAddr ∧
        (∀ k ∈ p.yes, k < args.approvers.length) ∧ args.approvalThreshold.toNat ≤ p.yes.card) ∧
      ∀ e' ∈ later ++ e :: earlier, ∀ b, e'.label.ix.ballot? = some b →
        b.wallet = declared.wallet.address → ∃ w i p k msg,
          VoteAccepted env e'.label.clock e'.pre b.wallet b.intent b.proposal b.vote.action b.expiry b.index
            b.signature w i p k msg ∧ args.approvers[b.index.toNat]? = some k := by
  obtain ⟨hpre, hstep⟩ := hrun.split
  have hsound := sound_of_reachable ⟨_, hpre⟩
  obtain ⟨w, i, p, t, hl, ht, hkind⟩ := (hsound.effect hstep).executed_kind hix
  obtain ⟨c, hc, nameHash, args, hcreate, hW, haddr, i₀, hd, hmeta⟩ := founded_of_loaded hpre hl ht
  have hi := Accounts.intent?_of_eq hl.intent_eq
  have htally := hsound.tallied hl.proposal_eq hl.intent_addr hl.intent_eq
  have happrovers : i.approvers.toList = args.approvers :=
    (congrArg PodVec.toList (Intent.approvers_congr hd)).trans hmeta.approvers_eq
  have hthreshold : i.approvalThreshold = args.approvalThreshold :=
    (Intent.approvalThreshold_congr hd).trans hmeta.approvalThreshold_eq
  have hquorum : i.approvalThreshold.toNat ≤ p.yes.card :=
    (htally.approved_iff ((hsound.intents _ i hi).resolve_left (htally.voters hl.approved)).1
      (.inr hl.approved)).mp hl.approved
  have hkind' : intentAddr = env.intentPda declared.wallet.address 0 ∨
      intentAddr = env.intentPda declared.wallet.address 1 := by
    rw [← hW] at haddr
    rcases hkind with rfl | rfl
    · exact .inl haddr
    · exact .inr haddr
  refine ⟨c, hc, nameHash, args, hcreate, hW, hkind', ⟨i, p, hi, happrovers,
    Accounts.proposal?_of_eq hl.proposal_eq, hl.intent_addr, happrovers ▸ htally.yes_lt,
    hthreshold ▸ hquorum⟩, ?_⟩
  intro e' he' b hb hwallet
  obtain ⟨c', hc', nameHash', args', hcreate', hW', hvote⟩ := voter_founded hrun he' hb
  -- both calls have made the wallet, so they are one
  have hmem : c ∈ (later ++ e :: earlier).map (·.label) := by
    rw [List.map_append, List.map_cons]
    exact List.mem_append_right _ (List.mem_cons_of_mem _ hc)
  have hsame := created_once hrun hmem hc' hcreate hcreate' (hW.symm.trans (hwallet.symm.trans hW'))
  rw [hcreate, hcreate'] at hsame
  cases hsame
  exact hvote

open RemovalSample Sample in
theorem executed_by_founders_sample :
    ∃ (e' e : Runs.Event Accounts Call) (earlier : List (Runs.Event Accounts Call)) (s : Accounts)
      (nameHash : Address) (args : CreateWalletArgs),
      Runs.Run (program (Sample.env table)) ([e'] ++ e :: earlier) s ∧
      ([e'] ++ e :: earlier).map (·.label) = calls.reverse ∧
      wallet "a" = (Sample.env table).pda (Env.walletSeeds nameHash) ∧
      ∃ p, e.pre.proposal? (proposal "a" 1 0) = some p ∧ args.approvalThreshold.toNat ≤ p.yes.card := by
  have hobs : observe (Sample.env table) calls (fun _ _ => ()) = some () := by
    rw [table, message_ofList, message_ofList, message_ofList]
    decide +kernel
  obtain ⟨tr, s, hrun, hlabels, -⟩ := run_of_observe hobs
  have hmap := hlabels
  simp only [calls, List.reverse_cons, List.reverse_nil, List.nil_append, List.cons_append,
    List.map_eq_cons_iff] at hlabels
  obtain ⟨e', -, rfl, -, e, earlier, rfl, hl, -⟩ := hlabels
  have hrun' : Runs.Run (program (Sample.env table)) ([e'] ++ e :: earlier) s := hrun
  obtain ⟨-, -, nameHash, args, -, hW, -, ⟨i, p, -, -, hp, -, -, hquorum⟩, -⟩ :=
    executed_by_founders hrun' (congrArg Call.ix hl)
  exact ⟨e', e, earlier, s, nameHash, args, hrun', hmap, hW, p, hp, hquorum⟩

/-! ## Without the `AddIntent` -/

/-- No intent is added for a wallet whose `AddIntent` is removed. -/
theorem not_added_of_removedAt {tr : List (Runs.Event Accounts Call)} (hrun : Runs.Run (program env) tr s)
    (hrem : s.RemovedAt (env.intentPda W 0)) {clock : Int64} {proposalAddr : Address} {w : ClearWallet}
    {p : Proposal} (hl : Execute.Loaded env clock s W a proposalAddr w i p) : i.readType ≠ .ok .addIntent := by
  intro ht
  obtain ⟨-, -, nameHash, args, -, hW, haddr, -⟩ := founded_of_loaded hrun hl ht
  have hmem : proposalAddr ∈ s.openProposals (env.intentPda W 0) := by
    refine (mem_keys_iff (Accounts.proposal?_of_eq hl.proposal_eq)).mpr ⟨?_, .inr hl.approved⟩
    rw [hl.intent_addr, haddr, ← hW]
    rfl
  rw [hrem.openProposals_eq_empty (counted_of_reachable ⟨_, hrun⟩)] at hmem
  exact hmem

/-- A new intent comes with a new wallet, or from the execution of an `AddIntent` of the wallet. -/
theorem NewIntent.under (h : NewIntent env s c a i) (hunder : c.ix.createsUnder env = some W) :
    s W = none ∨ ∃ intentAddr proposalAddr w j p,
      Execute.Loaded env c.clock s W intentAddr proposalAddr w j p ∧ j.readType = .ok .addIntent := by
  cases h with
  | ofWallet hc hw hwallet =>
    rw [hc, Instruction.createsUnder, ← hw] at hunder
    exact .inl (Option.some.inj hunder ▸ hwallet)
  | ofBytes hc hl ht =>
    rw [hc, Instruction.createsUnder] at hunder
    exact .inr ⟨_, _, _, _, _, Option.some.inj hunder ▸ hl, ht⟩

/-- A step creates no intent under such a wallet. -/
theorem kept_of_removedAt {tr : List (Runs.Event Accounts Call)} (hrun : Runs.Run (program env) tr s)
    (hrem : s.RemovedAt (env.intentPda W 0)) (h : process env s c = .ok s') :
    s'.intentIndex? W = s.intentIndex? W ∧ ∀ a, ¬ CreatesIntent env W a ⟨s, c, s'⟩ := by
  have hsound := sound_of_reachable ⟨_, hrun⟩
  obtain ⟨i₀, hi₀, -⟩ := id hrem
  cases indexStep_of_process hsound h W with
  | kept hindex hnone => exact ⟨hindex, hnone⟩
  | opened hpre hpost hcreates hdistinct =>
    have hzero := (hcreates (env.intentPda W 0)).mpr ⟨0, by decide, rfl⟩
    cases hzero.before.symm.trans hi₀
  | @raised n hpre hpost hcreates hfresh =>
    obtain ⟨hunder, hbefore, i, hi⟩ := (hcreates _).mpr rfl
    rcases (hsound.effect h).intent_origin hi with ⟨j, hj, -⟩ | ⟨-, hnew⟩
    · cases hbefore.symm.trans hj
    · rcases hnew.under hunder with hnone | ⟨b, p, w, i, q, hl, ht⟩
      · simp [Accounts.intentIndex?, Accounts.wallet?_of_eq hnone] at hpre
      · exact absurd ht (not_added_of_removedAt hrun hrem hl)

/-- Removing the `AddIntent` of a wallet closes it to new intents: from then on its `intent_index` stays as it
is and no event creates an intent under it. -/
theorem closed_without_addIntent {later earlier : List (Runs.Event Accounts Call)}
    {e : Runs.Event Accounts Call} (hrun : Runs.Run (program env) (later ++ e :: earlier) s)
    (hrem : e.post.RemovedAt (env.intentPda W 0)) :
    s.intentIndex? W = e.post.intentIndex? W ∧ ∀ e' ∈ later, ∀ a, ¬ CreatesIntent env W a e' := by
  have hnow : s.RemovedAt (env.intentPda W 0) ∧ s.intentIndex? W = e.post.intentIndex? W ∧
      ∀ e' ∈ later, ∀ a, ¬ CreatesIntent env W a e' := by
    induction later generalizing s with
    | nil =>
      obtain ⟨-, -, rfl⟩ := hrun.last
      exact ⟨hrem, rfl, fun _ h => absurd h List.not_mem_nil⟩
    | cons e' later ih =>
      obtain ⟨hpre, hstep, rfl⟩ := hrun.last
      obtain ⟨hremoved, hindex, hnone⟩ := ih hpre
      obtain ⟨hkept, hcreates⟩ := kept_of_removedAt hpre hremoved hstep
      exact ⟨hremoved.step (sound_of_reachable ⟨_, hpre⟩) hstep, hkept.trans hindex,
        List.forall_mem_cons.mpr ⟨hcreates, hnone⟩⟩
  exact hnow.2

namespace FoundersSample

open Sample

def table : List (Address × Bytes) :=
  [(key 1, message "expires 1970-01-01 00:16:40: propose remove intent 0 | wallet: a proposal: 0"),
   (key 2, message "expires 1970-01-01 00:16:40: approve remove intent 0 | wallet: a proposal: 0"),
   (key 1, message "expires 1970-01-01 00:16:40: propose remove intent 2 | wallet: a proposal: 1")]

/-- The `AddIntent` is removed, and another proposal follows. -/
def calls : List Call :=
  [create "a" 1 1 [key 2], propose "a" 1 0 [0], approve "a" 1 0 0 1, execute "a" 1 0 [intent "a" 0],
   propose "a" 1 2 [2]]

/-- The flag of the `AddIntent` before the last call. -/
def observed (tr : List (Runs.Event Accounts Call)) (_ : Accounts) : Option (Option UInt8) :=
  tr[1]?.map fun e => (e.post.intent? (intent "a" 0)).map (·.approved)

end FoundersSample

open FoundersSample Sample in
theorem closed_without_addIntent_sample :
    ∃ (e' e : Runs.Event Accounts Call) (earlier : List (Runs.Event Accounts Call)) (s : Accounts),
      Runs.Run (program (Sample.env table)) ([e'] ++ e :: earlier) s ∧
      ([e'] ++ e :: earlier).map (·.label) = calls.reverse ∧
      e.post.RemovedAt (intent "a" 0) ∧ s.intentIndex? (wallet "a") = e.post.intentIndex? (wallet "a") ∧
      ∀ a, ¬ CreatesIntent (Sample.env table) (wallet "a") a e' := by
  have hobs : observe (Sample.env table) calls observed = some (some (some 0)) := by
    rw [table, message_ofList, message_ofList, message_ofList]
    decide +kernel
  obtain ⟨tr, s, hrun, hlabels, hstate⟩ := run_of_observe hobs
  have hmap := hlabels
  simp only [calls, List.reverse_cons, List.reverse_nil, List.nil_append, List.cons_append,
    List.map_eq_cons_iff] at hlabels
  obtain ⟨e', -, rfl, -, e, earlier, rfl, -⟩ := hlabels
  simp only [observed, List.getElem?_cons_succ, List.getElem?_cons_zero, Option.map_some,
    Option.some.injEq, Option.map_eq_some_iff] at hstate
  obtain ⟨i, hi, hflag⟩ := hstate
  have hrem : e.post.RemovedAt (intent "a" 0) := ⟨i, hi, hflag⟩
  have hrun' : Runs.Run (program (Sample.env table)) ([e'] ++ e :: earlier) s := hrun
  obtain ⟨hindex, hnone⟩ := closed_without_addIntent (W := wallet "a") hrun' hrem
  exact ⟨e', e, earlier, s, hrun', hmap, hrem, hindex, hnone e' (List.mem_singleton_self _)⟩

end ClearMsig
