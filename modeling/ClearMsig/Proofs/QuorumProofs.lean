import ClearMsig.Proofs.VotesProofs
import ClearMsig.Sample

/-!
# The quorum of an executed proposal

The thresholds count list indices. They count keys when `create_wallet` was given a list without
repetitions, or when both thresholds are one.
-/

namespace ClearMsig

open History

variable {env : Env} {s s' : Accounts} {c : Call} {a : Address}

/-- Whenever `execute` succeeds, as many different approvers as the threshold asks for have approved
the proposal, with a verified signature, and have not cancelled it since. -/
def QuorumMet (env : Env) (tr : List (Runs.Event Accounts Call)) : Prop :=
  ∀ later e earlier declared intentAddr a remaining, tr = later ++ e :: earlier →
    e.label.ix = .execute declared intentAddr a remaining →
    ∃ (i : Intent) (keys : Finset Address), e.pre.intent? intentAddr = some i ∧
      i.approvalThreshold.toNat ≤ keys.card ∧
      ∀ k ∈ keys, k ∈ i.approvers.toList ∧ Standing env a k earlier

/-- An event that creates a wallet gives it approvers without repetitions, unless one vote is enough
either way. -/
def DistinctVoters (e : Runs.Event Accounts Call) : Prop :=
  ∀ nameHash args, e.label.ix = .createWallet nameHash args →
    args.approvers.Nodup ∨ (args.approvalThreshold ≤ 1 ∧ args.cancellationThreshold ≤ 1)

/-- The same of an intent. -/
def Intent.VotersDistinct (i : Intent) : Prop :=
  i.approvers.toList.Nodup ∨ (i.approvalThreshold ≤ 1 ∧ i.cancellationThreshold ≤ 1)

theorem Intent.VotersDistinct.congr {i i' : Intent} (h : i'.definition = i.definition)
    (hi : i.VotersDistinct) : i'.VotersDistinct := by
  rwa [VotersDistinct, approvers_congr h, approvalThreshold_congr h, cancellationThreshold_congr h]

theorem votersDistinct_of_effect (h : Effect env s c s') (hd : DistinctVoters ⟨s, c, s'⟩)
    (hs : ∀ a i, s.intent? a = some i → i.VotersDistinct) :
    ∀ a i, s'.intent? a = some i → i.VotersDistinct := by
  intro a i' hi'
  rcases h.intent_origin hi' with ⟨i, hi, hdef⟩ | ⟨-, hnew⟩
  · exact (hs a i hi).congr hdef
  · cases hnew with
    | ofWallet hc hw hwallet hchecked ht hmeta =>
      rw [Intent.VotersDistinct, hmeta.approvers_eq, hmeta.approvalThreshold_eq,
        hmeta.cancellationThreshold_eq]
      exact hd _ _ hc
    | ofBytes hc hl ht hbytes => exact .inl (hbytes.approvers_nil ▸ List.nodup_nil)

theorem votersDistinct_of_run {tr : List (Runs.Event Accounts Call)}
    (hrun : Runs.Run (program env) tr s) (hd : ∀ e ∈ tr, DistinctVoters e) {i : Intent}
    (hi : s.intent? a = some i) : i.VotersDistinct := by
  refine hrun.inductionOn (P := fun _ s => ∀ a i, s.intent? a = some i → i.VotersDistinct) hd ?_ ?_
    a i hi
  · rintro _ rfl a i hi
    exact absurd hi (by simp [Accounts.none])
  · intro tr s c s' hr hs hstep hd
    exact votersDistinct_of_effect ((sound_of_reachable ⟨tr, hr⟩).effect hstep) hd hs

/-! ## From indices to keys -/

/-- The last vote of a key is recorded at the index it was cast at. -/
theorem recorded_of_last {later earlier : List (Runs.Event Accounts Call)}
    {e : Runs.Event Accounts Call} (hrun : Runs.Run (program env) (later ++ e :: earlier) s)
    {p : Proposal} {i : Intent} (hp : s.proposal? a = some p) (hi : s.intent? p.intent = some i)
    {v : Vote} {j : UInt8} {k : Address} {sig : Signature} {msg : Bytes}
    (hc : Casts env a v j k sig msg e)
    (hlast : ∀ e' ∈ later, Alive a e' ∧ ¬ ∃ v j sig msg, Casts env a v j k sig msg e') :
    j.toNat ∈ p.votes v := by
  have halive : ∀ e' ∈ later, Alive a e' := fun e' he' => (hlast e' he').1
  have hkey := voter_of_casts hrun hc halive hp hi
  refine (recorded_of_run hrun hp).mpr ⟨later, e, earlier, rfl, hc.marks, fun e' he' => ?_⟩
  refine ⟨halive e' he', fun w hm => ?_⟩
  obtain ⟨k', sig', msg', hc'⟩ := (marks_iff_casts hrun (by simp [he'])).mp hm
  have hkey' := voter_of_mem hrun he' hc' halive hp hi
  rw [hkey] at hkey'
  cases hkey'
  exact (hlast e' he').2 ⟨w, j, sig', msg', hc'⟩

/-- The key at an index with a recorded approval stands by it, when the list has no repetitions or
nobody has a recorded cancellation. -/
theorem standing_of_mem_yes {tr : List (Runs.Event Accounts Call)} (hrun : Runs.Run (program env) tr s)
    {p : Proposal} {i : Intent} (hp : s.proposal? a = some p) (hi : s.intent? p.intent = some i)
    (hd : i.approvers.toList.Nodup ∨ p.no = ∅) {j : UInt8} {k : Address} (hj : j.toNat ∈ p.yes)
    (hk : i.approvers.toList[j.toNat]? = some k) : Standing env a k tr := by
  -- the key has voted, at index `j`
  have hvoted : Since (fun e => ∃ v j sig msg, Casts env a v j k sig msg e) (Alive a) tr := by
    obtain ⟨later, e, earlier, rfl, hm, hquiet⟩ := (recorded_of_run (v := .approve) hrun hp).mp hj
    obtain ⟨k', sig, msg, hc⟩ := (marks_iff_casts hrun (by simp)).mp hm
    have hkey := voter_of_casts hrun hc (fun e' he' => (hquiet e' he').1) hp hi
    rw [hk] at hkey
    cases hkey
    exact ⟨later, e, earlier, rfl, ⟨_, _, _, _, hc⟩, fun e' he' => (hquiet e' he').1⟩
  obtain ⟨later, e, earlier, rfl, ⟨v, j₁, sig, msg, hc⟩, hlast⟩ := hvoted.latest
  have hrec := recorded_of_last hrun hp hi hc hlast
  cases v with
  | approve =>
    refine ⟨later, e, earlier, rfl, ⟨j₁, sig, msg, hc⟩, fun e' he' => ⟨(hlast e' he').1, ?_⟩⟩
    exact fun j' sig' msg' hc' => (hlast e' he').2 ⟨_, j', sig', msg', hc'⟩
  | cancel =>
    have hrec : j₁.toNat ∈ p.no := hrec
    rcases hd with hnodup | hempty
    · -- a last vote against would be recorded at the same index as the approval
      have hk₁ := voter_of_casts hrun hc (fun e' he' => (hlast e' he').1) hp hi
      have hlt := (List.getElem?_eq_some_iff.mp hk₁).1
      have hjj : j₁.toNat = j.toNat := (List.getElem?_inj hlt hnodup).mp (hk₁.trans hk.symm)
      obtain ⟨i', hi', -, ht⟩ := (sound_of_reachable ⟨_, hrun⟩).proposals a p hp
      exact absurd (hjj ▸ hrec) (Finset.disjoint_left.mp ht.disjoint hj)
    · rw [hempty] at hrec
      exact absurd hrec (Finset.notMem_empty _)

/-! ## The quorum -/

/-- The keys at a set of list indices. There are as many as indices when the list has no
repetitions. -/
theorem exists_keys {approvers : List Address} {js : Finset Nat} (hlt : ∀ j ∈ js, j < approvers.length) :
    ∃ keys : Finset Address, (∀ k ∈ keys, ∃ j ∈ js, approvers[j]? = some k) ∧
      (approvers.Nodup → js.card ≤ keys.card) ∧ (js.Nonempty → keys.Nonempty) := by
  refine ⟨js.attach.image fun j : js => approvers.get ⟨j, hlt j j.2⟩, fun k hk => ?_, fun hnodup => ?_,
    fun hne => ?_⟩
  · obtain ⟨j, -, rfl⟩ := Finset.mem_image.mp hk
    exact ⟨j, j.2, List.getElem?_eq_getElem (hlt j j.2)⟩
  · rw [Finset.card_image_of_injective, Finset.card_attach]
    intro j j' heq
    exact Subtype.ext (Fin.mk.inj_iff.mp (hnodup.injective_get heq))
  · exact (Finset.attach_nonempty_iff.mpr hne).image _

/-- The thresholds of an intent with an approved proposal satisfy the checks of `create_wallet`. -/
theorem Sound.thresholdsOk (hs : Sound s) {intentAddr : Address} {i : Intent} {p : Proposal}
    (hi : s intentAddr = some (.intent i)) (ht : Tallied i p) (happ : p.status = .approved) :
    i.ThresholdsOk := by
  rcases hs.intents intentAddr i (Accounts.intent?_of_eq hi) with hnil | ⟨hth, -⟩
  · exact absurd hnil (ht.voters happ)
  · exact hth

/-- M-of-N quorum, in every run whose wallets get distinct approvers. -/
theorem quorum_of_distinct {tr : List (Runs.Event Accounts Call)} (hrun : Runs.Run (program env) tr s)
    (hd : ∀ e ∈ tr, DistinctVoters e) : QuorumMet env tr := by
  rintro later e earlier declared intentAddr a remaining rfl hix
  obtain ⟨hpre, hstep⟩ := hrun.split
  have hs := sound_of_reachable ⟨_, hpre⟩
  obtain ⟨w, i, p, hl⟩ := Execute.loaded_of_process hstep hix
  have hi := Accounts.intent?_of_eq hl.intent_eq
  have hp := Accounts.proposal?_of_eq hl.proposal_eq
  have ht := hs.tallied hl.proposal_eq hl.intent_addr hl.intent_eq
  have hth := hs.thresholdsOk hl.intent_eq ht hl.approved
  have hopen : p.IsOpen := .inr hl.approved
  have hcount := (ht.approved_iff hth hopen).mp hl.approved
  have hdist := votersDistinct_of_run hpre (fun e' he' => hd e' (by simp [he'])) hi
  have hstand : i.approvers.toList.Nodup ∨ p.no = ∅ := by
    refine hdist.imp_right fun hone => Finset.card_eq_zero.mp ?_
    have hlt := ht.no_card_lt hth hopen
    have hle := UInt8.le_iff_toNat_le.mp hone.2
    simp only [UInt8.toNat_one] at hle
    omega
  obtain ⟨keys, hkeys, hcard, hne⟩ := exists_keys ht.yes_lt
  refine ⟨i, keys, hi, ?_, fun k hk => ?_⟩
  · rcases hdist with hnodup | hone
    · exact hcount.trans (hcard hnodup)
    · have hpos : p.yes.Nonempty := Finset.card_pos.mp (hth.1.trans hcount)
      have hle := UInt8.le_iff_toNat_le.mp hone.1
      exact hle.trans (Finset.card_pos.mpr (hne hpos))
  · obtain ⟨j, hj, hk⟩ := hkeys k hk
    refine ⟨List.mem_of_getElem? hk, ?_⟩
    have hjlt : j < 16 := (ht.yes_lt j hj).trans_le i.approvers.len_le
    have hj8 : (UInt8.ofNat j).toNat = j :=
      UInt8.toNat_ofNat_of_lt' (hjlt.trans (by decide))
    exact standing_of_mem_yes hpre hp (hl.intent_addr ▸ hi) hstand (hj8.symm ▸ hj) (hj8.symm ▸ hk)

namespace QuorumSample

open Sample

def table : List (Address × Bytes) :=
  [(key 1, message "expires 1970-01-01 00:16:40: propose remove intent 2 | wallet: a proposal: 0"),
   (key 2, message "expires 1970-01-01 00:16:40: approve remove intent 2 | wallet: a proposal: 0"),
   (key 3, message "expires 1970-01-01 00:16:40: approve remove intent 2 | wallet: a proposal: 0")]

/-- Two approvals, by the signatures `sig` and `sig'`, of two approvers. -/
def calls (approvers : List Address) (sig sig' : UInt8) : List Call :=
  [create "a" 2 2 approvers, propose "a" 1 0 [2], approve "a" 1 0 0 sig, approve "a" 1 0 1 sig',
   execute "a" 1 0 [intent "a" 2]]

/-- The calls that create a wallet have distinct approvers. -/
def distinct (c : Call) : Bool :=
  match c.ix with
  | .createWallet _ args => decide args.approvers.Nodup
  | _ => true

theorem distinctVoters_of_distinct {e : Runs.Event Accounts Call} (h : distinct e.label = true) :
    DistinctVoters e := by
  intro nameHash args hix
  simp only [distinct, hix, decide_eq_true_eq] at h
  exact .inl h

end QuorumSample

open QuorumSample Sample in
theorem quorum_of_distinct_sample :
    ∃ (e : Runs.Event Accounts Call) (earlier : List (Runs.Event Accounts Call)) (s : Accounts)
      (i : Intent) (keys : Finset Address),
      Runs.Run (program (Sample.env table)) (e :: earlier) s ∧
      e.label = execute "a" 1 0 [intent "a" 2] ∧ e.pre.intent? (intent "a" 1) = some i ∧
      i.approvalThreshold.toNat ≤ keys.card ∧
      ∀ k ∈ keys, k ∈ i.approvers.toList ∧
        Standing (Sample.env table) (proposal "a" 1 0) k earlier := by
  have hobs : observe (Sample.env table) (calls [key 2, key 3] 1 2) (fun _ _ => ()) = some () := by
    rw [table, message_ofList, message_ofList]
    decide +kernel
  obtain ⟨tr, s, hrun, hlabels, -⟩ := run_of_observe hobs
  have hdistinct : ∀ e ∈ tr, DistinctVoters e := by
    have hall : ∀ c ∈ tr.map (·.label), distinct c = true := by
      rw [hlabels]
      decide +kernel
    exact fun e he => distinctVoters_of_distinct (hall _ (List.mem_map_of_mem he))
  have hquorum := quorum_of_distinct hrun hdistinct
  simp only [calls, List.reverse_cons, List.reverse_nil, List.nil_append, List.cons_append,
    List.map_eq_cons_iff] at hlabels
  obtain ⟨e, earlier, rfl, hl, -⟩ := hlabels
  obtain ⟨i, keys, hi, hcard, hkeys⟩ := hquorum [] e earlier _ _ _ _ rfl (by rw [hl]; rfl)
  exact ⟨e, earlier, s, i, keys, hrun, hl, hi, hcard, hkeys⟩

open QuorumSample Sample in
/-- One key, listed twice, is a quorum of two. -/
theorem quorum_of_one_key :
    ∃ (tr : List (Runs.Event Accounts Call)) (s : Accounts),
      Runs.Run (program (Sample.env table)) tr s ∧ ¬ QuorumMet (Sample.env table) tr := by
  have hobs : observe (Sample.env table) (calls [key 2, key 2] 1 1) (fun tr _ => match tr with
      | e :: _ => (e.pre.intent? (intent "a" 1)).map fun i =>
          (i.approvalThreshold, decide (i.approvers.toList = [key 2, key 2]))
      | [] => none) = some (some (2, true)) := by
    rw [table, message_ofList, message_ofList]
    decide +kernel
  obtain ⟨tr, s, hrun, hlabels, hstate⟩ := run_of_observe hobs
  refine ⟨tr, s, hrun, fun hquorum => ?_⟩
  simp only [calls, List.reverse_cons, List.reverse_nil, List.nil_append, List.cons_append,
    List.map_eq_cons_iff] at hlabels
  obtain ⟨e, earlier, rfl, hl, -⟩ := hlabels
  obtain ⟨i, keys, hi, hcard, hkeys⟩ := hquorum [] e earlier _ _ _ _ rfl (by rw [hl]; rfl)
  obtain ⟨i', hi', heq⟩ := Option.map_eq_some_iff.mp hstate
  rw [hi'] at hi
  cases hi
  simp only [Prod.mk.injEq, decide_eq_true_eq] at heq
  obtain ⟨hthreshold, hlist⟩ := heq
  have hsub : keys ⊆ {key 2} := by
    intro k hk
    have hmem := (hkeys k hk).1
    rw [hlist] at hmem
    simpa using hmem
  have hle := hcard.trans (Finset.card_le_card hsub)
  rw [hthreshold, Finset.card_singleton] at hle
  exact absurd hle (by decide)

end ClearMsig
