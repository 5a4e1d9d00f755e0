import ClearMsig.Proofs.InvariantProofs
import ClearMsig.Sample

/-!
# Well-formed intents

`create_wallet` checks what it writes into an intent. `AddIntent` execution copies the parameters of the
proposal, which are too short to reach the list of approvers, so an intent that it writes has no
approvers whatever its thresholds are.
-/

namespace ClearMsig

variable {env : Env} {s s' : Accounts} {c : Call}

/-- A valid intent. The list capacities and the bytes of the entries are already right by their types;
what is left is the type byte, the thresholds and the template. -/
structure Intent.WellFormed (i : Intent) : Prop where
  type_legal : ∃ t, IntentType.ofByte i.intentType = some t
  thresholds : i.ThresholdsOk
  template_inside : i.templateOffset.toNat + i.templateLen.toNat ≤ i.bytePool.toList.length

/-- Every intent account holds a valid intent. -/
def Accounts.WellFormed (s : Accounts) : Prop := ∀ a i, s.intent? a = some i → i.WellFormed

/-- The event executes a proposal of an `AddIntent` intent. -/
def AddsIntent (e : Runs.Event Accounts Call) : Prop :=
  ∃ declared intentAddr proposalAddr remaining i,
    e.label.ix = .execute declared intentAddr proposalAddr remaining ∧
    e.pre.intent? intentAddr = some i ∧ i.readType = .ok .addIntent

theorem Intent.WellFormed.congr {i i' : Intent} (h : i'.definition = i.definition)
    (hi : i.WellFormed) : i'.WellFormed := by
  obtain ⟨htype, hth, htemplate⟩ := hi
  have hoffset : i'.templateOffset = i.templateOffset :=
    show i'.definition.templateOffset = i.definition.templateOffset by rw [h]
  have hlen : i'.templateLen = i.templateLen :=
    show i'.definition.templateLen = i.definition.templateLen by rw [h]
  refine ⟨?_, (thresholdsOk_congr h).mpr hth, ?_⟩
  · rwa [intentType_congr h]
  · rwa [hoffset, hlen, bytePool_congr h]

/-- `create_wallet` writes valid intents. -/
theorem CreateWallet.MetaIntent.wellFormed {args : CreateWalletArgs} {nameHash w : Address}
    {index : UInt8} {t : IntentType} {i : Intent} (h : MetaIntent args w index t i)
    (hchecked : Checked env nameHash args) : i.WellFormed := by
  refine ⟨⟨t, ?_⟩, ⟨?_, ?_, ?_, ?_⟩, ?_⟩
  · rw [h.intentType_eq]
    cases t <;> rfl
  · rw [h.approvalThreshold_eq]
    exact hchecked.approval_pos
  · rw [h.approvalThreshold_eq, h.approvers_eq]
    exact hchecked.approval_le
  · rw [h.cancellationThreshold_eq]
    exact hchecked.cancellation_pos
  · rw [h.cancellationThreshold_eq, h.approvers_eq]
    exact hchecked.cancellation_le
  · rw [h.templateOffset_eq, h.templateLen_eq, h.bytePool_nil]
    exact le_refl _

/-- The bytes of a proposal never make a valid intent. -/
theorem Intent.FromBytes.not_wellFormed {body : Bytes} {i : Intent} (h : FromBytes body i) :
    ¬ i.WellFormed := by
  intro hi
  obtain ⟨hpos, hle, -⟩ := hi.thresholds
  rw [h.approvers_nil, List.length_nil] at hle
  omega

/-- A step that adds no intent from bytes keeps intents valid. -/
theorem Accounts.WellFormed.of_effect (hw : s.WellFormed) (h : Effect env s c s')
    (hadd : ¬ AddsIntent ⟨s, c, s'⟩) : s'.WellFormed := by
  intro a i' hi'
  rcases h.intent_origin hi' with ⟨i, hi, hd⟩ | ⟨-, hnew⟩
  · exact (hw a i hi).congr hd
  · cases hnew with
    | ofWallet hc hw hwallet hchecked ht hmeta => exact hmeta.wellFormed hchecked
    | ofBytes hc hl ht hbytes =>
      exact absurd ⟨_, _, _, _, _, hc, Accounts.intent?_of_eq hl.intent_eq, ht⟩ hadd

/-- The intent that a step adds from bytes is not valid. -/
theorem not_addsIntent_of_wellFormed (hs : Sound s) (h : process env s c = .ok s')
    (hw : s'.WellFormed) : ¬ AddsIntent ⟨s, c, s'⟩ := by
  rintro ⟨declared, intentAddr, proposalAddr, remaining, i, hc, hi, ht⟩
  obtain ⟨w, j, p, hl⟩ := Execute.loaded_of_process h hc
  obtain ⟨w', new, -, hnew, -, hstored⟩ :=
    (hs.effect h).addIntent_stores hc hi ht (Accounts.proposal?_of_eq hl.proposal_eq)
  exact hnew.not_wellFormed (hw _ new hstored)

/-- Every stored intent is well formed throughout a run exactly when the run executes no `AddIntent`:
the bytes that a proposal can hold always make an intent, and never a valid one. -/
theorem wellFormed_iff_no_addIntent {tr : List (Runs.Event Accounts Call)}
    (hrun : Runs.Run (program env) tr s) :
    ((∀ e ∈ tr, e.post.WellFormed) ↔ ∀ e ∈ tr, ¬ AddsIntent e) ∧
      ∀ body : Bytes, body.length ≤ 512 →
        ∃ i, Intent.fromBody env.podVec body = some i ∧ ¬ i.WellFormed := by
  constructor
  · refine hrun.forall_post_iff (P := Accounts.WellFormed) ?_ ?_ ?_ ?_
    · rintro _ rfl a i hi
      exact absurd hi (by simp [Accounts.none])
    · intro tr s c s' hr hw hstep hadd
      exact hw.of_effect ((sound_of_reachable ⟨tr, hr⟩).effect hstep) hadd
    · intro e he tr' hr hw
      exact hw
    · intro e he tr' hr hstep hw
      exact not_addsIntent_of_wellFormed (sound_of_reachable ⟨tr', hr⟩) hstep hw
  · intro body hlen
    obtain ⟨i, hi⟩ := @Intent.fromBody_isSome env.podVec body hlen
    exact ⟨i, hi, (Intent.fromBytes_of_fromBody hlen hi).not_wellFormed⟩

namespace WellFormedSample

open Sample

/-- A body whose type byte is 9: it names no `IntentType`. -/
def body : Bytes := (wallet "a").val ++ [255, 3, 9, 1, 1, 1]

def table : List (Address × Bytes) :=
  [(key 1, addIntentMessage "propose" (wallet "a") "a" "0"),
   (key 2, addIntentMessage "approve" (wallet "a") "a" "0")]

/-- An `AddIntent` up to its approval, and its execution. -/
def calls : List Call := [create "a" 1 1 [key 2], propose "a" 0 0 body, approve "a" 0 0 0 1]

def execution : Call := execute "a" 0 0 [key 9, intent "a" 3]

/-- Whether a call is no execution. -/
def executesNothing (c : Call) : Bool :=
  match c.ix with
  | .execute .. => false
  | _ => true

theorem not_addsIntent {e : Runs.Event Accounts Call} (h : executesNothing e.label = true) :
    ¬ AddsIntent e := by
  rintro ⟨declared, intentAddr, proposalAddr, remaining, i, hix, -⟩
  simp [executesNothing, hix] at h

end WellFormedSample

open WellFormedSample Sample in
/-- The intents are valid up to the approval of the `AddIntent`. -/
theorem wellFormed_iff_no_addIntent_sample :
    ∃ (tr : List (Runs.Event Accounts Call)) (s : Accounts),
      Runs.Run (program (Sample.env table)) tr s ∧ tr.map (·.label) = calls.reverse ∧
      ∀ e ∈ tr, e.post.WellFormed := by
  have hobs : observe (Sample.env table) calls (fun _ _ => ()) = some () := by decide +kernel
  obtain ⟨tr, s, hrun, hlabels, -⟩ := run_of_observe hobs
  have hall : ∀ c ∈ tr.map (·.label), executesNothing c = true := by
    rw [hlabels]
    decide +kernel
  refine ⟨tr, s, hrun, hlabels, (wellFormed_iff_no_addIntent hrun).1.mpr fun e he => ?_⟩
  exact not_addsIntent (hall _ (List.mem_map_of_mem he))

open WellFormedSample Sample in
/-- An intent account with the type byte 9 and a threshold of one out of no approvers. -/
theorem malformed_intent_stored :
    ∃ (s : Accounts) (i : Intent), Runs.Reachable (program (Sample.env table)) s ∧
      s.intent? (intent "a" 3) = some i ∧ i.intentType = 9 ∧ i.approvalThreshold = 1 ∧
      i.approvers.toList = [] ∧ ¬ i.WellFormed := by
  have hobs : observe (Sample.env table) (calls ++ [execution]) (fun _ s =>
      (s.intent? (intent "a" 3)).map fun i => (i.intentType, i.approvalThreshold, i.approvers.toList)) =
      some (some (9, 1, [])) := by decide +kernel
  obtain ⟨tr, s, hrun, -, hstate⟩ := run_of_observe hobs
  obtain ⟨i, hi, hfields⟩ := Option.map_eq_some_iff.mp hstate
  simp only [Prod.mk.injEq] at hfields
  obtain ⟨htype, hthreshold, hnil⟩ := hfields
  refine ⟨s, i, ⟨tr, hrun⟩, hi, htype, hthreshold, hnil, fun hw => ?_⟩
  obtain ⟨t, ht⟩ := hw.type_legal
  rw [htype] at ht
  cases ht

end ClearMsig
