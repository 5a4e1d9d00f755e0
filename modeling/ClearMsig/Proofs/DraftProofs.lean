import ClearMsig.Flow
import ClearMsig.Instructions.Proofs.ExecuteProofs
import ClearMsig.Utils.Proofs.MessageProofs

/-!
# The parameters of the client to add an intent

`build_intent_params` lays out the first 512 bytes of an intent by hand. The program copies them into a
fresh account; here is what it reads from them.
-/

namespace ClearMsig

open Window

variable {layout : PodVecLayout} {wallet : Address} {proposers : List Address}
  {approvalThreshold cancellationThreshold : UInt8} {timelockSeconds : UInt32} {off len k start : Nat}

/-! ## The fields -/

/-- The fields in front of the proposers, and the number of these. -/
def headFields (wallet : Address) (approvalThreshold cancellationThreshold : UInt8)
    (timelockSeconds : UInt32) (propCount : Nat) : List (Nat × Bytes) :=
  [(0, wallet.val), (34, [3]), (35, [1]), (36, [approvalThreshold]), (37, [cancellationThreshold]),
    (38, toLE 4 timelockSeconds.toNat), (48, toLE 4 propCount)]

/-- The proposers, from `start` on. -/
def proposerFields (start : Nat) : List Address → List (Nat × Bytes)
  | [] => []
  | p :: proposers => (start, p.val) :: proposerFields (start + 32) proposers

theorem writeProposers_eq {cap : Nat} {data : Bytes} (h : start + 32 * proposers.length ≤ cap) :
    writeProposers cap data start proposers = writes data (proposerFields start proposers) := by
  induction proposers generalizing data start with
  | nil => rfl
  | cons p proposers ih =>
    rw [List.length_cons] at h
    rw [writeProposers, if_pos (by omega), ih (by omega)]
    rfl

theorem mem_proposerFields {f : Nat × Bytes} (hf : f ∈ proposerFields start proposers) :
    start ≤ f.1 ∧ f.1 + 32 ≤ start + 32 * proposers.length ∧ f.2.length = 32 := by
  induction proposers generalizing start with
  | nil => exact absurd hf List.not_mem_nil
  | cons p proposers ih =>
    rw [List.length_cons]
    rcases List.mem_cons.mp hf with rfl | hf
    · exact ⟨le_rfl, by omega, p.property⟩
    · obtain ⟨hge, hle, hlen⟩ := ih hf
      exact ⟨by omega, by omega, hlen⟩

theorem getElem_mem_proposerFields (hk : k < proposers.length) :
    (start + k * 32, proposers[k].val) ∈ proposerFields start proposers := by
  induction proposers generalizing start k with
  | nil => exact absurd hk (Nat.not_lt_zero k)
  | cons p proposers ih =>
    cases k with
    | zero => simp [proposerFields]
    | succ k =>
      have hk := Nat.lt_of_succ_lt_succ hk
      have hrest : (start + 32 + k * 32, proposers[k].val) ∈ proposerFields (start + 32) proposers :=
        ih hk
      rw [List.getElem_cons_succ, Nat.succ_mul, show start + (k * 32 + 32) = start + 32 + k * 32 by omega]
      exact List.mem_cons_of_mem _ hrest

theorem pairwise_proposerFields :
    (proposerFields start proposers).Pairwise fun f g => Beside f.1 f.2.length g := by
  induction proposers generalizing start with
  | nil => exact List.Pairwise.nil
  | cons p proposers ih =>
    refine List.pairwise_cons.mpr ⟨fun g hg => .inl ?_, ih⟩
    rw [p.property]
    exact (mem_proposerFields hg).1

/-- All the fields that `build_intent_params` writes. -/
def draftFields (wallet : Address) (proposers : List Address)
    (approvalThreshold cancellationThreshold : UInt8) (timelockSeconds : UInt32) : List (Nat × Bytes) :=
  headFields wallet approvalThreshold cancellationThreshold timelockSeconds (min proposers.length 14) ++
    proposerFields 52 (proposers.take 14)

theorem buildIntentParams_eq :
    buildIntentParams layout wallet proposers approvalThreshold cancellationThreshold timelockSeconds =
      writes (List.replicate 512 0)
        (draftFields wallet proposers approvalThreshold cancellationThreshold timelockSeconds) := by
  have hcap : min (Intent.sizeOfIntent layout) 512 = 512 :=
    Nat.min_eq_right (le_trans (by decide) (Intent.sizeOfIntent_ge layout))
  have htake : proposers.take (min proposers.length 14) = proposers.take 14 := by
    rw [← List.take_take]
    exact List.take_of_length_le (List.length_take_le' _ _)
  have hlen : (proposers.take 14).length ≤ 14 := List.length_take_le _ _
  rw [buildIntentParams, hcap, htake, writeProposers_eq (by simp only [Intent.offProposers]; omega),
    draftFields, writes, writes, List.foldl_append]
  rfl

theorem fits_draftFields : ∀ f ∈ draftFields wallet proposers approvalThreshold cancellationThreshold
    timelockSeconds, Fits (List.replicate 512 (0 : UInt8)).length f := by
  intro f hf
  rw [List.length_replicate]
  rcases List.mem_append.mp hf with hf | hf
  · simp only [headFields, List.mem_cons, List.not_mem_nil, or_false] at hf
    rcases hf with rfl | rfl | rfl | rfl | rfl | rfl | rfl <;>
      simp [Fits, wallet.property, toLE_length]
  · obtain ⟨-, hle, hlen⟩ := mem_proposerFields hf
    have htake : (proposers.take 14).length ≤ 14 := List.length_take_le _ _
    simp only [Fits, hlen]
    omega

theorem pairwise_draftFields : (draftFields wallet proposers approvalThreshold cancellationThreshold
    timelockSeconds).Pairwise fun f g => Beside f.1 f.2.length g := by
  refine List.pairwise_append.mpr ⟨?_, pairwise_proposerFields, fun f hf g hg => .inl ?_⟩
  · simp [headFields, Beside, wallet.property, toLE_length]
  · refine le_trans ?_ (mem_proposerFields hg).1
    simp only [headFields, List.mem_cons, List.not_mem_nil, or_false] at hf
    rcases hf with rfl | rfl | rfl | rfl | rfl | rfl | rfl <;> simp [wallet.property, toLE_length]

/-! ## The intent -/

/-- A new custom intent with these settings, without votes or approvers. -/
structure Intent.Drafted (wallet : Address) (approvalThreshold cancellationThreshold : UInt8)
    (timelockSeconds : UInt32) (i : Intent) : Prop where
  wallet_eq : i.wallet = wallet
  bump_eq : i.bump = 0
  intentIndex_eq : i.intentIndex = 0
  type_eq : i.readType = .ok .custom
  approved_eq : i.approved = 1
  approvalThreshold_eq : i.approvalThreshold = approvalThreshold
  cancellationThreshold_eq : i.cancellationThreshold = cancellationThreshold
  timelockSeconds_eq : i.timelockSeconds = timelockSeconds
  template_eq : i.templateOffset = 0 ∧ i.templateLen = 0
  count_eq : i.activeProposalCount = 0
  approvers_nil : i.approvers.toList = []
  params_nil : i.params.toList = []
  instructions_nil : i.instructions.toList = []

/-- The length field of a vector is a little-endian `u32`, as `build_intent_params` takes it to be. -/
def PodVecLayout.CountsInU32 (layout : PodVecLayout) : Prop :=
  layout.headerLen = 4 ∧ ∀ N header, leNat header ≤ N → layout.len N header = leNat header

theorem length_buildIntentParams :
    (buildIntentParams layout wallet proposers approvalThreshold cancellationThreshold timelockSeconds).length =
      512 := by
  rw [buildIntentParams_eq, length_writes fits_draftFields, List.length_replicate]

/-- A field of the draft is read back. -/
theorem bytesAt_draft {items : Bytes} (h : (off, items) ∈ draftFields wallet proposers approvalThreshold
      cancellationThreshold timelockSeconds) (hlen : items.length = len) :
    Intent.bytesAt (buildIntentParams layout wallet proposers approvalThreshold cancellationThreshold
      timelockSeconds) off len = items := by
  rw [buildIntentParams_eq, ← hlen]
  exact read_writes_of_mem fits_draftFields pairwise_draftFields h

/-- What is not written in front of the proposers is zero. -/
theorem bytesAt_draft_gap (h : (32 ≤ off ∧ off + len ≤ 34) ∨ (42 ≤ off ∧ off + len ≤ 48)) :
    Intent.bytesAt (buildIntentParams layout wallet proposers approvalThreshold cancellationThreshold
      timelockSeconds) off len = List.replicate len 0 := by
  rw [buildIntentParams_eq]
  refine (read_writes_of_beside fits_draftFields fun f hf => ?_).trans read_replicate
  rcases List.mem_append.mp hf with hf | hf
  · simp only [headFields, List.mem_cons, List.not_mem_nil, or_false] at hf
    rcases hf with rfl | rfl | rfl | rfl | rfl | rfl | rfl <;>
      simp only [Beside, wallet.property, toLE_length, List.length_singleton] <;> omega
  · have hge := (mem_proposerFields hf).1
    exact .inl (by omega)

theorem Intent.byteAt_of_bytesAt {body : Bytes} {b : UInt8} (h : bytesAt body off 1 = [b]) :
    byteAt body off = b :=
  List.head_eq_of_cons_eq h

theorem Intent.u16At_of_bytesAt {body : Bytes} (h : bytesAt body off 2 = List.replicate 2 0) :
    u16At body off = 0 := by
  rw [u16At, h]
  rfl

/-- The items of a vector of addresses. -/
theorem Intent.podVecAt_addressAt_toList {body : Bytes} {N : Nat} {v : PodVec Address N}
    (h : podVecAt layout body N 32 addressAt off = some v) :
    v.toList = (List.range (layout.len N (bytesAt body off layout.headerLen))).map fun k =>
      ByteArr.ofBytes 32 (bytesAt body (off + layout.headerLen + k * 32) 32) := by
  have hmap (g : Nat → Address) (xs : List Nat) : xs.mapM (fun k => some (g k)) = some (xs.map g) :=
    List.mapM_pure
  simp only [podVecAt, addressAt, hmap] at h
  split_ifs at h with hn
  rw [← Option.some.inj h]

theorem ByteArr.ofBytes_val {n : Nat} (a : ByteArr n) : ByteArr.ofBytes n a.val = a := by
  refine Subtype.ext ?_
  show (a.val ++ List.replicate n 0).take n = a.val
  rw [List.take_append_of_le_length a.property.ge, List.take_of_length_le a.property.le]

/-- The proposers of the draft, in a layout as the client takes it to be. -/
theorem proposers_of_draft (h : layout.CountsInU32) {v : PodVec Address 16}
    (hv : Intent.podVecAt layout (buildIntentParams layout wallet proposers approvalThreshold
      cancellationThreshold timelockSeconds) 16 32 Intent.addressAt Intent.offProposers = some v) :
    v.toList = proposers.take 14 := by
  have hlen : (proposers.take 14).length = min proposers.length 14 := by
    rw [List.length_take, Nat.min_comm]
  have hcount : leNat (toLE 4 (min proposers.length 14)) = min proposers.length 14 :=
    leNat_toLE (lt_of_le_of_lt (Nat.min_le_right _ _) (by decide))
  have hheader : Intent.bytesAt (buildIntentParams layout wallet proposers approvalThreshold
      cancellationThreshold timelockSeconds) Intent.offProposers 4 = toLE 4 (min proposers.length 14) :=
    bytesAt_draft (List.mem_append_left _ (by simp [headFields, Intent.offProposers])) (toLE_length _ _)
  rw [Intent.podVecAt_addressAt_toList hv, h.1, hheader, h.2 _ _ (by rw [hcount]; omega), hcount]
  refine List.ext_getElem (by rw [List.length_map, List.length_range, hlen]) fun k hk hk' => ?_
  rw [List.getElem_map, List.getElem_range]
  have hkey : (52 + k * 32, (proposers.take 14)[k].val) ∈ draftFields wallet proposers approvalThreshold
      cancellationThreshold timelockSeconds := List.mem_append_right _ (getElem_mem_proposerFields hk')
  exact (congrArg (ByteArr.ofBytes 32) (bytesAt_draft hkey (proposers.take 14)[k].property)).trans
    (ByteArr.ofBytes_val _)

/-- What the program reads from the draft, whatever its vectors look like in memory: the settings, and no
approvers. The first 14 proposers are there when the vectors are laid out as the client takes them to be. -/
theorem fromBody_buildIntentParams (layout : PodVecLayout) (wallet : Address) (proposers : List Address)
    (approvalThreshold cancellationThreshold : UInt8) (timelockSeconds : UInt32) :
    ∃ i, Intent.fromBody layout (buildIntentParams layout wallet proposers approvalThreshold
        cancellationThreshold timelockSeconds) = some i ∧
      i.Drafted wallet approvalThreshold cancellationThreshold timelockSeconds ∧
      (layout.CountsInU32 → i.proposers.toList = proposers.take 14) := by
  set body := buildIntentParams layout wallet proposers approvalThreshold cancellationThreshold
    timelockSeconds with hbody
  have hlen : body.length ≤ 512 := length_buildIntentParams.le
  have hbyte {off : Nat} {b : UInt8} (h : (off, [b]) ∈ headFields wallet approvalThreshold
      cancellationThreshold timelockSeconds (min proposers.length 14)) : Intent.byteAt body off = b :=
    Intent.byteAt_of_bytesAt (bytesAt_draft (List.mem_append_left _ h) rfl)
  have hwallet : Intent.bytesAt body 0 32 = wallet.val :=
    bytesAt_draft (List.mem_append_left _ (by simp [headFields])) wallet.property
  have htime : Intent.bytesAt body 38 4 = toLE 4 timelockSeconds.toNat :=
    bytesAt_draft (List.mem_append_left _ (by simp [headFields])) (toLE_length _ _)
  have hu16 {off : Nat} (h : 42 ≤ off ∧ off + 2 ≤ 48) : Intent.u16At body off = 0 :=
    Intent.u16At_of_bytesAt (bytesAt_draft_gap (.inr h))
  have hbehind {off : Nat} (h : Intent.offApprovers layout ≤ off) : body.length ≤ off :=
    (hlen.trans (Intent.offApprovers_ge layout)).trans h
  obtain ⟨i, hi⟩ := @Intent.fromBody_isSome layout body hlen
  refine ⟨i, hi, ?_⟩
  simp only [Intent.fromBody, Option.bind_eq_bind, Option.bind_eq_some_iff] at hi
  obtain ⟨props, hprops, approvers, happ, params, hparams, accounts, -, instructions, hinst, segs, -,
    seeds, -, pool, -, hi⟩ := hi
  obtain rfl := Option.some.inj hi
  refine ⟨?_, fun hcounts => proposers_of_draft hcounts hprops⟩
  refine ⟨?_, ?_, ?_, ?_, hbyte (by simp [headFields]), hbyte (by simp [headFields]),
    hbyte (by simp [headFields]), ?_, ⟨hu16 (by omega), hu16 (by omega)⟩, hu16 (by omega),
    Intent.podVecAt_of_length_le (hbehind le_rfl) happ,
    Intent.podVecAt_of_length_le (hbehind (by simp [Intent.offParams])) hparams,
    Intent.podVecAt_of_length_le
      (hbehind (by simp only [Intent.offInstructions, Intent.offAccounts, Intent.offParams]; omega)) hinst⟩
  · exact (congrArg (ByteArr.ofBytes 32) hwallet).trans (ByteArr.ofBytes_val wallet)
  · exact Intent.byteAt_of_bytesAt (bytesAt_draft_gap (by omega))
  · exact Intent.byteAt_of_bytesAt (bytesAt_draft_gap (by omega))
  · have ht : Intent.byteAt body 34 = 3 := hbyte (by simp [headFields])
    simp only [Intent.readType, ht]
    rfl
  · simp only [htime]
    rw [leNat_toLE timelockSeconds.toNat_lt, UInt32.ofNat_toNat]

end ClearMsig
