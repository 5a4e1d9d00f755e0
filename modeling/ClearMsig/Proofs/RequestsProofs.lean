import ClearMsig.Foundation.Codewords
import ClearMsig.Requests
import ClearMsig.Sample
import ClearMsig.Utils.Proofs.MessageProofs

/-!
# Instruction data tells the request

Two requests with the same instruction data are told apart by nothing: they are the same instruction with the
same arguments. The arguments are self-delimiting words, one after the other.
-/

namespace ClearMsig

open Codewords

variable {sha256 : Bytes → ByteArr 32} {kind : ProgramKind} {n : Nat}

/-! ## Words -/

theorem selfDelimiting_byte : SelfDelimiting (fun b : UInt8 => [b]) Set.univ :=
  .ofLength (fun _ _ => rfl) fun _ _ _ _ h => List.head_eq_of_cons_eq h

theorem selfDelimiting_byteArr : SelfDelimiting (fun b : ByteArr n => b.val) Set.univ :=
  .ofLength (fun b _ => b.property) fun _ _ _ _ h => Subtype.ext h

/-- A number that fits into its field. -/
theorem selfDelimiting_toLE : SelfDelimiting (toLE n) {v | v < 256 ^ n} := by
  refine .ofLength (fun v _ => toLE_length n v) fun v hv v' hv' h => ?_
  rw [← leNat_toLE hv, h, leNat_toLE hv']

theorem selfDelimiting_u32 : SelfDelimiting (fun v : UInt32 => toLE 4 v.toNat) Set.univ := by
  intro v _ v' _ r r' h
  obtain ⟨hv, hrest⟩ := selfDelimiting_toLE v.toNat_lt v'.toNat_lt h
  exact ⟨UInt32.toNat_inj.mp hv, hrest⟩

theorem selfDelimiting_u64 : SelfDelimiting (fun v : UInt64 => toLE 8 v.toNat) Set.univ := by
  intro v _ v' _ r r' h
  obtain ⟨hv, hrest⟩ := selfDelimiting_toLE v.toNat_lt v'.toNat_lt h
  exact ⟨UInt64.toNat_inj.mp hv, hrest⟩

theorem selfDelimiting_i64 : SelfDelimiting int64Bytes Set.univ := by
  intro x _ y _ r r' h
  obtain ⟨hx, hrest⟩ := selfDelimiting_u64 (Set.mem_univ _) (Set.mem_univ _) h
  exact ⟨Int64.toBitVec_inj.mp (congrArg UInt64.toBitVec hx), hrest⟩

theorem selfDelimiting_slice {α : Type} {item : α → Bytes} (h : SelfDelimiting item Set.univ) :
    SelfDelimiting (kind.slice item) {l | l.length < 256 ^ kind.lengthWidth} :=
  (selfDelimiting_toLE.counted h).mono fun _ hl => ⟨hl, fun _ _ => Set.mem_univ _⟩

/-! ## Discriminators -/

def Request.fnName : Request → Bytes
  | .createWallet _ => ascii "create_wallet"
  | .propose _ _ => ascii "propose"
  | .approve _ => ascii "approve"
  | .cancel _ => ascii "cancel"
  | .execute => ascii "execute"
  | .cleanupProposal => ascii "cleanup_proposal"

/-- The six names of instructions. -/
def fnNames : List Bytes :=
  [ascii "create_wallet", ascii "propose", ascii "approve", ascii "cancel", ascii "execute",
    ascii "cleanup_proposal"]

/-- The instructions have discriminators of their own. -/
def ProgramKind.Distinguishes (sha256 : Bytes → ByteArr 32) (kind : ProgramKind) : Prop :=
  ∀ f ∈ fnNames, ∀ g ∈ fnNames, kind.discriminator sha256 f = kind.discriminator sha256 g → f = g

/-- The numbers of the second program always do. -/
theorem distinguishes_quasar : ProgramKind.quasar.Distinguishes sha256 := by
  have h : ∀ f ∈ fnNames, ∀ g ∈ fnNames,
      ProgramKind.quasar.discriminator (fun _ => .ofBytes 32 []) f =
        ProgramKind.quasar.discriminator (fun _ => .ofBytes 32 []) g → f = g := by decide +kernel
  exact h

theorem distinguishes (hsha : ProgramKind.anchorV2.Distinguishes sha256) : kind.Distinguishes sha256 :=
  match kind with
  | .anchorV2 => hsha
  | .quasar => distinguishes_quasar

/-- The arguments of a request, behind the discriminator. -/
def Request.arguments (kind : ProgramKind) : Request → Bytes
  | .createWallet args => [args.approvalThreshold] ++ ([args.cancellationThreshold] ++
      (toLE 4 args.timelockSeconds.toNat ++ (kind.slice (fun b => [b]) args.name ++
        (kind.slice (·.val) args.proposers ++ kind.slice (·.val) args.approvers))))
  | .propose proposalIndex args => (if kind = .quasar then toLE 8 proposalIndex.toNat else []) ++
      (int64Bytes args.expiry ++ (args.proposerPubkey.val ++ (args.signature.val ++
        if kind = .quasar then args.paramsData else toLE 8 args.paramsData.length ++ args.paramsData)))
  | .approve args => int64Bytes args.expiry ++ ([args.approverIndex] ++ args.signature.val)
  | .cancel args => int64Bytes args.expiry ++ ([args.cancellerIndex] ++ args.signature.val)
  | .execute | .cleanupProposal => []

theorem Request.data_eq_ok {x : Request} {d : Bytes} :
    x.data sha256 kind = .ok d ↔
      ∃ disc, kind.discriminator sha256 x.fnName = .ok disc ∧ disc ++ x.arguments kind = d := by
  cases x with
  | createWallet | approve | cancel =>
    simp only [data, buildCreateWalletData, buildApproveData, buildCancelData, buildVoteData, bind_eq_ok,
      fnName, arguments, Except.ok.injEq, List.append_assoc]
  | propose =>
    cases kind <;>
      simp only [data, buildProposeData, bind_eq_ok, fnName, arguments, Except.ok.injEq, List.append_assoc,
        reduceCtorEq, if_true, if_false, List.nil_append]
  | execute | cleanupProposal =>
    simp only [data, buildExecuteData, buildCleanupData, fnName, arguments, List.append_nil,
      exists_eq_right]

/-- Discriminators have one length. -/
theorem discriminator_length {f g df dg : Bytes} (hf : kind.discriminator sha256 f = .ok df)
    (hg : kind.discriminator sha256 g = .ok dg) : df.length = dg.length := by
  cases kind with
  | anchorV2 =>
    simp only [ProgramKind.discriminator, Except.ok.injEq] at hf hg
    simp [← hf, ← hg, (sha256 _).property]
  | quasar =>
    have hone : ∀ {h d : Bytes}, ProgramKind.quasar.discriminator sha256 h = .ok d → d.length = 1 := by
      intro h d hd
      simp only [ProgramKind.discriminator] at hd
      split_ifs at hd <;> cases hd <;> rfl
    rw [hone hf, hone hg]

theorem Request.fnName_mem (x : Request) : x.fnName ∈ fnNames := by
  cases x <;> simp [fnName, fnNames]

/-! ## Taking a request apart -/

theorem createWalletArgs_of_arguments {a a' : CreateWalletArgs} (ha : (Request.createWallet a).Fits kind)
    (ha' : (Request.createWallet a').Fits kind)
    (h : (Request.createWallet a).arguments kind = (Request.createWallet a').arguments kind) : a = a' := by
  obtain ⟨hname, hpro, happ⟩ := ha
  obtain ⟨hname', hpro', happ'⟩ := ha'
  obtain ⟨ht, h⟩ := selfDelimiting_byte (Set.mem_univ _) (Set.mem_univ _) h
  obtain ⟨hc, h⟩ := selfDelimiting_byte (Set.mem_univ _) (Set.mem_univ _) h
  obtain ⟨hl, h⟩ := selfDelimiting_u32 (Set.mem_univ _) (Set.mem_univ _) h
  obtain ⟨hn, h⟩ := selfDelimiting_slice selfDelimiting_byte hname hname' h
  obtain ⟨hp, h⟩ := selfDelimiting_slice selfDelimiting_byteArr hpro hpro' h
  rw [← List.append_nil (kind.slice _ a.approvers), ← List.append_nil (kind.slice _ a'.approvers)] at h
  obtain ⟨hv, -⟩ := selfDelimiting_slice selfDelimiting_byteArr happ happ' h
  cases a
  cases a'
  simp_all

theorem told_propose_of_arguments {i i' : UInt64} {a a' : ProposeArgs} (ha : (Request.propose i a).Fits kind)
    (ha' : (Request.propose i' a').Fits kind)
    (h : (Request.propose i a).arguments kind = (Request.propose i' a').arguments kind) :
    (Request.propose i a).told kind = (Request.propose i' a').told kind := by
  cases kind with
  | anchorV2 =>
    obtain ⟨he, h⟩ := selfDelimiting_i64 (Set.mem_univ _) (Set.mem_univ _) h
    obtain ⟨hp, h⟩ := selfDelimiting_byteArr (Set.mem_univ _) (Set.mem_univ _) h
    obtain ⟨hs, h⟩ := selfDelimiting_byteArr (Set.mem_univ _) (Set.mem_univ _) h
    obtain ⟨-, hd⟩ := selfDelimiting_toLE (ha rfl) (ha' rfl) h
    cases a
    cases a'
    simp_all [Request.told]
  | quasar =>
    obtain ⟨hi, h⟩ := selfDelimiting_u64 (Set.mem_univ _) (Set.mem_univ _) h
    obtain ⟨he, h⟩ := selfDelimiting_i64 (Set.mem_univ _) (Set.mem_univ _) h
    obtain ⟨hp, h⟩ := selfDelimiting_byteArr (Set.mem_univ _) (Set.mem_univ _) h
    obtain ⟨hs, hd⟩ := selfDelimiting_byteArr (Set.mem_univ _) (Set.mem_univ _) h
    cases a
    cases a'
    simp_all [Request.told]

/-- The arguments of a vote. -/
theorem vote_of_arguments {e e' : Int64} {i i' : UInt8} {s s' : Signature}
    (h : int64Bytes e ++ ([i] ++ s.val) = int64Bytes e' ++ ([i'] ++ s'.val)) : e = e' ∧ i = i' ∧ s = s' := by
  obtain ⟨he, h⟩ := selfDelimiting_i64 (Set.mem_univ _) (Set.mem_univ _) h
  obtain ⟨hi, h⟩ := selfDelimiting_byte (Set.mem_univ _) (Set.mem_univ _) h
  exact ⟨he, hi, Subtype.ext h⟩

theorem told_of_arguments {x y : Request} (hx : x.Fits kind) (hy : y.Fits kind) (hname : x.fnName = y.fnName)
    (h : x.arguments kind = y.arguments kind) : x.told kind = y.told kind := by
  cases x with
  | createWallet a =>
    cases y with
    | createWallet a' => rw [createWalletArgs_of_arguments hx hy h]
    | _ => simp [Request.fnName, ascii] at hname
  | propose i a =>
    cases y with
    | propose i' a' => exact told_propose_of_arguments hx hy h
    | _ => simp [Request.fnName, ascii] at hname
  | approve a =>
    cases y with
    | approve a' =>
      obtain ⟨he, hi, hs⟩ := vote_of_arguments h
      cases a
      cases a'
      simp_all
    | _ => simp [Request.fnName, ascii] at hname
  | cancel a =>
    cases y with
    | cancel a' =>
      obtain ⟨he, hi, hs⟩ := vote_of_arguments h
      cases a
      cases a'
      simp_all
    | _ => simp [Request.fnName, ascii] at hname
  | execute =>
    cases y with
    | execute => rfl
    | _ => simp [Request.fnName, ascii] at hname
  | cleanupProposal =>
    cases y with
    | cleanupProposal => rfl
    | _ => simp [Request.fnName, ascii] at hname

/-! ## Main theorem -/

/-- Whoever reads the instruction data learns the request from it: two requests whose lengths fit into their
fields and that have the same data tell the program the same. -/
theorem told_eq_of_data_eq {x y : Request} {d : Bytes} (hsha : ProgramKind.anchorV2.Distinguishes sha256)
    (hx : x.Fits kind) (hy : y.Fits kind) (hdx : x.data sha256 kind = .ok d) (hdy : y.data sha256 kind = .ok d) :
    x.told kind = y.told kind := by
  obtain ⟨dx, hdiscx, rfl⟩ := Request.data_eq_ok.mp hdx
  obtain ⟨dy, hdiscy, heq⟩ := Request.data_eq_ok.mp hdy
  obtain ⟨rfl, hargs⟩ := List.append_inj heq.symm (discriminator_length hdiscx hdiscy)
  have hname : x.fnName = y.fnName :=
    distinguishes hsha _ x.fnName_mem _ y.fnName_mem (hdiscx.trans hdiscy.symm)
  exact told_of_arguments hx hy hname hargs

/-- A hash that keeps what is behind `global:`. -/
def Sample.behindTag (b : Bytes) : ByteArr 32 := .ofBytes 32 (b.drop 7)

theorem Sample.distinguishes_behindTag : ProgramKind.anchorV2.Distinguishes behindTag := by
  unfold ProgramKind.Distinguishes
  decide +kernel

/-- The number of a proposal is not part of what the first program is told. -/
theorem told_eq_of_data_eq_sample :
    (Request.propose 3 ⟨0, Sample.key 1, Sample.sig 0, [7, 7]⟩).told .anchorV2 =
      (Request.propose 5 ⟨0, Sample.key 1, Sample.sig 0, [7, 7]⟩).told .anchorV2 :=
  told_eq_of_data_eq Sample.distinguishes_behindTag (fun _ => by decide) (fun _ => by decide) rfl rfl

end ClearMsig
