import ClearMsig.Instructions.Proofs.AcceptedProofs

/-!
# What an accepted `execute` has checked and done

Two of the four kinds of execution are out of reach for the 512 bytes of parameters a proposal holds:
`execute_update_intent` asks for a whole intent body and always fails, and the intents that
`execute_add_intent` writes have no approvers, parameters, accounts or instructions, because these
fields lie behind the bytes that are copied.
-/

namespace ClearMsig

/-! ## Intents from raw bytes -/

namespace Intent

variable {layout : PodVecLayout} {body : Bytes}

/-- A field of a body that is zero from an earlier byte on is zero. -/
theorem bytesAt_append_zeros {n off len : Nat} (h : body.length ≤ off) :
    bytesAt (body ++ List.replicate n 0) off len = List.replicate len 0 := by
  refine List.eq_replicate_iff.mpr ⟨by simp [bytesAt], fun b hb => ?_⟩
  obtain ⟨k, -, rfl⟩ := List.mem_map.mp hb
  rw [List.getD_eq_getElem?_getD, List.getElem?_append_right (Nat.le_add_right_of_le h),
    List.getElem?_replicate]
  split_ifs <;> rfl

/-- A field behind the end of a body is zero. -/
theorem bytesAt_of_length_le {off len : Nat} (h : body.length ≤ off) :
    bytesAt body off len = List.replicate len 0 := by
  have hzeros := @bytesAt_append_zeros body 0 off len h
  rwa [List.replicate_zero, List.append_nil] at hzeros

/-- A vector whose length field is zero is empty. -/
theorem podVecAt_of_header {α : Type} {N size : Nat} {item : Bytes → Nat → Option α} {off : Nat}
    (h : bytesAt body off layout.headerLen = List.replicate layout.headerLen 0) :
    podVecAt layout body N size item off = some .empty := by
  simp only [podVecAt, h, layout.len_zero, List.range_zero, List.mapM_nil]
  rfl

/-- A vector behind the end of a body is empty. -/
theorem podVecAt_of_length_le {α : Type} {N size : Nat} {item : Bytes → Nat → Option α} {off : Nat}
    {v : PodVec α N} (h : body.length ≤ off) (hv : podVecAt layout body N size item off = some v) :
    v.toList = [] := by
  rw [podVecAt_of_header (bytesAt_of_length_le h)] at hv
  obtain rfl := Option.some.inj hv
  rfl

/-- The approvers lie behind the longest parameters. -/
theorem offApprovers_ge (layout : PodVecLayout) : 512 ≤ offApprovers layout := by
  simp only [offApprovers, offProposers, podVecSize]
  omega

/-- So does the byte pool. -/
theorem offBytePool_ge (layout : PodVecLayout) : 512 ≤ offBytePool layout := by
  simp only [offBytePool, offSeeds, offDataSegments, offInstructions, offAccounts, offParams,
    offApprovers, offProposers, podVecSize]
  omega

/-- The fields of an intent read from at most 512 bytes. -/
structure FromBytes (body : Bytes) (intent : Intent) : Prop where
  wallet_eq : intent.wallet = ByteArr.ofBytes 32 (bytesAt body 0 32)
  intentIndex_eq : intent.intentIndex = byteAt body 33
  count_eq : intent.activeProposalCount = u16At body 46
  approvers_nil : intent.approvers.toList = []
  bytePool_nil : intent.bytePool.toList = []

theorem fromBytes_of_fromBody {intent : Intent} (hlen : body.length ≤ 512)
    (h : fromBody layout body = some intent) : FromBytes body intent := by
  simp only [fromBody, Option.bind_eq_bind, Option.bind_eq_some_iff] at h
  obtain ⟨proposers, -, approvers, happ, params, -, accounts, -, instructions, -, segs, -, seeds, -,
    pool, hpool, hi⟩ := h
  have happrovers := podVecAt_of_length_le (Nat.le_trans hlen (offApprovers_ge layout)) happ
  have hpool_nil := podVecAt_of_length_le (Nat.le_trans hlen (offBytePool_ge layout)) hpool
  obtain rfl := Option.some.inj hi
  exact ⟨rfl, rfl, rfl, happrovers, hpool_nil⟩

/-- A vector of addresses can be read from all bytes. -/
theorem podVecAt_addressAt {N off : Nat} : ∃ v, podVecAt layout body N 32 addressAt off = some v := by
  have hmap (g : Nat → Address) (xs : List Nat) : xs.mapM (fun k => some (g k)) = some (xs.map g) :=
    List.mapM_pure
  have hlen := layout.len_le N (bytesAt body off layout.headerLen)
  simp only [podVecAt, addressAt, hmap, List.length_map, List.length_range, hlen, dite_true]
  exact ⟨_, rfl⟩

/-- A body makes an intent when the vectors behind the proposers are empty. -/
theorem fromBody_isSome_of_header
    (h : ∀ off, offApprovers layout ≤ off →
      bytesAt body off layout.headerLen = List.replicate layout.headerLen 0) :
    ∃ intent, fromBody layout body = some intent := by
  have hparams : offApprovers layout ≤ offParams layout := Nat.le_add_right _ _
  have haccounts : offApprovers layout ≤ offAccounts layout := Nat.le_add_right_of_le hparams
  have hinstructions : offApprovers layout ≤ offInstructions layout := Nat.le_add_right_of_le haccounts
  have hsegments : offApprovers layout ≤ offDataSegments layout := Nat.le_add_right_of_le hinstructions
  have hseeds : offApprovers layout ≤ offSeeds layout := Nat.le_add_right_of_le hsegments
  have hpool : offApprovers layout ≤ offBytePool layout := Nat.le_add_right_of_le hseeds
  obtain ⟨proposers, hproposers⟩ := @podVecAt_addressAt layout body 16 offProposers
  simp only [fromBody, hproposers, podVecAt_of_header (h _ (Nat.le_refl _)),
    podVecAt_of_header (h _ hparams), podVecAt_of_header (h _ haccounts),
    podVecAt_of_header (h _ hinstructions), podVecAt_of_header (h _ hsegments),
    podVecAt_of_header (h _ hseeds), podVecAt_of_header (h _ hpool), Option.bind_eq_bind,
    Option.bind_some]
  exact ⟨_, rfl⟩

/-- At most 512 bytes make an intent, whatever they are: of its vectors they reach the proposers only. -/
theorem fromBody_isSome (hlen : body.length ≤ 512) : ∃ intent, fromBody layout body = some intent :=
  fromBody_isSome_of_header fun _ hoff =>
    bytesAt_of_length_le (Nat.le_trans (Nat.le_trans hlen (offApprovers_ge layout)) hoff)

/-- So do they with zeros behind them. -/
theorem fromBody_append_zeros_isSome {n : Nat} (hlen : body.length ≤ 512) :
    ∃ intent, fromBody layout (body ++ List.replicate n 0) = some intent :=
  fromBody_isSome_of_header fun _ hoff =>
    bytesAt_append_zeros (Nat.le_trans (Nat.le_trans hlen (offApprovers_ge layout)) hoff)

theorem sizeOfIntent_ge (layout : PodVecLayout) : 4096 ≤ sizeOfIntent layout := by
  simp only [sizeOfIntent, podVecSize]
  omega

end Intent

namespace Execute

/-! ## The kinds of execution -/

/-- What `execute` has loaded and checked before it runs the proposal. -/
structure Loaded (env : Env) (clock : Int64) (s : Accounts) (walletAddr intentAddr proposalAddr : Address)
    (wallet : ClearWallet) (intent : Intent) (proposal : Proposal) : Prop where
  wallet_eq : s walletAddr = some (.wallet wallet)
  intent_eq : s intentAddr = some (.intent intent)
  has_one : intent.wallet = walletAddr
  proposal_eq : s proposalAddr = some (.proposal proposal)
  wallet_addr : proposal.wallet = walletAddr
  intent_addr : proposal.intent = intentAddr
  approved : proposal.status = .approved
  unlocked : proposal.approvedAt.toInt + intent.timelockSeconds.toNat ≤ clock.toInt

theorem checkedAdd_eq_some {a b c : Int64} :
    checkedAdd a b = some c ↔ c.toInt = a.toInt + b.toInt := by
  have hadd : (a + b).toInt = (a.toInt + b.toInt).bmod (2 ^ 64) := Int64.toInt_add a b
  have hlo := c.le_toInt
  have hhi := c.toInt_lt
  unfold checkedAdd
  split_ifs with h
  · rw [Option.some.injEq, ← Int64.toInt_inj, hadd]
    rw [Int.bmod_eq_of_le (by omega) (by omega)]
    exact eq_comm
  · simp only [false_iff]
    omega

/-- `execute` loads the accounts, runs the kind of the intent and finishes the proposal. -/
theorem of_execute_eq_ok {env : Env} {clock : Int64} {s s' : Accounts} {declared : Declared}
    {intentAddr proposalAddr : Address} {remaining : List AccountView}
    (h : execute env clock s declared intentAddr proposalAddr remaining = .ok s') :
    ∃ (wallet : ClearWallet) (intent : Intent) (proposal : Proposal),
      Loaded env clock s declared.wallet.address intentAddr proposalAddr wallet intent proposal ∧
      ∃ s₁, dispatch env s ⟨declared.wallet.address, intentAddr, proposalAddr, wallet, intent,
          proposal, declared, remaining⟩ = .ok s₁ ∧
        finish s₁ intentAddr proposalAddr = .ok s' := by
  simp only [execute, load, bind_eq_ok, Accounts.orRefuse_eq_ok, Accounts.wallet?_eq_some,
    Accounts.intent?_eq_some, Accounts.proposal?_eq_some, constraint_eq_ok, require_eq_ok, okOr_eq_ok,
    Except.ok.injEq, exists_const] at h
  obtain ⟨ctx, ⟨wallet, hw, -, intent, hi, hone, proposal, hp, ⟨hpw, hpi⟩, hst, -, rfl⟩, unlock, hunlock,
    hclock, s₁, hs₁, hfin⟩ := h
  have htime : (Int64.ofNat intent.timelockSeconds.toNat).toInt = intent.timelockSeconds.toNat := by
    have := intent.timelockSeconds.toNat_lt
    exact Int64.toInt_ofNat_of_lt (by omega)
  have hsum := checkedAdd_eq_some.mp hunlock
  have hle := Int64.le_iff_toInt_le.mp hclock
  refine ⟨wallet, intent, proposal, ⟨hw, hi, hone, hp, hpw, hpi, hst, ?_⟩, s₁, hs₁, hfin⟩
  simp only [htime] at hsum
  omega

/-- An accepted call of `execute` has loaded its accounts. -/
theorem loaded_of_process {env : Env} {s s' : Accounts} {c : Call} {declared : Declared}
    {intentAddr proposalAddr : Address} {remaining : List AccountView} (h : process env s c = .ok s')
    (hc : c.ix = .execute declared intentAddr proposalAddr remaining) :
    ∃ wallet intent proposal,
      Loaded env c.clock s declared.wallet.address intentAddr proposalAddr wallet intent proposal := by
  have hexec : execute env c.clock s declared intentAddr proposalAddr remaining = .ok s' := by
    simpa only [process, hc] using h
  obtain ⟨wallet, intent, proposal, hl, -⟩ := of_execute_eq_ok hexec
  exact ⟨wallet, intent, proposal, hl⟩

theorem finish_eq_ok {s s' : Accounts} {intentAddr proposalAddr : Address} :
    finish s intentAddr proposalAddr = .ok s' ↔
      ∃ (p : Proposal) (i : Intent), s proposalAddr = some (.proposal p) ∧
        s.set proposalAddr (.proposal { p with status := .executed }) intentAddr = some (.intent i) ∧
        s' = (s.set proposalAddr (.proposal { p with status := .executed })).set intentAddr
          (.intent i.releaseProposal) := by
  simp only [finish, bind_eq_ok, Accounts.orRefuse_eq_ok, Accounts.proposal?_eq_some,
    Accounts.intent?_eq_some, Except.ok.injEq, eq_comm (b := s')]
  constructor
  · rintro ⟨p, hp, i, hi, rfl⟩
    exact ⟨p, i, hp, hi, rfl⟩
  · rintro ⟨p, i, hp, hi, rfl⟩
    exact ⟨p, hp, i, hi, rfl⟩

/-- `execute_add_intent` stores what the parameters are the body of at the next intent address. -/
theorem body_of_executeAddIntent {env : Env} {s s' : Accounts} {ctx : Ctx}
    (h : executeAddIntent env s ctx = .ok s') :
    ∃ intent : Intent, Intent.fromBody env.podVec ctx.proposal.paramsData.toList = some intent ∧
      s (env.intentPda ctx.walletAddr (ctx.wallet.intentIndex + 1)) = none ∧
      s' = (s.set (env.intentPda ctx.walletAddr (ctx.wallet.intentIndex + 1)) (.intent intent)).set
        ctx.walletAddr (.wallet { ctx.wallet with intentIndex := ctx.wallet.intentIndex + 1 }) := by
  have hlen := ctx.proposal.paramsData.len_le
  have hsize := Intent.sizeOfIntent_ge env.podVec
  have htake : ctx.proposal.paramsData.toList.take (Intent.sizeOfIntent env.podVec) =
      ctx.proposal.paramsData.toList := List.take_of_length_le (by omega)
  simp only [executeAddIntent, htake, bind_eq_ok, require_eq_ok, index_eq_ok, exists_const] at h
  obtain ⟨-, -, payer, -, newIntent, -, -, haddr, h⟩ := h
  cases hbody : Intent.fromBody env.podVec ctx.proposal.paramsData.toList with
  | none => simp [hbody] at h
  | some intent =>
    simp only [hbody, bind_eq_ok, Accounts.create_eq_ok, Except.ok.injEq] at h
    obtain ⟨s₁, ⟨hfresh, rfl⟩, rfl⟩ := h
    rw [haddr] at hfresh ⊢
    exact ⟨intent, rfl, hfresh, rfl⟩

/-- `execute_add_intent` stores an intent read from the parameters at the next intent address. -/
theorem of_executeAddIntent_eq_ok {env : Env} {s s' : Accounts} {ctx : Ctx}
    (h : executeAddIntent env s ctx = .ok s') :
    ∃ intent : Intent, Intent.FromBytes ctx.proposal.paramsData.toList intent ∧
      s (env.intentPda ctx.walletAddr (ctx.wallet.intentIndex + 1)) = none ∧
      s' = (s.set (env.intentPda ctx.walletAddr (ctx.wallet.intentIndex + 1)) (.intent intent)).set
        ctx.walletAddr (.wallet { ctx.wallet with intentIndex := ctx.wallet.intentIndex + 1 }) := by
  obtain ⟨intent, hbody, hfresh, hs'⟩ := body_of_executeAddIntent h
  exact ⟨intent, Intent.fromBytes_of_fromBody ctx.proposal.paramsData.len_le hbody, hfresh, hs'⟩

/-- `execute_remove_intent` clears the flag of an intent of the wallet without open proposals. -/
theorem of_executeRemoveIntent_eq_ok {env : Env} {s s' : Accounts} {ctx : Ctx}
    (h : executeRemoveIntent env s ctx = .ok s') :
    ∃ (index : UInt8) (target : Intent), ctx.proposal.paramsData.toList = [index] ∧
      s (env.intentPda ctx.walletAddr index) = some (.intent target) ∧
      target.activeProposalCount = 0 ∧
      s' = s.set (env.intentPda ctx.walletAddr index) (.intent { target with approved := 0 }) := by
  simp only [executeRemoveIntent, validateTargetIntentForModification, bind_eq_ok, require_eq_ok,
    index_eq_ok, okOr_eq_ok, Accounts.orRefuse_eq_ok, Accounts.intent?_eq_some, Except.ok.injEq,
    exists_const] at h
  obtain ⟨hlen, index, hindex, view, -, target, ⟨haddr, -, i, hi, hcount, rfl⟩, rfl⟩ := h
  rw [haddr] at hi ⊢
  obtain ⟨k, hk⟩ := List.length_eq_one_iff.mp hlen
  rw [hk] at hindex
  obtain rfl := Option.some.inj hindex
  exact ⟨k, i, hk, hi, hcount, rfl⟩

/-- `execute_update_intent` never succeeds: an intent body is longer than a proposal's parameters. -/
theorem executeUpdateIntent_ne_ok {env : Env} {s s' : Accounts} {ctx : Ctx} :
    executeUpdateIntent env s ctx ≠ .ok s' := by
  intro h
  have hlen := ctx.proposal.paramsData.len_le
  have hsize := Intent.sizeOfIntent_ge env.podVec
  simp only [executeUpdateIntent, bind_eq_ok, require_eq_ok, List.length_drop] at h
  obtain ⟨-, -, -, -, -, -, -, hbody, -⟩ := h
  omega

end Execute

end ClearMsig
