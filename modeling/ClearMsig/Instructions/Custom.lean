import ClearMsig.Instructions.Context

/-!
# Executing a custom intent

`execute_custom`, `validate_remaining_accounts`, `validate_pda_account` and `execute_cpi_loop` of
`instructions/execute.rs`. The uninitialised `account_views` array is the list of the slots written
so far; reading any other slot is undefined.
-/

namespace ClearMsig

namespace Execute

/-- The accounts of the `Execute` struct that an entry may name. -/
structure Declared where
  vault : AccountView
  systemProgram : AccountView
  wallet : AccountView

/-- `account_views[i].assume_init_ref()`. -/
def readSlot (accountViews : List AccountView) (i : Nat) : Result AccountView :=
  match accountViews[i]? with
  | some view => .ok view
  | none => if i < 32 then .error .undefined else .error .panic

/-- `pool.get(po..po + pl)` for an entry's pool range. -/
def poolRange (intent : Intent) (poolOffset poolLen : UInt16) : Result Bytes :=
  okOr (getSlice intent.bytePool.toList poolOffset.toNat (poolOffset.toNat + poolLen.toNat))
    .invalidInstructionData

/-- `Address::new_from_array(bytes[..32])`, after the length check. -/
def addressOf (bytes : Bytes) : Result Address := do
  require (32 ≤ bytes.length) .invalidInstructionData
  .ok (ByteArr.ofBytes 32 (bytes.take 32))

/-! ## Filling the slots -/

/-- The view for one account entry, with what is left of the remaining accounts. -/
def fillSlot (intent : Intent) (declared : Declared) (acctDef : AccountEntry)
    (remaining : List AccountView) : Result (AccountView × List AccountView) :=
  let next : Result (AccountView × List AccountView) :=
    match remaining with
    | view :: rest => .ok (view, rest)
    | [] => err .notEnoughAccountKeys
  match acctDef.sourceType with
  | .vault => .ok (declared.vault, remaining)
  | .static => do
    let addrBytes ← poolRange intent acctDef.poolOffset acctDef.poolLen
    let addr ← addressOf addrBytes
    match [declared.vault, declared.systemProgram, declared.wallet].find?
        (fun d => decide (d.address = addr)) with
    | some dv => .ok (dv, remaining)
    | none => next
  | _ => next

/-- The loop that fills `account_views`. -/
def fillSlots (intent : Intent) (declared : Declared) :
    List AccountEntry → List AccountView → List AccountView → Result (List AccountView)
  | [], _, accountViews => .ok accountViews
  | acctDef :: entries, remaining, accountViews => do
    require (accountViews.length < 32) .invalidArgument
    let (view, remaining) ← fillSlot intent declared acctDef remaining
    fillSlots intent declared entries remaining (accountViews ++ [view])

/-! ## Checking the slots -/

/-- A little-endian `u16` at offset `i` of pool data that is long enough. -/
def u16LeAt (poolData : Bytes) (i : Nat) : Nat := leNat [poolData.getD i 0, poolData.getD (i + 1) 0]

/-- The bytes of one PDA seed; a write beyond its 32-byte buffer cannot happen after the checks. -/
def seedBytes (intent : Intent) (paramsData : Bytes) (accountViews : List AccountView)
    (seed : SeedEntry) : Result Bytes := do
  let sePool ← poolRange intent seed.poolOffset seed.poolLen
  match seed.seedType with
  | .literal => do
    require (sePool.length ≤ 32) .invalidInstructionData
    .ok sePool
  | .paramRef => do
    let paramIndex ← okOr sePool[0]? .invalidInstructionData
    let val ← intent.readParamBytes paramsData paramIndex
    require (val.length ≤ 32) .invalidInstructionData
    .ok val
  | .accountRef => do
    let acctIdx ← okOr sePool[0]? .invalidInstructionData
    require (acctIdx.toNat < accountViews.length) .notEnoughAccountKeys
    let view ← readSlot accountViews acctIdx.toNat
    .ok view.address.val

/-- `validate_pda_account`. -/
def validatePdaAccount (env : Env) (intent : Intent) (paramsData : Bytes)
    (accountViews : List AccountView) (currentAddr : Address) (poolData : Bytes) : Result Unit := do
  require (5 ≤ poolData.length) .invalidInstructionData
  let progAcctIdx := (poolData.getD 0 0).toNat
  let seedsStart := u16LeAt poolData 1
  let seedsCount := u16LeAt poolData 3
  require (progAcctIdx < accountViews.length) .notEnoughAccountKeys
  let program ← readSlot accountViews progAcctIdx
  require (seedsCount ≤ 16) .invalidInstructionData
  let seeds ← (List.range seedsCount).mapM fun s => do
    let seed ← okOr intent.seeds.toList[seedsStart + s]? .invalidInstructionData
    seedBytes intent paramsData accountViews seed
  let expected := (env.findProgramAddress seeds program.address).1
  require (currentAddr = expected) .invalidArgument

/-- The check of one account slot against its entry. -/
def validateSlot (env : Env) (intent : Intent) (paramsData : Bytes) (vaultAddress : Address)
    (accountViews : List AccountView) (i : Nat) (acctDef : AccountEntry) : Result Unit := do
  let current ← readSlot accountViews i
  match acctDef.sourceType with
  | .static => do
    let poolData ← poolRange intent acctDef.poolOffset acctDef.poolLen
    let expected ← addressOf poolData
    require (current.address = expected) .invalidArgument
  | .param => do
    let poolData ← poolRange intent acctDef.poolOffset acctDef.poolLen
    let paramIndex ← okOr poolData[0]? .invalidInstructionData
    let addrBytes ← intent.readParamBytes paramsData paramIndex
    let expected ← addressOf addrBytes
    require (current.address = expected) .invalidArgument
  | .pdaDerived => do
    let poolData ← poolRange intent acctDef.poolOffset acctDef.poolLen
    validatePdaAccount env intent paramsData accountViews current.address poolData
  | .hasOne => do
    let poolData ← poolRange intent acctDef.poolOffset acctDef.poolLen
    require (3 ≤ poolData.length) .invalidInstructionData
    let acctIdx := (poolData.getD 0 0).toNat
    let byteOffset := u16LeAt poolData 1
    require (acctIdx < accountViews.length) .notEnoughAccountKeys
    let refView ← readSlot accountViews acctIdx
    require (byteOffset + 32 ≤ refView.data.length) .invalidInstructionData
    -- `from_raw_parts` over the account data: out of range it would be undefined
    let addrBytes ← match getSlice refView.data byteOffset (byteOffset + 32) with
      | some b => .ok b
      | none => .error .undefined
    let expected ← addressOf addrBytes
    require (current.address = expected) .invalidArgument
  | .vault => require (current.address = vaultAddress) .invalidArgument

/-- `validate_remaining_accounts`. -/
def validateRemainingAccounts (env : Env) (intent : Intent) (paramsData : Bytes)
    (vaultAddress : Address) (accountViews : List AccountView) : Result Unit := do
  require (accountViews.length = intent.accounts.toList.length) .invalidArgument
  intent.accounts.toList.zipIdx.forM fun (acctDef, i) =>
    validateSlot env intent paramsData vaultAddress accountViews i acctDef

/-! ## Issuing the invocations -/

/-- One account index byte of an instruction: the account meta it stands for. -/
def cpiAccount (intent : Intent) (accountViews : List AccountView) (idx : UInt8) :
    Result (Address × Bool × Bool) := do
  require (idx.toNat < accountViews.length) .notEnoughAccountKeys
  let view ← readSlot accountViews idx.toNat
  let acctDef ← index intent.accounts.toList idx.toNat
  .ok (view.address, acctDef.isWritable, acctDef.isSigner)

/-- One data segment: `ix_data[..ix_len]` before and after. The pool range ends at
`pool_offset + pool_len` added in `u16`. -/
def pushSegment (intent : Intent) (paramsData : Bytes) (ixData : Bytes) (seg : DataSegmentEntry) :
    Result Bytes := do
  let segPool ← slice intent.bytePool.toList seg.poolOffset.toNat (seg.poolOffset + seg.poolLen).toNat
  match seg.segmentType with
  | .literal => do
    require (ixData.length + segPool.length ≤ 1024) .invalidInstructionData
    .ok (ixData ++ segPool)
  | .param => do
    require (2 ≤ segPool.length) .invalidInstructionData
    let paramIdx ← index segPool 0
    let encoding ← okOr (DataEncoding.fromU8 (← index segPool 1)) .invalidInstructionData
    let val ← intent.readParamBytes paramsData paramIdx
    let size := encoding.byteSize
    require (size ≤ val.length) .invalidInstructionData
    require (ixData.length + size ≤ 1024) .invalidInstructionData
    .ok (ixData ++ val.take size)

/-- One round of the loop over the instruction entries: the invocation it issues. -/
def buildCpi (intent : Intent) (paramsData : Bytes) (accountViews : List AccountView)
    (ixEntry : InstructionEntry) : Result Cpi := do
  let progIdx := ixEntry.programAccountIndex.toNat
  require (progIdx < accountViews.length) .notEnoughAccountKeys
  let program ← readSlot accountViews progIdx
  let off := ixEntry.accountIndexesOffset.toNat
  let acctIndexes ← slice intent.bytePool.toList off (off + ixEntry.accountIndexesLen.toNat)
  require (acctIndexes.length ≤ 16) .invalidInstructionData
  let accounts ← acctIndexes.mapM (cpiAccount intent accountViews)
  let segStart := ixEntry.segmentsStart.toNat
  let segs ← slice intent.dataSegments.toList segStart (segStart + ixEntry.segmentsCount.toNat)
  let ixData ← segs.foldlM (pushSegment intent paramsData) []
  .ok { programId := program.address, accounts := accounts, data := ixData }

/-- `execute_cpi_loop`: the invocations in the order they are issued. -/
def executeCpiLoop (intent : Intent) (paramsData : Bytes) (accountViews : List AccountView) :
    Result (List Cpi) :=
  intent.instructions.toList.mapM (buildCpi intent paramsData accountViews)

/-- `execute_custom`. -/
def executeCustom (env : Env) (intent : Intent) (paramsData : Bytes) (declared : Declared)
    (remaining : List AccountView) : Result (List Cpi) := do
  let accountViews ← fillSlots intent declared intent.accounts.toList remaining []
  validateRemainingAccounts env intent paramsData declared.vault.address accountViews
  executeCpiLoop intent paramsData accountViews

end Execute

end ClearMsig
