import ClearMsig.Instructions.Custom
import ClearMsig.Memory

/-!
# Executing a custom intent on its arrays

The functions of `Instructions/Custom.lean` once more, with the fixed arrays of `instructions/execute.rs`:
the uninitialised `account_views` and its count, the seed buffers, the uninitialised CPI arrays and the
buffer of the instruction data. Every access to one of them, and the raw read of account data, can fault.
-/

namespace ClearMsig

open Slots (Fault)

namespace Execute

namespace Memory

/-! ## Filling the slots -/

/-- The variables of the loop that fills `account_views`. -/
structure Filling where
  accountViews : Slots AccountView 32
  accountCount : Nat
  remainingIdx : Nat

namespace Filling

def start : Filling := ⟨.uninit, 0, 0⟩

/-- `account_views[account_count].write(view)`, and `account_count += 1` at the end of the round. -/
def write (st : Filling) (view : AccountView) : MemResult Filling := do
  let accountViews ← access (st.accountViews.write st.accountCount view)
  .ok { st with accountViews := accountViews, accountCount := st.accountCount + 1 }

/-- The next of the remaining accounts is consumed. -/
def writeNext (st : Filling) (remaining : List AccountView) : MemResult Filling := do
  checked (require (st.remainingIdx < remaining.length) .notEnoughAccountKeys)
  let view ← checked (index remaining st.remainingIdx)
  let st ← st.write view
  .ok { st with remainingIdx := st.remainingIdx + 1 }

end Filling

/-- One round of the loop over the account entries. -/
def fillSlot (intent : Intent) (declared : Declared) (remaining : List AccountView) (st : Filling)
    (acctDef : AccountEntry) : MemResult Filling := do
  checked (require (st.accountCount < 32) .invalidArgument)
  match acctDef.sourceType with
  | .vault => st.write declared.vault
  | .static => do
    let addrBytes ← checked (poolRange intent acctDef.poolOffset acctDef.poolLen)
    let addr ← checked (addressOf addrBytes)
    match [declared.vault, declared.systemProgram, declared.wallet].find?
        (fun d => decide (d.address = addr)) with
    | some dv => st.write dv
    | none => st.writeNext remaining
  | _ => st.writeNext remaining

/-! ## Checking the slots -/

/-- `seed_bufs` and `seed_lens`. -/
structure SeedBuffers where
  bufs : Slots (Slots UInt8 32) 16
  lens : Slots Nat 16

namespace SeedBuffers

/-- `[[0u8; 32]; 16]` and `[0usize; 16]`. -/
def zero : SeedBuffers := ⟨.filled (.filled 0), .filled 0⟩

/-- `seed_bufs[s][..bytes.len()].copy_from_slice(bytes)` and `seed_lens[s] = bytes.len()`. -/
def store (b : SeedBuffers) (s : Nat) (bytes : Bytes) : MemResult SeedBuffers := do
  let buf ← access (b.bufs.read s)
  let buf ← access (buf.writeRange 0 bytes)
  let bufs ← access (b.bufs.write s buf)
  let lens ← access (b.lens.write s bytes.length)
  .ok ⟨bufs, lens⟩

/-- `seed_refs[s] = &seed_bufs[s][..seed_lens[s]]`. -/
def ref (b : SeedBuffers) (seedRefs : Slots Bytes 16) (s : Nat) : Except Fault (Slots Bytes 16) := do
  let buf ← b.bufs.read s
  let len ← b.lens.read s
  let bytes ← buf.readRange 0 len
  seedRefs.write s bytes

end SeedBuffers

/-- One round of the loop over the seeds. -/
def loadSeed (intent : Intent) (paramsData : Bytes) (accountViews : Slots AccountView 32)
    (accountCount seedsStart : Nat) (b : SeedBuffers) (s : Nat) : MemResult SeedBuffers := do
  let seed ← checked (okOr intent.seeds.toList[seedsStart + s]? .invalidInstructionData)
  let sePool ← checked (poolRange intent seed.poolOffset seed.poolLen)
  match seed.seedType with
  | .literal => do
    checked (require (sePool.length ≤ 32) .invalidInstructionData)
    b.store s sePool
  | .paramRef => do
    let paramIndex ← checked (okOr sePool[0]? .invalidInstructionData)
    let val ← checked (intent.readParamBytes paramsData paramIndex)
    checked (require (val.length ≤ 32) .invalidInstructionData)
    b.store s val
  | .accountRef => do
    let acctIdx ← checked (okOr sePool[0]? .invalidInstructionData)
    checked (require (acctIdx.toNat < accountCount) .notEnoughAccountKeys)
    let view ← access (accountViews.read acctIdx.toNat)
    b.store s view.address.val

/-- `validate_pda_account`. -/
def validatePdaAccount (env : Env) (intent : Intent) (paramsData : Bytes)
    (accountViews : Slots AccountView 32) (accountCount : Nat) (currentAddr : Address)
    (poolData : Bytes) : MemResult Unit := do
  checked (require (5 ≤ poolData.length) .invalidInstructionData)
  let progAcctIdx := (poolData.getD 0 0).toNat
  let seedsStart := u16LeAt poolData 1
  let seedsCount := u16LeAt poolData 3
  checked (require (progAcctIdx < accountCount) .notEnoughAccountKeys)
  let program ← access (accountViews.read progAcctIdx)
  checked (require (seedsCount ≤ 16) .invalidInstructionData)
  let b ← (List.range seedsCount).foldlM
    (loadSeed intent paramsData accountViews accountCount seedsStart) SeedBuffers.zero
  let seedRefs ← access ((List.range seedsCount).foldlM b.ref (.filled []))
  let seeds ← access (seedRefs.readRange 0 seedsCount)
  let expected := (env.findProgramAddress seeds program.address).1
  checked (require (currentAddr = expected) .invalidArgument)

/-- One round of `validate_remaining_accounts`. -/
def validateSlot (env : Env) (intent : Intent) (paramsData : Bytes) (vaultAddress : Address)
    (accountViews : Slots AccountView 32) (accountCount i : Nat) (acctDef : AccountEntry) :
    MemResult Unit := do
  let current ← access (accountViews.read i)
  match acctDef.sourceType with
  | .static => do
    let poolData ← checked (poolRange intent acctDef.poolOffset acctDef.poolLen)
    let expected ← checked (addressOf poolData)
    checked (require (current.address = expected) .invalidArgument)
  | .param => do
    let poolData ← checked (poolRange intent acctDef.poolOffset acctDef.poolLen)
    let paramIndex ← checked (okOr poolData[0]? .invalidInstructionData)
    let addrBytes ← checked (intent.readParamBytes paramsData paramIndex)
    let expected ← checked (addressOf addrBytes)
    checked (require (current.address = expected) .invalidArgument)
  | .pdaDerived => do
    let poolData ← checked (poolRange intent acctDef.poolOffset acctDef.poolLen)
    validatePdaAccount env intent paramsData accountViews accountCount current.address poolData
  | .hasOne => do
    let poolData ← checked (poolRange intent acctDef.poolOffset acctDef.poolLen)
    checked (require (3 ≤ poolData.length) .invalidInstructionData)
    let acctIdx := (poolData.getD 0 0).toNat
    let byteOffset := u16LeAt poolData 1
    checked (require (acctIdx < accountCount) .notEnoughAccountKeys)
    let refView ← access (accountViews.read acctIdx)
    checked (require (byteOffset + 32 ≤ refView.data.length) .invalidInstructionData)
    let addrBytes ← access (rawBytes refView.data byteOffset 32)
    let expected ← checked (addressOf addrBytes)
    checked (require (current.address = expected) .invalidArgument)
  | .vault => checked (require (current.address = vaultAddress) .invalidArgument)

/-- `validate_remaining_accounts`. -/
def validateRemainingAccounts (env : Env) (intent : Intent) (paramsData : Bytes)
    (vaultAddress : Address) (accountViews : Slots AccountView 32) (accountCount : Nat) :
    MemResult Unit := do
  checked (require (accountCount = intent.accounts.toList.length) .invalidArgument)
  intent.accounts.toList.zipIdx.forM fun (acctDef, i) =>
    validateSlot env intent paramsData vaultAddress accountViews accountCount i acctDef

/-! ## Issuing the invocations -/

/-- `cpi_ix_accounts` and `cpi_accts`. -/
structure CpiArrays where
  ixAccounts : Slots (Address × Bool × Bool) 32
  accts : Slots AccountView 32

def CpiArrays.uninit : CpiArrays := ⟨.uninit, .uninit⟩

/-- One round of the loop over the account indexes: the index byte and its position. -/
def pushAccount (intent : Intent) (accountViews : Slots AccountView 32) (accountCount : Nat)
    (arrays : CpiArrays) (entry : UInt8 × Nat) : MemResult CpiArrays := do
  let (idx, i) := entry
  checked (require (idx.toNat < accountCount) .notEnoughAccountKeys)
  let view ← access (accountViews.read idx.toNat)
  let acctDef ← checked (index intent.accounts.toList idx.toNat)
  let ixAccounts ← access (arrays.ixAccounts.write i (view.address, acctDef.isWritable, acctDef.isSigner))
  let accts ← access (arrays.accts.write i view)
  .ok ⟨ixAccounts, accts⟩

/-- `ix_data` and `ix_len`. -/
structure IxBuffer where
  ixData : Slots UInt8 1024
  ixLen : Nat

namespace IxBuffer

def zero : IxBuffer := ⟨.filled 0, 0⟩

/-- `ix_data[ix_len..ix_len + bytes.len()].copy_from_slice(bytes)` and `ix_len += bytes.len()`. -/
def append (b : IxBuffer) (bytes : Bytes) : MemResult IxBuffer := do
  let ixData ← access (b.ixData.writeRange b.ixLen bytes)
  .ok ⟨ixData, b.ixLen + bytes.length⟩

end IxBuffer

/-- One round of the loop over the data segments. -/
def pushSegment (intent : Intent) (paramsData : Bytes) (b : IxBuffer) (seg : DataSegmentEntry) :
    MemResult IxBuffer := do
  let segPool ←
    checked (slice intent.bytePool.toList seg.poolOffset.toNat (seg.poolOffset + seg.poolLen).toNat)
  match seg.segmentType with
  | .literal => do
    checked (require (b.ixLen + segPool.length ≤ 1024) .invalidInstructionData)
    b.append segPool
  | .param => do
    checked (require (2 ≤ segPool.length) .invalidInstructionData)
    let paramIdx ← checked (index segPool 0)
    let enc ← checked (index segPool 1)
    let encoding ← checked (okOr (DataEncoding.fromU8 enc) .invalidInstructionData)
    let val ← checked (intent.readParamBytes paramsData paramIdx)
    let size := encoding.byteSize
    checked (require (size ≤ val.length) .invalidInstructionData)
    checked (require (b.ixLen + size ≤ 1024) .invalidInstructionData)
    b.append (val.take size)

/-- What is handed to `invoke_signed_unchecked`: the instruction, and an account for each of its metas. -/
structure Invocation where
  cpi : Cpi
  accts : List AccountView

/-- One round of the loop over the instruction entries. Both raw slices start at the first element of their
array. -/
def buildCpi (intent : Intent) (paramsData : Bytes) (accountViews : Slots AccountView 32)
    (accountCount : Nat) (ixEntry : InstructionEntry) : MemResult Invocation := do
  let progIdx := ixEntry.programAccountIndex.toNat
  checked (require (progIdx < accountCount) .notEnoughAccountKeys)
  let program ← access (accountViews.read progIdx)
  let off := ixEntry.accountIndexesOffset.toNat
  let acctIndexes ← checked (slice intent.bytePool.toList off (off + ixEntry.accountIndexesLen.toNat))
  checked (require (acctIndexes.length ≤ 16) .invalidInstructionData)
  let arrays ← acctIndexes.zipIdx.foldlM (pushAccount intent accountViews accountCount) CpiArrays.uninit
  let segStart := ixEntry.segmentsStart.toNat
  let segs ← checked (slice intent.dataSegments.toList segStart (segStart + ixEntry.segmentsCount.toNat))
  let b ← segs.foldlM (pushSegment intent paramsData) IxBuffer.zero
  let accounts ← access (arrays.ixAccounts.readRange 0 acctIndexes.length)
  let data ← access (b.ixData.readRange 0 b.ixLen)
  let accts ← access (arrays.accts.readRange 0 acctIndexes.length)
  .ok ⟨⟨program.address, accounts, data⟩, accts⟩

/-- `execute_cpi_loop`. -/
def executeCpiLoop (intent : Intent) (paramsData : Bytes) (accountViews : Slots AccountView 32)
    (accountCount : Nat) : MemResult (List Invocation) :=
  intent.instructions.toList.mapM (buildCpi intent paramsData accountViews accountCount)

/-- `execute_custom`. -/
def executeCustom (env : Env) (intent : Intent) (paramsData : Bytes) (declared : Declared)
    (remaining : List AccountView) : MemResult (List Invocation) := do
  let st ← intent.accounts.toList.foldlM (fillSlot intent declared remaining) Filling.start
  validateRemainingAccounts env intent paramsData declared.vault.address st.accountViews st.accountCount
  executeCpiLoop intent paramsData st.accountViews st.accountCount

end Memory

end Execute

end ClearMsig
