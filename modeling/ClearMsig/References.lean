import ClearMsig.Foundation.Acyclic
import ClearMsig.Instructions.Custom

/-!
# The references between account slots

The address that a slot must have, as far as the definition, the parameters and the slots it refers to
decide it.
-/

namespace ClearMsig

/-- The account data that each view shows is the data at its address. -/
def Backed (accountData : Address → Bytes) (views : List AccountView) : Prop :=
  ∀ view ∈ views, view.data = accountData view.address

namespace Execute

/-- The accounts of the `Execute` struct in the order they are compared with a static address. -/
def Declared.views (declared : Declared) : List AccountView :=
  [declared.vault, declared.systemProgram, declared.wallet]

/-- The address in slot `i`. -/
def addressAt (accountViews : List AccountView) (i : Nat) : Option Address :=
  accountViews[i]?.map AccountView.address

/-- The slot that a PDA seed names: the one of an `AccountRef`. -/
def seedRef (intent : Intent) (seed : SeedEntry) : Option Nat :=
  match seed.seedType, poolRange intent seed.poolOffset seed.poolLen with
  | .accountRef, .ok sePool => sePool[0]?.map UInt8.toNat
  | _, _ => none

/-- The slots that an entry with the given pool data names: the program and the seed accounts of a PDA,
the data account of a has-one. -/
def poolRefs (intent : Intent) (sourceType : AccountSourceType) (poolData : Bytes) : List Nat :=
  match sourceType with
  | .pdaDerived =>
    (poolData.getD 0 0).toNat :: (List.range (u16LeAt poolData 3)).filterMap fun s =>
      intent.seeds.toList[u16LeAt poolData 1 + s]?.bind (seedRef intent)
  | .hasOne => [(poolData.getD 0 0).toNat]
  | _ => []

/-- The slots that slot `i` refers to. -/
def slotRefs (intent : Intent) (i : Nat) : List Nat :=
  match intent.accounts.toList[i]? with
  | none => []
  | some acctDef =>
    match poolRange intent acctDef.poolOffset acctDef.poolLen with
    | .ok poolData => poolRefs intent acctDef.sourceType poolData
    | .error _ => []

/-- Slot `i` refers to slot `j`. -/
def Refs (intent : Intent) (i j : Nat) : Prop := j ∈ slotRefs intent i

/-- The address that `validate_remaining_accounts` compares the slot of an entry with. -/
def expectedAddress (env : Env) (intent : Intent) (paramsData : Bytes) (vaultAddress : Address)
    (accountViews : List AccountView) (acctDef : AccountEntry) : Result Address :=
  match acctDef.sourceType with
  | .vault => .ok vaultAddress
  | .static => do addressOf (← poolRange intent acctDef.poolOffset acctDef.poolLen)
  | .param => do
    let poolData ← poolRange intent acctDef.poolOffset acctDef.poolLen
    let paramIndex ← okOr poolData[0]? .invalidInstructionData
    addressOf (← intent.readParamBytes paramsData paramIndex)
  | .pdaDerived => do
    let poolData ← poolRange intent acctDef.poolOffset acctDef.poolLen
    let program ← readSlot accountViews (poolData.getD 0 0).toNat
    let seeds ← (List.range (u16LeAt poolData 3)).mapM fun s => do
      let seed ← okOr intent.seeds.toList[u16LeAt poolData 1 + s]? .invalidInstructionData
      seedBytes intent paramsData accountViews seed
    .ok (env.findProgramAddress seeds program.address).1
  | .hasOne => do
    let poolData ← poolRange intent acctDef.poolOffset acctDef.poolLen
    let refView ← readSlot accountViews (poolData.getD 0 0).toNat
    let byteOffset := u16LeAt poolData 1
    addressOf (← okOr (getSlice refView.data byteOffset (byteOffset + 32)) .invalidInstructionData)

end Execute

end ClearMsig
