import ClearMsig.Foundation.Fields
import ClearMsig.Foundation.Supply
import ClearMsig.References

/-!
# What the account slots must hold

Each kind of source has a rule for the address in its slot. The executor supplies an account for every slot
that is not filled by a declared one.
-/

namespace ClearMsig

open Supply (Supplies)

namespace Execute

variable (env : Env) (intent : Intent) (data : Bytes) (declared : Declared)

/-- The bytes of a pool range. -/
def PoolBytes (offset len : UInt16) (bytes : Bytes) : Prop :=
  Fields.RangeOf intent.bytePool.toList offset.toNat len.toNat bytes

/-- A static entry names the address that its pool bytes start with. -/
def StaticAddress (entry : AccountEntry) (a : Address) : Prop :=
  ∃ bytes, PoolBytes intent entry.poolOffset entry.poolLen bytes ∧ a.val <+: bytes

/-- The declared account that fills the slot of an entry: the vault of a vault entry, and the account that
a static entry names. -/
def Own (entry : AccountEntry) (view : AccountView) : Prop :=
  entry.sourceType = .vault ∧ view = declared.vault ∨
    entry.sourceType = .static ∧ ∃ a, StaticAddress intent entry a ∧
      declared.views.find? (fun d => decide (d.address = a)) = some view

/-- The bytes of a PDA seed: a literal, a parameter or the address in a slot. -/
inductive SeedResolves (views : List AccountView) (seed : SeedEntry) : Bytes → Prop where
  | literal {bytes : Bytes} (htype : seed.seedType = .literal)
      (hpool : PoolBytes intent seed.poolOffset seed.poolLen bytes) (hlen : bytes.length ≤ 32) :
      SeedResolves views seed bytes
  | paramRef {idx : UInt8} {rest raw : Bytes} (htype : seed.seedType = .paramRef)
      (hpool : PoolBytes intent seed.poolOffset seed.poolLen (idx :: rest))
      (hraw : intent.readParamBytes data idx = .ok raw) (hlen : raw.length ≤ 32) : SeedResolves views seed raw
  | accountRef {idx : UInt8} {rest : Bytes} {view : AccountView} (htype : seed.seedType = .accountRef)
      (hpool : PoolBytes intent seed.poolOffset seed.poolLen (idx :: rest))
      (hview : views[idx.toNat]? = some view) : SeedResolves views seed view.address.val

/-- The address that the source of an entry asks for. -/
inductive Resolves (vaultAddress : Address) (views : List AccountView) (entry : AccountEntry) :
    Address → Prop where
  | static {a : Address} (hsource : entry.sourceType = .static) (ha : StaticAddress intent entry a) :
      Resolves vaultAddress views entry a
  | param {a : Address} {idx : UInt8} {rest raw : Bytes} (hsource : entry.sourceType = .param)
      (hpool : PoolBytes intent entry.poolOffset entry.poolLen (idx :: rest))
      (hraw : intent.readParamBytes data idx = .ok raw) (ha : a.val <+: raw) :
      Resolves vaultAddress views entry a
  | pdaDerived {prog s₀ s₁ c₀ c₁ : UInt8} {rest : Bytes} {program : AccountView} {seeds : List Bytes}
      (hsource : entry.sourceType = .pdaDerived)
      (hpool : PoolBytes intent entry.poolOffset entry.poolLen (prog :: s₀ :: s₁ :: c₀ :: c₁ :: rest))
      (hprogram : views[prog.toNat]? = some program) (hcount : leNat [c₀, c₁] ≤ 16)
      (hseeds : List.Forall₂ (fun k bytes => ∃ seed, intent.seeds.toList[leNat [s₀, s₁] + k]? = some seed ∧
        SeedResolves intent data views seed bytes) (List.range (leNat [c₀, c₁])) seeds) :
      Resolves vaultAddress views entry (env.findProgramAddress seeds program.address).1
  | hasOne {a : Address} {idx o₀ o₁ : UInt8} {rest : Bytes} {refView : AccountView}
      (hsource : entry.sourceType = .hasOne)
      (hpool : PoolBytes intent entry.poolOffset entry.poolLen (idx :: o₀ :: o₁ :: rest))
      (hview : views[idx.toNat]? = some refView) (ha : a.val <+: refView.data.drop (leNat [o₀, o₁])) :
      Resolves vaultAddress views entry a
  | vault (hsource : entry.sourceType = .vault) : Resolves vaultAddress views entry vaultAddress

/-- The remaining accounts supply the slots that no declared account fills, and every slot holds the address
its source asks for. -/
structure Resolution (remaining views : List AccountView) : Prop where
  supplied : ∃ rest, Supplies (Own intent declared) intent.accounts.toList remaining views rest
  resolved : List.Forall₂
    (fun entry view => Resolves env intent data declared.vault.address views entry view.address)
    intent.accounts.toList views

/-- `execute_custom` up to the loop over the instructions: the slots that are handed to it. -/
def resolveAccounts (remaining : List AccountView) : Result (List AccountView) := do
  let accountViews ← fillSlots intent declared intent.accounts.toList remaining []
  validateRemainingAccounts env intent data declared.vault.address accountViews
  .ok accountViews

end Execute

end ClearMsig
