import ClearMsig.Proofs.EffectsProofs
import ClearMsig.Proofs.WalletProofs
import ClearMsig.Sample

/-!
# Configurations of new wallets

`create_wallet` casts the lengths of its lists to a byte before it checks them, and takes the name as it is.
So its checks admit a sound configuration exactly when the name is UTF-8 and the casts lose nothing.
-/

namespace ClearMsig

variable {env : Env} {s s' : Accounts} {nameHash : Address} {args : CreateWalletArgs}

namespace CreateWallet

/-! ## What is stored -/

/-- The indices and types of the three meta-intents. -/
def metaIntents : List (UInt8 × IntentType) := [(0, .addIntent), (1, .removeIntent), (2, .updateIntent)]

/-- A meta-intent that stores all of the configuration. -/
structure StoredIntent (args : CreateWalletArgs) (wallet : Address) (index : UInt8) (t : IntentType)
    (i : Intent) : Prop extends MetaIntent args wallet index t i where
  proposers_eq : i.proposers.toList = args.proposers
  timelockSeconds_eq : i.timelockSeconds = args.timelockSeconds

/-- The wallet of the name hash stores the name and its three meta-intents the configuration. -/
structure Stores (env : Env) (nameHash : Address) (args : CreateWalletArgs) (s : Accounts) : Prop where
  wallet : ∃ w, s.wallet? (env.pda (Env.walletSeeds nameHash)) = some w ∧ w.name = args.name
  intents : ∀ m ∈ metaIntents, ∃ i,
    s.intent? (env.intentPda (env.pda (Env.walletSeeds nameHash)) m.1) = some i ∧
      StoredIntent args (env.pda (Env.walletSeeds nameHash)) m.1 m.2 i

/-- The addresses that `create_wallet` writes. -/
def addresses (env : Env) (nameHash : Address) : List Address :=
  let w := env.pda (Env.walletSeeds nameHash)
  [w, env.intentPda w 0, env.intentPda w 1, env.intentPda w 2]

/-- The arguments are a sound configuration for the address `nameHash`, and it is what is stored: by every
`create_wallet` that succeeds, and by one on unused addresses. -/
structure Configures (env : Env) (nameHash : Address) (args : CreateWalletArgs) : Prop where
  name_utf8 : utf8Valid args.name = true
  name_le : args.name.length ≤ 64
  name_hash : env.sha256 args.name = nameHash
  proposers_le : args.proposers.length ≤ 16
  approvers_le : args.approvers.length ≤ 16
  approval : 1 ≤ args.approvalThreshold.toNat ∧ args.approvalThreshold.toNat ≤ args.approvers.length
  cancellation :
    1 ≤ args.cancellationThreshold.toNat ∧ args.cancellationThreshold.toNat ≤ args.approvers.length
  stores : ∀ s s', create env s nameHash args = .ok s' → Stores env nameHash args s'
  creates : ∀ s : Accounts, (addresses env nameHash).Nodup → (∀ a ∈ addresses env nameHash, s a = none) →
    ∃ s', create env s nameHash args = .ok s'

theorem storedIntent_of_ok {wallet : Address} {index : UInt8} {t : IntentType} {bump : UInt8} {i : Intent}
    (h : metaIntent args wallet index t bump = .ok i) : StoredIntent args wallet index t i := by
  have hmeta := metaIntent_of_ok h
  simp only [metaIntent, bind_eq_ok, PodVec.setFromSlice_eq_ok, Except.ok.injEq] at h
  obtain ⟨proposers, hprop, approvers, -, rfl⟩ := h
  exact { hmeta with proposers_eq := hprop, timelockSeconds_eq := rfl }

/-- Lists that fit are stored. -/
theorem metaIntent_ok (hp : args.proposers.length ≤ 16) (ha : args.approvers.length ≤ 16)
    (wallet : Address) (index : UInt8) (t : IntentType) (bump : UInt8) :
    ∃ i, metaIntent args wallet index t bump = .ok i := by
  simp only [metaIntent, PodVec.setFromSlice, dif_pos hp, dif_pos ha, ok_bind]
  exact ⟨_, rfl⟩

/-- A `create_wallet` that succeeds stores its arguments. -/
theorem stores_of_create (h : create env s nameHash args = .ok s') : Stores env nameHash args s' := by
  simp only [create, bind_eq_ok, Accounts.create_eq_ok] at h
  obtain ⟨⟨⟩, hchecks, i₀, h₀, i₁, h₁, i₂, h₂, s₀, ⟨-, rfl⟩, s₁, ⟨hf₀, rfl⟩, s₂, ⟨hf₁, rfl⟩, hf₂, rfl⟩ := h
  have hlen : args.approvers.length ≤ 16 := (metaIntent_of_ok h₀).approvers_eq ▸ i₀.approvers.len_le
  have hname := (checked_of_ok hchecks hlen).name_le
  obtain ⟨hne₀, -⟩ := Accounts.of_set_eq_none hf₀
  obtain ⟨hne₁, hf₁⟩ := Accounts.of_set_eq_none hf₁
  obtain ⟨hne₁', -⟩ := Accounts.of_set_eq_none hf₁
  obtain ⟨hne₂, hf₂⟩ := Accounts.of_set_eq_none hf₂
  obtain ⟨hne₂', hf₂⟩ := Accounts.of_set_eq_none hf₂
  obtain ⟨hne₂'', -⟩ := Accounts.of_set_eq_none hf₂
  refine ⟨⟨newWallet args (env.pdaBump (Env.walletSeeds nameHash)), ?_, newWallet_name hname⟩, ?_⟩
  · rw [Accounts.wallet?_eq_some, Accounts.set_of_ne hne₂''.symm, Accounts.set_of_ne hne₁'.symm,
      Accounts.set_of_ne hne₀.symm, Accounts.set_apply, if_pos rfl]
  · simp only [metaIntents, List.forall_mem_cons, List.not_mem_nil, false_implies, implies_true, and_true]
    refine ⟨⟨i₀, ?_, storedIntent_of_ok h₀⟩, ⟨i₁, ?_, storedIntent_of_ok h₁⟩, ⟨i₂, ?_, storedIntent_of_ok h₂⟩⟩
    · rw [Accounts.intent?_eq_some, Accounts.set_of_ne hne₂'.symm, Accounts.set_of_ne hne₁.symm,
        Accounts.set_apply, if_pos rfl]
    · rw [Accounts.intent?_eq_some, Accounts.set_of_ne hne₂.symm, Accounts.set_apply, if_pos rfl]
    · rw [Accounts.intent?_eq_some, Accounts.set_apply, if_pos rfl]

/-- On unused addresses `create_wallet` succeeds for lists that fit. -/
theorem create_of_unused (h : checks env nameHash args = .ok ()) (hp : args.proposers.length ≤ 16)
    (ha : args.approvers.length ≤ 16) (hdistinct : (addresses env nameHash).Nodup)
    (hunused : ∀ a ∈ addresses env nameHash, s a = none) :
    ∃ s', create env s nameHash args = .ok s' := by
  simp only [addresses, List.nodup_cons, List.mem_cons, List.not_mem_nil, or_false, not_or] at hdistinct
  obtain ⟨⟨h0, h1, h2⟩, ⟨h01, h02⟩, h12, -⟩ := hdistinct
  simp only [addresses, List.forall_mem_cons] at hunused
  obtain ⟨hw, hf₀, hf₁, hf₂, -⟩ := hunused
  obtain ⟨i₀, hi₀⟩ := metaIntent_ok hp ha (env.pda (Env.walletSeeds nameHash)) 0 .addIntent
    (env.pdaBump (Env.intentSeeds (env.pda (Env.walletSeeds nameHash)) 0))
  obtain ⟨i₁, hi₁⟩ := metaIntent_ok hp ha (env.pda (Env.walletSeeds nameHash)) 1 .removeIntent
    (env.pdaBump (Env.intentSeeds (env.pda (Env.walletSeeds nameHash)) 1))
  obtain ⟨i₂, hi₂⟩ := metaIntent_ok hp ha (env.pda (Env.walletSeeds nameHash)) 2 .updateIntent
    (env.pdaBump (Env.intentSeeds (env.pda (Env.walletSeeds nameHash)) 2))
  simp only [create, bind_eq_ok, Accounts.create_eq_ok]
  refine ⟨_, (), h, i₀, hi₀, i₁, hi₁, i₂, hi₂, _, ⟨hw, rfl⟩, _, ⟨?_, rfl⟩, _, ⟨?_, rfl⟩, ?_, rfl⟩
  · rw [Accounts.set_of_ne (Ne.symm h0), hf₀]
  · rw [Accounts.set_of_ne (Ne.symm h01), Accounts.set_of_ne (Ne.symm h1), hf₁]
  · rw [Accounts.set_of_ne (Ne.symm h12), Accounts.set_of_ne (Ne.symm h02), Accounts.set_of_ne (Ne.symm h2),
      hf₂]

/-! ## What the checks admit -/

/-- The check of a length after its cast to a byte. -/
theorem length_le_of_cast {n : Nat} (hn : n < 256) (h : (UInt8.ofNat n).toNat ≤ 16) : n ≤ 16 := by
  rwa [UInt8.toNat_ofNat_of_lt' hn] at h

/-- Arguments that pass the checks are a sound configuration, which is stored, exactly when the name is
UTF-8 and no list has 256 elements or more. -/
theorem configures_iff (h : checks env nameHash args = .ok ()) :
    Configures env nameHash args ↔
      utf8Valid args.name = true ∧ args.proposers.length < 256 ∧ args.approvers.length < 256 := by
  constructor
  · intro hc
    exact ⟨hc.name_utf8, Nat.lt_of_le_of_lt hc.proposers_le (by decide),
      Nat.lt_of_le_of_lt hc.approvers_le (by decide)⟩
  · rintro ⟨hutf, hp, ha⟩
    have hcasts := h
    simp only [checks, bind_eq_ok, require_eq_ok, exists_const] at hcasts
    obtain ⟨-, hpcast, hacast, -⟩ := hcasts
    have hp16 := length_le_of_cast hp hpcast
    have ha16 := length_le_of_cast ha hacast
    have hchecked := checked_of_ok h ha16
    exact
      { name_utf8 := hutf
        name_le := hchecked.name_le
        name_hash := hchecked.name_eq.symm
        proposers_le := hp16
        approvers_le := ha16
        approval := ⟨hchecked.approval_pos, hchecked.approval_le⟩
        cancellation := ⟨hchecked.cancellation_pos, hchecked.cancellation_le⟩
        stores := fun _ _ => stores_of_create
        creates := fun _ => create_of_unused h hp16 ha16 }

namespace ConfigurationSample

open Sample

def sound : CreateWalletArgs := ⟨ascii "a", 1, 1, 0, [key 1], [key 2]⟩

/-- A name that is no UTF-8. -/
def named : CreateWalletArgs := { sound with name := [255] }

/-- More proposers than a byte can count. -/
def crowded : CreateWalletArgs := { sound with proposers := List.replicate 256 (key 1) }

def hash (args : CreateWalletArgs) : Address := (Sample.env []).sha256 args.name

/-- The name of the wallet that is created. -/
def storedName (args : CreateWalletArgs) : Option Bytes :=
  match create (Sample.env []) Accounts.none (hash args) args with
  | .ok s => (s.wallet? ((Sample.env []).pda (Env.walletSeeds (hash args)))).map (·.name)
  | .error _ => none

end ConfigurationSample

open ConfigurationSample Sample in
theorem configures_iff_sample : Configures (Sample.env []) (hash sound) sound :=
  (configures_iff (by decide +kernel)).mpr ⟨by decide +kernel, by decide, by decide⟩

open ConfigurationSample Sample in
/-- A wallet whose name is no UTF-8 is created, and 256 proposers pass the checks. -/
theorem unsound_admitted :
    (checks (Sample.env []) (hash named) named = .ok () ∧ storedName named = some [255] ∧
      utf8Valid [255] = false ∧ ¬ Configures (Sample.env []) (hash named) named) ∧
    (checks (Sample.env []) (hash crowded) crowded = .ok () ∧ crowded.proposers.length = 256 ∧
      ¬ Configures (Sample.env []) (hash crowded) crowded) := by
  refine ⟨⟨by decide +kernel, by decide +kernel, by decide, fun h => ?_⟩, by decide +kernel,
    List.length_replicate, fun h => ?_⟩
  · exact absurd h.name_utf8 (by decide)
  · exact absurd h.proposers_le (by decide +kernel)

end CreateWallet

end ClearMsig
