import ClearMsig.Proofs.DeterminismProofs
import ClearMsig.Resolution
import ClearMsig.Sample
import ClearMsig.State.Proofs.ParamsProofs

/-!
# Resolving the account slots

One loop fills the slots and another one checks them. Both succeed exactly when the remaining accounts supply
the slots without a declared account and every slot holds the address its source asks for.
-/

namespace ClearMsig

open Supply (Supplies)

variable {env : Env} {intent : Intent} {data : Bytes} {declared : Declared} {vaultAddress a : Address}
  {remaining rest views acc : List AccountView} {entry : AccountEntry} {entries : List AccountEntry}

namespace Execute

/-! ## Pool ranges and addresses -/

theorem poolRange_eq_ok {offset len : UInt16} {bytes : Bytes} :
    poolRange intent offset len = .ok bytes ↔ PoolBytes intent offset len bytes := by
  rw [poolRange, okOr_eq_ok, getSlice_eq_some_iff_rangeOf, PoolBytes]

theorem ofBytes_val {n : Nat} {bytes : Bytes} (h : bytes.length = n) : (ByteArr.ofBytes n bytes).val = bytes :=
  List.take_left' h

/-- The first 32 bytes, when there are as many. -/
theorem addressOf_eq_ok {bytes : Bytes} : addressOf bytes = .ok a ↔ a.val <+: bytes := by
  simp only [addressOf, bind_eq_ok, require_eq_ok, exists_const, Except.ok.injEq]
  constructor
  · rintro ⟨hlen, rfl⟩
    have htake : (bytes.take 32).length = 32 := List.length_take_of_le hlen
    rw [ofBytes_val htake]
    exact List.take_prefix ..
  · intro h
    have hlen : 32 ≤ bytes.length := a.property ▸ h.length_le
    have htake : (bytes.take 32).length = 32 := List.length_take_of_le hlen
    refine ⟨hlen, Subtype.ext ?_⟩
    rw [ofBytes_val htake, List.prefix_iff_eq_take.mp h, a.property]

theorem staticAddress_iff :
    StaticAddress intent entry a ↔
      (do addressOf (← poolRange intent entry.poolOffset entry.poolLen)) = .ok a := by
  simp only [bind_eq_ok, poolRange_eq_ok, addressOf_eq_ok, StaticAddress]

/-- Pool data that starts with an index. -/
theorem getElem?_zero_eq_some {bytes : Bytes} {idx : UInt8} :
    bytes[0]? = some idx ↔ ∃ rest, bytes = idx :: rest := by
  rw [← List.head?_eq_getElem?, List.head?_eq_some_iff]

/-! ## Filling the slots -/

/-- A static entry names an address at all. -/
def Readable (intent : Intent) (entry : AccountEntry) : Prop :=
  entry.sourceType = .static → ∃ a, StaticAddress intent entry a

/-- A slot with a declared account of its own leaves the remaining ones alone. -/
theorem fillSlot_of_own {view : AccountView} (h : Own intent declared entry view) :
    fillSlot intent declared entry remaining = .ok (view, remaining) := by
  rcases h with ⟨hsource, rfl⟩ | ⟨hsource, a, ha, hfind⟩
  · simp only [fillSlot, hsource]
  · obtain ⟨bytes, hpool, haddr⟩ := bind_eq_ok.mp (staticAddress_iff.mp ha)
    simp only [Declared.views] at hfind
    simp only [fillSlot, hsource, hpool, haddr, hfind, ok_bind]

/-- Every other slot takes the next one. -/
theorem fillSlot_of_next {view : AccountView} (h : ∀ v, ¬ Own intent declared entry v)
    (hreadable : Readable intent entry) :
    fillSlot intent declared entry remaining = .ok (view, rest) ↔ remaining = view :: rest := by
  cases hsource : entry.sourceType with
  | vault => exact absurd (.inl ⟨hsource, rfl⟩) (h declared.vault)
  | static =>
    obtain ⟨a, ha⟩ := hreadable hsource
    obtain ⟨bytes, hpool, haddr⟩ := bind_eq_ok.mp (staticAddress_iff.mp ha)
    have hfind : declared.views.find? (fun d => decide (d.address = a)) = none := by
      by_contra hsome
      obtain ⟨v, hv⟩ := Option.ne_none_iff_exists'.mp hsome
      exact h v (.inr ⟨hsource, a, ha, hv⟩)
    simp only [Declared.views] at hfind
    simp only [fillSlot, hsource, hpool, haddr, hfind, ok_bind]
    cases remaining <;> simp
  | param | pdaDerived | hasOne =>
    simp only [fillSlot, hsource]
    cases remaining <;> simp

/-- The pool bytes of a static entry are read before its slot is filled. -/
theorem readable_of_fillSlot {r : AccountView × List AccountView}
    (h : fillSlot intent declared entry remaining = .ok r) : Readable intent entry := by
  intro hsource
  simp only [fillSlot, hsource, bind_eq_ok] at h
  obtain ⟨bytes, hpool, a, ha, -⟩ := h
  exact ⟨a, staticAddress_iff.mpr (bind_eq_ok.mpr ⟨bytes, hpool, ha⟩)⟩

/-- A slot is filled with a declared account, or else with the next of the remaining ones. -/
theorem fillSlot_eq_ok {view : AccountView} :
    fillSlot intent declared entry remaining = .ok (view, rest) ↔
      (Own intent declared entry view ∧ rest = remaining ∨
        (∀ v, ¬ Own intent declared entry v) ∧ remaining = view :: rest) ∧ Readable intent entry := by
  constructor
  · intro h
    have hreadable := readable_of_fillSlot h
    refine ⟨?_, hreadable⟩
    by_cases hown : ∃ v, Own intent declared entry v
    · obtain ⟨v, hv⟩ := hown
      rw [fillSlot_of_own hv] at h
      obtain ⟨rfl, rfl⟩ := Prod.mk.inj (Except.ok.inj h)
      exact .inl ⟨hv, rfl⟩
    · rw [not_exists] at hown
      exact .inr ⟨hown, (fillSlot_of_next hown hreadable).mp h⟩
  · rintro ⟨⟨hown, rfl⟩ | ⟨hnone, hnext⟩, hreadable⟩
    · exact fillSlot_of_own hown
    · exact (fillSlot_of_next hnone hreadable).mpr hnext

/-- The loop fills the slots from the supply. -/
theorem fillSlots_eq_ok (hlen : acc.length + entries.length ≤ 32) :
    fillSlots intent declared entries remaining acc = .ok views ↔
      ∃ items rest, views = acc ++ items ∧ Supplies (Own intent declared) entries remaining items rest ∧
        ∀ entry ∈ entries, Readable intent entry := by
  induction entries generalizing remaining acc with
  | nil =>
    simp only [fillSlots, Except.ok.injEq, List.not_mem_nil, false_implies, implies_true, and_true]
    constructor
    · rintro rfl
      exact ⟨[], remaining, (List.append_nil _).symm, .nil _⟩
    · rintro ⟨items, rest, rfl, hitems⟩
      cases hitems
      exact (List.append_nil _).symm
  | cons entry entries ih =>
    rw [List.length_cons] at hlen
    have hroom : acc.length < 32 := by omega
    have hacc (view : AccountView) : (acc ++ [view]).length + entries.length ≤ 32 := by
      rw [List.length_append, List.length_singleton]
      omega
    simp only [fillSlots, bind_eq_ok, require_eq_ok, hroom, exists_const, true_and, List.forall_mem_cons]
    constructor
    · rintro ⟨⟨view, rest⟩, hfill, h⟩
      obtain ⟨items, left, rfl, hitems, hreadable⟩ := (ih (hacc view)).mp h
      obtain ⟨hview, hentry⟩ := fillSlot_eq_ok.mp hfill
      refine ⟨view :: items, left, by simp, ?_, hentry, hreadable⟩
      rcases hview with ⟨hown, rfl⟩ | ⟨hnone, rfl⟩
      · exact .own hown hitems
      · exact .next hnone hitems
    · rintro ⟨items, left, rfl, hitems, hentry, hreadable⟩
      cases hitems with
      | @own _ view _ _ items _ hown hitems =>
        refine ⟨(view, remaining), fillSlot_eq_ok.mpr ⟨.inl ⟨hown, rfl⟩, hentry⟩, ?_⟩
        exact (ih (hacc view)).mpr ⟨items, left, by simp, hitems, hreadable⟩
      | @next _ view _ supply items _ hnone hitems =>
        refine ⟨(view, supply), fillSlot_eq_ok.mpr ⟨.inr ⟨hnone, rfl⟩, hentry⟩, ?_⟩
        exact (ih (hacc view)).mpr ⟨items, left, by simp, hitems, hreadable⟩

/-! ## Checking the slots -/

/-- The bytes of a seed are read as its type says. -/
theorem seedBytes_eq_ok {seed : SeedEntry} {bytes : Bytes} :
    seedBytes intent data views seed = .ok bytes ↔ SeedResolves intent data views seed bytes := by
  constructor
  · intro h
    simp only [seedBytes, bind_eq_ok, poolRange_eq_ok] at h
    obtain ⟨pool, hpool, h⟩ := h
    cases htype : seed.seedType with
    | literal =>
      simp only [htype, bind_eq_ok, require_eq_ok, exists_const, Except.ok.injEq] at h
      obtain ⟨hlen, rfl⟩ := h
      exact .literal htype hpool hlen
    | paramRef =>
      simp only [htype, bind_eq_ok, require_eq_ok, okOr_eq_ok, exists_const, Except.ok.injEq] at h
      obtain ⟨idx, hidx, raw, hraw, hlen, rfl⟩ := h
      obtain ⟨rest, rfl⟩ := getElem?_zero_eq_some.mp hidx
      exact .paramRef htype hpool hraw hlen
    | accountRef =>
      simp only [htype, bind_eq_ok, require_eq_ok, okOr_eq_ok, exists_const, Except.ok.injEq,
        readSlot_eq_ok] at h
      obtain ⟨idx, hidx, -, view, hview, rfl⟩ := h
      obtain ⟨rest, rfl⟩ := getElem?_zero_eq_some.mp hidx
      exact .accountRef htype hpool hview
  · intro h
    cases h with
    | literal htype hpool hlen =>
      simp only [seedBytes, htype, poolRange_eq_ok.mpr hpool, require, hlen, if_true, ok_bind]
    | paramRef htype hpool hraw hlen =>
      simp only [seedBytes, htype, poolRange_eq_ok.mpr hpool, List.getElem?_cons_zero, okOr, hraw, require,
        hlen, if_true, ok_bind]
    | accountRef htype hpool hview =>
      have hlt := (List.getElem?_eq_some_iff.mp hview).1
      simp only [seedBytes, htype, poolRange_eq_ok.mpr hpool, List.getElem?_cons_zero, okOr,
        readSlot_eq_ok.mpr hview, require, hlt, if_true, ok_bind]

/-- Pool data that is long enough for a has-one. -/
theorem exists_cons_three {bytes : Bytes} (h : 3 ≤ bytes.length) :
    ∃ idx o₀ o₁ rest, bytes = idx :: o₀ :: o₁ :: rest := by
  obtain _ | ⟨idx, _ | ⟨o₀, _ | ⟨o₁, rest⟩⟩⟩ := bytes
  · simp at h
  · simp at h
  · simp at h
  · exact ⟨idx, o₀, o₁, rest, rfl⟩

/-- Pool data that is long enough for a PDA. -/
theorem exists_cons_five {bytes : Bytes} (h : 5 ≤ bytes.length) :
    ∃ prog s₀ s₁ c₀ c₁ rest, bytes = prog :: s₀ :: s₁ :: c₀ :: c₁ :: rest := by
  obtain ⟨prog, s₀, s₁, bytes, rfl⟩ := exists_cons_three (by omega : 3 ≤ bytes.length)
  obtain _ | ⟨c₀, _ | ⟨c₁, rest⟩⟩ := bytes
  · simp at h
  · simp at h
  · exact ⟨prog, s₀, s₁, c₀, c₁, rest, rfl⟩

/-- The seeds of a derivation are read one by one. -/
theorem seeds_eq_ok {start count : Nat} {seeds : List Bytes} :
    ((List.range count).mapM fun k => do
        let seed ← okOr intent.seeds.toList[start + k]? .invalidInstructionData
        seedBytes intent data views seed) = .ok seeds ↔
      List.Forall₂ (fun k bytes => ∃ seed, intent.seeds.toList[start + k]? = some seed ∧
        SeedResolves intent data views seed bytes) (List.range count) seeds := by
  simp only [mapM_eq_ok, bind_eq_ok, okOr_eq_ok, seedBytes_eq_ok]

/-- A PDA passes its check when it is derived from the seeds. -/
theorem validatePdaAccount_eq_ok {bytes : Bytes} :
    validatePdaAccount env intent data views a bytes = .ok () ↔
      ∃ prog s₀ s₁ c₀ c₁ rest program seeds, bytes = prog :: s₀ :: s₁ :: c₀ :: c₁ :: rest ∧
        views[prog.toNat]? = some program ∧ leNat [c₀, c₁] ≤ 16 ∧
        List.Forall₂ (fun k bytes => ∃ seed, intent.seeds.toList[leNat [s₀, s₁] + k]? = some seed ∧
          SeedResolves intent data views seed bytes) (List.range (leNat [c₀, c₁])) seeds ∧
        a = (env.findProgramAddress seeds program.address).1 := by
  simp only [validatePdaAccount, bind_eq_ok, require_eq_ok, exists_const, readSlot_eq_ok, seeds_eq_ok]
  constructor
  · rintro ⟨hlen, -, program, hprogram, hcount, seeds, hseeds, haddr⟩
    obtain ⟨prog, s₀, s₁, c₀, c₁, rest, rfl⟩ := exists_cons_five hlen
    exact ⟨prog, s₀, s₁, c₀, c₁, rest, program, seeds, rfl, hprogram, hcount, hseeds, haddr⟩
  · rintro ⟨prog, s₀, s₁, c₀, c₁, rest, program, seeds, rfl, hprogram, hcount, hseeds, haddr⟩
    have hlt := (List.getElem?_eq_some_iff.mp hprogram).1
    exact ⟨by simp, hlt, program, hprogram, hcount, seeds, hseeds, haddr⟩

/-- The slot of an entry passes its check when it holds the address that the source asks for. -/
theorem validateSlot_eq_ok {i : Nat} {view : AccountView} (hview : views[i]? = some view) :
    validateSlot env intent data vaultAddress views i entry = .ok () ↔
      Resolves env intent data vaultAddress views entry view.address := by
  rw [validateSlot, readSlot_eq_ok.mpr hview, ok_bind]
  constructor
  · intro h
    cases hsource : entry.sourceType with
    | static =>
      simp only [hsource, bind_eq_ok, require_eq_ok, poolRange_eq_ok, addressOf_eq_ok] at h
      obtain ⟨bytes, hpool, a, ha, rfl⟩ := h
      exact .static hsource ⟨bytes, hpool, ha⟩
    | param =>
      simp only [hsource, bind_eq_ok, require_eq_ok, poolRange_eq_ok, addressOf_eq_ok, okOr_eq_ok] at h
      obtain ⟨bytes, hpool, idx, hidx, raw, hraw, a, ha, rfl⟩ := h
      obtain ⟨rest, rfl⟩ := getElem?_zero_eq_some.mp hidx
      exact .param hsource hpool hraw ha
    | pdaDerived =>
      simp only [hsource, bind_eq_ok, poolRange_eq_ok, validatePdaAccount_eq_ok] at h
      obtain ⟨bytes, hpool, prog, s₀, s₁, c₀, c₁, rest, program, seeds, rfl, hprogram, hcount, hseeds,
        haddr⟩ := h
      rw [haddr]
      exact .pdaDerived hsource hpool hprogram hcount hseeds
    | hasOne =>
      simp only [hsource, bind_eq_ok, require_eq_ok, exists_const, poolRange_eq_ok, readSlot_eq_ok] at h
      obtain ⟨bytes, hpool, hlen, -, refView, href, -, h⟩ := h
      obtain ⟨idx, o₀, o₁, rest, rfl⟩ := exists_cons_three hlen
      split at h
      next addrBytes hslice =>
        simp only [ok_bind, bind_eq_ok, require_eq_ok, addressOf_eq_ok] at h
        obtain ⟨a, ha, rfl⟩ := h
        have hdata := (getSlice_eq_some_iff_isPrefix.mp hslice).2.2
        exact .hasOne hsource hpool href (ha.trans hdata)
      next => cases h
    | vault =>
      simp only [hsource, require_eq_ok] at h
      rw [h]
      exact .vault hsource
  · intro h
    generalize view.address = a at h ⊢
    cases h with
    | static hsource ha =>
      obtain ⟨bytes, hpool, ha⟩ := ha
      simp only [hsource, bind_eq_ok, require_eq_ok, poolRange_eq_ok, addressOf_eq_ok]
      exact ⟨bytes, hpool, a, ha, rfl⟩
    | param hsource hpool hraw ha =>
      simp only [hsource, bind_eq_ok, require_eq_ok, poolRange_eq_ok, addressOf_eq_ok, okOr_eq_ok]
      exact ⟨_, hpool, _, rfl, _, hraw, a, ha, rfl⟩
    | pdaDerived hsource hpool hprogram hcount hseeds =>
      simp only [hsource, bind_eq_ok, poolRange_eq_ok, validatePdaAccount_eq_ok]
      exact ⟨_, hpool, _, _, _, _, _, _, _, _, rfl, hprogram, hcount, hseeds, rfl⟩
    | @hasOne _ idx o₀ o₁ rest refView hsource hpool href ha =>
      have hlt := (List.getElem?_eq_some_iff.mp href).1
      have hlen := ha.length_le
      rw [a.property, List.length_drop] at hlen
      have hslice : getSlice refView.data (leNat [o₀, o₁]) (leNat [o₀, o₁] + 32) = some a.val :=
        getSlice_eq_some_iff_isPrefix.mpr ⟨by omega, a.property, ha⟩
      simp only [hsource, bind_eq_ok, require_eq_ok, exists_const, poolRange_eq_ok, readSlot_eq_ok]
      have hoffset : u16LeAt (idx :: o₀ :: o₁ :: rest) 1 = leNat [o₀, o₁] := rfl
      refine ⟨_, hpool, by simp, hlt, refView, href, by omega, ?_⟩
      rw [hoffset, hslice]
      simp only [ok_bind, bind_eq_ok, require_eq_ok, addressOf_eq_ok]
      exact ⟨a, List.prefix_rfl, rfl⟩
    | vault hsource => simp only [hsource, require_eq_ok]

/-- All slots pass when each of them holds the address that its source asks for. -/
theorem validateRemainingAccounts_eq_ok (hlen : views.length = intent.accounts.toList.length) :
    validateRemainingAccounts env intent data vaultAddress views = .ok () ↔
      List.Forall₂ (fun entry view => Resolves env intent data vaultAddress views entry view.address)
        intent.accounts.toList views := by
  simp only [validateRemainingAccounts, bind_eq_ok, require_eq_ok, hlen, exists_const, true_and, forM_eq_ok,
    List.forall₂_iff_get, List.get_eq_getElem]
  constructor
  · intro h i hi _
    have hslot := h (intent.accounts.toList[i], i)
      (List.mem_zipIdx_iff_getElem?.mpr (List.getElem?_eq_getElem hi))
    have hview : views[i]? = some views[i] := List.getElem?_eq_getElem (hlen ▸ hi)
    exact (validateSlot_eq_ok hview).mp hslot
  · rintro h ⟨entry, i⟩ hmem
    have hentry : intent.accounts.toList[i]? = some entry := List.mem_zipIdx_iff_getElem?.mp hmem
    obtain ⟨hi, rfl⟩ := List.getElem?_eq_some_iff.mp hentry
    have hview : views[i]? = some views[i] := List.getElem?_eq_getElem (hlen ▸ hi)
    exact (validateSlot_eq_ok hview).mpr (h i hi hi)

/-! ## Both loops -/

/-- A static entry whose slot holds the right address names one. -/
theorem readable_of_resolves (h : Resolves env intent data vaultAddress views entry a) :
    Readable intent entry := by
  intro hsource
  cases h with
  | static _ ha => exact ⟨_, ha⟩
  | param h' | pdaDerived h' | hasOne h' | vault h' => rw [hsource] at h'; cases h'

/-- The slots that reach the loop over the instructions are those that are supplied and resolved. -/
theorem resolveAccounts_eq_ok :
    resolveAccounts env intent data declared remaining = .ok views ↔
      Resolution env intent data declared remaining views := by
  have hlen : ([] : List AccountView).length + intent.accounts.toList.length ≤ 32 := by
    rw [List.length_nil, Nat.zero_add]
    exact intent.accounts.len_le
  have hfill : fillSlots intent declared intent.accounts.toList remaining [] = .ok views ↔ _ :=
    fillSlots_eq_ok hlen
  simp only [resolveAccounts, bind_eq_ok, Except.ok.injEq]
  constructor
  · rintro ⟨_, hviews, ⟨⟩, hvalid, rfl⟩
    obtain ⟨items, rest, rfl, hitems, -⟩ := hfill.mp hviews
    exact ⟨⟨rest, hitems⟩, (validateRemainingAccounts_eq_ok hitems.length_eq).mp hvalid⟩
  · rintro ⟨⟨rest, hitems⟩, hresolved⟩
    refine ⟨views, hfill.mpr ⟨views, rest, rfl, hitems, fun entry hmem => ?_⟩,
      (), (validateRemainingAccounts_eq_ok hitems.length_eq).mpr hresolved, rfl⟩
    obtain ⟨view, -, hview⟩ := Fields.exists_of_mem hresolved hmem
    exact readable_of_resolves hview

/-- Accounts behind those that are used do not matter. -/
theorem Resolution.append (h : Resolution env intent data declared remaining views)
    (extra : List AccountView) : Resolution env intent data declared (remaining ++ extra) views := by
  obtain ⟨rest, hsupplied⟩ := h.supplied
  exact ⟨⟨_, hsupplied.append extra⟩, h.resolved⟩

theorem executeCustom_eq :
    executeCustom env intent data declared remaining =
      resolveAccounts env intent data declared remaining >>= executeCpiLoop intent data := by
  simp only [executeCustom, resolveAccounts, bind_assoc, ok_bind]

/-- `execute_custom` reaches the loop over the instructions with the slots that are supplied and resolved, and
no others. Further accounts change nothing. -/
theorem executeCustom_resolution (env : Env) (intent : Intent) (data : Bytes) (declared : Declared)
    (remaining : List AccountView) :
    executeCustom env intent data declared remaining =
        resolveAccounts env intent data declared remaining >>= executeCpiLoop intent data ∧
      (∀ views, resolveAccounts env intent data declared remaining = .ok views ↔
        Resolution env intent data declared remaining views) ∧
      ∀ views extra, Resolution env intent data declared remaining views →
        executeCustom env intent data declared (remaining ++ extra) =
          executeCustom env intent data declared remaining := by
  refine ⟨executeCustom_eq, fun views => resolveAccounts_eq_ok, fun views extra h => ?_⟩
  rw [executeCustom_eq, executeCustom_eq, resolveAccounts_eq_ok.mpr h,
    resolveAccounts_eq_ok.mpr (h.append extra)]

namespace ResolutionSample

open Sample

/-- An intent with a slot for the vault and one for key 5. -/
def slots : Intent :=
  { templated [] "" with
    accounts := vec [⟨false, true, .vault, 0, 0⟩, ⟨false, false, .static, 0, 32⟩]
    bytePool := vec (key 5).val }

def declaredFor (name : String) : Declared :=
  ⟨view (findPda (Env.vaultSeeds (wallet name)) (key 0)).1, view (key 0), view (wallet name)⟩

theorem slots_resolved : resolveAccounts (Sample.env []) slots [] (declaredFor "a") [view (key 5)] =
    .ok [(declaredFor "a").vault, view (key 5)] := by
  decide +kernel

end ResolutionSample

open ResolutionSample Sample in
/-- Key 5 is supplied, and a further account makes no difference. -/
theorem executeCustom_resolution_sample :
    Resolution (Sample.env []) slots [] (declaredFor "a") [view (key 5)]
        [(declaredFor "a").vault, view (key 5)] ∧
      executeCustom (Sample.env []) slots [] (declaredFor "a") ([view (key 5)] ++ [view (key 6)]) =
        executeCustom (Sample.env []) slots [] (declaredFor "a") [view (key 5)] := by
  obtain ⟨-, hiff, hextra⟩ :=
    executeCustom_resolution (Sample.env []) slots [] (declaredFor "a") [view (key 5)]
  have hresolution := (hiff _).mp slots_resolved
  exact ⟨hresolution, hextra _ _ hresolution⟩

end Execute

end ClearMsig
