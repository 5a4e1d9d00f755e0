import ClearMsig.Instructions.CustomMemory

/-!
# No access of a custom execution goes wrong

Every slot of `account_views` below the count has been written, and every index is compared with the count.
The lengths that are checked keep the writes inside the buffers. The execution on arrays therefore does what
the one on lists does, and neither runs into undefined behaviour.
-/

namespace ClearMsig

open Slots (Fault)
open Simulation (Sim)

/-! ## Readers of pool and parameters -/

theorem defined_paramByteSize (t : ParamType) (data : Bytes) (offset : Nat) :
    Defined (paramByteSize t data offset) := by
  cases t with
  | string => exact (defined_okOr _ _).bind fun _ _ => defined_ok _
  | _ => exact defined_ok _

theorem defined_skipParams (data : Bytes) (params : List ParamEntry) (n offset : Nat) :
    Defined (Intent.skipParams data params n offset) := by
  induction n generalizing params offset with
  | zero =>
    rw [Intent.skipParams]
    exact defined_ok _
  | succ n ih =>
    cases params with
    | nil => exact defined_err _
    | cons param params => exact (defined_paramByteSize _ _ _).bind fun _ _ => ih _ _

theorem defined_readParamBytes (intent : Intent) (data : Bytes) (idx : UInt8) :
    Defined (intent.readParamBytes data idx) :=
  (defined_skipParams _ _ _ _).bind fun _ _ => (defined_okOr _ _).bind fun _ _ =>
    (defined_paramByteSize _ _ _).bind fun _ _ => defined_okOr _ _

namespace Execute

theorem defined_poolRange (intent : Intent) (poolOffset poolLen : UInt16) :
    Defined (poolRange intent poolOffset poolLen) :=
  defined_okOr _ _

theorem defined_addressOf (bytes : Bytes) : Defined (addressOf bytes) :=
  (defined_require _ _).bind fun _ _ => defined_ok _

namespace Memory

variable {env : Env} {intent : Intent} {data : Bytes} {declared : Declared}
  {remaining rest views : List AccountView} {slots : Slots AccountView 32}

/-- A slot below the count is read on both sides. -/
theorem readSlot_bind {α β : Type} {R : α → β → Prop} {i : Nat} {f : AccountView → MemResult α}
    {g : AccountView → Result β} (hv : slots.HoldsAt 0 views) (hi : i < views.length)
    (h : ∀ view, Refines R (f view) (g view)) :
    Refines R (access (slots.read i) >>= f) (readSlot views i >>= g) := by
  have hview : views[i]? = some views[i] := List.getElem?_eq_getElem hi
  have hslot : readSlot views i = .ok views[i] := by rw [readSlot, hview]
  rw [Simulation.bind_of_ok hslot]
  exact Refines.access_bind (hv.read hview) (h _)

/-! ## Filling the slots -/

/-- The slots that the loop has filled, and the accounts that it has not consumed yet. -/
structure Filled (remaining : List AccountView) (st : Filling) (rest views : List AccountView) : Prop where
  slots : st.accountViews.HoldsAt 0 views
  count : st.accountCount = views.length
  rest : remaining.drop st.remainingIdx = rest

/-- A view is written behind the others. -/
theorem Filled.write {st : Filling} (h : Filled remaining st rest views) (hroom : views.length < 32)
    (view : AccountView) :
    ∃ st', st.write view = .ok st' ∧ Filled remaining st' rest (views ++ [view]) ∧
      st'.remainingIdx = st.remainingIdx := by
  obtain ⟨slots', hwrite, hslots⟩ := h.slots.write_append hroom view
  refine ⟨⟨slots', st.accountCount + 1, st.remainingIdx⟩, ?_, ⟨hslots, ?_, h.rest⟩, rfl⟩
  · rw [Filling.write, h.count, hwrite]
    rfl
  · rw [List.length_append, h.count]
    rfl

/-- The next account is consumed on both sides. -/
theorem writeNext_refines {st : Filling} (h : Filled remaining st rest views) (hroom : views.length < 32) :
    Refines (fun st' p => Filled remaining st' p.2 (views ++ [p.1])) (st.writeNext remaining)
      (match rest with
        | view :: rest => .ok (view, rest)
        | [] => err .notEnoughAccountKeys) := by
  have hrest := h.rest
  cases rest with
  | nil =>
    have hge := List.drop_eq_nil_iff.mp hrest
    rw [Filling.writeNext, require, if_neg (by omega)]
    refine .error ⟨rfl, fun he => ?_⟩
    cases he
  | cons view rest =>
    have hview : remaining[st.remainingIdx]? = some view := by
      have hhead := congrArg List.head? hrest
      rwa [List.head?_drop] at hhead
    have hlt := (List.getElem?_eq_some_iff.mp hview).1
    obtain ⟨st', hwrite, hst', hidx⟩ := h.write hroom view
    rw [Filling.writeNext, require, if_pos hlt, index, hview]
    show Sim _ _ (st.write view >>= fun st => .ok { st with remainingIdx := st.remainingIdx + 1 }) _
    rw [hwrite]
    refine .ok ⟨hst'.slots, hst'.count, ?_⟩
    show remaining.drop (st'.remainingIdx + 1) = rest
    rw [hidx, ← List.tail_drop, hrest, List.tail_cons]

theorem fillSlot_refines {st : Filling} (h : Filled remaining st rest views) (acctDef : AccountEntry) :
    Refines (fun st' p => Filled remaining st' p.2 (views ++ [p.1]))
      (fillSlot intent declared remaining st acctDef)
      (do
        require (views.length < 32) .invalidArgument
        Execute.fillSlot intent declared acctDef rest) := by
  unfold fillSlot Execute.fillSlot
  rw [h.count]
  refine Refines.require_bind fun hroom => ?_
  have hnext := writeNext_refines h hroom
  have hown (view : AccountView) : Refines (fun st' p => Filled remaining st' p.2 (views ++ [p.1]))
      (st.write view) (.ok (view, rest)) := by
    obtain ⟨st', hwrite, hst', -⟩ := h.write hroom view
    rw [hwrite]
    exact .ok hst'
  cases acctDef.sourceType with
  | vault => exact hown declared.vault
  | static =>
    refine Refines.checked_bind (defined_poolRange _ _ _) fun addrBytes _ => ?_
    refine Refines.checked_bind (defined_addressOf _) fun addr _ => ?_
    cases [declared.vault, declared.systemProgram, declared.wallet].find?
        (fun d => decide (d.address = addr)) with
    | some dv => exact hown dv
    | none => exact hnext
  | param => exact hnext
  | pdaDerived => exact hnext
  | hasOne => exact hnext

/-- The loop over the entries. -/
theorem fillSlots_refines {st : Filling} {entries : List AccountEntry}
    (h : Filled remaining st rest views) :
    Refines (fun st' views' => ∃ rest', Filled remaining st' rest' views')
      (entries.foldlM (fillSlot intent declared remaining) st)
      (fillSlots intent declared entries rest views) := by
  induction entries generalizing st rest views with
  | nil => exact .ok ⟨rest, h⟩
  | cons acctDef entries ih =>
    have hround : Refines _ (fillSlot intent declared remaining st acctDef) _ := fillSlot_refines h acctDef
    have hrounds := hround.bind fun st' p hst' => ih hst'
    rw [bind_assoc] at hrounds
    rw [List.foldlM_cons, fillSlots]
    exact hrounds

/-! ## Seeds -/

/-- The seeds that the buffers hold. The buffers behind them are still as they were made. -/
structure Stored (b : SeedBuffers) (seeds : List Bytes) : Prop where
  bufs : ∀ s seed, seeds[s]? = some seed → ∃ buf, b.bufs.read s = .ok buf ∧ buf.HoldsAt 0 seed
  lens : b.lens.HoldsAt 0 (seeds.map List.length)
  fresh : ∀ s, seeds.length ≤ s → s < 16 → b.bufs.read s = .ok (.filled 0)

theorem stored_zero : Stored SeedBuffers.zero [] where
  bufs := by simp
  lens := Slots.holdsAt_nil _ _
  fresh := fun _ _ hs => Slots.read_filled _ hs

/-- A seed of at most 32 bytes is stored behind the others. -/
theorem Stored.store {b : SeedBuffers} {seeds : List Bytes} (h : Stored b seeds) (hroom : seeds.length < 16)
    {bytes : Bytes} (hlen : bytes.length ≤ 32) :
    ∃ b', b.store seeds.length bytes = .ok b' ∧ Stored b' (seeds ++ [bytes]) := by
  obtain ⟨buf, hbuf, hholds, -⟩ :=
    (Slots.filled 0 : Slots UInt8 32).writeRange_of_le (show 0 + bytes.length ≤ 32 by omega)
  obtain ⟨bufs, hbufs, hread, hframe⟩ := b.bufs.write_of_lt hroom buf
  have hlens := h.lens.write_append (by rwa [List.length_map]) bytes.length
  rw [List.length_map] at hlens
  obtain ⟨lens, hlens, hlensHold⟩ := hlens
  refine ⟨⟨bufs, lens⟩, ?_, ⟨fun s seed hs => ?_, ?_, fun s hs hs16 => ?_⟩⟩
  · rw [SeedBuffers.store, access_bind_of_ok (h.fresh _ (Nat.le_refl _) hroom), access_bind_of_ok hbuf,
      access_bind_of_ok hbufs, access_bind_of_ok hlens]
  · rcases Nat.lt_or_ge s seeds.length with hlt | hge
    · rw [List.getElem?_append_left hlt] at hs
      obtain ⟨buf', hbuf', hholds'⟩ := h.bufs s seed hs
      exact ⟨buf', by rw [hframe s (by omega), hbuf'], hholds'⟩
    · rw [List.getElem?_append_right hge, List.getElem?_singleton] at hs
      split_ifs at hs with hlast
      obtain rfl := Option.some.inj hs
      obtain rfl : s = seeds.length := by omega
      exact ⟨buf, hread, hholds⟩
  · rw [List.map_append]
    exact hlensHold
  · rw [List.length_append, List.length_singleton] at hs
    rw [hframe s (by omega), h.fresh s (by omega) hs16]

/-- One seed. -/
theorem loadSeed_refines {b : SeedBuffers} {seeds : List Bytes} {seedsStart : Nat}
    (hv : slots.HoldsAt 0 views) (h : Stored b seeds) (hroom : seeds.length < 16) :
    Refines (fun b' bytes => Stored b' (seeds ++ [bytes]))
      (loadSeed intent data slots views.length seedsStart b seeds.length)
      (do
        let seed ← okOr intent.seeds.toList[seedsStart + seeds.length]? .invalidInstructionData
        seedBytes intent data views seed) := by
  unfold loadSeed seedBytes
  refine Refines.checked_bind (defined_okOr _ _) fun seed _ => ?_
  refine Refines.checked_bind (defined_poolRange _ _ _) fun sePool _ => ?_
  have hstore {bytes : Bytes} (hlen : bytes.length ≤ 32) :
      Refines (fun b' bytes => Stored b' (seeds ++ [bytes])) (b.store seeds.length bytes) (.ok bytes) := by
    obtain ⟨b', hb', hstored⟩ := h.store hroom hlen
    rw [hb']
    exact .ok hstored
  cases seed.seedType with
  | literal => exact Refines.require_bind fun hlen => hstore hlen
  | paramRef =>
    refine Refines.checked_bind (defined_okOr _ _) fun paramIndex _ => ?_
    refine Refines.checked_bind (defined_readParamBytes _ _ _) fun val _ => ?_
    exact Refines.require_bind fun hlen => hstore hlen
  | accountRef =>
    refine Refines.checked_bind (defined_okOr _ _) fun acctIdx _ => ?_
    refine Refines.require_bind fun hidx => ?_
    exact readSlot_bind hv hidx fun view => hstore (Nat.le_of_eq view.address.property)

/-- The loop over the seeds. -/
theorem loadSeeds_refines {seedsStart count : Nat} (hv : slots.HoldsAt 0 views) (hcount : count ≤ 16) :
    Refines (fun b seeds => Stored b seeds ∧ seeds.length = count)
      ((List.range count).foldlM (loadSeed intent data slots views.length seedsStart) SeedBuffers.zero)
      ((List.range count).mapM fun s => do
        let seed ← okOr intent.seeds.toList[seedsStart + s]? .invalidInstructionData
        seedBytes intent data views seed) := by
  refine (Sim.foldlM_mapM stored_zero fun b seeds s hs hb => ?_).mono fun b seeds hb => ?_
  · obtain ⟨hlt, hval⟩ := List.getElem?_eq_some_iff.mp hs
    rw [List.length_range] at hlt
    rw [List.getElem_range] at hval
    subst hval
    exact loadSeed_refines hv hb (by omega)
  · rwa [List.length_range] at hb

/-- The references to the buffers are the seeds. -/
theorem refs_eq {b : SeedBuffers} {seeds : List Bytes} (h : Stored b seeds) (hlen : seeds.length ≤ 16) :
    ∃ seedRefs, (List.range seeds.length).foldlM b.ref (.filled []) = .ok seedRefs ∧
      seedRefs.readRange 0 seeds.length = .ok seeds := by
  have hloop : ∃ seedRefs, (List.range seeds.length).foldlM b.ref (.filled []) = .ok seedRefs ∧
      seedRefs.HoldsAt 0 (seeds.take seeds.length) := by
    refine Simulation.foldlM_range_ok (I := fun s (refs : Slots Bytes 16) => refs.HoldsAt 0 (seeds.take s))
      (Slots.holdsAt_nil _ _) fun s refs hs hrefs => ?_
    obtain ⟨buf, hbuf, hholds⟩ := h.bufs s seeds[s] (List.getElem?_eq_getElem hs)
    have hlenS : b.lens.read s = .ok seeds[s].length := h.lens.read (by simp [hs])
    have htake : (seeds.take s).length = s := by
      rw [List.length_take]
      omega
    obtain ⟨refs', hwrite, hrefs'⟩ := hrefs.write_append (by omega) seeds[s]
    rw [htake] at hwrite
    refine ⟨refs', ?_, ?_⟩
    · rw [SeedBuffers.ref, Simulation.bind_of_ok hbuf, Simulation.bind_of_ok hlenS,
        Simulation.bind_of_ok hholds.readAll, hwrite]
    · rwa [List.take_succ_eq_append_getElem hs]
  obtain ⟨seedRefs, hfold, hholds⟩ := hloop
  rw [List.take_length] at hholds
  exact ⟨seedRefs, hfold, hholds.readAll⟩

theorem validatePdaAccount_refines {currentAddr : Address} {poolData : Bytes}
    (hv : slots.HoldsAt 0 views) :
    Refines Eq (validatePdaAccount env intent data slots views.length currentAddr poolData)
      (Execute.validatePdaAccount env intent data views currentAddr poolData) := by
  unfold validatePdaAccount Execute.validatePdaAccount
  refine Refines.require_bind fun _ => ?_
  refine Refines.require_bind fun hprog => ?_
  refine readSlot_bind hv hprog fun program => ?_
  refine Refines.require_bind fun hcount => ?_
  refine (loadSeeds_refines hv hcount).bind fun b seeds hb => ?_
  obtain ⟨hstored, hlen⟩ := hb
  rw [← hlen] at hcount ⊢
  obtain ⟨seedRefs, hrefs, hread⟩ := refs_eq hstored hcount
  refine Refines.access_bind hrefs ?_
  refine Refines.access_bind hread ?_
  exact Refines.of_checked (defined_require _ _)

/-! ## Checking the slots -/

theorem validateSlot_refines {vaultAddress : Address} {i : Nat} (acctDef : AccountEntry)
    (hv : slots.HoldsAt 0 views) (hi : i < views.length) :
    Refines Eq (validateSlot env intent data vaultAddress slots views.length i acctDef)
      (Execute.validateSlot env intent data vaultAddress views i acctDef) := by
  unfold validateSlot Execute.validateSlot
  refine readSlot_bind hv hi fun current => ?_
  cases acctDef.sourceType with
  | static =>
    refine Refines.checked_bind (defined_poolRange _ _ _) fun poolData _ => ?_
    refine Refines.checked_bind (defined_addressOf _) fun expected _ => ?_
    exact Refines.of_checked (defined_require _ _)
  | param =>
    refine Refines.checked_bind (defined_poolRange _ _ _) fun poolData _ => ?_
    refine Refines.checked_bind (defined_okOr _ _) fun paramIndex _ => ?_
    refine Refines.checked_bind (defined_readParamBytes _ _ _) fun addrBytes _ => ?_
    refine Refines.checked_bind (defined_addressOf _) fun expected _ => ?_
    exact Refines.of_checked (defined_require _ _)
  | pdaDerived =>
    refine Refines.checked_bind (defined_poolRange _ _ _) fun poolData _ => ?_
    exact validatePdaAccount_refines hv
  | hasOne =>
    refine Refines.checked_bind (defined_poolRange _ _ _) fun poolData _ => ?_
    refine Refines.require_bind fun _ => ?_
    refine Refines.require_bind fun hidx => ?_
    refine readSlot_bind hv hidx fun refView => ?_
    refine Refines.require_bind fun hroom => ?_
    -- the 32 bytes lie inside the data
    obtain ⟨bytes, hbytes⟩ : ∃ bytes, getSlice refView.data (u16LeAt poolData 1)
        (u16LeAt poolData 1 + 32) = some bytes := ⟨_, if_pos ⟨by omega, hroom⟩⟩
    have hraw : rawBytes refView.data (u16LeAt poolData 1) 32 = .ok bytes := by rw [rawBytes, hbytes]
    rw [hbytes]
    refine Refines.access_bind hraw ?_
    refine Refines.checked_bind (defined_addressOf _) fun expected _ => ?_
    exact Refines.of_checked (defined_require _ _)
  | vault => exact Refines.of_checked (defined_require _ _)

theorem validateRemainingAccounts_refines {vaultAddress : Address} (hv : slots.HoldsAt 0 views) :
    Refines Eq (validateRemainingAccounts env intent data vaultAddress slots views.length)
      (Execute.validateRemainingAccounts env intent data vaultAddress views) := by
  unfold validateRemainingAccounts Execute.validateRemainingAccounts
  refine Refines.require_bind fun hcount => ?_
  refine Sim.forM fun ⟨acctDef, i⟩ hmem => ?_
  have hi := (List.mem_zipIdx' hmem).1
  exact validateSlot_refines acctDef hv (by omega)

/-! ## Issuing the invocations -/

/-- The metas that have been written, and an account for each of them. -/
def Pushed (arrays : CpiArrays) (metas : List (Address × Bool × Bool)) : Prop :=
  arrays.ixAccounts.HoldsAt 0 metas ∧
    ∃ accts, arrays.accts.HoldsAt 0 accts ∧ accts.map AccountView.address = metas.map Prod.fst

theorem pushAccount_refines {arrays : CpiArrays} {metas : List (Address × Bool × Bool)} (idx : UInt8)
    (hv : slots.HoldsAt 0 views) (h : Pushed arrays metas) (hroom : metas.length < 32) :
    Refines (fun arrays' entry => Pushed arrays' (metas ++ [entry]))
      (pushAccount intent slots views.length arrays (idx, metas.length)) (cpiAccount intent views idx) := by
  obtain ⟨hmetas, accts, haccts, haddr⟩ := h
  have hlen : accts.length = metas.length := by
    have hlens := congrArg List.length haddr
    rwa [List.length_map, List.length_map] at hlens
  unfold pushAccount cpiAccount
  refine Refines.require_bind fun hidx => ?_
  refine readSlot_bind hv hidx fun view => ?_
  refine Refines.checked_bind (defined_index _ _) fun acctDef _ => ?_
  obtain ⟨ixAccounts, hwrite, hmetas'⟩ :=
    hmetas.write_append hroom (view.address, acctDef.isWritable, acctDef.isSigner)
  obtain ⟨accts', hwrite', haccts'⟩ := haccts.write_append (by omega) view
  rw [hlen] at hwrite'
  refine Refines.access_bind hwrite (Refines.access_bind hwrite' ?_)
  refine .ok ⟨hmetas', _, haccts', ?_⟩
  rw [List.map_append, List.map_append, haddr]
  rfl

/-- The loop over the account indexes. -/
theorem pushAccounts_refines {acctIndexes : Bytes} (hv : slots.HoldsAt 0 views)
    (hcount : acctIndexes.length ≤ 16) :
    Refines (fun arrays metas => Pushed arrays metas ∧ metas.length = acctIndexes.length)
      (acctIndexes.zipIdx.foldlM (pushAccount intent slots views.length) CpiArrays.uninit)
      (acctIndexes.mapM (cpiAccount intent views)) := by
  have hstart : Pushed CpiArrays.uninit [] := ⟨Slots.holdsAt_nil _ _, [], Slots.holdsAt_nil _ _, rfl⟩
  have hmapM : acctIndexes.mapM (cpiAccount intent views) =
      acctIndexes.zipIdx.mapM (cpiAccount intent views ∘ Prod.fst) := by
    rw [← List.mapM_map, List.zipIdx_map_fst]
  rw [hmapM]
  refine (Sim.foldlM_mapM hstart fun arrays metas entry hentry harrays => ?_).mono fun arrays metas h => ?_
  · obtain ⟨hlt, hval⟩ := List.getElem?_eq_some_iff.mp hentry
    rw [List.length_zipIdx] at hlt
    rw [List.getElem_zipIdx, Nat.zero_add] at hval
    subst hval
    exact pushAccount_refines _ hv harrays (by omega)
  · rwa [List.length_zipIdx] at h

/-- The data that has been written. -/
def Written (b : IxBuffer) (ixData : Bytes) : Prop := b.ixData.HoldsAt 0 ixData ∧ b.ixLen = ixData.length

theorem append_refines {b : IxBuffer} {ixData bytes : Bytes} (h : Written b ixData)
    (hroom : ixData.length + bytes.length ≤ 1024) :
    Refines Written (b.append bytes) (.ok (ixData ++ bytes)) := by
  obtain ⟨hholds, hlen⟩ := h
  obtain ⟨ixData', hwrite, hholds'⟩ := hholds.writeRange_append hroom
  rw [IxBuffer.append, hlen, hwrite]
  exact .ok ⟨hholds', (List.length_append ..).symm⟩

theorem pushSegment_refines {b : IxBuffer} {ixData : Bytes} (seg : DataSegmentEntry)
    (h : Written b ixData) :
    Refines Written (pushSegment intent data b seg) (Execute.pushSegment intent data ixData seg) := by
  unfold pushSegment Execute.pushSegment
  rw [h.2]
  refine Refines.checked_bind (defined_slice _ _ _) fun segPool _ => ?_
  cases seg.segmentType with
  | literal => exact Refines.require_bind fun hroom => append_refines h hroom
  | param =>
    refine Refines.require_bind fun _ => ?_
    refine Refines.checked_bind (defined_index _ _) fun paramIdx _ => ?_
    refine Refines.checked_bind (defined_index _ _) fun enc _ => ?_
    refine Refines.checked_bind (defined_okOr _ _) fun encoding _ => ?_
    refine Refines.checked_bind (defined_readParamBytes _ _ _) fun val _ => ?_
    refine Refines.require_bind fun hsize => ?_
    refine Refines.require_bind fun hroom => ?_
    exact append_refines h (by rw [List.length_take]; omega)

/-- The instruction that is sent, with the account that each meta names. -/
def Sends (inv : Invocation) (cpi : Cpi) : Prop :=
  inv.cpi = cpi ∧ inv.accts.map AccountView.address = cpi.accounts.map Prod.fst

theorem buildCpi_refines (ixEntry : InstructionEntry) (hv : slots.HoldsAt 0 views) :
    Refines Sends (buildCpi intent data slots views.length ixEntry)
      (Execute.buildCpi intent data views ixEntry) := by
  unfold buildCpi Execute.buildCpi
  refine Refines.require_bind fun hprog => ?_
  refine readSlot_bind hv hprog fun program => ?_
  refine Refines.checked_bind (defined_slice _ _ _) fun acctIndexes _ => ?_
  refine Refines.require_bind fun hcount => ?_
  refine (pushAccounts_refines hv hcount).bind fun arrays metas hpushed => ?_
  obtain ⟨⟨hmetas, accts, haccts, haddr⟩, hlen⟩ := hpushed
  refine Refines.checked_bind (defined_slice _ _ _) fun segs _ => ?_
  have hstart : Written IxBuffer.zero [] := ⟨Slots.holdsAt_nil _ _, rfl⟩
  refine (Sim.foldlM hstart fun b ixData seg _ hb => pushSegment_refines seg hb).bind fun b ixData hb => ?_
  obtain ⟨hdata, hdataLen⟩ := hb
  have hacctsLen : accts.length = acctIndexes.length := by
    have hlens := congrArg List.length haddr
    rwa [List.length_map, List.length_map, hlen] at hlens
  have hreadMetas := hmetas.readAll
  have hreadData := hdata.readAll
  have hreadAccts := haccts.readAll
  rw [hlen] at hreadMetas
  rw [← hdataLen] at hreadData
  rw [hacctsLen] at hreadAccts
  refine Refines.access_bind hreadMetas (Refines.access_bind hreadData (Refines.access_bind hreadAccts ?_))
  exact .ok ⟨rfl, haddr⟩

theorem executeCpiLoop_refines (hv : slots.HoldsAt 0 views) :
    Refines (List.Forall₂ Sends) (executeCpiLoop intent data slots views.length)
      (Execute.executeCpiLoop intent data views) :=
  Sim.mapM fun ixEntry _ => buildCpi_refines ixEntry hv

/-- The execution on arrays does what the one on lists does. -/
theorem executeCustom_refines (env : Env) (intent : Intent) (data : Bytes) (declared : Declared)
    (remaining : List AccountView) :
    Refines (List.Forall₂ Sends) (executeCustom env intent data declared remaining)
      (Execute.executeCustom env intent data declared remaining) := by
  have hstart : Filled remaining Filling.start remaining [] := ⟨Slots.holdsAt_nil _ _, rfl, rfl⟩
  refine (fillSlots_refines hstart).bind fun st views hst => ?_
  obtain ⟨rest, hfilled⟩ := hst
  rw [hfilled.count]
  refine (validateRemainingAccounts_refines hfilled.slots).bind fun _ _ _ => ?_
  exact executeCpiLoop_refines hfilled.slots

/-- No unchecked access goes wrong. In every custom execution each slot that is read has been written, and no
access leaves an array or the data of an account. The execution ends as the one without arrays, which has a
defined meaning. -/
theorem executeCustom_never_faults (env : Env) (intent : Intent) (data : Bytes) (declared : Declared)
    (remaining : List AccountView) :
    (∀ fault, executeCustom env intent data declared remaining ≠ .error (.fault fault)) ∧
      Refines (List.Forall₂ Sends) (executeCustom env intent data declared remaining)
        (Execute.executeCustom env intent data declared remaining) ∧
      Execute.executeCustom env intent data declared remaining ≠ .error .undefined := by
  have hrefines := executeCustom_refines env intent data declared remaining
  exact ⟨hrefines.no_fault, hrefines, hrefines.defined⟩

end Memory

end Execute

end ClearMsig
