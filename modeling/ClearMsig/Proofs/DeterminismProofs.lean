import ClearMsig.References
import ClearMsig.Sample

/-!
# The executor has no say

The slots are filled from a list that the executor chooses, but every slot has to pass a check against an
address that the slots it refers to decide. Without cycles there is one way to pass them all.
-/

namespace ClearMsig

open Dependency (Acyclic)

variable {env : Env} {intent : Intent} {data : Bytes} {vaultAddress : Address}
  {accountData : Address → Bytes} {views views' : List AccountView}

namespace Execute

theorem readSlot_eq_ok {i : Nat} {view : AccountView} :
    readSlot views i = .ok view ↔ views[i]? = some view := by
  unfold readSlot
  cases views[i]? with
  | some v => simp
  | none =>
    simp only [reduceCtorEq, iff_false]
    split_ifs <;> simp

theorem addressAt_of_readSlot {i : Nat} {view : AccountView} (h : readSlot views i = .ok view) :
    addressAt views i = some view.address := by
  rw [addressAt, readSlot_eq_ok.mp h, Option.map_some]

/-- Slots that agree are read alike. -/
theorem address_unique {i : Nat} {view view' : AccountView} (heq : addressAt views i = addressAt views' i)
    (h : readSlot views i = .ok view) (h' : readSlot views' i = .ok view') :
    view.address = view'.address := by
  rw [addressAt_of_readSlot h, addressAt_of_readSlot h'] at heq
  exact Option.some.inj heq

/-! ## Filling the slots -/

/-- A slot is filled from the declared accounts or from the remaining ones. -/
theorem fillSlot_mem {declared : Declared} {acctDef : AccountEntry}
    {remaining remaining' : List AccountView} {view : AccountView} :
    fillSlot intent declared acctDef remaining = .ok (view, remaining') →
      view ∈ declared.views ++ remaining ∧ ∀ v ∈ remaining', v ∈ remaining := by
  -- a parameter slot takes the next account, and so do all others without one of their own
  have hnext : fillSlot intent declared { acctDef with sourceType := .param } remaining =
      .ok (view, remaining') →
      view ∈ declared.views ++ remaining ∧ ∀ v ∈ remaining', v ∈ remaining := by
    intro h
    cases remaining with
    | nil => cases h
    | cons v rest =>
      cases h
      exact ⟨by simp, fun v hv => List.mem_cons_of_mem _ hv⟩
  intro h
  unfold fillSlot at h
  cases hsource : acctDef.sourceType with
  | vault =>
    simp only [hsource] at h
    cases h
    exact ⟨by simp [Declared.views], fun v hv => hv⟩
  | static =>
    simp only [hsource, bind_eq_ok] at h
    obtain ⟨addrBytes, -, addr, -, h⟩ := h
    split at h
    next dv hdv =>
      cases h
      exact ⟨List.mem_append_left _ (List.mem_of_find?_eq_some hdv), fun v hv => hv⟩
    next => exact hnext h
  | param | pdaDerived | hasOne =>
    simp only [hsource] at h
    exact hnext h

/-- Every slot shows the data at its address when all accounts at hand do. -/
theorem fillSlots_backed {declared : Declared} {entries : List AccountEntry}
    {remaining accountViews : List AccountView} (hdeclared : Backed accountData declared.views)
    (hremaining : Backed accountData remaining) (hviews : Backed accountData accountViews)
    (h : fillSlots intent declared entries remaining accountViews = .ok views) :
    Backed accountData views := by
  induction entries generalizing remaining accountViews with
  | nil =>
    cases h
    exact hviews
  | cons acctDef entries ih =>
    simp only [fillSlots, bind_eq_ok, require_eq_ok, exists_const] at h
    obtain ⟨-, ⟨view, rest⟩, hfill, h⟩ := h
    obtain ⟨hview, hrest⟩ := fillSlot_mem hfill
    refine ih (fun v hv => hremaining v (hrest v hv)) ?_ h
    intro v hv
    rcases List.mem_append.mp hv with hv | hv
    · exact hviews v hv
    · rw [List.mem_singleton.mp hv]
      exact (List.mem_append.mp hview).elim (hdeclared view) (hremaining view)

/-! ## What the checks decide -/

/-- A slot that passes its check has the address expected of it. -/
theorem expectedAddress_of_validateSlot {i : Nat} {acctDef : AccountEntry}
    (h : validateSlot env intent data vaultAddress views i acctDef = .ok ()) :
    ∃ view, readSlot views i = .ok view ∧
      expectedAddress env intent data vaultAddress views acctDef = .ok view.address := by
  simp only [validateSlot, bind_eq_ok] at h
  obtain ⟨view, hview, h⟩ := h
  refine ⟨view, hview, ?_⟩
  unfold expectedAddress
  cases hsource : acctDef.sourceType with
  | vault =>
    simp only [hsource, require_eq_ok] at h
    rw [h]
  | static =>
    simp only [hsource, bind_eq_ok, require_eq_ok] at h ⊢
    obtain ⟨poolData, hpool, expected, hexpected, rfl⟩ := h
    exact ⟨poolData, hpool, hexpected⟩
  | param =>
    simp only [hsource, bind_eq_ok, require_eq_ok] at h ⊢
    obtain ⟨poolData, hpool, idx, hidx, raw, hraw, expected, hexpected, rfl⟩ := h
    exact ⟨poolData, hpool, idx, hidx, raw, hraw, hexpected⟩
  | pdaDerived =>
    simp only [hsource, validatePdaAccount, bind_eq_ok, require_eq_ok, exists_const] at h ⊢
    obtain ⟨poolData, hpool, -, -, program, hprogram, -, seeds, hseeds, haddr⟩ := h
    exact ⟨poolData, hpool, program, hprogram, seeds, hseeds, by rw [haddr]⟩
  | hasOne =>
    simp only [hsource, bind_eq_ok, require_eq_ok, exists_const] at h ⊢
    obtain ⟨poolData, hpool, -, -, refView, href, -, h⟩ := h
    refine ⟨poolData, hpool, refView, href, ?_⟩
    split at h
    next addrBytes hslice =>
      simp only [ok_bind, bind_eq_ok, require_eq_ok] at h
      obtain ⟨expected, hexpected, rfl⟩ := h
      exact ⟨addrBytes, okOr_eq_ok.mpr hslice, hexpected⟩
    next => cases h

/-- A seed is decided by the parameters and by the slot it names. -/
theorem seedBytes_unique {seed : SeedEntry} {b b' : Bytes}
    (hrefs : ∀ j ∈ seedRef intent seed, addressAt views j = addressAt views' j)
    (h : seedBytes intent data views seed = .ok b) (h' : seedBytes intent data views' seed = .ok b') :
    b = b' := by
  simp only [seedBytes, bind_eq_ok] at h h'
  obtain ⟨sePool, hpool, h⟩ := h
  obtain ⟨sePool', hpool', h'⟩ := h'
  obtain rfl := Except.ok.inj (hpool.symm.trans hpool')
  cases htype : seed.seedType with
  | literal | paramRef =>
    simp only [htype] at h h'
    exact Except.ok.inj (h.symm.trans h')
  | accountRef =>
    simp only [htype, bind_eq_ok, require_eq_ok, okOr_eq_ok, exists_const, Except.ok.injEq] at h h'
    obtain ⟨idx, hidx, -, view, hview, rfl⟩ := h
    obtain ⟨idx', hidx', -, view', hview', rfl⟩ := h'
    obtain rfl := Option.some.inj (hidx.symm.trans hidx')
    have href : idx.toNat ∈ seedRef intent seed := by
      simp [seedRef, htype, hpool, hidx]
    rw [address_unique (hrefs _ href) hview hview']

theorem slotRefs_eq {i : Nat} {acctDef : AccountEntry} {poolData : Bytes}
    (hdef : intent.accounts.toList[i]? = some acctDef)
    (hpool : poolRange intent acctDef.poolOffset acctDef.poolLen = .ok poolData) :
    slotRefs intent i = poolRefs intent acctDef.sourceType poolData := by
  simp only [slotRefs, hdef, hpool]

/-- The address expected of a slot is decided by the addresses in the slots it refers to. -/
theorem expectedAddress_unique {i : Nat} {acctDef : AccountEntry} {a a' : Address}
    (hdef : intent.accounts.toList[i]? = some acctDef) (hviews : Backed accountData views)
    (hviews' : Backed accountData views')
    (hrefs : ∀ j, Refs intent i j → addressAt views j = addressAt views' j)
    (h : expectedAddress env intent data vaultAddress views acctDef = .ok a)
    (h' : expectedAddress env intent data vaultAddress views' acctDef = .ok a') : a = a' := by
  unfold expectedAddress at h h'
  cases hsource : acctDef.sourceType with
  | vault | static | param =>
    simp only [hsource] at h h'
    exact Except.ok.inj (h.symm.trans h')
  | pdaDerived =>
    simp only [hsource, bind_eq_ok] at h h'
    obtain ⟨poolData, hpool, program, hprogram, seeds, hseeds, h⟩ := h
    obtain ⟨poolData', hpool', program', hprogram', seeds', hseeds', h'⟩ := h'
    obtain rfl := Except.ok.inj (hpool.symm.trans hpool')
    have hmem (j : Nat) (hj : j ∈ poolRefs intent .pdaDerived poolData) :
        addressAt views j = addressAt views' j :=
      hrefs j (by rwa [Refs, slotRefs_eq hdef hpool, hsource])
    have hprog : program.address = program'.address :=
      address_unique (hmem _ List.mem_cons_self) hprogram hprogram'
    have hsame : seeds = seeds' := by
      refine mapM_unique (fun k hk b b' hb hb' => ?_) hseeds hseeds'
      simp only [bind_eq_ok, okOr_eq_ok] at hb hb'
      obtain ⟨seed, hseed, hb⟩ := hb
      obtain ⟨seed', hseed', hb'⟩ := hb'
      obtain rfl := Option.some.inj (hseed.symm.trans hseed')
      refine seedBytes_unique (fun j hj => hmem j ?_) hb hb'
      exact List.mem_cons_of_mem _ (List.mem_filterMap.mpr ⟨k, hk, by rw [hseed]; exact hj⟩)
    rw [hprog, hsame] at h
    exact Except.ok.inj (h.symm.trans h')
  | hasOne =>
    simp only [hsource, bind_eq_ok] at h h'
    obtain ⟨poolData, hpool, refView, href, addrBytes, hbytes, h⟩ := h
    obtain ⟨poolData', hpool', refView', href', addrBytes', hbytes', h'⟩ := h'
    obtain rfl := Except.ok.inj (hpool.symm.trans hpool')
    have haddr : refView.address = refView'.address := by
      refine address_unique (hrefs _ ?_) href href'
      rw [Refs, slotRefs_eq hdef hpool, hsource]
      exact List.mem_cons_self
    -- the data at an address does not depend on who passes the account
    have hdata : refView.data = refView'.data := by
      rw [hviews _ (List.mem_of_getElem? (readSlot_eq_ok.mp href)),
        hviews' _ (List.mem_of_getElem? (readSlot_eq_ok.mp href')), haddr]
    rw [hdata] at hbytes
    obtain rfl := Except.ok.inj (hbytes.symm.trans hbytes')
    exact Except.ok.inj (h.symm.trans h')

/-! ## The slots -/

theorem of_validateRemainingAccounts
    (h : validateRemainingAccounts env intent data vaultAddress views = .ok ()) :
    views.length = intent.accounts.toList.length ∧
      ∀ i acctDef, intent.accounts.toList[i]? = some acctDef →
        validateSlot env intent data vaultAddress views i acctDef = .ok () := by
  simp only [validateRemainingAccounts, bind_eq_ok, require_eq_ok, exists_const, forM_eq_ok] at h
  refine ⟨h.1, fun i acctDef hdef => h.2 (acctDef, i) ?_⟩
  exact List.mem_zipIdx_iff_getElem?.mpr hdef

theorem addressAt_eq_none {i : Nat} (h : views.length ≤ i) : addressAt views i = none := by
  rw [addressAt, List.getElem?_eq_none h, Option.map_none]

/-- Only the slots of the definition refer to others. -/
theorem finite_refs (intent : Intent) : Set.Finite {i | ∃ j, Refs intent i j} := by
  refine (Set.finite_Iio intent.accounts.toList.length).subset ?_
  rintro i ⟨j, hij⟩
  by_contra hi
  have hnone : intent.accounts.toList[i]? = none := List.getElem?_eq_none (Nat.le_of_not_lt hi)
  simp [Refs, slotRefs, hnone] at hij

/-- Two fillings that pass all checks have the same addresses in the same slots. -/
theorem addressAt_unique (hacyclic : Acyclic (Refs intent)) (hviews : Backed accountData views)
    (hviews' : Backed accountData views')
    (h : validateRemainingAccounts env intent data vaultAddress views = .ok ())
    (h' : validateRemainingAccounts env intent data vaultAddress views' = .ok ()) :
    addressAt views = addressAt views' := by
  obtain ⟨hlen, hslots⟩ := of_validateRemainingAccounts h
  obtain ⟨hlen', hslots'⟩ := of_validateRemainingAccounts h'
  refine hacyclic.unique (finite_refs intent) fun i ih => ?_
  cases hdef : intent.accounts.toList[i]? with
  | none =>
    have hi := List.getElem?_eq_none_iff.mp hdef
    rw [addressAt_eq_none (hlen.trans_le hi), addressAt_eq_none (hlen'.trans_le hi)]
  | some acctDef =>
    obtain ⟨view, hview, hexpected⟩ := expectedAddress_of_validateSlot (hslots i acctDef hdef)
    obtain ⟨view', hview', hexpected'⟩ := expectedAddress_of_validateSlot (hslots' i acctDef hdef)
    rw [addressAt_of_readSlot hview, addressAt_of_readSlot hview',
      expectedAddress_unique hdef hviews hviews' ih hexpected hexpected']

/-! ## The invocations -/

/-- An invocation is decided by the definition, the parameters and the addresses in the slots. -/
theorem buildCpi_unique (hsame : addressAt views = addressAt views') {entry : InstructionEntry}
    {cpi cpi' : Cpi} (h : buildCpi intent data views entry = .ok cpi)
    (h' : buildCpi intent data views' entry = .ok cpi') : cpi = cpi' := by
  simp only [buildCpi, bind_eq_ok, require_eq_ok, exists_const, Except.ok.injEq] at h h'
  obtain ⟨-, program, hprogram, indexes, hindexes, -, accounts, haccounts, segs, hsegs, ixData, hdata,
    rfl⟩ := h
  obtain ⟨-, program', hprogram', indexes', hindexes', -, accounts', haccounts', segs', hsegs', ixData',
    hdata', rfl⟩ := h'
  obtain rfl := Except.ok.inj (hindexes.symm.trans hindexes')
  obtain rfl := Except.ok.inj (hsegs.symm.trans hsegs')
  obtain rfl := Except.ok.inj (hdata.symm.trans hdata')
  have hprog : program.address = program'.address :=
    address_unique (congrFun hsame _) hprogram hprogram'
  have haccts : accounts = accounts' := by
    refine mapM_unique (fun idx _ a a' ha ha' => ?_) haccounts haccounts'
    simp only [cpiAccount, bind_eq_ok, require_eq_ok, exists_const, Except.ok.injEq] at ha ha'
    obtain ⟨-, view, hview, acctDef, hdef, rfl⟩ := ha
    obtain ⟨-, view', hview', acctDef', hdef', rfl⟩ := ha'
    obtain rfl := Except.ok.inj (hdef.symm.trans hdef')
    rw [address_unique (congrFun hsame _) hview hview']
  rw [hprog, haccts]

end Execute

/-- The executor chooses the remaining accounts and nothing else: for a definition whose references form
no cycle, all choices with which a custom proposal executes issue the same invocations. -/
theorem executor_has_no_say {declared declared' : Execute.Declared}
    {remaining remaining' : List AccountView} {cpis cpis' : List Cpi}
    (hacyclic : Acyclic (Execute.Refs intent))
    (hvault : declared'.vault.address = declared.vault.address)
    (hbacked : Backed accountData (declared.views ++ remaining))
    (hbacked' : Backed accountData (declared'.views ++ remaining'))
    (h : Execute.executeCustom env intent data declared remaining = .ok cpis)
    (h' : Execute.executeCustom env intent data declared' remaining' = .ok cpis') : cpis = cpis' := by
  simp only [Execute.executeCustom, bind_eq_ok] at h h'
  obtain ⟨views, hfill, ⟨⟩, hvalid, hloop⟩ := h
  obtain ⟨views', hfill', ⟨⟩, hvalid', hloop'⟩ := h'
  have hviews := Execute.fillSlots_backed (List.forall_mem_append.mp hbacked).1
    (List.forall_mem_append.mp hbacked).2 (List.forall_mem_nil _) hfill
  have hviews' := Execute.fillSlots_backed (List.forall_mem_append.mp hbacked').1
    (List.forall_mem_append.mp hbacked').2 (List.forall_mem_nil _) hfill'
  rw [hvault] at hvalid'
  have hsame := Execute.addressAt_unique hacyclic hviews hviews' hvalid hvalid'
  exact mapM_unique (fun _ _ _ _ => Execute.buildCpi_unique hsame) hloop hloop'

namespace DeterminismSample

open Sample

/-- A static program, a PDA of it under the address in slot 2, an address stored in the vault's account,
and the vault. -/
def escrow : Intent :=
  { templated [] "" with
    accounts := vec [⟨false, false, .static, 0, 32⟩, ⟨true, false, .pdaDerived, 32, 5⟩,
      ⟨false, true, .hasOne, 37, 3⟩, ⟨true, true, .vault, 0, 0⟩]
    instructions := vec [⟨0, 42, 3, 0, 0⟩]
    seeds := vec [⟨.literal, 40, 1⟩, ⟨.accountRef, 41, 1⟩]
    bytePool := vec ((key 9).val ++ [0, 0, 0, 2, 0] ++ [3, 0, 0] ++ [115] ++ [2] ++ [1, 2, 3]) }

def dataAt (a : Address) : Bytes := if a = key 5 then (key 7).val else []

def declared : Execute.Declared := ⟨⟨key 5, true, true, (key 7).val⟩, view (key 0), view (key 1)⟩

def pda : Address := (findPda [[115], (key 7).val] (key 9)).1

/-- The accounts needed, with flags of the executor's choice. -/
def remaining (flag : Bool) : List AccountView :=
  [⟨key 9, flag, flag, []⟩, ⟨pda, flag, flag, []⟩, ⟨key 7, flag, flag, []⟩]

theorem escrow_acyclic : Acyclic (Execute.Refs escrow) := by
  refine .of_rank (fun i => [0, 3, 2, 1].getD i 0) fun i j hij => ?_
  have hi : i < 4 := by
    by_contra hi
    have hnone : escrow.accounts.toList[i]? = none := List.getElem?_eq_none (Nat.le_of_not_lt hi)
    simp [Execute.Refs, Execute.slotRefs, hnone] at hij
  have hall : ∀ i < 4, ∀ j ∈ Execute.slotRefs escrow i, [0, 3, 2, 1].getD j 0 < [0, 3, 2, 1].getD i 0 := by
    decide +kernel
  exact hall i hi j hij

end DeterminismSample

open DeterminismSample Sample in
theorem executor_has_no_say_sample :
    ∃ cpis cpis',
      Execute.executeCustom (Sample.env []) escrow [] declared (remaining true) = .ok cpis ∧
      Execute.executeCustom (Sample.env []) escrow [] declared (remaining false ++ [view pda]) =
        .ok cpis' ∧
      cpis = cpis' := by
  have h : Execute.executeCustom (Sample.env []) escrow [] declared (remaining true) =
      .ok [⟨key 9, [(pda, false, true), (key 7, true, false), (key 5, true, true)], []⟩] := by
    decide +kernel
  have h' : Execute.executeCustom (Sample.env []) escrow [] declared (remaining false ++ [view pda]) =
      .ok [⟨key 9, [(pda, false, true), (key 7, true, false), (key 5, true, true)], []⟩] := by
    decide +kernel
  have hbacked : Backed dataAt (declared.views ++ remaining true) := by
    simp only [Backed]
    decide +kernel
  have hbacked' : Backed dataAt (declared.views ++ (remaining false ++ [view pda])) := by
    simp only [Backed]
    decide +kernel
  exact ⟨_, _, h, h', executor_has_no_say escrow_acyclic rfl hbacked hbacked' h h'⟩

end ClearMsig
