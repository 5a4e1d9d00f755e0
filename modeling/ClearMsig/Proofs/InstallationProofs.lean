import ClearMsig.Instructions.Proofs.ExecuteProofs
import ClearMsig.Proofs.SeparationProofs

/-!
# Definitions that cannot be installed

`execute_update_intent` asks for the bytes of a whole intent, and `execute_add_intent` copies as many as
it gets. The parameters of a proposal hold 512 bytes, and an intent has at least 4096: a proposal with
the bytes of a definition is refused by `propose`, whatever the definition is.
-/

namespace ClearMsig

/-- The bytes are the whole body of the intent `D`. -/
def IsBody (layout : PodVecLayout) (D : Intent) (bytes : Bytes) : Prop :=
  bytes.length = Intent.sizeOfIntent layout ∧ Intent.fromBody layout bytes = some D

/-- The parameters of a proposal that installs `D`: its bytes, and in front of them the index of the
target when there is one. -/
inductive Installs (layout : PodVecLayout) (D : Intent) : IntentType → Bytes → Prop where
  | add {bytes : Bytes} (h : IsBody layout D bytes) : Installs layout D .addIntent bytes
  | update {index : UInt8} {bytes : Bytes} (h : IsBody layout D bytes) :
      Installs layout D .updateIntent (index :: bytes)

/-- They are longer than the parameters of a proposal can be. -/
theorem Installs.length_gt {layout : PodVecLayout} {D : Intent} {t : IntentType} {params : Bytes}
    (h : Installs layout D t params) : 512 < params.length := by
  have hsize := Intent.sizeOfIntent_ge layout
  cases h with
  | add h => exact h.1 ▸ lt_of_lt_of_le (by decide) hsize
  | update h =>
    rw [List.length_cons, h.1]
    omega

/-- `propose` stores the parameters whole or refuses them. -/
theorem Propose.params_le_of_ok {env : Env} {clock : Int64} {s s' : Accounts}
    {payer walletAddr intentAddr : Address} {args : ProposeArgs}
    (h : Propose.propose env clock s payer walletAddr intentAddr args = .ok s') :
    args.paramsData.length ≤ 512 := by
  obtain ⟨-, -, -, data, -, hdata, -⟩ := Propose.propose_eq_ok.mp h
  rw [← hdata]
  exact data.len_le

/-- Execution of an `UpdateIntent` proposal fails in every state. -/
theorem Execute.execute_updateIntent_ne_ok {env : Env} {clock : Int64} {s s' : Accounts}
    {declared : Declared} {intentAddr proposalAddr : Address} {remaining : List AccountView}
    {i : Intent} (hi : s.intent? intentAddr = some i) (ht : i.readType = .ok .updateIntent) :
    execute env clock s declared intentAddr proposalAddr remaining ≠ .ok s' := by
  intro h
  obtain ⟨w, j, p, hl, s₁, hdispatch, -⟩ := of_execute_eq_ok h
  obtain rfl := Option.some.inj (hi.symm.trans (by simpa using hl.intent_eq))
  simp only [dispatch, ht, ok_bind] at hdispatch
  exact executeUpdateIntent_ne_ok hdispatch

/-- In some run a proposal with the parameters is executed, and leaves `D` in an intent account. -/
def Installable (env : Env) (D : Intent) (params : Bytes) : Prop :=
  ∃ (tr : List (Runs.Event Accounts Call)) (s : Accounts) (e : Runs.Event Accounts Call)
    (declared : Execute.Declared) (intentAddr a target : Address) (remaining : List AccountView)
    (p : Proposal), Runs.Run (program env) tr s ∧ e ∈ tr ∧
    e.label.ix = .execute declared intentAddr a remaining ∧ e.pre.proposal? a = some p ∧
    p.paramsData.toList = params ∧ e.post.intent? target = some D

/-- No definition can be installed: its bytes are refused by `propose` in every state, and no execution
of an `UpdateIntent` succeeds in any state. -/
theorem never_installed (env : Env) (D : Intent) {t : IntentType} {params : Bytes}
    (h : Installs env.podVec D t params) :
    ¬ Installable env D params ∧
    (∀ (clock : Int64) (s s' : Accounts) (payer walletAddr intentAddr : Address) (args : ProposeArgs),
      args.paramsData = params →
      process env s ⟨clock, .propose payer walletAddr intentAddr args⟩ ≠ .ok s') ∧
    (∀ (clock : Int64) (s s' : Accounts) (declared : Execute.Declared)
      (intentAddr proposalAddr : Address) (remaining : List AccountView) (i : Intent),
      s.intent? intentAddr = some i → i.readType = .ok .updateIntent →
      process env s ⟨clock, .execute declared intentAddr proposalAddr remaining⟩ ≠ .ok s') := by
  have hlong := h.length_gt
  refine ⟨?_, ?_, ?_⟩
  · rintro ⟨tr, s, e, declared, intentAddr, a, target, remaining, p, -, -, -, -, rfl, -⟩
    exact absurd p.paramsData.len_le (Nat.not_le.mpr hlong)
  · rintro clock s s' payer walletAddr intentAddr args rfl hstep
    exact absurd (Propose.params_le_of_ok hstep) (Nat.not_le.mpr hlong)
  · intro clock s s' declared intentAddr proposalAddr remaining i hi ht
    exact Execute.execute_updateIntent_ne_ok hi ht

/-! ## Messages of long parameters -/

/-- Other parameters with the same message pass the same checks for a meta-intent. -/
theorem Propose.Accepted.congr {env : Env} {clock : Int64} {s : Accounts}
    {walletAddr intentAddr : Address} {args : ProposeArgs} {wallet : ClearWallet} {intent : Intent}
    {msg : Bytes} {t : IntentType} {data : Bytes}
    (h : Propose.Accepted env clock s walletAddr intentAddr args wallet intent msg)
    (ht : intent.readType = .ok t) (hne : t ≠ .custom)
    (hmsg : signedMessage env.sha256 (Propose.messageContext wallet args.expiry) intent data =
      signedMessage env.sha256 (Propose.messageContext wallet args.expiry) intent args.paramsData) :
    Propose.Accepted env clock s walletAddr intentAddr { args with paramsData := data } wallet intent
      msg := by
  refine { h with params := ?_, message := hmsg.trans h.message }
  simp only [Propose.checkParams, ht, ok_bind, if_neg hne, pure_eq_ok]

/-- The message to add an intent depends on the hash of the parameters only. -/
theorem signedMessage_addIntent_congr {sha256 : Bytes → ByteArr 32} {ctx : MessageContext}
    {intent : Intent} {data data' : Bytes} (ht : intent.readType = .ok .addIntent)
    (hhash : sha256 data = sha256 data') :
    signedMessage sha256 ctx intent data = signedMessage sha256 ctx intent data' := by
  simp only [signedMessage, MessageBuilder.buildMessageForIntent, ht, ok_bind, hhash]

/-- The message to update an intent depends on the index and on the hash of the rest. -/
theorem signedMessage_updateIntent_congr {sha256 : Bytes → ByteArr 32} {ctx : MessageContext}
    {intent : Intent} {index : UInt8} {data data' : Bytes} (ht : intent.readType = .ok .updateIntent)
    (hdata : data ≠ []) (hdata' : data' ≠ []) (hhash : sha256 data = sha256 data') :
    signedMessage sha256 ctx intent (index :: data) =
      signedMessage sha256 ctx intent (index :: data') := by
  have hlong {l : Bytes} (h : l ≠ []) : (index :: l).length > 1 := by
    rw [List.length_cons]
    exact Nat.succ_lt_succ (List.length_pos_iff.mpr h)
  simp only [signedMessage, MessageBuilder.buildMessageForIntent, ht, ok_bind, require, hlong hdata,
    hlong hdata', if_true, List.getD_cons_zero, List.drop_succ_cons, List.drop_zero, hhash]

namespace InstallationSample

open Sample

/-- The first 48 bytes of a custom intent of wallet `a`, and its whole body. -/
def head : Bytes := intentBody (wallet "a") 3 0

def body : Bytes := head ++ List.replicate (Intent.sizeOfIntent podVec - 48) 0

theorem head_length : head.length = 48 := by
  simp only [head, intentBody, List.length_append, List.length_cons, List.length_nil,
    (wallet "a").property]

theorem body_isBody : ∃ D, IsBody podVec D body := by
  have hsize : 48 ≤ Intent.sizeOfIntent podVec := by decide
  obtain ⟨D, hD⟩ := @Intent.fromBody_append_zeros_isSome podVec head
    (Intent.sizeOfIntent podVec - 48) (head_length.trans_le (by decide))
  refine ⟨D, ?_, hD⟩
  rw [body, List.length_append, List.length_replicate, head_length]
  omega

/-- The body and its head have the same hash here: both begin with the wallet. -/
theorem hash_body {table : List (Address × Bytes)} :
    (env table).sha256 body = (env table).sha256 head := by
  refine Subtype.ext ?_
  show (head ++ List.replicate _ 0 ++ List.replicate 32 0).take 32 = (head ++ List.replicate 32 0).take 32
  have hlen : 32 ≤ head.length := by
    rw [head_length]
    decide
  rw [List.append_assoc, List.take_append_of_le_length hlen, List.take_append_of_le_length hlen]

def table : List (Address × Bytes) :=
  [(key 1, addIntentMessage "propose" (wallet "a") "a" "0"),
   (key 1, messageOf (ascii "expires 1970-01-01 " ++ ascii "00:16:40: propose " ++
     ascii "update intent 1 " ++ ascii "definition_hash: " ++ hexText (wallet "a").val ++
     ascii " | wallet: a " ++ ascii "proposal: 0"))]

/-- The type bytes of two intents, and whether their first proposals with the head are accepted. -/
def observed (_ : List (Runs.Event Accounts Call)) (s : Accounts) :
    Option UInt8 × Option UInt8 × Bool × Bool :=
  ((s.intent? (intent "a" 0)).map (·.intentType), (s.intent? (intent "a" 2)).map (·.intentType),
    (process (env table) s (propose "a" 0 0 head)).toBool,
    (process (env table) s (propose "a" 2 1 (1 :: head))).toBool)

/-- An accepted proposal for an intent whose type byte is known. -/
theorem accepted_of_toBool {table : List (Address × Bytes)} {s : Accounts} {index : UInt8}
    {signature : UInt8} {params : Bytes} {t : IntentType}
    (htype : (s.intent? (intent "a" index)).map (·.intentType) = some t.toU8)
    (h : (process (env table) s (propose "a" index signature params)).toBool = true) :
    ∃ w i msg, Propose.Accepted (env table) 0 s (wallet "a") (intent "a" index)
      ⟨1000, key 1, sig signature, params⟩ w i msg ∧ i.readType = .ok t := by
  cases hp : process (env table) s (propose "a" index signature params) with
  | error e =>
    rw [hp] at h
    cases h
  | ok s' =>
    obtain ⟨w, i, msg, -, hacc, -, -⟩ := Propose.propose_eq_ok.mp hp
    obtain ⟨j, hj, hbyte⟩ := Option.map_eq_some_iff.mp htype
    obtain rfl := Option.some.inj (hj.symm.trans (Accounts.intent?_eq_some.mpr hacc.intent_eq))
    refine ⟨w, j, msg, hacc, ?_⟩
    rw [Intent.readType, hbyte]
    cases t <;> rfl

end InstallationSample

open InstallationSample Sample in
theorem never_installed_sample :
    ∃ D, IsBody podVec D body ∧ ¬ Installable (Sample.env table) D body ∧
      ∀ s s', process (Sample.env table) s (propose "a" 0 0 body) ≠ .ok s' := by
  obtain ⟨D, hD⟩ := body_isBody
  obtain ⟨hno, hrefused, -⟩ := never_installed (Sample.env table) D (.add hD)
  exact ⟨D, hD, hno, fun s s' => hrefused 0 s s' _ _ _ _ rfl⟩

open InstallationSample Sample in
/-- Proposals to add and to update an intent that pass every check but carry a whole body. -/
theorem whole_body_refused :
    ∃ (s : Accounts) (D : Intent), Runs.Reachable (program (Sample.env table)) s ∧
      IsBody podVec D body ∧
      (∃ w i msg, Propose.Accepted (Sample.env table) 0 s (wallet "a") (intent "a" 0)
        ⟨1000, key 1, sig 0, body⟩ w i msg ∧ i.readType = .ok .addIntent) ∧
      (∃ w i msg, Propose.Accepted (Sample.env table) 0 s (wallet "a") (intent "a" 2)
        ⟨1000, key 1, sig 1, 1 :: body⟩ w i msg ∧ i.readType = .ok .updateIntent) ∧
      (∀ s', process (Sample.env table) s (propose "a" 0 0 body) ≠ .ok s') ∧
      ∀ s', process (Sample.env table) s (propose "a" 2 1 (1 :: body)) ≠ .ok s' := by
  have hobs : observe (Sample.env table) [create "a" 1 1 [key 2]] observed =
      some (some 0, some 2, true, true) := by decide +kernel
  obtain ⟨tr, s, hrun, -, hstate⟩ := run_of_observe hobs
  simp only [observed, Prod.mk.injEq] at hstate
  obtain ⟨haddType, hupdateType, hadd, hupdate⟩ := hstate
  obtain ⟨D, hD⟩ := body_isBody
  have hlong : 512 < body.length := (Installs.add hD).length_gt
  have hbody : body ≠ [] := List.ne_nil_of_length_pos (by omega)
  refine ⟨s, D, ⟨tr, hrun⟩, hD, ?_, ?_, ?_, ?_⟩
  · obtain ⟨w, i, msg, hacc, ht⟩ := accepted_of_toBool (t := .addIntent) haddType hadd
    exact ⟨w, i, msg, hacc.congr ht (by decide) (signedMessage_addIntent_congr ht hash_body), ht⟩
  · obtain ⟨w, i, msg, hacc, ht⟩ := accepted_of_toBool (t := .updateIntent) hupdateType hupdate
    refine ⟨w, i, msg, hacc.congr ht (by decide) ?_, ht⟩
    exact signedMessage_updateIntent_congr ht hbody (by decide) hash_body
  · intro s' h
    exact absurd (Propose.params_le_of_ok h) (Nat.not_le.mpr hlong)
  · intro s' h
    exact absurd (Propose.params_le_of_ok h) (Nat.not_le.mpr (by
      rw [List.length_cons]
      omega))

end ClearMsig
