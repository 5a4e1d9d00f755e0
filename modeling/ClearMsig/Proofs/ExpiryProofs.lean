import ClearMsig.Instructions.Proofs.SignedProofs
import ClearMsig.Utils.Proofs.DateTextProofs
import ClearMsig.Utils.Proofs.MessageProofs
import ClearMsig.Sample

/-!
# Expiry of signatures

The expiry enters a message as the text of a date at a fixed place, so messages for two expiries are
the same exactly when the expiries are shown alike. A signature is therefore usable after its expiry
exactly when a later expiry is shown alike.
-/

namespace ClearMsig

/-! ## Messages -/

/-- The date stands at the same place of every message. -/
theorem dateText_eq_of_messageText {ctx ctx' : MessageContext} {content content' : Bytes}
    (h : messageText ctx content = messageText ctx' content') :
    dateText (timestampToParts ctx.expiry) = dateText (timestampToParts ctx'.expiry) := by
  simp only [messageText, headText, List.append_assoc] at h
  have hrest := List.append_cancel_left h
  exact (List.append_inj hrest ((dateText_length _).trans (dateText_length _).symm)).1

/-- Messages that show two expiries are different unless the expiries are shown alike. -/
theorem shownAlike_of_shows {env : Env} {m : Bytes} {e₁ e₂ : Int64} (h₁ : env.Shows m e₁)
    (h₂ : env.Shows m e₂) : ShownAlike e₁ e₂ := by
  obtain ⟨ctx₁, intent₁, data₁, rfl, hm₁⟩ := h₁
  obtain ⟨ctx₂, intent₂, data₂, rfl, hm₂⟩ := h₂
  obtain ⟨c₁, c₂, -, -, htext⟩ := messageText_eq_of_signedMessage hm₁ hm₂
  exact dateText_timestamp_eq_iff.mp (dateText_eq_of_messageText htext)

/-- An expiry that is shown alike gives the same message. -/
theorem signedMessage_of_shownAlike (ctx : MessageContext) {sha256 : Bytes → ByteArr 32}
    {intent : Intent} {data m : Bytes} {e : Int64} (h : ShownAlike ctx.expiry e)
    (hm : signedMessage sha256 ctx intent data = .ok m) :
    signedMessage sha256 { ctx with expiry := e } intent data = .ok m := by
  have hdate := dateText_timestamp_eq_iff.mpr h
  have htext (content : Bytes) : messageText { ctx with expiry := e } content =
      messageText ctx content := by
    simp only [messageText, headText, tailText, hdate]
  obtain ⟨content, hc, hle, rfl⟩ := signedMessage_eq_ok.mp hm
  exact signedMessage_eq_ok.mpr ⟨content, hc, by rwa [htext], by rw [htext]⟩

/-- Two expiries give the same message exactly when they are shown alike. -/
theorem signedMessage_expiry_iff {sha256 : Bytes → ByteArr 32} {ctx : MessageContext}
    {intent : Intent} {data m : Bytes} {e₁ e₂ : Int64}
    (hm : signedMessage sha256 { ctx with expiry := e₁ } intent data = .ok m) :
    signedMessage sha256 { ctx with expiry := e₂ } intent data = .ok m ↔ ShownAlike e₁ e₂ := by
  constructor
  · intro hm'
    obtain ⟨c₁, c₂, -, -, htext⟩ := messageText_eq_of_signedMessage hm hm'
    have hdate := dateText_eq_of_messageText htext
    exact dateText_timestamp_eq_iff.mp hdate
  · intro hlike
    exact signedMessage_of_shownAlike { ctx with expiry := e₁ } hlike hm

/-! ## Calls -/

/-- An accepted call carries a signature that verifies for a message which shows the expiry passed,
and that expiry lies after the clock. -/
theorem verified_of_process {env : Env} {s s' : Accounts} {c : Call} {auth : Authorization}
    (ha : c.ix.authorization = some auth) (h : process env s c = .ok s') :
    c.clock < auth.expiry ∧ ∃ key msg, env.Shows msg auth.expiry ∧
      env.sigVerify key auth.signature msg = true := by
  obtain ⟨ctx, intent, data, msg, hsigned⟩ := signed_of_process ha h
  obtain ⟨key, hverified⟩ := hsigned.verified
  exact ⟨hsigned.unexpired, key, msg, ⟨ctx, intent, data, hsigned.expiry_eq, hsigned.message⟩, hverified⟩

/-- An accepted call is accepted in the same state with an expiry that is shown alike, at every clock
before that expiry. -/
theorem process_withExpiry {env : Env} {s s' : Accounts} {c : Call} {auth : Authorization}
    {clock e : Int64} (ha : c.ix.authorization = some auth) (h : process env s c = .ok s')
    (hlike : ShownAlike auth.expiry e) (he : clock < e) :
    (c.ix.withExpiry e).authorization = some { auth with expiry := e } ∧
      ∃ t, process env s ⟨clock, c.ix.withExpiry e⟩ = .ok t := by
  obtain ⟨clock', ix⟩ := c
  cases ix with
  | propose payer wallet intent args =>
    obtain ⟨w, i, msg, data, hacc, hdata, -⟩ := Propose.propose_eq_ok.mp h
    obtain rfl := Option.some.inj ha
    refine ⟨rfl, _, Propose.propose_eq_ok.mpr ⟨w, i, msg, data, ?_, hdata, rfl⟩⟩
    exact { hacc with
      expiry := he
      message := signedMessage_of_shownAlike (Propose.messageContext w args.expiry) hlike
        hacc.message }
  | approve wallet intent proposal args =>
    obtain ⟨w, i, p, voter, msg, hacc, happ, hst, hbit, -⟩ := Approve.approve_eq_ok.mp h
    obtain rfl := Option.some.inj ha
    refine ⟨rfl, _, Approve.approve_eq_ok.mpr ⟨w, i, p, voter, msg, ?_, happ, hst, hbit, rfl⟩⟩
    exact { hacc with
      expiry_gt := he
      message := signedMessage_of_shownAlike (voteContext w p (ascii "approve") args.expiry)
        hlike hacc.message }
  | cancel wallet intent proposal args =>
    obtain ⟨w, i, p, voter, msg, hacc, hst, hbit, -⟩ := Cancel.cancel_eq_ok.mp h
    obtain rfl := Option.some.inj ha
    refine ⟨rfl, _, Cancel.cancel_eq_ok.mpr ⟨w, i, p, voter, msg, ?_, hst, hbit, rfl⟩⟩
    exact { hacc with
      expiry_gt := he
      message := signedMessage_of_shownAlike (voteContext w p (ascii "cancel") args.expiry)
        hlike hacc.message }
  | createWallet | execute | cleanupProposal => cases ha

/-- With ideal signatures, a signature over a message that shows an expiry is not accepted from that
expiry on, when no later expiry is shown alike. -/
theorem rejected_of_not_shownAlike {env : Env} (ideal : env.IdealSignatures) {key : Address}
    {sig : Signature} {m : Bytes} {e : Int64} (hm : env.Shows m e)
    (hsig : env.sigVerify key sig m = true) (hlike : ∀ e' > e, ¬ ShownAlike e e') {s s' : Accounts}
    {c : Call} {auth : Authorization} (ha : c.ix.authorization = some auth)
    (heq : auth.signature = sig) (hclock : e ≤ c.clock) : process env s c ≠ .ok s' := by
  intro h
  obtain ⟨hexp, key', m', hm', hsig'⟩ := verified_of_process ha h
  rw [heq] at hsig'
  obtain ⟨-, rfl⟩ := ideal _ _ _ _ _ hsig hsig'
  exact hlike _ (Int64.lt_of_le_of_lt hclock hexp) (shownAlike_of_shows hm hm')

/-- The expiry is enforced exactly as far as its date tells it apart from later ones. Messages for two
expiries differ unless the expiries are shown alike; with ideal signatures, a signature over a message
that shows `e` is refused from `e` on unless a later expiry is shown alike, and one that is accepted
while it lasts is refused from `e` on only if no later expiry is shown alike. -/
theorem expiry_enforced_iff_not_shownAlike (env : Env) :
    (∀ (ctx : MessageContext) (intent : Intent) (data m : Bytes) (e₁ e₂ : Int64), e₁ < e₂ →
      signedMessage env.sha256 { ctx with expiry := e₁ } intent data = .ok m →
      (signedMessage env.sha256 { ctx with expiry := e₂ } intent data ≠ .ok m ↔
        ¬ ShownAlike e₁ e₂)) ∧
    (env.IdealSignatures →
      (∀ (key : Address) (sig : Signature) (m : Bytes) (e : Int64), env.Shows m e →
        env.sigVerify key sig m = true → (∀ e' > e, ¬ ShownAlike e e') →
        ∀ (s s' : Accounts) (c : Call) (auth : Authorization), c.ix.authorization = some auth →
          auth.signature = sig → e ≤ c.clock → process env s c ≠ .ok s') ∧
      (∀ (s s' : Accounts) (c : Call) (auth : Authorization), c.ix.authorization = some auth →
        process env s c = .ok s' →
        ((∀ (t t' : Accounts) (d : Call) (auth' : Authorization), d.ix.authorization = some auth' →
            auth'.signature = auth.signature → auth.expiry ≤ d.clock → process env t d ≠ .ok t') ↔
          ∀ e' > auth.expiry, ¬ ShownAlike auth.expiry e'))) := by
  constructor
  · intro ctx intent data m e₁ e₂ _ hm
    exact not_congr (signedMessage_expiry_iff hm)
  · intro ideal
    constructor
    · intro key sig m e hm hsig hlike s s' c auth ha heq hclock
      exact rejected_of_not_shownAlike ideal hm hsig hlike ha heq hclock
    · intro s s' c auth ha h
      constructor
      · intro hall e' he' hlike
        -- resubmit the call at the clock of its expiry, with the later expiry
        obtain ⟨ha', t, ht⟩ := process_withExpiry ha h hlike he'
        exact hall s t ⟨auth.expiry, c.ix.withExpiry e'⟩ { auth with expiry := e' } ha' rfl
          (Int64.le_refl _) ht
      · intro hlike t t' d auth' ha' heq hclock
        obtain ⟨-, key, msg, hm, hsig⟩ := verified_of_process ha h
        exact rejected_of_not_shownAlike ideal hm hsig hlike ha' heq hclock

/-! ## A year that comes back -/

namespace ExpirySample

open Sample

/-- Approvals by key 2, shown with the expiry 1000, and by key 3, shown with the last expiry but one. -/
def table : List (Address × Bytes) :=
  [(key 1, message "expires 1970-01-01 00:16:40: propose remove intent 1 | wallet: a proposal: 0"),
   (key 2, message "expires 1970-01-01 00:16:40: approve remove intent 1 | wallet: a proposal: 0"),
   (key 3, MessageBuilder.offchainHeader 76 ++ ascii "expires " ++ [162] ++
      ascii "468-12-04 15:30:06: approve remove intent 1 | wallet: a proposal: 0")]

/-- A wallet `a` and a proposal to remove its intent 1. -/
def proposed : List Call := [create "a" 1 1 [key 2], propose "a" 1 0 [1]]

/-- The approval with signature 1, submitted with an expiry. -/
def approval (expiry : Int64) : Instruction :=
  .approve (wallet "a") (intent "a" 1) (proposal "a" 1 0) ⟨expiry, 0, sig 1⟩

def context (expiry : Int64) : MessageContext := ⟨expiry, ascii "approve", ascii "a", 0⟩

/-- The intent to remove intents, as `create_wallet` stores it. -/
def removeIntent : Intent where
  wallet := wallet "a"
  bump := 255
  intentIndex := 1
  intentType := 1
  approved := 1
  approvalThreshold := 1
  cancellationThreshold := 1
  timelockSeconds := 0
  templateOffset := 0
  templateLen := 0
  activeProposalCount := 1
  proposers := vec [key 1]
  approvers := vec [key 2]
  params := .empty
  accounts := .empty
  instructions := .empty
  dataSegments := .empty
  seeds := .empty
  bytePool := .empty

end ExpirySample

open ExpirySample Sample in
theorem expiry_enforced_sample :
    (signedMessage (env table).sha256 { context 0 with expiry := 2000 } removeIntent [1] ≠
        .ok (table.getD 1 (key 0, [])).2 ↔ ¬ ShownAlike 1000 2000) ∧
      process (env table) Accounts.none ⟨Int64.maxValue,
        .approve (wallet "a") (intent "a" 1) (proposal "a" 1 0) ⟨Int64.maxValue, 0, sig 2⟩⟩ ≠ .ok Accounts.none ∧
      ∃ s s', process (env table) s ⟨0, approval 1000⟩ = .ok s' ∧
        ((∀ (t t' : Accounts) (d : Call) (auth' : Authorization), d.ix.authorization = some auth' →
            auth'.signature = sig 1 → 1000 ≤ d.clock → process (env table) t d ≠ .ok t') ↔
          ∀ e' > 1000, ¬ ShownAlike 1000 e') := by
  obtain ⟨hmessages, hcalls⟩ := expiry_enforced_iff_not_shownAlike (env table)
  obtain ⟨hreject, haccept⟩ := hcalls (env_idealSignatures table)
  refine ⟨?_, ?_, ?_⟩
  · refine hmessages (context 0) removeIntent [1] _ 1000 2000 (by decide) ?_
    rw [table, message_ofList, message_ofList]
    decide +kernel
  · refine hreject (key 3) (sig 2) (table.getD 2 (key 0, [])).2 (Int64.maxValue - 1)
      ⟨context (Int64.maxValue - 1), removeIntent, [1], rfl, by decide +kernel⟩ (by decide +kernel)
      (fun e' he' => ?_) Accounts.none Accounts.none _ ⟨Int64.maxValue, sig 2⟩ rfl rfl (by decide)
    have hmax : e' = Int64.maxValue := by
      have h1 := Int64.lt_iff_toInt_lt.mp he'
      have h2 := e'.toInt_lt
      have h3 : (Int64.maxValue - 1).toInt = 2 ^ 63 - 2 := by decide
      have h4 : Int64.maxValue.toInt = 2 ^ 63 - 1 := by decide
      exact Int64.toInt_inj.mp (by omega)
    rw [hmax, ← dateText_timestamp_eq_iff]
    decide +kernel
  · have hobs : (replay (env table) (proposed ++ [⟨0, approval 1000⟩])).isSome = true := by
      rw [table, message_ofList, message_ofList]
      decide +kernel
    obtain ⟨s, s', -, h⟩ := accepted_of_replay (env table) proposed ⟨0, approval 1000⟩ hobs
    exact ⟨s, s', h, haccept s s' _ ⟨1000, sig 1⟩ rfl h⟩

open ExpirySample Sample in
/-- 256000 years after 1970-01-01 00:16:40 the same date is shown: the approval that shows this expiry
is accepted when it has passed, with the later expiry as argument. -/
theorem expiry_collision :
    (1000 : Int64) < 8078579713000 ∧
      signedMessage (env table).sha256 (context 1000) removeIntent [1] =
        .ok (table.getD 1 (key 0, [])).2 ∧
      signedMessage (env table).sha256 (context 8078579713000) removeIntent [1] =
        .ok (table.getD 1 (key 0, [])).2 ∧
      (env table).IdealSignatures ∧
      ∃ s s', Runs.Reachable (program (env table)) s ∧
        process (env table) s ⟨1000, approval 8078579713000⟩ = .ok s' := by
  have hobs : (replay (env table) (proposed ++ [⟨1000, approval 8078579713000⟩])).isSome = true := by
    rw [table, message_ofList, message_ofList]
    decide +kernel
  refine ⟨by decide, ?_, ?_, env_idealSignatures table, accepted_of_replay (env table) _ _ hobs⟩
  · rw [table, message_ofList, message_ofList]
    decide +kernel
  · rw [table, message_ofList, message_ofList]
    decide +kernel

end ClearMsig
