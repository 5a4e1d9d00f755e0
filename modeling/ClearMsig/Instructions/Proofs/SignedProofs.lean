import ClearMsig.Instructions.Proofs.AcceptedProofs
import ClearMsig.Separation

/-!
# What an accepted signed call has verified

`propose`, `approve` and `cancel` seen alike: the message that the signature was verified for.
-/

namespace ClearMsig

variable {env : Env} {s s' : Accounts} {c : Call}

/-- The message of a signed instruction names its action. -/
theorem Instruction.Hands.action_eq {ix : Instruction} {ctx : MessageContext} {intent : Intent}
    {data : Bytes} (h : ix.Hands s ctx intent data) : ix.action = some ctx.action := by
  cases h <;> rfl

theorem Instruction.Hands.isAction {ix : Instruction} {ctx : MessageContext} {intent : Intent}
    {data : Bytes} (h : ix.Hands s ctx intent data) : IsAction ctx.action := by
  cases h with
  | propose => exact .inl rfl
  | approve => exact .inr (.inl rfl)
  | cancel => exact .inr (.inr rfl)

/-- An accepted call has verified its signature for the message that it hands over, which shows its expiry,
and the expiry lies after the clock. -/
structure Signed (env : Env) (s : Accounts) (c : Call) (auth : Authorization) (ctx : MessageContext)
    (intent : Intent) (data msg : Bytes) : Prop where
  hands : c.ix.Hands s ctx intent data
  expiry_eq : ctx.expiry = auth.expiry
  unexpired : c.clock < auth.expiry
  message : signedMessage env.sha256 ctx intent data = .ok msg
  verified : ∃ key, env.sigVerify key auth.signature msg = true

theorem signed_of_process {auth : Authorization} (ha : c.ix.authorization = some auth)
    (h : process env s c = .ok s') : ∃ ctx intent data msg, Signed env s c auth ctx intent data msg := by
  obtain ⟨clock, ix⟩ := c
  cases ix with
  | propose payer wallet intent args =>
    obtain ⟨w, i, msg, data, hacc, -, -⟩ := Propose.propose_eq_ok.mp h
    obtain rfl := Option.some.inj ha
    exact ⟨_, i, _, msg, .propose (Accounts.wallet?_eq_some.mpr hacc.wallet_eq)
      (Accounts.intent?_eq_some.mpr hacc.intent_eq), rfl, hacc.expiry, hacc.message, _, hacc.signature⟩
  | approve wallet intent proposal args =>
    obtain ⟨w, i, p, voter, msg, hacc, -⟩ := Approve.approve_eq_ok.mp h
    obtain rfl := Option.some.inj ha
    exact ⟨_, i, _, msg, .approve (Accounts.wallet?_eq_some.mpr hacc.wallet_eq)
      (Accounts.intent?_eq_some.mpr hacc.intent_eq) (Accounts.proposal?_eq_some.mpr hacc.proposal_eq),
      rfl, hacc.expiry_gt, hacc.message, _, hacc.verified⟩
  | cancel wallet intent proposal args =>
    obtain ⟨w, i, p, voter, msg, hacc, -⟩ := Cancel.cancel_eq_ok.mp h
    obtain rfl := Option.some.inj ha
    exact ⟨_, i, _, msg, .cancel (Accounts.wallet?_eq_some.mpr hacc.wallet_eq)
      (Accounts.intent?_eq_some.mpr hacc.intent_eq) (Accounts.proposal?_eq_some.mpr hacc.proposal_eq),
      rfl, hacc.expiry_gt, hacc.message, _, hacc.verified⟩
  | createWallet | execute | cleanupProposal => cases ha

end ClearMsig
