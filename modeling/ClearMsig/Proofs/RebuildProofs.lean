import ClearMsig.Proofs.CounterProofs
import ClearMsig.Proofs.WalletProofs
import ClearMsig.Sample
import ClearMsig.Utils.Proofs.MessageProofs

/-!
# What can be proposed can be voted on

The messages on a proposal differ in their action and their date. Every date has 19 characters, and no
action is longer than `propose`, so that a vote fits wherever the proposal did. Wallets keep their names
and intents their definitions, so that it still does when the vote is given.
-/

namespace ClearMsig

variable {env : Env} {s s' : Accounts} {c : Call}

/-! ## The content of a message depends on the definition -/

section Content

variable {sha256 : Bytes → ByteArr 32} {i i' : Intent} {data : Bytes}

theorem Token.text_definition (t : Token) : t.text i.definition data = t.text i data := by
  cases t <;> rfl

theorem tokensText_definition (ts : List Token) :
    tokensText i.definition data ts = tokensText i data ts := by
  induction ts with
  | nil => rfl
  | cons t ts ih => rw [tokensText, tokensText, t.text_definition, ih]

theorem contentText_definition :
    contentText sha256 i.definition data = contentText sha256 i data := by
  have htype : i.definition.readType = i.readType := rfl
  have htokens : i.definition.tokens = i.tokens := rfl
  rw [contentText, contentText, htype]
  congr 1
  funext t
  cases t with
  | addIntent | removeIntent | updateIntent => rfl
  | custom => simp only [contentOf, htokens, tokensText_definition]

theorem contentText_congr (h : i'.definition = i.definition) :
    contentText sha256 i' data = contentText sha256 i data := by
  rw [← contentText_definition (i := i'), h, contentText_definition]

end Content

/-! ## Votes fit where the proposal did -/

/-- A context with the same wallet and index and no longer action makes no longer a message. -/
theorem messageText_length_le (ctx ctx' : MessageContext) (content : Bytes)
    (hname : ctx'.walletName = ctx.walletName) (hindex : ctx'.proposalIndex = ctx.proposalIndex)
    (haction : ctx'.action.length ≤ ctx.action.length) :
    (messageText ctx' content).length ≤ (messageText ctx content).length := by
  simp only [messageText, headText, tailText, hname, hindex, List.length_append, dateText_length]
  omega

/-- Both votes on a proposal have a message, whatever their expiry. -/
def Votable (sha256 : Bytes → ByteArr 32) (ctx : MessageContext) (intent : Intent) (data : Bytes) :
    Prop :=
  ∀ (expiry : Int64) (action : Bytes), action = ascii "approve" ∨ action = ascii "cancel" →
    ∃ msg, signedMessage sha256 { ctx with action, expiry } intent data = .ok msg

/-- The content of a proposal that fits leaves room for the votes on it. -/
theorem votable_of_fits {sha256 : Bytes → ByteArr 32} {ctx : MessageContext} {intent : Intent}
    {data content : Bytes} (hpropose : ctx.action = ascii "propose")
    (hcontent : contentText sha256 intent data = .ok content)
    (hfit : 20 + (messageText ctx content).length ≤ MSG_BUF_SIZE) :
    Votable sha256 ctx intent data := by
  intro expiry action haction
  have hshort : action.length ≤ ctx.action.length := by
    rw [hpropose]
    rcases haction with rfl | rfl <;> decide
  have hlen := messageText_length_le ctx { ctx with action, expiry } content rfl rfl hshort
  exact ⟨_, signedMessage_eq_ok.mpr ⟨content, hcontent, (Nat.add_le_add_left hlen 20).trans hfit, rfl⟩⟩

/-! ## Every proposal has its content -/

/-- For every proposal there is the content that its message shows, and it leaves room for the longest
action. -/
def Rebuildable (env : Env) (s : Accounts) : Prop :=
  ∀ a p, s.proposal? a = some p → ∃ w i content, s.wallet? p.wallet = some w ∧
    s.intent? p.intent = some i ∧ contentText env.sha256 i p.paramsData.toList = .ok content ∧
    20 + (messageText (voteContext w p (ascii "propose") 0) content).length ≤ MSG_BUF_SIZE

theorem Rebuildable.of_effect (hr : Rebuildable env s) (h : Effect env s c s') : Rebuildable env s' := by
  intro a p' hp'
  rcases h.proposal_origin hp' with ⟨p, hp, hterms, -⟩ | ⟨-, hnew⟩
  · obtain ⟨w, i, content, hw, hi, hcontent, hfit⟩ := hr a p hp
    obtain ⟨w', hw', hlater⟩ := h.wallet_later hw
    obtain ⟨i', hi', hd⟩ := h.intent_kept hi
    have hlen := messageText_length_le (voteContext w p (ascii "propose") 0)
      (voteContext w' p' (ascii "propose") 0) content hlater.name_eq
      (Proposal.proposalIndex_congr hterms) le_rfl
    rw [← Proposal.wallet_congr hterms] at hw'
    rw [← Proposal.intent_congr hterms] at hi'
    refine ⟨w', i', content, hw', hi', ?_, (Nat.add_le_add_left hlen 20).trans hfit⟩
    rw [contentText_congr hd, Proposal.paramsData_congr hterms, hcontent]
  · cases hnew with
    | @mk payer walletAddr intentAddr args wallet intent msg data bump hc hacc hdata =>
      obtain ⟨content, hcontent, hfit, -⟩ := signedMessage_eq_ok.mp hacc.message
      obtain ⟨w', hw', hlater⟩ := h.wallet_later (Accounts.wallet?_of_eq hacc.wallet_eq)
      obtain ⟨i', hi', hd⟩ := h.intent_kept (Accounts.intent?_of_eq hacc.intent_eq)
      let p := Propose.newProposal walletAddr intentAddr payer wallet c.clock bump args data
      have hlen := messageText_length_le (Propose.messageContext wallet args.expiry)
        (voteContext w' p (ascii "propose") 0) content hlater.name_eq rfl le_rfl
      refine ⟨w', i', content, hw', hi', ?_, (Nat.add_le_add_left hlen 20).trans hfit⟩
      have hparams : p.paramsData.toList = args.paramsData := hdata
      rw [contentText_congr hd, hparams, hcontent]

theorem rebuildable_of_reachable (h : Runs.Reachable (program env) s) : Rebuildable env s := by
  have hboth : Sound s ∧ Rebuildable env s := by
    refine Runs.Reachable.invariant (P := fun s => Sound s ∧ Rebuildable env s) h ?_ ?_
    · rintro _ rfl
      exact ⟨sound_init, fun _ _ h => absurd h (by simp [Accounts.none])⟩
    · rintro _ _ _ ⟨hs, hr⟩ hstep
      exact ⟨hs.step hstep, hr.of_effect (hs.effect hstep)⟩
  exact hboth.2

/-- Both votes on a proposal can be built with its wallet and its intent as they now stand. -/
theorem Rebuildable.votable (h : Rebuildable env s) {a : Address} {p : Proposal}
    (hp : s.proposal? a = some p) :
    ∃ w i, s.wallet? p.wallet = some w ∧ s.intent? p.intent = some i ∧
      Votable env.sha256 (voteContext w p (ascii "propose") 0) i p.paramsData.toList := by
  obtain ⟨w, i, content, hw, hi, hcontent, hfit⟩ := h a p hp
  exact ⟨w, i, hw, hi, votable_of_fits rfl hcontent hfit⟩

/-- What can be proposed can be voted on. When the message of a proposal can be built for an intent and its
parameters, so can those of both votes on it, for every expiry; and in every reachable state this holds
of every proposal that has been accepted. -/
theorem proposed_is_votable (env : Env) :
    (∀ ctx intent data msg, ctx.action = ascii "propose" →
      signedMessage env.sha256 ctx intent data = .ok msg → Votable env.sha256 ctx intent data) ∧
    ∀ s a p, Runs.Reachable (program env) s → s.proposal? a = some p →
      ∃ w i, s.wallet? p.wallet = some w ∧ s.intent? p.intent = some i ∧
        Votable env.sha256 (voteContext w p (ascii "propose") 0) i p.paramsData.toList := by
  refine ⟨fun ctx intent data msg hpropose h => ?_, fun s a p hr hp =>
    (rebuildable_of_reachable hr).votable hp⟩
  obtain ⟨content, hcontent, hfit, -⟩ := signedMessage_eq_ok.mp h
  exact votable_of_fits hpropose hcontent hfit

namespace RebuildSample

open Sample

def table : List (Address × Bytes) :=
  [(key 1, message "expires 1970-01-01 00:16:40: propose remove intent 2 | wallet: a proposal: 0")]

end RebuildSample

open RebuildSample Sample in
/-- A custom intent with a number in its template, and a proposal that a wallet has accepted. -/
theorem proposed_is_votable_sample :
    Votable (Sample.env []).sha256 (contextFor "a") (templated [.u8] "pay {0}") [7] ∧
      ∃ (s : Accounts) (p : Proposal) (w : ClearWallet) (i : Intent),
        Runs.Reachable (program (Sample.env table)) s ∧ s.proposal? (proposal "a" 1 0) = some p ∧
        s.wallet? p.wallet = some w ∧ s.intent? p.intent = some i ∧
        Votable (Sample.env table).sha256 (voteContext w p (ascii "propose") 0) i p.paramsData.toList := by
  have hm : messageFor "a" (templated [.u8] "pay {0}") [7] =
      .ok (message "expires 1970-01-01 00:16:40: propose pay 7 | wallet: a proposal: 0") := by
    rw [message_ofList]
    decide +kernel
  refine ⟨(proposed_is_votable (Sample.env [])).1 _ _ _ _ rfl hm, ?_⟩
  have hobs : observe (Sample.env table) [create "a" 1 1 [key 2], propose "a" 1 0 [2]]
      (fun _ s => (s.proposal? (proposal "a" 1 0)).isSome) = some true := by
    rw [table, message_ofList]
    decide +kernel
  obtain ⟨tr, s, hrun, -, hsome⟩ := run_of_observe hobs
  obtain ⟨p, hp⟩ := Option.isSome_iff_exists.mp hsome
  obtain ⟨w, i, hw, hi, hvotable⟩ := (proposed_is_votable (Sample.env table)).2 s _ p ⟨tr, hrun⟩ hp
  exact ⟨s, p, w, i, ⟨tr, hrun⟩, hp, hw, hi, hvotable⟩

end ClearMsig
