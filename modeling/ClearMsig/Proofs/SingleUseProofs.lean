import ClearMsig.Instructions.Proofs.SignedProofs
import ClearMsig.Proofs.NumberingProofs
import ClearMsig.Proofs.SeparationProofs
import ClearMsig.Proofs.VotesProofs

/-!
# A signature is good for one proposal and one action

A message names its action and the number of its proposal, and the two can be read off whatever stands
in between. A wallet gives out every number once. For the messages of two wallets: no intent of a run
has a byte pool, so every content is empty or the phrase of a meta-intent, and the wallet name can be
read off as well.
-/

namespace ClearMsig

open History

variable {env : Env} {s s' : Accounts} {c : Call} {a : Address}

/-- The event is a `propose` that accepts the message `msg`. -/
def Proposes (env : Env) (msg : Bytes) (e : Runs.Event Accounts Call) : Prop :=
  ∃ payer walletAddr intentAddr args wallet intent,
    e.label.ix = .propose payer walletAddr intentAddr args ∧
    Propose.Accepted env e.label.clock e.pre walletAddr intentAddr args wallet intent msg

/-! ## Proposals -/

/-- Messages that two states accept are those of different wallets or numbers, unless they agree on
both. -/
theorem same_number_of_message {s₁ s₂ : Accounts} {W₁ W₂ I₁ I₂ : Address} {w₁ w₂ : ClearWallet}
    {i₁ i₂ : Intent} {ctx₁ ctx₂ : MessageContext} {data₁ data₂ msg : Bytes}
    (hr₁ : Runs.Reachable (program env) s₁) (hr₂ : Runs.Reachable (program env) s₂)
    (hw₁ : s₁.wallet? W₁ = some w₁) (hw₂ : s₂.wallet? W₂ = some w₂) (hi₁ : s₁.intent? I₁ = some i₁)
    (hi₂ : s₂.intent? I₂ = some i₂) (hn₁ : ctx₁.walletName = w₁.name) (hn₂ : ctx₂.walletName = w₂.name)
    (ha₁ : IsAction ctx₁.action) (ha₂ : IsAction ctx₂.action)
    (hm₁ : signedMessage env.sha256 ctx₁ i₁ data₁ = .ok msg)
    (hm₂ : signedMessage env.sha256 ctx₂ i₂ data₂ = .ok msg) :
    W₁ = W₂ ∧ ctx₁.proposalIndex = ctx₂.proposalIndex := by
  obtain ⟨content₁, content₂, hc₁, hc₂, htext⟩ := messageText_eq_of_signedMessage hm₁ hm₂
  obtain ⟨-, hindex, hmiddle⟩ := ends_of_messageText ha₁ ha₂ htext
  obtain ⟨t₁, -, hcontent₁⟩ := contentText_eq_ok hc₁
  obtain ⟨t₂, -, hcontent₂⟩ := contentText_eq_ok hc₂
  have hphrased₁ := Stored.phrased ⟨s₁, I₁, hr₁, hi₁⟩ hcontent₁
  have hphrased₂ := Stored.phrased ⟨s₂, I₂, hr₂, hi₂⟩ hcontent₂
  have hname := (hphrased₁.append_inj hphrased₂ hmiddle).2
  rw [hn₁, hn₂] at hname
  refine ⟨?_, hindex⟩
  rw [wallet_addr_of_reachable hr₁ hw₁, wallet_addr_of_reachable hr₂ hw₂, hname]

/-- After a `propose` the number in its message has been given out. -/
theorem spent_of_propose {payer walletAddr intentAddr : Address} {args : ProposeArgs}
    {wallet : ClearWallet} (hr : Runs.Reachable (program env) s) (hstep : process env s c = .ok s')
    (hix : c.ix = .propose payer walletAddr intentAddr args)
    (hw : s walletAddr = some (.wallet wallet)) :
    Spent walletAddr wallet.proposalIndex (fun _ _ => True) s' := by
  have heff := (sound_of_reachable hr).effect hstep
  have hpropose : Propose.propose env c.clock s payer walletAddr intentAddr args = .ok s' := by
    simpa only [process, hix] using hstep
  obtain ⟨w, i, msg, data, hacc, hdata, -⟩ := Propose.propose_eq_ok.mp hpropose
  have hsame : some (AccountData.wallet w) = some (.wallet wallet) := hacc.wallet_eq.symm.trans hw
  cases hsame
  have hnew : NewProposal env s c _ (Propose.newProposal walletAddr intentAddr payer wallet c.clock 0
    args data) := .mk hix hacc hdata
  exact ⟨heff.counted_new hnew, fun _ _ _ _ _ => trivial⟩

/-- A message that was accepted by a `propose` of a run is not accepted by a later one. -/
theorem not_proposes_again {tr : List (Runs.Event Accounts Call)} (hrun : Runs.Run (program env) tr s)
    {e e' : Runs.Event Accounts Call} (he' : e' ∈ tr) (hpre : e.pre = s) {msg : Bytes}
    (h : Proposes env msg e) : ¬ Proposes env msg e' := by
  rintro ⟨payer', W', I', args', w', i', hix', hacc'⟩
  obtain ⟨payer, W, I, args, w, i, hix, hacc⟩ := h
  obtain ⟨later, earlier, rfl, hrun', hstep'⟩ := hrun.step_of_mem he'
  subst hpre
  obtain ⟨rfl, hindex⟩ := same_number_of_message ⟨_, hrun⟩ ⟨_, hrun'⟩
    (Accounts.wallet?_of_eq hacc.wallet_eq) (Accounts.wallet?_of_eq hacc'.wallet_eq)
    (Accounts.intent?_of_eq hacc.intent_eq) (Accounts.intent?_of_eq hacc'.intent_eq) rfl rfl
    (.inl rfl) (.inl rfl) hacc.message hacc'.message
  have hspent := (spent_of_propose ⟨_, hrun'⟩ hstep' hix' hacc'.wallet_eq).of_run hrun
  obtain ⟨u, hu, hlt⟩ := hspent.given
  obtain rfl := Option.some.inj ((Accounts.wallet?_of_eq hacc.wallet_eq).symm.trans hu)
  rw [← show w.proposalIndex = w'.proposalIndex from hindex] at hlt
  exact lt_irrefl _ hlt

/-- Every propose message is accepted at most once in a run. -/
theorem proposes_pairwise {tr : List (Runs.Event Accounts Call)} (hrun : Runs.Run (program env) tr s) :
    tr.Pairwise fun e e' => ∀ msg, Proposes env msg e → ¬ Proposes env msg e' := by
  induction hrun with
  | start h => exact .nil
  | next hr hstep ih =>
    exact List.Pairwise.cons (fun e' he' msg h => not_proposes_again hr he' rfl h) ih

/-! ## Votes -/

/-- A vote of a run, with its message. -/
theorem accepted_of_ballot {tr : List (Runs.Event Accounts Call)} (hrun : Runs.Run (program env) tr s)
    {e : Runs.Event Accounts Call} (he : e ∈ tr) {b : Ballot} (hb : e.label.ix.ballot? = some b) :
    ∃ w i p k msg, VoteAccepted env e.label.clock e.pre b.wallet b.intent b.proposal b.vote.action
      b.expiry b.index b.signature w i p k msg := by
  have hmarks : Marks b.proposal b.vote b.index e := ⟨b, hb, rfl, rfl, rfl⟩
  obtain ⟨k, sig, msg, b', w, i, p, hb', -, -, -, rfl, hacc⟩ := (marks_iff_casts hrun he).mp hmarks
  obtain rfl := Option.some.inj (hb.symm.trans hb')
  exact ⟨w, i, p, k, msg, hacc⟩

theorem Vote.isAction (v : Vote) : IsAction v.action := by
  cases v with
  | approve => exact .inr (.inl rfl)
  | cancel => exact .inr (.inr rfl)

/-- Two votes in one wallet with one signature are for one proposal, which has been there all the
while. -/
theorem same_proposal_of_signature (hideal : env.IdealSignatures)
    {later mid earlier : List (Runs.Event Accounts Call)} {e e' : Runs.Event Accounts Call}
    (hrun : Runs.Run (program env) (later ++ e' :: (mid ++ e :: earlier)) s) {b b' : Ballot}
    (hb : e.label.ix.ballot? = some b) (hb' : e'.label.ix.ballot? = some b')
    (hwallet : b'.wallet = b.wallet) (hsig : b'.signature = b.signature) :
    b'.proposal = b.proposal ∧ ∀ e₁ ∈ mid, Alive b.proposal e₁ := by
  obtain ⟨w, i, p, k, msg, hacc⟩ := accepted_of_ballot hrun (by simp) hb
  obtain ⟨w', i', p', k', msg', hacc'⟩ := accepted_of_ballot hrun (by simp) hb'
  obtain ⟨-, rfl⟩ := hideal _ _ _ _ _ hacc.verified (hsig ▸ hacc'.verified)
  obtain ⟨content, content', -, -, htext⟩ := messageText_eq_of_signedMessage hacc.message hacc'.message
  obtain ⟨-, hindex, -⟩ := ends_of_messageText b.vote.isAction b'.vote.isAction htext
  replace hindex : p.proposalIndex = p'.proposalIndex := hindex
  obtain ⟨hrun', -⟩ := hrun.split
  obtain ⟨hrun₀, hstep₀⟩ := hrun'.split
  have hp := Accounts.proposal?_of_eq hacc.proposal_eq
  have hp' := Accounts.proposal?_of_eq hacc'.proposal_eq
  have hpw : p'.wallet = p.wallet := hacc'.wallet_addr.trans (hwallet.trans hacc.wallet_addr.symm)
  have hspent := ((numbered_of_reachable ⟨_, hrun₀⟩).spent hp).of_effect
    ((sound_of_reachable ⟨_, hrun₀⟩).effect hstep₀)
  refine ⟨((hspent.of_run hrun').holders _ p' hp' hpw hindex.symm).1, fun e₁ he₁ => ?_⟩
  -- a proposal that had gone in between would not have got its number back
  by_contra hgone
  obtain ⟨mid₂, mid₁, rfl⟩ := List.append_of_mem he₁
  rw [List.append_assoc, List.cons_append] at hrun'
  obtain ⟨hrun₁, hstep₁⟩ := hrun'.split
  have hnone : e₁.pre.proposal? b.proposal = none := by
    simpa [Alive] using hgone
  have hnobody := ((hspent.of_run hrun₁).nobody hnone).of_effect
    ((sound_of_reachable ⟨_, hrun₁⟩).effect hstep₁)
  exact (hnobody.of_run hrun').holders _ p' hp' hpw hindex.symm

/-- A signature is good for one proposal and one action. In every run: a propose message is accepted at
most once; with ideal signatures, votes with one signature in one wallet are for one proposal, which has
existed from the first to the second of them; and calls with one signature have the same action. -/
theorem one_proposal_one_action (env : Env) {tr : List (Runs.Event Accounts Call)} {s : Accounts}
    (hrun : Runs.Run (program env) tr s) :
    (tr.Pairwise fun e e' => ∀ msg, Proposes env msg e → ¬ Proposes env msg e') ∧
    (env.IdealSignatures →
      (∀ later mid earlier e e' b b', tr = later ++ e' :: (mid ++ e :: earlier) →
        e.label.ix.ballot? = some b → e'.label.ix.ballot? = some b' → b'.wallet = b.wallet →
        b'.signature = b.signature →
        b'.proposal = b.proposal ∧ ∀ e₁ ∈ mid, Alive b.proposal e₁) ∧
      (∀ e ∈ tr, ∀ e' ∈ tr, ∀ auth auth', e.label.ix.authorization = some auth →
        e'.label.ix.authorization = some auth' → auth'.signature = auth.signature →
        e'.label.ix.action = e.label.ix.action)) := by
  refine ⟨proposes_pairwise hrun, fun hideal => ⟨?_, ?_⟩⟩
  · rintro later mid earlier e e' b b' rfl hb hb' hwallet hsig
    exact same_proposal_of_signature hideal hrun hb hb' hwallet hsig
  · intro e he e' he' auth auth' hauth hauth' hsig
    obtain ⟨-, -, -, -, hstep⟩ := hrun.step_of_mem he
    obtain ⟨-, -, -, -, hstep'⟩ := hrun.step_of_mem he'
    obtain ⟨ctx, i, data, msg, hsigned⟩ := signed_of_process hauth hstep
    obtain ⟨ctx', i', data', msg', hsigned'⟩ := signed_of_process hauth' hstep'
    obtain ⟨k, hk⟩ := hsigned.verified
    obtain ⟨k', hk'⟩ := hsigned'.verified
    obtain ⟨-, rfl⟩ := hideal _ _ _ _ _ hk (hsig ▸ hk')
    obtain ⟨content, content', -, -, htext⟩ :=
      messageText_eq_of_signedMessage hsigned.message hsigned'.message
    obtain ⟨haction, -, -⟩ := ends_of_messageText hsigned.hands.isAction hsigned'.hands.isAction htext
    rw [hsigned.hands.action_eq, hsigned'.hands.action_eq, haction]

namespace SingleUseSample

open Sample

def table : List (Address × Bytes) :=
  [(key 1, message "expires 1970-01-01 00:16:40: propose remove intent 2 | wallet: a proposal: 0"),
   (key 2, message "expires 1970-01-01 00:16:40: approve remove intent 2 | wallet: a proposal: 0"),
   (key 2, message "expires 1970-01-01 00:16:40: cancel remove intent 2 | wallet: a proposal: 0")]

/-- An approval that is withdrawn and submitted again. -/
def calls : List Call :=
  [create "a" 2 2 [key 2, key 3], propose "a" 1 0 [2], approve "a" 1 0 0 1, cancel "a" 1 0 0 2,
   approve "a" 1 0 0 1]

end SingleUseSample

open SingleUseSample Sample in
theorem one_proposal_one_action_sample :
    ∃ (e e₁ e' e₂ e₃ : Runs.Event Accounts Call) (s : Accounts),
      Runs.Run (program (Sample.env table)) [e', e₁, e, e₂, e₃] s ∧
      [e', e₁, e, e₂, e₃].map (·.label) = calls.reverse ∧
      ([e', e₁, e, e₂, e₃].Pairwise fun e e' =>
        ∀ msg, Proposes (Sample.env table) msg e → ¬ Proposes (Sample.env table) msg e') ∧
      Alive (proposal "a" 1 0) e₁ ∧ e'.label.ix.action = e.label.ix.action := by
  have hobs : observe (Sample.env table) calls (fun _ _ => ()) = some () := by
    rw [table, message_ofList, message_ofList, message_ofList]
    decide +kernel
  obtain ⟨tr, s, hrun, hlabels, -⟩ := run_of_observe hobs
  have hmap := hlabels
  simp only [calls, List.reverse_cons, List.reverse_nil, List.nil_append, List.cons_append,
    List.map_eq_cons_iff, List.map_eq_nil_iff] at hlabels
  obtain ⟨e', -, rfl, hl', e₁, -, rfl, -, e, -, rfl, hl, e₂, -, rfl, -, e₃, -, rfl, -, rfl⟩ := hlabels
  obtain ⟨hpairwise, hideal⟩ := one_proposal_one_action (Sample.env table) hrun
  obtain ⟨hvotes, hactions⟩ := hideal (env_idealSignatures table)
  refine ⟨e, e₁, e', e₂, e₃, s, hrun, hmap, hpairwise, ?_, ?_⟩
  · have hsame := hvotes [] [e₁] [e₂, e₃] e e'
      ⟨.approve, wallet "a", intent "a" 1, proposal "a" 1 0, 1000, 0, sig 1⟩
      ⟨.approve, wallet "a", intent "a" 1, proposal "a" 1 0, 1000, 0, sig 1⟩ rfl (by rw [hl]; rfl)
      (by rw [hl']; rfl) rfl rfl
    exact hsame.2 e₁ List.mem_cons_self
  · exact hactions e (by simp) e' (by simp) ⟨1000, sig 1⟩ ⟨1000, sig 1⟩ (by rw [hl]; rfl)
      (by rw [hl']; rfl) rfl

end ClearMsig
