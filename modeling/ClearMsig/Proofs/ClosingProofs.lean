import ClearMsig.Proofs.RebuildProofs

/-!
# Approvers can close an open proposal

As long as a proposal is open, fewer list entries than the threshold have cancelled, so that another one
can; each cancellation brings the proposal closer to its end.
-/

namespace ClearMsig

open Registry

variable {env : Env} {s s' : Accounts} {c : Call}

/-! ## One cancellation -/

/-- The call that cancels the proposal at `a`. -/
def cancelCall (clock : Int64) (p : Proposal) (a : Address) (args : CancelArgs) : Call :=
  ⟨clock, .cancel p.wallet p.intent a args⟩

/-- The event is a vote to cancel the proposal at `a`, submitted at the clock and with the expiry that the
state before it is given. The approver, whom the list has at the index of the vote, has not cancelled
the proposal. -/
inductive Cancels (env : Env) (clock expiry : Accounts → Int64) (a : Address) :
    Runs.Event Accounts Call → Prop where
  | mk {s s' : Accounts} {args : CancelArgs} {w : ClearWallet} {i : Intent} {p : Proposal}
      {voter : Address} {msg : Bytes} (hexpiry : args.expiry = expiry s)
      (hacc : VoteAccepted env (clock s) s p.wallet p.intent a (ascii "cancel") args.expiry
        args.cancellerIndex args.signature w i p voter msg)
      (hopen : p.IsOpen) (hentry : args.cancellerIndex.toNat ∉ p.no)
      (hkey : i.approvers.toList.Nodup → ∀ k ∈ p.no, i.approvers.toList[k]? ≠ some voter) :
      Cancels env clock expiry a ⟨s, cancelCall (clock s) p a args, s'⟩

/-- The event makes the proposal at `a` cancelled and lowers the counter of its intent by one. -/
inductive Closes (a intentAddr : Address) : Runs.Event Accounts Call → Prop where
  | mk {s s' : Accounts} {c : Call} {p' : Proposal} {i i' : Intent}
      (hproposal : s'.proposal? a = some p') (hterms : p'.intent = intentAddr)
      (hstatus : p'.status = .cancelled) (hbefore : s.intent? intentAddr = some i)
      (hafter : s'.intent? intentAddr = some i')
      (hcount : i.activeProposalCount.toNat = i'.activeProposalCount.toNat + 1) :
      Closes a intentAddr ⟨s, c, s'⟩

/-- An open proposal of an intent whose list is long enough has an entry that has not cancelled. -/
theorem Tallied.exists_canceller {i : Intent} {p : Proposal} (h : Tallied i p) (hi : i.Configured)
    (hopen : p.IsOpen) (hpos : 1 ≤ i.cancellationThreshold.toNat)
    (hle : i.cancellationThreshold.toNat ≤ i.approvers.toList.length) :
    p.no.card < i.cancellationThreshold.toNat ∧
      ∃ idx : UInt8, ∃ voter, i.approvers.toList[idx.toNat]? = some voter ∧ idx.toNat ∉ p.no := by
  have hthresholds : i.ThresholdsOk := by
    rcases hi with hnil | ⟨hth, -⟩
    · rw [hnil, List.length_nil] at hle
      omega
    · exact hth
  have hcard := h.no_card_lt hthresholds hopen
  have hlt : p.no.card < (Finset.range i.approvers.toList.length).card := by
    rw [Finset.card_range]
    omega
  obtain ⟨k, hk, hnot⟩ := Finset.exists_mem_notMem_of_card_lt_card hlt
  rw [Finset.mem_range] at hk
  have hidx : (UInt8.ofNat k).toNat = k := by
    have hlen := i.approvers.len_le
    rw [UInt8.toNat_ofNat']
    exact Nat.mod_eq_of_lt (by omega)
  exact ⟨hcard, UInt8.ofNat k, i.approvers.toList[k], by rw [hidx, List.getElem?_eq_getElem hk],
    by rwa [hidx]⟩

/-- In a list without repetitions, an entry that has not cancelled holds a key that has not. -/
theorem voter_ne_of_nodup {voters : List Address} (h : voters.Nodup) {votes : Finset Nat} {j : Nat}
    {voter : Address} (hj : voters[j]? = some voter) (hnot : j ∉ votes) :
    ∀ k ∈ votes, voters[k]? ≠ some voter := by
  intro k hk heq
  have hlt := (List.getElem?_eq_some_iff.mp heq).1
  obtain rfl := (List.getElem?_inj hlt h).mp (heq.trans hj.symm)
  exact hnot hk

/-- In every reachable state a further approver can cancel an open proposal. -/
theorem exists_cancel {clock expiry : Accounts → Int64} (hr : Runs.Reachable (program env) s)
    {a : Address} {p : Proposal} {i : Intent} (hp : s.proposal? a = some p) (hopen : p.IsOpen)
    (hi : s.intent? p.intent = some i) (hpos : 1 ≤ i.cancellationThreshold.toNat)
    (hle : i.cancellationThreshold.toNat ≤ i.approvers.toList.length)
    (hclock : clock s < expiry s)
    (hsign : ∀ key ∈ i.approvers.toList, ∀ msg, ∃ sig, env.sigVerify key sig msg = true) :
    p.no.card < i.cancellationThreshold.toNat ∧
      ∃ (args : CancelArgs) (s' : Accounts), args.cancellerIndex.toNat ∉ p.no ∧
        args.cancellerIndex.toNat < 16 ∧
        process env s (cancelCall (clock s) p a args) = .ok s' ∧
        Cancels env clock expiry a ⟨s, cancelCall (clock s) p a args, s'⟩ ∧
        s'.intent? p.intent = some (Cancel.vote i p args.cancellerIndex).1 ∧
        s'.proposal? a = some (Cancel.vote i p args.cancellerIndex).2 := by
  have hs := sound_of_reachable hr
  obtain ⟨j, hj, hwallet, htally⟩ := hs.proposals a p hp
  obtain rfl := Option.some.inj (hi.symm.trans hj)
  obtain ⟨hcard, idx, voter, hvoter, hnot⟩ :=
    htally.exists_canceller (hs.intents _ i hi) hopen hpos hle
  obtain ⟨w, k, hw, hk, hvotable⟩ := (rebuildable_of_reachable hr).votable hp
  obtain rfl := Option.some.inj (hi.symm.trans hk)
  obtain ⟨msg, hmsg⟩ := hvotable (expiry s) (ascii "cancel") (.inr rfl)
  obtain ⟨sig, hsig⟩ := hsign voter (List.mem_of_getElem? hvoter) msg
  have hp' := Accounts.proposal?_eq_some.mp hp
  have hi' := Accounts.intent?_eq_some.mp hi
  have hacc : VoteAccepted env (clock s) s p.wallet p.intent a (ascii "cancel") (expiry s) idx sig w i p
      voter msg :=
    ⟨Accounts.wallet?_eq_some.mp hw, hi', hwallet, hp', rfl, rfl, hclock, hvoter, hmsg, hsig⟩
  have h16 := Tallied.idx_lt hacc.idx_lt
  have hne : p.intent ≠ a := Accounts.ne_of_data hi' hp' (by simp)
  let args : CancelArgs := ⟨expiry s, idx, sig⟩
  refine ⟨hcard, args, (s.set p.intent (.intent (Cancel.vote i p idx).1)).set a
    (.proposal (Cancel.vote i p idx).2), hnot, h16, Cancel.cancel_eq_ok.mpr ⟨w, i, p, voter, msg, hacc, hopen,
    (Proposal.hasCancelledByIndex_eq_false h16).mpr hnot, rfl⟩, ?_, ?_, ?_⟩
  · exact .mk rfl hacc hopen hnot fun hnd => voter_ne_of_nodup hnd hvoter hnot
  · simp only [Accounts.intent?_set, AccountData.intent?]
    rw [Function.update_of_ne hne, Function.update_self]
  · simp only [Accounts.proposal?_set, AccountData.proposal?]
    rw [Function.update_self]

/-! ## Down to the last one -/

/-- The proposal at `a` is open, and its intent has the definition of `i`. -/
def OpenAt (a intentAddr : Address) (i : Intent) (s : Accounts) : Prop :=
  ∃ p j, s.proposal? a = some p ∧ p.intent = intentAddr ∧ p.IsOpen ∧
    s.intent? intentAddr = some j ∧ j.definition = i.definition

/-- The number of cancellations that the proposal at `a` lacks. -/
def missing (a : Address) (i : Intent) (s : Accounts) : Nat :=
  i.cancellationThreshold.toNat - (s.proposal? a).elim 0 fun p => p.no.card

/-- A further cancellation closes the proposal or leaves it with one less to go. -/
theorem cancel_or_close {clock expiry : Accounts → Int64} {a intentAddr : Address} {i : Intent}
    (hpos : 1 ≤ i.cancellationThreshold.toNat)
    (hle : i.cancellationThreshold.toNat ≤ i.approvers.toList.length)
    (hclock : ∀ s, clock s < expiry s)
    (hsign : ∀ key ∈ i.approvers.toList, ∀ msg, ∃ sig, env.sigVerify key sig msg = true)
    (hr : Runs.Reachable (program env) s) (h : OpenAt a intentAddr i s) :
    ∃ c s', process env s c = .ok s' ∧ Cancels env clock expiry a ⟨s, c, s'⟩ ∧
      (Closes a intentAddr ⟨s, c, s'⟩ ∨
        OpenAt a intentAddr i s' ∧ missing a i s' < missing a i s) := by
  obtain ⟨p, j, hp, rfl, hopen, hj, hd⟩ := h
  have hthreshold := Intent.cancellationThreshold_congr hd
  rw [← hthreshold] at hpos hle
  rw [← Intent.approvers_congr hd] at hle hsign
  obtain ⟨hcard, args, s', hnot, h16, hstep, hcancels, hj', hp'⟩ :=
    exists_cancel hr hp hopen hj hpos hle (hclock s) hsign
  have hterms : (Cancel.vote j p args.cancellerIndex).2.intent = p.intent :=
    Proposal.intent_congr Cancel.vote_terms
  refine ⟨_, s', hstep, hcancels, ?_⟩
  by_cases hclosing : j.cancellationThreshold.toNat ≤ (insert args.cancellerIndex.toNat p.no).card
  · have hcount := (counted_of_reachable hr).pos hp hopen hj
    rw [Cancel.vote_intent h16, if_pos hclosing] at hj'
    refine .inl (.mk hp' hterms ?_ hj hj' ?_)
    · rw [Cancel.vote_status h16, if_pos hclosing]
    · rw [releaseProposal_count]
      omega
  · have hopen' := (Cancel.vote_isOpen_iff h16 hopen).mpr hclosing
    rw [Cancel.vote_intent h16, if_neg hclosing] at hj'
    refine .inr ⟨⟨_, j, hp', hterms, hopen', hj', hd⟩, ?_⟩
    simp only [missing, hp, hp', Option.elim_some, Cancel.vote_no h16,
      Finset.card_insert_of_notMem hnot, ← hthreshold]
    omega

/-- Approvers can always close an open proposal. In every reachable state, whatever its history `tr`, an
open proposal of an intent with `1 ≤ cancellation_threshold ≤ approvers.len()` can be led to its
cancellation by votes to cancel alone, each accepted at the given clock and with the given expiry above
it, and each of an approver who has not cancelled yet. -/
theorem approvers_can_close (env : Env) {tr : List (Runs.Event Accounts Call)}
    (hrun : Runs.Run (program env) tr s) {a : Address} {p : Proposal} {i : Intent}
    (hp : s.proposal? a = some p) (hopen : p.IsOpen) (hi : s.intent? p.intent = some i)
    (hpos : 1 ≤ i.cancellationThreshold.toNat)
    (hle : i.cancellationThreshold.toNat ≤ i.approvers.toList.length)
    (clock expiry : Accounts → Int64) (hclock : ∀ s, clock s < expiry s)
    (hsign : ∀ key ∈ i.approvers.toList, ∀ msg, ∃ sig, env.sigVerify key sig msg = true) :
    ∃ last later, Runs.Run (program env) (last :: later ++ tr) last.post ∧
      Cancels env clock expiry a last ∧ Closes a p.intent last ∧
      ∀ e ∈ later, Cancels env clock expiry a e :=
  hrun.exists_extension (missing a i)
    (fun _ hr h => cancel_or_close hpos hle hclock hsign hr h) ⟨p, i, hp, rfl, hopen, hi, rfl⟩

namespace ClosingSample

open Sample

/-- Every key can sign: its signature is the key and a digest of the message. -/
def sign (key : Address) (msg : Bytes) : Signature :=
  ByteArr.ofBytes 64 (key.val ++
    toLE 32 (msg.foldl (fun digest byte => (257 * digest + byte.toNat + 1) % 2 ^ 256) 0))

def signingEnv : Env :=
  { Sample.env [] with sigVerify := fun key signature msg => decide (signature = sign key msg) }

def text (action : String) : Bytes :=
  messageOf (ascii "expires 1970-01-01 00:16:40: " ++ ascii action ++
    ascii " remove intent 2 | wallet: a proposal: 0")

def approveBy (voter : UInt8) (k : Address) : Call :=
  ⟨0, .approve (wallet "a") (intent "a" 1) (proposal "a" 1 0) ⟨1000, voter, sign k (text "approve")⟩⟩

def cancelBy (voter : UInt8) (k : Address) : Call :=
  ⟨0, .cancel (wallet "a") (intent "a" 1) (proposal "a" 1 0) ⟨1000, voter, sign k (text "cancel")⟩⟩

/-- Two approvers approve a proposal; the first of them takes the vote back and gives it again. -/
def calls : List Call :=
  [create "a" 2 2 [key 2, key 3],
   ⟨0, .propose (key 9) (wallet "a") (intent "a" 1) ⟨1000, key 1, sign (key 1) (text "propose"), [2]⟩⟩,
   approveBy 0 (key 2), approveBy 1 (key 3), cancelBy 0 (key 2), approveBy 0 (key 2)]

/-- The status and the intent of the proposal, the threshold and the number of approvers. -/
def observed (_ : List (Runs.Event Accounts Call)) (s : Accounts) :
    Option (ProposalStatus × Address) × Option (UInt8 × Nat) :=
  ((s.proposal? (proposal "a" 1 0)).map fun p => (p.status, p.intent),
    (s.intent? (intent "a" 1)).map fun i => (i.cancellationThreshold, i.approvers.toList.length))

end ClosingSample

open ClosingSample Sample in
theorem approvers_can_close_sample :
    ∃ (tr : List (Runs.Event Accounts Call)) (s : Accounts) (p : Proposal),
      Runs.Run (program signingEnv) tr s ∧ tr.map (·.label) = calls.reverse ∧
      s.proposal? (proposal "a" 1 0) = some p ∧ p.status = .approved ∧
      ∃ last later, Runs.Run (program signingEnv) (last :: later ++ tr) last.post ∧
        Cancels signingEnv (fun _ => 0) (fun _ => 1000) (proposal "a" 1 0) last ∧
        Closes (proposal "a" 1 0) p.intent last ∧
        ∀ e ∈ later, Cancels signingEnv (fun _ => 0) (fun _ => 1000) (proposal "a" 1 0) e := by
  have hobs : observe signingEnv calls observed =
      some (some (.approved, intent "a" 1), some (2, 2)) := by decide +kernel
  obtain ⟨tr, s, hrun, hlabels, hstate⟩ := run_of_observe hobs
  simp only [observed, Prod.mk.injEq, Option.map_eq_some_iff] at hstate
  obtain ⟨⟨p, hp, hstatus, hintent⟩, i, hi, hthreshold, hlength⟩ := hstate
  refine ⟨tr, s, p, hrun, hlabels, hp, hstatus, ?_⟩
  refine approvers_can_close signingEnv hrun hp (.inr hstatus) (hintent ▸ hi) ?_ ?_ (fun _ => 0)
    (fun _ => 1000) (fun _ => by decide) fun key _ msg => ⟨sign key msg, decide_eq_true rfl⟩
  · rw [hthreshold]
    decide
  · rw [hthreshold, hlength]
    decide

end ClearMsig
