import ClearMsig.Foundation.Motions
import ClearMsig.Foundation.Refinement
import ClearMsig.Invariant

/-!
# The board

What the program is for, without bitmaps, status bytes, counters and signatures: a board of rules, some of
them in force, and of motions that are put under a rule, voted on by the members the rule lists, and
carried out once they have been carried for the delay of the rule. Carrying a motion out adds a rule or
takes one out of force.

`Accounts.board` reads the board off the accounts. `Proofs/BoardProofs.lean` shows that the program
implements it.
-/

namespace ClearMsig

open Function (update)
open Motions

/-- The rules of voting in an intent. -/
def Intent.rules (i : Intent) : Rules where
  quorum := i.approvalThreshold.toNat
  veto := i.cancellationThreshold.toNat
  delay := i.timelockSeconds.toNat

/-- Rules by definition, the ones in force, and motions about the terms of a proposal. The members of a
rule are the places of its list. -/
@[ext] structure Board where
  rules : Address → Option Intent
  inForce : Set Address
  motions : Address → Option (Motion Nat Proposal)

/-- What happens on a board. -/
inductive Board.Act where
  | found
  | move
  | vote (t : Int) (a : Address) (k : Nat) (c : Choice)
  | enact (t : Int) (a : Address)
  | clear (a : Address)

namespace Board

/-- The board before anything has happened. -/
def blank : Board where
  rules _ := none
  inForce := ∅
  motions _ := none

/-- The open motions under a rule. -/
def openMotions (b : Board) (r : Address) : Set Address :=
  Registry.keys (fun m => m.terms.intent = r ∧ m.outcome = none) b.motions

/-- A new rule, in force if its flag says so. -/
def adopt (b : Board) (r : Address) (i : Intent) : Board :=
  { b with
    rules := update b.rules r (some i.definition)
    inForce := if i.isApproved then insert r b.inForce else b.inForce }

/-- A rule is no longer in force. -/
def repeal (b : Board) (r : Address) : Board := { b with inForce := b.inForce \ {r} }

/-- A motion in a new state, or none. -/
def record (b : Board) (a : Address) (m : Option (Motion Nat Proposal)) : Board :=
  { b with motions := update b.motions a m }

/-- A first rule of a wallet: at an unused place, of a type, with thresholds its members can reach. -/
structure Founds (b : Board) (r wallet : Address) (i : Intent) (t : IntentType) : Prop where
  fresh : b.rules r = none
  wallet_eq : i.wallet = wallet
  type_eq : i.readType = .ok t
  thresholds : i.ThresholdsOk
  approved : i.isApproved = true

/-- One step of a board. `locate` is the place of the rule of a wallet with an index. -/
inductive Step (locate : Address → UInt8 → Address) (b : Board) : Act → Board → Prop where
  /-- The three rules of a new wallet, to add rules, to remove and to update them. -/
  | found {w : Address} {i₀ i₁ i₂ : Intent} (h₀ : b.Founds (locate w 0) w i₀ .addIntent)
      (h₁ : b.Founds (locate w 1) w i₁ .removeIntent) (h₂ : b.Founds (locate w 2) w i₂ .updateIntent) :
      Step locate b .found (((b.adopt (locate w 0) i₀).adopt (locate w 1) i₁).adopt (locate w 2) i₂)
  /-- One of the proposers puts a motion under a rule in force. -/
  | move {a : Address} {p : Proposal} {i : Intent} (hrule : b.rules p.intent = some i)
      (hwallet : i.wallet = p.wallet) (hforce : p.intent ∈ b.inForce)
      (hproposer : p.proposer ∈ i.proposers.toList) (hfresh : b.motions a = none) :
      Step locate b .move (b.record a (some (.new p.terms)))
  /-- A member votes on an open motion. -/
  | vote {t : Int} {a : Address} {k : Nat} {c : Choice} {m m' : Motion Nat Proposal} {i : Intent}
      (hm : b.motions a = some m) (hrule : b.rules m.terms.intent = some i)
      (hforce : m.terms.intent ∈ b.inForce) (hk : k < i.approvers.toList.length)
      (h : Vote i.rules t m k c m') :
      Step locate b (.vote t a k c) (b.record a (some m'))
  /-- A motion to add a rule is carried out, under a rule with members. The new rule has none. -/
  | add {t : Int} {a r : Address} {m : Motion Nat Proposal} {i new : Intent}
      (hm : b.motions a = some m) (hrule : b.rules m.terms.intent = some i)
      (hmembers : i.approvers.toList ≠ []) (hready : m.Ready i.rules t) (htype : i.readType = .ok .addIntent)
      (hnew : Intent.FromBytes m.terms.paramsData.toList new) (hfresh : b.rules r = none) :
      Step locate b (.enact t a) ((b.adopt r new).record a (some (m.close .done)))
  /-- A motion to take a rule out of force is carried out, under a rule with members. No motion is open under
  the rule it names. -/
  | remove {t : Int} {a : Address} {m : Motion Nat Proposal} {i : Intent} {k : UInt8}
      (hm : b.motions a = some m) (hrule : b.rules m.terms.intent = some i)
      (hmembers : i.approvers.toList ≠ []) (hready : m.Ready i.rules t) (htype : i.readType = .ok .removeIntent)
      (hk : m.terms.paramsData.toList = [k]) (hidle : b.openMotions (locate m.terms.wallet k) = ∅) :
      Step locate b (.enact t a) ((b.repeal (locate m.terms.wallet k)).record a (some (m.close .done)))
  /-- A motion that has ended is taken off the board. -/
  | clear {a : Address} {m : Motion Nat Proposal} {o : Outcome} (hm : b.motions a = some m)
      (hended : m.outcome = some o) :
      Step locate b (.clear a) (b.record a none)

/-- Boards as a transition system. -/
def system (locate : Address → UInt8 → Address) : Runs.System Board Act where
  init b := b = blank
  step := Step locate

/-- Every motion stands under a rule, the ballots are those of its members, and the ballots account for
its end. -/
def Fair (b : Board) : Prop :=
  ∀ a m, b.motions a = some m → ∃ i, b.rules m.terms.intent = some i ∧ Settled i.rules m ∧
    ∀ k c, m.ballots k = some c → k < i.approvers.toList.length

end Board

/-! ## The board of the accounts -/

/-- The motion a proposal stands for. -/
def Proposal.motion (p : Proposal) : Motion Nat Proposal where
  terms := p.terms
  ballots k := if k ∈ p.yes then some .yea else if k ∈ p.no then some .nay else none
  since := p.approvedAt.toInt
  outcome :=
    match p.status with
    | .active | .approved => none
    | .executed => some .done
    | .cancelled => some .rejected

/-- The rules in a map of intents. -/
def Intent.rulesOf (f : Address → Option Intent) : Address → Option Intent := fun a => (f a).map definition

/-- The intents whose flag is set. -/
def Intent.flagged (f : Address → Option Intent) : Set Address :=
  Registry.keys (fun i => i.isApproved = true) f

/-- The board the accounts stand for. -/
def Accounts.board (s : Accounts) : Board where
  rules := Intent.rulesOf s.intent?
  inForce := Intent.flagged s.intent?
  motions a := (s.proposal? a).map Proposal.motion

/-- What a call is on the board. -/
def Call.act (c : Call) : Board.Act :=
  match c.ix with
  | .createWallet _ _ => .found
  | .propose _ _ _ _ => .move
  | .approve _ _ proposal args => .vote c.clock.toInt proposal args.approverIndex.toNat .yea
  | .cancel _ _ proposal args => .vote c.clock.toInt proposal args.cancellerIndex.toNat .nay
  | .execute _ _ proposal _ => .enact c.clock.toInt proposal
  | .cleanupProposal proposal _ => .clear proposal

end ClearMsig
