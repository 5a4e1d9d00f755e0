import Mathlib.Data.Set.Card

/-!
# Motions

A motion stands before a body of voters. While it is open, a voter may cast a ballot and later one of the
other kind. It carries when enough ballots are for it, and is rejected when enough are against it. A
motion that has carried for some time may be carried out.
-/

namespace Motions

open Function (update)

/-- For or against. -/
inductive Choice where
  | yea
  | nay
  deriving DecidableEq

/-- How many ballots carry a motion, how many reject it, and how long it has to wait. -/
structure Rules where
  quorum : Nat
  veto : Nat
  delay : Nat

inductive Outcome where
  | done
  | rejected
  deriving DecidableEq

/-- A motion: what it is about, the ballots of the voters, when it was carried last, and how it ended. -/
@[ext] structure Motion (κ γ : Type) where
  terms : γ
  ballots : κ → Option Choice
  since : Int
  outcome : Option Outcome

namespace Motion

variable {κ γ : Type}

/-- The voters whose ballot is of a kind. -/
def backers (m : Motion κ γ) (c : Choice) : Set κ := {k | m.ballots k = some c}

/-- Enough ballots are for the motion. -/
def Carried (r : Rules) (m : Motion κ γ) : Prop := r.quorum ≤ (m.backers .yea).encard

/-- Enough ballots are against the motion. -/
def Vetoed (r : Rules) (m : Motion κ γ) : Prop := r.veto ≤ (m.backers .nay).encard

/-- A carried motion that has waited long enough. -/
structure Ready (r : Rules) (t : Int) (m : Motion κ γ) : Prop where
  isOpen : m.outcome = none
  carried : m.Carried r
  waited : m.since + r.delay ≤ t

/-- The motion with its end. -/
def close (m : Motion κ γ) (o : Outcome) : Motion κ γ := { m with outcome := some o }

/-- A motion nobody has voted on. -/
def new (terms : γ) : Motion κ γ := ⟨terms, fun _ => none, 0, none⟩

variable [DecidableEq κ]

/-- The motion with one more ballot, in place of an earlier one of the voter. -/
def mark (m : Motion κ γ) (k : κ) (c : Choice) : Motion κ γ := { m with ballots := update m.ballots k (some c) }

end Motion

open Motion

/-- A ballot that is accepted at a time. Nobody votes the same way twice in a row, and there are no more
ballots for a motion that is carried. -/
inductive Vote {κ γ : Type} [DecidableEq κ] (r : Rules) (t : Int) (m : Motion κ γ) (k : κ) :
    Choice → Motion κ γ → Prop where
  | yea (hopen : m.outcome = none) (hnew : m.ballots k ≠ some .yea) (hnot : ¬ m.Carried r)
      (h : ¬ (m.mark k .yea).Carried r) : Vote r t m k .yea (m.mark k .yea)
  | carry (hopen : m.outcome = none) (hnew : m.ballots k ≠ some .yea) (hnot : ¬ m.Carried r)
      (h : (m.mark k .yea).Carried r) : Vote r t m k .yea { m.mark k .yea with since := t }
  | nay (hopen : m.outcome = none) (hnew : m.ballots k ≠ some .nay) (h : ¬ (m.mark k .nay).Vetoed r) :
      Vote r t m k .nay (m.mark k .nay)
  | reject (hopen : m.outcome = none) (hnew : m.ballots k ≠ some .nay) (h : (m.mark k .nay).Vetoed r) :
      Vote r t m k .nay ((m.mark k .nay).close .rejected)

/-- The ballots of a motion account for its end. -/
structure Settled {κ γ : Type} (r : Rules) (m : Motion κ γ) : Prop where
  done : m.outcome = some .done → m.Carried r
  rejected : m.outcome = some .rejected → m.Vetoed r

section Closing

variable {κ γ : Type} {r : Rules} {t : Int} {m : Motion κ γ}

theorem settled_of_isOpen (h : m.outcome = none) : Settled r m := by
  constructor <;> exact fun h' => nomatch h.symm.trans h'

theorem Motion.Ready.settled (h : m.Ready r t) : Settled r (m.close .done) where
  done _ := h.carried
  rejected h' := nomatch h'

end Closing

section Voting

variable {κ γ : Type} [DecidableEq κ] {r : Rules} {t : Int} {m m' : Motion κ γ} {k : κ} {c c' : Choice}

/-- A vote leaves the terms alone. -/
theorem Vote.terms (h : Vote r t m k c m') : m'.terms = m.terms := by
  cases h <;> rfl

/-- A motion that has ended takes no vote. -/
theorem Vote.isOpen (h : Vote r t m k c m') : m.outcome = none := by
  cases h <;> assumption

/-- Nobody votes the same way twice in a row. -/
theorem Vote.ballot_ne (h : Vote r t m k c m') : m.ballots k ≠ some c := by
  cases h <;> assumption

theorem Vote.not_carried (h : Vote r t m k .yea m') : ¬ m.Carried r := by
  cases h <;> assumption

/-- The ballot that was cast, and no other, has changed. -/
theorem Vote.ballots (h : Vote r t m k c m') : m'.ballots = update m.ballots k (some c) := by
  cases h <;> rfl

/-- A vote ends a motion only where the ballots say so. -/
theorem Vote.settled (h : Vote r t m k c m') : Settled r m' := by
  cases h with
  | yea hopen _ _ _ => exact settled_of_isOpen hopen
  | carry hopen _ _ _ => exact settled_of_isOpen hopen
  | nay hopen _ _ => exact settled_of_isOpen hopen
  | reject hopen _ h =>
    refine ⟨fun h' => ?_, fun _ => h⟩
    cases h'

end Voting

end Motions
