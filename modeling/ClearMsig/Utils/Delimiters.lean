import ClearMsig.Utils.MessageText

/-!
# Where a displayed value ends

A template puts the displays of the parameters next to each other and next to its own bytes. The text can be
read when it is cut, at one place after the other, into parts with a single placeholder that is not known
yet: between a number and a byte that is not a digit, at a text of the template that is found in one way, or
next to what is known.
-/

namespace ClearMsig

/-- The bytes that the display of a value could go on with. The words for a bool end by themselves, and a
text goes on with anything. -/
def ParamType.goesOnWith : ParamType → UInt8 → Bool
  | .address => isBase58
  | .bool => fun _ => false
  | .string => fun _ => true
  | _ => Decimal.isDigit

/-- The bytes that the display of a value could have in front of it: with a sign, too, it is an `i64`. -/
def ParamType.comesBehind : ParamType → UInt8 → Bool
  | .i64 => fun c => c == 45 || Decimal.isDigit c
  | t => t.goesOnWith

/-- The texts of the pieces `ts` for the parameter data `p` and `q`. -/
structure Texts (intent : Intent) (p q : Bytes) (ts : List Token) (a a' : Bytes) : Prop where
  left : tokensText intent p ts = .ok a
  right : tokensText intent q ts = .ok a'

/-- Every parameter with a placeholder among `ts` has one among `known`. -/
def OnlyOf (known ts : List Token) : Prop := ∀ i, Token.param i ∈ ts → Token.param i ∈ known

/-- The place between the pieces `ts` and `us` is found in a text that the parameter data `p` and `q` have
in common, when the values of the placeholders among `known` are. -/
inductive Cut (intent : Intent) (p q : Bytes) (known : List Token) : List Token → List Token → Prop where
  /-- All placeholders on one side are known. -/
  | known {ts us : List Token} (h : OnlyOf known ts ∨ OnlyOf known us) : Cut intent p q known ts us
  /-- The texts on the left have the same length. -/
  | length {ts us : List Token} (h : ∀ a a', Texts intent p q ts a a' → a.length = a'.length) :
      Cut intent p q known ts us
  /-- A text of the template, in front of which the place is, is found by its first occurrence, by its last,
  or by being the only one. -/
  | separator {ts us : List Token} (sep : Bytes)
      (h : ∀ a a' r r', Texts intent p q ts a a' → Texts intent p q us r r' → Reading.Located sep a r a' r') :
      Cut intent p q known ts (sep.map .literal ++ us)
  /-- The display on the left does not go on. -/
  | front {us : List Token} {idx : UInt8} {param : ParamEntry}
      (hparam : intent.params.toList[idx.toNat]? = some param)
      (h : ∀ r r', Texts intent p q us r r' →
        Reading.StopsAt param.paramType.goesOnWith r ∧ Reading.StopsAt param.paramType.goesOnWith r') :
      Cut intent p q known [.param idx] us
  /-- The display on the right does not begin earlier. -/
  | back {ts : List Token} {idx : UInt8} {param : ParamEntry}
      (hparam : intent.params.toList[idx.toNat]? = some param)
      (h : ∀ a a', Texts intent p q ts a a' →
        Reading.StopsAt param.paramType.comesBehind a.reverse ∧
          Reading.StopsAt param.paramType.comesBehind a'.reverse) :
      Cut intent p q known ts [.param idx]

/-- The text of the pieces can be cut, until each part has a single parameter that is not known yet. A part
that has been read is known in the rest. -/
inductive Readable (intent : Intent) (p q : Bytes) : List Token → List Token → Prop where
  | single {known ts : List Token} (idx : UInt8) (h : OnlyOf (.param idx :: known) ts) :
      Readable intent p q known ts
  | front {known ts us : List Token} (hcut : Cut intent p q known ts us)
      (hts : Readable intent p q known ts) (hus : Readable intent p q (ts ++ known) us) :
      Readable intent p q known (ts ++ us)
  | back {known ts us : List Token} (hcut : Cut intent p q known ts us)
      (hus : Readable intent p q known us) (hts : Readable intent p q (us ++ known) ts) :
      Readable intent p q known (ts ++ us)

/-- Parameter bytes that say the same: they are equal, or they are two ways to say yes or no. -/
def SaysSame (t : ParamType) (raw raw' : Bytes) : Prop :=
  raw = raw' ∨ (t = .bool ∧ (raw.getD 0 0 = 0 ↔ raw'.getD 0 0 = 0))

end ClearMsig
