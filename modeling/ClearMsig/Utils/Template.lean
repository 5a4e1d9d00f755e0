import ClearMsig.Foundation.Placeholders
import ClearMsig.Utils.MessageText

/-!
# What a template stands for

A template is a text with placeholders between braces. A placeholder is meant to name a parameter by its
number, and the rendered text is the template with every placeholder replaced.
-/

namespace ClearMsig

open Placeholders (Piece Written)

/-- The pieces of the template of an intent. -/
def Intent.TemplateIs (intent : Intent) (pieces : List (Piece UInt8)) : Prop :=
  ∃ template, intent.templateStr = .ok template ∧ Written 123 125 pieces template

/-- A decimal numeral. -/
def IsNumeral (name : Bytes) : Prop := name ≠ [] ∧ ∀ c ∈ name, Decimal.isDigit c = true

/-- What a piece is replaced with: a byte by itself, the number of a declared parameter by its rendering. -/
def Replaced (intent : Intent) (data : Bytes) (text : Bytes) : Piece UInt8 → Prop
  | .copy b => text = [b]
  | .placeholder name =>
    IsNumeral name ∧ Decimal.natVal name < intent.params.toList.length ∧
      paramText intent data (UInt8.ofNat (Decimal.natVal name)) = .ok text

/-- The builder `b'` is `b` with the template behind it, every placeholder replaced. -/
def SubstitutesExactly (intent : Intent) (data : Bytes) (b b' : MessageBuilder) : Prop :=
  ∃ pieces texts, intent.TemplateIs pieces ∧
    List.Forall₂ (fun piece text => Replaced intent data text piece) pieces texts ∧
      b'.bytes = b.bytes ++ texts.flatten

/-- The template has a placeholder with this name. -/
def Intent.HasPlaceholder (intent : Intent) (name : Bytes) : Prop :=
  ∃ pieces, intent.TemplateIs pieces ∧ .placeholder name ∈ pieces

/-- No placeholder of the template is empty or a numeral of 256 or more. -/
def Intent.PlaceholdersFit (intent : Intent) : Prop :=
  ∀ name, intent.HasPlaceholder name → name ≠ [] ∧ (IsNumeral name → Decimal.natVal name < 256)

/-- A brace of the template is not closed. -/
def Intent.Unclosed (intent : Intent) : Prop :=
  ∃ template, intent.templateStr = .ok template ∧ Placeholders.Unclosed 123 125 template

end ClearMsig
