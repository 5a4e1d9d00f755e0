import ClearMsig.Sample
import ClearMsig.Utils.Proofs.TemplateProofs

/-!
# The signed text and the parameters

The text of a custom message determines its parameters when it can be read: two numbers next to each other,
a separator that also occurs in a text before it and in one behind it, and the many bytes that say yes are
what two different parameter data can share.
-/

namespace ClearMsig

variable {p q : Bytes}

/-- In a template with a placeholder for every parameter, two parameter data with the same message that can
be read agree on every parameter. -/
theorem params_of_message {sha256 : Bytes → ByteArr 32} {ctx : MessageContext} {intent : Intent}
    {tokens : List Token} {m : Bytes} (htype : intent.readType = .ok .custom)
    (htokens : intent.tokens = .ok tokens)
    (hall : ∀ idx : UInt8, idx.toNat < intent.params.toList.length → Token.param idx ∈ tokens)
    (hread : Readable intent p q [] tokens)
    (h : signedMessage sha256 ctx intent p = .ok m) (h' : signedMessage sha256 ctx intent q = .ok m)
    {idx : UInt8} {param : ParamEntry} (hparam : intent.params.toList[idx.toNat]? = some param) :
    ∃ raw raw', intent.readParamBytes p idx = .ok raw ∧ intent.readParamBytes q idx = .ok raw' ∧
      SaysSame param.paramType raw raw' := by
  obtain ⟨content, content', hc, hc', htext⟩ := messageText_eq_of_signedMessage h h'
  obtain rfl : content = content' := by
    have hfront := List.append_cancel_right htext
    exact List.append_cancel_left hfront
  simp only [contentText, htype, contentOf, htokens, ok_bind] at hc hc'
  have hagrees := hread.agrees (fun i hi => absurd hi List.not_mem_nil) ⟨hc, hc'⟩
  have hlt := (List.getElem?_eq_some_iff.mp hparam).1
  exact saysSame_of_agrees hparam (hagrees idx (hall idx hlt))

namespace ParametersSample

open Sample

/-- Two numbers next to each other, two texts around a comma, and a bool. -/
def adjacent : Intent := templated [.u8, .u8] "{0}{1}"

def separated : Intent := templated [.string, .string] "{0},{1}"

def flag : Intent := templated [.bool] "{0}"

/-- A text in front of a space, and a bool. -/
def marked : Intent := templated [.string, .bool] "{0} {1}"

/-- The text `a b`, and a way to say yes. -/
def yes (b : UInt8) : Bytes := [3, 97, 32, 98, b]

/-- The space behind the text is the last one. -/
theorem marked_readable {b b' : UInt8} (h : tokensText marked (yes b) [.param 1] = .ok (ascii "true"))
    (h' : tokensText marked (yes b') [.param 1] = .ok (ascii "true")) :
    Readable marked (yes b) (yes b') [] [.param 0, .literal 32, .param 1] := by
  have hspace : Reading.LastBefore [32] (ascii "true") :=
    Reading.lastBefore_singleton.mpr (by decide +kernel)
  have hcut : Cut marked (yes b) (yes b') [] [.param 0] (([32] : Bytes).map .literal ++ [.param 1]) := by
    refine .separator [32] fun a a' r r' _ hr => ?_
    obtain rfl := Except.ok.inj (h.symm.trans hr.left)
    obtain rfl := Except.ok.inj (h'.symm.trans hr.right)
    exact .of_last hspace hspace
  have hlast : OnlyOf (.param 1 :: ([.param 0] ++ [])) (([32] : Bytes).map .literal ++ [.param 1]) := by
    intro i hi
    simp_all
  exact .front hcut (.single 0 fun i hi => hi) (.single 1 hlast)

/-- Two accepted parameter data have one message and differ in a parameter, although the template has
a placeholder for every parameter. -/
def Confused (intent : Intent) (tokens : List Token) (p q : Bytes) (m : Bytes) : Prop :=
  intent.readType = .ok .custom ∧ intent.tokens = .ok tokens ∧
    (∀ i < intent.params.toList.length, Token.param (UInt8.ofNat i) ∈ tokens) ∧
    intent.validateParamConstraints p = .ok () ∧ intent.validateParamConstraints q = .ok () ∧
    messageFor "a" intent p = .ok m ∧ messageFor "a" intent q = .ok m ∧
    intent.readParamBytes p 0 ≠ intent.readParamBytes q 0

instance (intent : Intent) (tokens : List Token) (p q m : Bytes) :
    Decidable (Confused intent tokens p q m) := inferInstanceAs (Decidable (_ ∧ _))

end ParametersSample

open ParametersSample Sample in
/-- The text `a b`, with a space in it as behind it, and two ways to say yes. -/
theorem params_of_message_sample :
    ∃ raw raw', marked.readParamBytes (yes 1) 1 = .ok raw ∧
      marked.readParamBytes (yes 2) 1 = .ok raw' ∧ SaysSame .bool raw raw' := by
  have htokens : marked.tokens = .ok [.param 0, .literal 32, .param 1] := by decide +kernel
  have hall : ∀ idx : UInt8, idx.toNat < marked.params.toList.length →
      Token.param idx ∈ [Token.param 0, .literal 32, .param 1] := by
    intro idx hidx
    have hlt : idx.toNat < 2 := hidx
    have hcases : idx = 0 ∨ idx = 1 := by
      rcases Nat.lt_succ_iff_lt_or_eq.mp hlt with h0 | h1
      · exact .inl (UInt8.toNat_inj.mp (Nat.lt_one_iff.mp h0))
      · exact .inr (UInt8.toNat_inj.mp h1)
    rcases hcases with rfl | rfl <;> simp
  have hread : Readable marked (yes 1) (yes 2) [] [.param 0, .literal 32, .param 1] :=
    marked_readable (by decide +kernel) (by decide +kernel)
  have hm : messageFor "a" marked (yes 1) =
      .ok (message "expires 1970-01-01 00:16:40: propose a b true | wallet: a proposal: 0") := by
    rw [message_ofList]
    decide +kernel
  have hm' : messageFor "a" marked (yes 2) =
      .ok (message "expires 1970-01-01 00:16:40: propose a b true | wallet: a proposal: 0") := by
    rw [message_ofList]
    decide +kernel
  have hparam : marked.params.toList[(1 : UInt8).toNat]? = some ⟨.bool, 0, 0, .none, 0⟩ := rfl
  exact params_of_message rfl htokens hall hread hm hm' hparam

open ParametersSample Sample in
/-- The numbers 1 and 11 in either order, a comma in the first or in the second text, and the bytes 1
and 2 of a bool. -/
theorem params_confused :
    Confused adjacent [.param 0, .param 1] [1, 11] [11, 1]
        (message "expires 1970-01-01 00:16:40: propose 111 | wallet: a proposal: 0") ∧
      Confused separated [.param 0, .literal 44, .param 1] [1, 97, 3, 98, 44, 99] [3, 97, 44, 98, 1, 99]
        (message "expires 1970-01-01 00:16:40: propose a,b,c | wallet: a proposal: 0") ∧
      Confused flag [.param 0] [1] [2]
        (message "expires 1970-01-01 00:16:40: propose true | wallet: a proposal: 0") := by
  rw [message_ofList, message_ofList, message_ofList]
  decide +kernel

end ClearMsig
