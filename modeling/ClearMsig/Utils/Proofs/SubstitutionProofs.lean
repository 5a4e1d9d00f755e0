import ClearMsig.Foundation.Fields
import ClearMsig.Sample
import ClearMsig.Utils.Proofs.MessageProofs
import ClearMsig.Utils.Template

/-!
# Rendering a template

The parser of placeholders takes the empty text for zero, and the number is cast to a byte. So a rendered
template is the exact substitution when no placeholder is empty and all numerals fit a byte.
-/

namespace ClearMsig

open Placeholders (Piece Written)
open MessageBuilder (parseUsize renderTemplate_writes)

variable {intent : Intent} {data template s : Bytes} {n r : Nat} {b b' : MessageBuilder}

/-! ## Numerals -/

theorem natVal_cons (c : UInt8) (s : Bytes) :
    Decimal.natVal (c :: s) = (c.toNat - 48) * 10 ^ s.length + Decimal.natVal s := by
  rw [Decimal.natVal, List.reverse_cons, List.map_append, Nat.ofDigits_append, List.length_map,
    List.length_reverse, List.map_singleton, Nat.ofDigits_singleton, Nat.add_comm, Nat.mul_comm, Decimal.natVal]

/-- One round of `parse_usize`. -/
def parseDigit (r : Nat) (b : UInt8) : Result Nat := do
  require (48 ≤ b ∧ b ≤ 57) .invalidInstructionData
  let r := r * 10
  require (r < 2 ^ 64) .invalidInstructionData
  let r := r + (b - 48).toNat
  require (r < 2 ^ 64) .invalidInstructionData
  .ok r

theorem parseDigit_eq_ok {c : UInt8} :
    parseDigit r c = .ok n ↔ Decimal.isDigit c = true ∧ n = r * 10 + (c.toNat - 48) ∧ n < 2 ^ 64 := by
  have hsub (h : 48 ≤ c) : (c - 48).toNat = c.toNat - 48 := UInt8.toNat_sub_of_le c 48 h
  simp only [parseDigit, bind_eq_ok, require_eq_ok, exists_const, Except.ok.injEq, Decimal.isDigit,
    Bool.and_eq_true, decide_eq_true_eq]
  constructor
  · rintro ⟨hdigit, -, hlt, rfl⟩
    rw [hsub hdigit.1] at hlt ⊢
    exact ⟨hdigit, rfl, hlt⟩
  · rintro ⟨hdigit, rfl, hlt⟩
    rw [hsub hdigit.1]
    exact ⟨hdigit, by omega, hlt, rfl⟩

/-- The parser reads digits on from `r`, as long as the number fits a word. -/
theorem foldlM_parseDigit (hr : r < 2 ^ 64) :
    s.foldlM parseDigit r = .ok n ↔
      (∀ c ∈ s, Decimal.isDigit c = true) ∧ n = r * 10 ^ s.length + Decimal.natVal s ∧ n < 2 ^ 64 := by
  induction s generalizing r with
  | nil =>
    simp only [List.foldlM_nil, pure_eq_ok, Except.ok.injEq, List.not_mem_nil, false_implies, implies_true,
      true_and, List.length_nil, pow_zero, mul_one]
    constructor
    · rintro rfl
      exact ⟨rfl, hr⟩
    · rintro ⟨rfl, -⟩
      rfl
  | cons c s ih =>
    rw [List.foldlM_cons, bind_eq_ok, List.forall_mem_cons, natVal_cons, List.length_cons]
    have hvalue (d : Nat) : r * 10 ^ (s.length + 1) + (d * 10 ^ s.length + Decimal.natVal s) =
        (r * 10 + d) * 10 ^ s.length + Decimal.natVal s := by ring
    rw [hvalue]
    constructor
    · rintro ⟨r', hr', hs⟩
      obtain ⟨hdigit, rfl, hlt⟩ := parseDigit_eq_ok.mp hr'
      obtain ⟨hdigits, hn, hn64⟩ := (ih hlt).mp hs
      exact ⟨⟨hdigit, hdigits⟩, hn, hn64⟩
    · rintro ⟨⟨hdigit, hdigits⟩, rfl, hn64⟩
      -- the number only grows, so what has been read so far fits as well
      have hle : r * 10 + (c.toNat - 48) ≤ (r * 10 + (c.toNat - 48)) * 10 ^ s.length :=
        Nat.le_mul_of_pos_right _ (Nat.pow_pos (by decide))
      have hlt : r * 10 + (c.toNat - 48) < 2 ^ 64 := by omega
      exact ⟨_, parseDigit_eq_ok.mpr ⟨hdigit, rfl, hlt⟩, (ih hlt).mpr ⟨hdigits, rfl, hn64⟩⟩

/-- `parse_usize` reads the digit strings of words, the empty one too. -/
theorem parseUsize_eq_ok :
    parseUsize s = .ok n ↔ (∀ c ∈ s, Decimal.isDigit c = true) ∧ n = Decimal.natVal s ∧ n < 2 ^ 64 := by
  have h := foldlM_parseDigit (s := s) (n := n) (r := 0) (by decide)
  rw [Nat.zero_mul, Nat.zero_add] at h
  exact h

/-! ## Pieces -/

/-- The token of a piece: a placeholder stands for its number cast to a byte. -/
def TokenOf : Piece UInt8 → Token → Prop
  | .copy b, token => token = .literal b
  | .placeholder name, token =>
    (∀ c ∈ name, Decimal.isDigit c = true) ∧ Decimal.natVal name < 2 ^ 64 ∧
      token = .param (UInt8.ofNat (Decimal.natVal name))

/-- The tokens of a template are those of its pieces. -/
theorem templateTokens_eq_ok {tokens : List Token} :
    templateTokens template = .ok tokens ↔
      ∃ pieces, Written 123 125 pieces template ∧ List.Forall₂ TokenOf pieces tokens := by
  constructor
  · intro h
    induction template using templateTokens.induct generalizing tokens with
    | case1 =>
      rw [templateTokens] at h
      obtain rfl := Except.ok.inj h
      exact ⟨[], .nil, .nil⟩
    | case2 rest hnone =>
      simp only [templateTokens, hnone, if_true, err, reduceCtorEq] at h
    | case3 rest e he ih =>
      simp only [templateTokens, he, if_true, bind_eq_ok, Except.ok.injEq] at h
      obtain ⟨idx, hidx, ts, hts, rfl⟩ := h
      obtain ⟨pieces, hpieces, htokens⟩ := ih hts
      obtain ⟨name, s, rfl, hname, rfl⟩ := Placeholders.findIdx?_eq_some.mp he
      rw [Placeholders.drop_name] at hpieces
      rw [List.take_left' rfl, parseUsize_eq_ok] at hidx
      obtain ⟨hdigits, rfl, hlt⟩ := hidx
      exact ⟨_, .placeholder hname hpieces, .cons ⟨hdigits, hlt, rfl⟩ htokens⟩
    | case4 c rest hc ih =>
      simp only [templateTokens, if_neg hc, bind_eq_ok, Except.ok.injEq] at h
      obtain ⟨ts, hts, rfl⟩ := h
      obtain ⟨pieces, hpieces, htokens⟩ := ih hts
      exact ⟨_, .copy hc hpieces, .cons rfl htokens⟩
  · rintro ⟨pieces, hpieces, htokens⟩
    induction hpieces generalizing tokens with
    | nil =>
      cases htokens
      rw [templateTokens]
    | copy hc _ ih =>
      obtain ⟨token, ts, rfl, hts, rfl⟩ := List.forall₂_cons_left_iff.mp htokens
      rw [templateTokens, if_neg hc, ih hts]
      rfl
    | @placeholder name pieces s hname _ ih =>
      obtain ⟨token, ts, ⟨hdigits, hlt, rfl⟩, hts, rfl⟩ := List.forall₂_cons_left_iff.mp htokens
      have hfind : (name ++ 125 :: s).findIdx? (· = 125) = some name.length :=
        Placeholders.findIdx?_eq_some.mpr ⟨name, s, rfl, hname, rfl⟩
      have hparse : parseUsize name = .ok (Decimal.natVal name) := parseUsize_eq_ok.mpr ⟨hdigits, rfl, hlt⟩
      simp only [templateTokens, if_true, hfind, List.take_left' rfl, hparse, Placeholders.drop_name, ih hts,
        ok_bind]

/-- The text of tokens is the texts of each of them. -/
theorem tokensText_eq_ok {tokens : List Token} :
    tokensText intent data tokens = .ok s ↔
      ∃ texts, List.Forall₂ (fun token text => Token.text intent data token = .ok text) tokens texts ∧
        s = texts.flatten := by
  induction tokens generalizing s with
  | nil =>
    simp only [tokensText, Except.ok.injEq, List.forall₂_nil_left_iff, exists_eq_left, List.flatten_nil]
    exact eq_comm
  | cons token tokens ih =>
    simp only [tokensText, bind_eq_ok, Except.ok.injEq, ih, List.forall₂_cons_left_iff]
    constructor
    · rintro ⟨a, ha, rest, ⟨texts, htexts, rfl⟩, rfl⟩
      exact ⟨a :: texts, ⟨a, texts, ha, htexts, rfl⟩, List.flatten_cons.symm⟩
    · rintro ⟨_, ⟨a, texts, ha, htexts, rfl⟩, rfl⟩
      exact ⟨a, ha, _, ⟨texts, htexts, rfl⟩, List.flatten_cons.symm⟩

/-! ## The rendered template -/

/-- What a piece is rendered as: a placeholder is a digit string, and its number is cast to a byte. -/
def Rendered (intent : Intent) (data : Bytes) (piece : Piece UInt8) (text : Bytes) : Prop :=
  ∃ token, TokenOf piece token ∧ Token.text intent data token = .ok text

/-- A template is rendered piece by piece. -/
theorem rendered_of_ok (h : b.renderTemplate intent data = .ok b') :
    ∃ pieces texts, intent.TemplateIs pieces ∧ List.Forall₂ (Rendered intent data) pieces texts ∧
      b'.bytes = b.bytes ++ texts.flatten := by
  obtain ⟨text, htext, hb⟩ := (renderTemplate_writes intent data b b').mp h
  simp only [Intent.tokens, bind_eq_ok] at htext
  obtain ⟨tokens, ⟨template, htemplate, htokens⟩, htext⟩ := htext
  obtain ⟨pieces, hpieces, hforms⟩ := templateTokens_eq_ok.mp htokens
  obtain ⟨texts, htexts, rfl⟩ := tokensText_eq_ok.mp htext
  exact ⟨pieces, texts, ⟨template, htemplate, hpieces⟩, Fields.forall₂_comp hforms htexts, hb⟩

theorem Intent.TemplateIs.unique {pieces pieces' : List (Piece UInt8)} (h : intent.TemplateIs pieces)
    (h' : intent.TemplateIs pieces') : pieces = pieces' := by
  obtain ⟨template, htemplate, hpieces⟩ := h
  obtain ⟨template', htemplate', hpieces'⟩ := h'
  obtain rfl := Except.ok.inj (htemplate.symm.trans htemplate')
  exact hpieces.unique hpieces'

/-- A parameter with a text is declared. -/
theorem declared_of_paramText {idx : UInt8} (h : paramText intent data idx = .ok s) :
    idx.toNat < intent.params.toList.length := by
  simp only [paramText, bind_eq_ok, okOr_eq_ok] at h
  obtain ⟨param, hparam, -⟩ := h
  exact (List.getElem?_eq_some_iff.mp hparam).1

/-- A placeholder that is not empty and, as a numeral, fits a byte is replaced as it is meant to be. -/
theorem replaced_of_rendered {piece : Piece UInt8} (h : Rendered intent data piece s)
    (hfit : ∀ name, piece = .placeholder name → name ≠ [] ∧ (IsNumeral name → Decimal.natVal name < 256)) :
    Replaced intent data s piece := by
  obtain ⟨token, htoken, htext⟩ := h
  cases piece with
  | copy c =>
    obtain rfl := htoken
    exact (Except.ok.inj htext).symm
  | placeholder name =>
    obtain ⟨hdigits, -, rfl⟩ := htoken
    obtain ⟨hne, hlt⟩ := hfit name rfl
    have hdeclared := declared_of_paramText htext
    rw [UInt8.toNat_ofNat_of_lt' (hlt ⟨hne, hdigits⟩)] at hdeclared
    exact ⟨⟨hne, hdigits⟩, hdeclared, htext⟩

/-- The numbers of declared parameters fit a byte. -/
theorem placeholdersFit_of_exact (h : SubstitutesExactly intent data b b') : intent.PlaceholdersFit := by
  obtain ⟨pieces, texts, hpieces, hreplaced, -⟩ := h
  rintro name ⟨pieces', hpieces', hname⟩
  obtain rfl := hpieces.unique hpieces'
  obtain ⟨text, -, ⟨hne, -⟩, hlt, -⟩ := Fields.exists_of_mem hreplaced hname
  have hle := intent.params.len_le
  exact ⟨hne, fun _ => by omega⟩

/-- Where no placeholder is empty and all numerals fit a byte, what is rendered is the exact substitution. -/
theorem exact_of_placeholdersFit (hfit : intent.PlaceholdersFit) (h : b.renderTemplate intent data = .ok b') :
    SubstitutesExactly intent data b b' := by
  obtain ⟨pieces, texts, hpieces, hrendered, hb⟩ := rendered_of_ok h
  refine ⟨pieces, texts, hpieces, Fields.forall₂_imp_of_mem hrendered fun piece hmem text htext => ?_, hb⟩
  exact replaced_of_rendered htext fun name hname => hfit name ⟨pieces, hpieces, hname ▸ hmem⟩

/-! ## Templates that are rejected -/

/-- A template with an unclosed brace is rejected. -/
theorem rejected_of_unclosed (h : intent.Unclosed) : b.renderTemplate intent data ≠ .ok b' := by
  intro hok
  obtain ⟨pieces, -, ⟨template, htemplate, hpieces⟩, -⟩ := rendered_of_ok hok
  obtain ⟨template', htemplate', hunclosed⟩ := h
  obtain rfl := Except.ok.inj (htemplate.symm.trans htemplate')
  exact hunclosed.not_written hpieces

/-- The placeholders of a template that is rendered are digit strings, and the numbers they are cast to are
those of declared parameters. -/
theorem placeholder_of_ok {name : Bytes} (hname : intent.HasPlaceholder name)
    (h : b.renderTemplate intent data = .ok b') :
    (∀ c ∈ name, Decimal.isDigit c = true) ∧
      (UInt8.ofNat (Decimal.natVal name)).toNat < intent.params.toList.length := by
  obtain ⟨pieces, texts, hpieces, hrendered, -⟩ := rendered_of_ok h
  obtain ⟨pieces', hpieces', hmem⟩ := hname
  obtain rfl := hpieces.unique hpieces'
  obtain ⟨text, -, token, ⟨hdigits, -, rfl⟩, htext⟩ := Fields.exists_of_mem hrendered hmem
  exact ⟨hdigits, declared_of_paramText htext⟩

/-- Whatever the template, what is rendered is the exact substitution when no placeholder is empty or a
numeral of 256 or more, and only then. A template with an unclosed brace or with a placeholder that is not
numeric is rejected, and so is one with a smaller numeral that is not the index of a declared parameter. -/
theorem substitutesExactly_iff (intent : Intent) (data : Bytes) (b : MessageBuilder) :
    (intent.PlaceholdersFit →
      ∀ b', b.renderTemplate intent data = .ok b' → SubstitutesExactly intent data b b') ∧
    (∀ b', b.renderTemplate intent data = .ok b' → SubstitutesExactly intent data b b' →
      intent.PlaceholdersFit) ∧
    (intent.Unclosed → ∀ b', b.renderTemplate intent data ≠ .ok b') ∧
    (∀ name, intent.HasPlaceholder name → (∃ c ∈ name, Decimal.isDigit c = false) →
      ∀ b', b.renderTemplate intent data ≠ .ok b') ∧
    (∀ name, intent.HasPlaceholder name → IsNumeral name → Decimal.natVal name < 256 →
      intent.params.toList.length ≤ Decimal.natVal name → ∀ b', b.renderTemplate intent data ≠ .ok b') := by
  refine ⟨fun hfit b' => exact_of_placeholdersFit hfit, fun b' _ => placeholdersFit_of_exact,
    fun h b' => rejected_of_unclosed h, ?_, ?_⟩
  · rintro name hname ⟨c, hc, hdigit⟩ b' hok
    have hyes := (placeholder_of_ok hname hok).1 c hc
    rw [hdigit] at hyes
    cases hyes
  · rintro name hname - hlt hle b' hok
    have hdeclared := (placeholder_of_ok hname hok).2
    rw [UInt8.toNat_ofNat_of_lt' hlt] at hdeclared
    omega

namespace SubstitutionSample

open Sample

/-- A single number, 7, in a template. -/
def rendered (template : String) : Result MessageBuilder :=
  MessageBuilder.new.renderTemplate (templated [.u8] template) [7]

theorem rendered_ok (template : String) (h : (rendered template).isOk = true) :
    ∃ b, rendered template = .ok b := by
  cases hr : rendered template with
  | ok b => exact ⟨b, rfl⟩
  | error e =>
    rw [hr] at h
    cases h

/-- The template has a placeholder that does not fit, and is rendered as if it named the parameter. -/
def Misnamed (template : String) : Prop :=
  ∃ b, rendered template = .ok b ∧ b.bytes = MessageBuilder.new.bytes ++ ascii "7" ∧
    ¬ SubstitutesExactly (templated [.u8] template) [7] MessageBuilder.new b

theorem hasPlaceholder (template : String) (name : Bytes)
    (htemplate : (templated [.u8] template).templateStr = .ok (123 :: (name ++ [125])))
    (hname : 125 ∉ name) : (templated [.u8] template).HasPlaceholder name :=
  ⟨[.placeholder name], ⟨_, htemplate, .placeholder hname .nil⟩, List.mem_cons_self⟩

theorem misnamed (template : String) (name : Bytes)
    (hbytes : (rendered template).map (·.bytes) = .ok (MessageBuilder.new.bytes ++ ascii "7"))
    (htemplate : (templated [.u8] template).templateStr = .ok (123 :: (name ++ [125])))
    (hname : 125 ∉ name) (hfit : ¬ (name ≠ [] ∧ (IsNumeral name → Decimal.natVal name < 256))) :
    Misnamed template := by
  cases hr : rendered template with
  | error e =>
    rw [hr] at hbytes
    cases hbytes
  | ok b =>
    rw [hr] at hbytes
    refine ⟨b, hr, Except.ok.inj hbytes, fun h => hfit ?_⟩
    exact placeholdersFit_of_exact h name (hasPlaceholder template name htemplate hname)

theorem two_fifty_six :
    ¬ (ascii "256" ≠ [] ∧ (IsNumeral (ascii "256") → Decimal.natVal (ascii "256") < 256)) := by
  rintro ⟨hne, hlt⟩
  have hval : Decimal.natVal (ascii "256") = 256 := by decide +kernel
  have hdigits : ∀ c ∈ ascii "256", Decimal.isDigit c = true := by decide +kernel
  exact absurd (hlt ⟨hne, hdigits⟩) (by rw [hval]; decide)

/-- The template of a single placeholder for the number. -/
theorem single_fits : (templated [.u8] "{0}").PlaceholdersFit := by
  rintro name ⟨pieces, ⟨template, htemplate, hpieces⟩, hmem⟩
  have hbytes : (templated [.u8] "{0}").templateStr = .ok [123, 48, 125] := by decide +kernel
  obtain rfl := Except.ok.inj (hbytes.symm.trans htemplate)
  have hsingle : Written 123 125 [.placeholder [48]] ([123, 48, 125] : Bytes) :=
    @Written.placeholder _ 123 125 [48] [] [] (by decide) .nil
  obtain rfl := hpieces.unique hsingle
  cases List.mem_singleton.mp hmem
  exact ⟨List.cons_ne_nil _ _, fun _ => by decide +kernel⟩

end SubstitutionSample

open SubstitutionSample Sample in
/-- The template `{0}` is rendered exactly; `{`, `{x}` and `{1}` are rejected. -/
theorem substitutesExactly_iff_sample :
    (∃ b, rendered "{0}" = .ok b ∧ SubstitutesExactly (templated [.u8] "{0}") [7] MessageBuilder.new b ∧
      (templated [.u8] "{0}").PlaceholdersFit) ∧
    (∀ b, rendered "\x7b" ≠ .ok b) ∧ (∀ b, rendered "{x}" ≠ .ok b) ∧ ∀ b, rendered "{1}" ≠ .ok b := by
  obtain ⟨b, hb⟩ := rendered_ok "{0}" (by decide +kernel)
  have hexact := (substitutesExactly_iff _ _ _).1 single_fits b hb
  have hopen : (templated [.u8] "\x7b").Unclosed :=
    ⟨[123], by decide +kernel, [], [], [], rfl, .nil, List.not_mem_nil⟩
  have hx := hasPlaceholder "{x}" [120] (by decide +kernel) (by decide)
  have h1 := hasPlaceholder "{1}" [49] (by decide +kernel) (by decide)
  have hone : IsNumeral [49] := ⟨List.cons_ne_nil _ _, fun c hc => by rw [List.mem_singleton.mp hc]; rfl⟩
  refine ⟨⟨b, hb, hexact, (substitutesExactly_iff _ _ _).2.1 b hb hexact⟩,
    (substitutesExactly_iff _ _ _).2.2.1 hopen,
    (substitutesExactly_iff _ _ _).2.2.2.1 _ hx ⟨120, List.mem_cons_self, rfl⟩,
    (substitutesExactly_iff _ _ _).2.2.2.2 _ h1 hone ?_ ?_⟩
  · decide +kernel
  · decide +kernel

open SubstitutionSample in
/-- The placeholders `{}` and `{256}` show the first parameter. -/
theorem placeholders_misnamed : Misnamed "{}" ∧ Misnamed "{256}" :=
  ⟨misnamed "{}" [] (by decide +kernel) (by decide +kernel) (by decide) (by simp),
    misnamed "{256}" (ascii "256") (by decide +kernel) (by decide +kernel) (by decide) two_fifty_six⟩

end ClearMsig
