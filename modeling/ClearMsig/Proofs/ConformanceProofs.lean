import ClearMsig.Conformance
import ClearMsig.Instructions.Proofs.SignedProofs
import ClearMsig.Sample
import ClearMsig.Utils.Proofs.DateTextProofs
import ClearMsig.Utils.Proofs.TemplateProofs

/-!
# Which messages are in the declared format

The header is always right and nothing is cut off. The body is printable as far as its free parts are; the
code checks none of them.
-/

namespace ClearMsig

open Calendar

variable {intent : Intent} {data : Bytes}

theorem printableText_append {a b : Bytes} :
    PrintableText (a ++ b) ↔ PrintableText a ∧ PrintableText b :=
  List.forall_mem_append

theorem printable_iff {b : UInt8} : Printable b ↔ 32 ≤ b.toNat ∧ b.toNat ≤ 126 := by
  simp only [Printable, UInt8.le_iff_toNat_le]
  exact Iff.rfl

/-! ## Numbers and texts that are always printable -/

/-- The texts that the program writes as they stand: the frame of a message, the actions, the contents
and the values, and the digits. -/
theorem printableText_literals :
    (PrintableText (ascii "expires ") ∧ PrintableText (ascii ": ") ∧ PrintableText (ascii " ") ∧
      PrintableText (ascii " | wallet: ") ∧ PrintableText (ascii " proposal: ")) ∧
    (PrintableText (ascii "propose") ∧ PrintableText (ascii "approve") ∧
      PrintableText (ascii "cancel")) ∧
    (PrintableText (ascii "add intent definition_hash: ") ∧ PrintableText (ascii "remove intent ") ∧
      PrintableText (ascii "update intent ") ∧ PrintableText (ascii " definition_hash: ")) ∧
    (PrintableText (ascii "true") ∧ PrintableText (ascii "false")) ∧
    PrintableText ALPHABET ∧ PrintableText (ascii "0123456789abcdef") := by
  decide +kernel

theorem printable_of_isDigit {b : UInt8} (h : Decimal.isDigit b = true) : Printable b := by
  have h' := Decimal.isDigit_iff.mp h
  rw [printable_iff]
  omega

theorem printableText_natText (n : Nat) : PrintableText (Decimal.natText n) := fun b hb =>
  printable_of_isDigit (Decimal.natText_isDigit n b hb)

theorem printableText_intText (n : Int) : PrintableText (Decimal.intText n) := by
  unfold Decimal.intText
  split_ifs with h
  · exact List.forall_mem_cons.mpr ⟨by decide, printableText_natText _⟩
  · exact printableText_natText _

theorem printableText_base58Text (input : Bytes) : PrintableText (base58Text input) := by
  intro b hb
  exact printableText_literals.2.2.2.2.1 b (List.contains_iff_mem.mp (base58Text_isBase58 input b hb))

theorem printable_hexDigit (n : UInt8) (h : n.toNat < 16) : Printable (MessageBuilder.hexDigit n) := by
  obtain ⟨-, -, -, -, -, hall⟩ := printableText_literals
  have hlt : n.toNat < (ascii "0123456789abcdef").length := h
  rw [MessageBuilder.hexDigit, List.getD_eq_getElem?_getD, List.getElem?_eq_getElem hlt, Option.getD_some]
  exact hall _ (List.getElem_mem hlt)

theorem printableText_hexText (data : Bytes) : PrintableText (hexText data) := by
  intro b hb
  obtain ⟨byte, -, hb⟩ := List.mem_flatMap.mp hb
  have hlt := byte.toNat_lt
  have hhigh : (byte >>> 4).toNat < 16 := by
    rw [UInt8.toNat_shiftRight]
    show byte.toNat >>> 4 < 16
    rw [Nat.shiftRight_eq_div_pow]
    omega
  have hlow : (byte &&& 0x0f).toNat < 16 := by
    rw [UInt8.toNat_and]
    exact lt_of_le_of_lt Nat.and_le_right (by decide)
  rcases List.mem_cons.mp hb with rfl | hb
  · exact printable_hexDigit _ hhigh
  · rw [List.mem_singleton.mp hb]
    exact printable_hexDigit _ hlow

/-! ## Dates -/

theorem printable_digit_iff {d : UInt32} :
    Printable (digit d) ↔ d.toNat % 256 ≤ 78 ∨ 240 ≤ d.toNat % 256 := by
  rw [printable_iff, digit, UInt8.toNat_add, UInt32.toNat_toUInt8]
  show 32 ≤ (48 + _) % 256 ∧ (48 + _) % 256 ≤ 126 ↔ _
  omega

theorem printable_digit {d : UInt32} (h : d.toNat < 10) : Printable (digit d) :=
  printable_digit_iff.mpr (by omega)

theorem printableText_decimal2 {x : Int64} (h0 : 0 ≤ x.toInt) (h : x.toInt < 100) :
    PrintableText (decimal2 (asU32 x)) := by
  have hx := asU32_toNat x
  have h10 : (10 : UInt32).toNat = 10 := rfl
  have htens : Printable (digit (asU32 x / 10)) :=
    printable_digit (by rw [UInt32.toNat_div, h10]; omega)
  have hones : Printable (digit (asU32 x % 10)) :=
    printable_digit (by rw [UInt32.toNat_mod, h10]; omega)
  simpa [PrintableText, decimal2] using And.intro htens hones

/-- Of the four characters of a year only the first can fail. -/
theorem printableText_decimal4_iff {x : Int64} :
    PrintableText (decimal4 (asU32 x)) ↔
      (x.toInt % 2 ^ 32 / 1000 % 256 ≤ 78 ∨ 240 ≤ x.toInt % 2 ^ 32 / 1000 % 256) := by
  have hx := asU32_toNat x
  have h10 : (10 : UInt32).toNat = 10 := rfl
  have h1000 : (1000 : UInt32).toNat = 1000 := rfl
  have hrest (v : UInt32) : Printable (digit (v % 10)) :=
    printable_digit (by rw [UInt32.toNat_mod, h10]; omega)
  have hlead : PrintableText (decimal4 (asU32 x)) ↔ Printable (digit (asU32 x / 1000)) := by
    simp [PrintableText, decimal4, hrest]
  rw [hlead, printable_digit_iff, UInt32.toNat_div, h1000]
  omega

theorem printableText_dateText {p : Parts} (h : p.civil.Valid) :
    PrintableText (dateText p) ↔ PrintableText (decimal4 (asU32 p.year)) := by
  have hmonth : PrintableText (decimal2 (asU32 p.month)) :=
    printableText_decimal2 h.month_small.1 h.month_small.2
  have hday : PrintableText (decimal2 (asU32 p.day)) :=
    printableText_decimal2 h.day_small.1 h.day_small.2
  have hhour : PrintableText (decimal2 (asU32 p.hour)) :=
    printableText_decimal2 h.hour_nonneg h.hour_small
  have hmin : PrintableText (decimal2 (asU32 p.min)) := printableText_decimal2 h.min_nonneg h.min_small
  have hsec : PrintableText (decimal2 (asU32 p.sec)) := printableText_decimal2 h.sec_nonneg h.sec_small
  have hdash : PrintableText [45] := by decide
  have hblank : PrintableText [32] := by decide
  have hcolon : PrintableText [58] := by decide
  simp only [dateText, printableText_append, hmonth, hday, hhour, hmin, hsec, hdash, hblank, hcolon,
    and_true]

/-- A date is printable when the leading character of its year is. -/
theorem printableText_date_iff (ts : Int64) :
    PrintableText (dateText (timestampToParts ts)) ↔ PrintableYear ts := by
  obtain ⟨hvalid, hsec⟩ := timestampToParts_spec ts
  generalize timestampToParts ts = p at hvalid hsec ⊢
  rw [printableText_dateText hvalid, printableText_decimal4_iff]
  constructor
  · intro h
    exact ⟨p.civil, hvalid, hsec, h⟩
  · rintro ⟨c, hc, hcsec, h⟩
    obtain rfl := hc.ext hvalid (hcsec.trans hsec.symm)
    exact h

/-! ## Templates -/

/-- What a parameter displays is printable unless it is a string that is not. -/
theorem printableText_display_iff {t : ParamType} {raw : Bytes} :
    PrintableText (t.valueOf raw).display ↔ (t = .string → PrintableText (raw.drop 1)) := by
  cases t with
  | string => simp [ParamType.valueOf, Value.display]
  | address => simpa [ParamType.valueOf, Value.display] using printableText_base58Text raw
  | bool =>
    obtain ⟨-, -, -, ⟨htrue, hfalse⟩, -⟩ := printableText_literals
    simp only [ParamType.valueOf, Value.display, reduceCtorEq, false_imp_iff, iff_true]
    split_ifs
    · exact htrue
    · exact hfalse
  | u64 | i64 | u8 | u16 | u32 | u128 =>
    simpa [ParamType.valueOf, Value.display] using printableText_intText _

theorem Token.printable_iff {t : Token} {a : Bytes} (h : t.text intent data = .ok a) :
    PrintableText a ↔ t.Printable intent data := by
  cases t with
  | literal b =>
    cases h
    simp [PrintableText, Token.Printable]
  | param idx =>
    obtain ⟨param, raw, hparam, hraw, rfl⟩ := paramText_eq_ok h
    rw [printableText_display_iff]
    constructor
    · intro hs param' raw' hparam' ht hraw'
      obtain rfl := Option.some.inj (hparam.symm.trans hparam')
      obtain rfl := Except.ok.inj (hraw.symm.trans hraw')
      exact hs ht
    · exact fun hs ht => hs param raw hparam ht hraw

/-- The text of a template is printable when each of its pieces is. -/
theorem tokensText_printable_iff {ts : List Token} {r : Bytes} (h : tokensText intent data ts = .ok r) :
    PrintableText r ↔ ∀ t ∈ ts, t.Printable intent data := by
  induction ts generalizing r with
  | nil =>
    cases h
    simp [PrintableText]
  | cons t ts ih =>
    simp only [tokensText, bind_eq_ok, Except.ok.injEq] at h
    obtain ⟨a, ha, rest, hrest, rfl⟩ := h
    rw [printableText_append, t.printable_iff ha, ih hrest, List.forall_mem_cons]

/-! ## Messages -/

/-- The content of a message is printable unless a template writes something that is not. -/
theorem contentText_printable_iff {sha256 : Bytes → ByteArr 32} {content : Bytes}
    (h : contentText sha256 intent data = .ok content) :
    PrintableText content ↔ (intent.readType = .ok .custom →
      ∀ tokens, intent.tokens = .ok tokens → ∀ t ∈ tokens, t.Printable intent data) := by
  rw [contentText, bind_eq_ok] at h
  obtain ⟨t, ht, h⟩ := h
  obtain ⟨-, -, ⟨hadd, hremove, hupdate, hhash⟩, -⟩ := printableText_literals
  cases t with
  | addIntent =>
    cases h
    simp [ht, printableText_append, hadd, printableText_hexText]
  | removeIntent =>
    simp only [contentOf, bind_eq_ok, require_eq_ok, Except.ok.injEq, exists_const] at h
    obtain ⟨-, rfl⟩ := h
    simp [ht, printableText_append, hremove, printableText_natText]
  | updateIntent =>
    simp only [contentOf, bind_eq_ok, require_eq_ok, Except.ok.injEq, exists_const] at h
    obtain ⟨-, rfl⟩ := h
    simp [ht, printableText_append, hupdate, hhash, printableText_natText, printableText_hexText]
  | custom =>
    simp only [contentOf, bind_eq_ok] at h
    obtain ⟨tokens, htokens, h⟩ := h
    rw [tokensText_printable_iff h]
    constructor
    · intro hall _ tokens' htokens'
      obtain rfl := Except.ok.inj (htokens.symm.trans htokens')
      exact hall
    · exact fun hall => hall ht tokens htokens

theorem IsAction.printable {action : Bytes} (h : IsAction action) : PrintableText action := by
  obtain ⟨-, ⟨hpropose, happrove, hcancel⟩, -⟩ := printableText_literals
  rcases h with rfl | rfl | rfl
  · exact hpropose
  · exact happrove
  · exact hcancel

/-- The text of a message is printable when its free parts are. -/
theorem messageText_printable_iff {sha256 : Bytes → ByteArr 32} {ctx : MessageContext} {content : Bytes}
    (haction : IsAction ctx.action) (h : contentText sha256 intent data = .ok content) :
    PrintableText (messageText ctx content) ↔ PrintableParts ctx intent data := by
  obtain ⟨⟨hexpires, hcolon, hblank, hwallet, hproposal⟩, -⟩ := printableText_literals
  simp only [messageText, headText, tailText, printableText_append, hexpires, hcolon, hblank, hwallet,
    hproposal, haction.printable, printableText_natText, printableText_date_iff,
    contentText_printable_iff h, true_and, and_true]
  constructor
  · rintro ⟨⟨hyear, hcontent⟩, hname⟩
    exact ⟨hname, hyear, hcontent⟩
  · rintro ⟨hname, hyear, hcontent⟩
    exact ⟨⟨hyear, hcontent⟩, hname⟩

/-- Every message handed to verification is framed by its header, and is in the declared format exactly
when its free parts are printable. -/
theorem conformant_iff {env : Env} {s : Accounts} {ix : Instruction} {ctx : MessageContext} {msg : Bytes}
    (hands : ix.Hands s ctx intent data) (h : signedMessage env.sha256 ctx intent data = .ok msg) :
    ∃ body, Frames msg body ∧ (PrintableText body ↔ PrintableParts ctx intent data) := by
  obtain ⟨content, hcontent, hfit, rfl⟩ := signedMessage_eq_ok.mp h
  refine ⟨messageText ctx content, ⟨?_, rfl⟩, messageText_printable_iff hands.isAction hcontent⟩
  simp only [MSG_BUF_SIZE] at hfit
  omega

namespace ConformanceSample

open Sample

/-- The proposal to remove intent 1, for a wallet and for the wallet that is named by the two bytes of the
letter é in UTF-8. -/
def proposalMessage (name : String) : Bytes :=
  messageOf (ascii "expires 1970-01-01 00:16:40: propose remove intent 1 | wallet: " ++ ascii name ++
    ascii " proposal: 0")

def table : List (Address × Bytes) := [(key 1, proposalMessage "a"), (key 1, proposalMessage "Ã©")]

theorem verify_table {n : UInt8} {address : Address} {msg : Bytes}
    (h : (env table).sigVerify address (sig n) msg = true) : table[n.toNat]? = some (address, msg) :=
  of_decide_eq_true h

end ConformanceSample

open ConformanceSample Sample in
theorem conformant_iff_sample :
    ∃ s s' ctx intent data msg, Runs.Reachable (program (env table)) s ∧
      process (env table) s (propose "a" 1 0 [1]) = .ok s' ∧
      (propose "a" 1 0 [1]).ix.Hands s ctx intent data ∧
      signedMessage (env table).sha256 ctx intent data = .ok msg ∧
      ∃ body, Frames msg body ∧ (PrintableText body ↔ PrintableParts ctx intent data) := by
  obtain ⟨s, s', hs, h⟩ := accepted_of_replay (env table) [create "a" 1 1 [key 2]]
    (propose "a" 1 0 [1]) (by decide +kernel)
  obtain ⟨ctx, intent, data, msg, hsigned⟩ := signed_of_process rfl h
  exact ⟨s, s', ctx, intent, data, msg, hs, h, hsigned.hands, hsigned.message,
    conformant_iff hsigned.hands hsigned.message⟩

open ConformanceSample Sample in
/-- A wallet named with a letter outside ASCII. -/
theorem unprintable_name_signed :
    utf8Valid (ascii "Ã©") = true ∧
      ∃ s s' ctx intent data msg body, Runs.Reachable (program (env table)) s ∧
        process (env table) s (propose "Ã©" 1 1 [1]) = .ok s' ∧
        (propose "Ã©" 1 1 [1]).ix.Hands s ctx intent data ∧
        signedMessage (env table).sha256 ctx intent data = .ok msg ∧
        Frames msg body ∧ ¬ PrintableText body := by
  refine ⟨by decide +kernel, ?_⟩
  obtain ⟨s, s', hs, h⟩ := accepted_of_replay (env table) [create "Ã©" 1 1 [key 2]]
    (propose "Ã©" 1 1 [1]) (by decide +kernel)
  obtain ⟨ctx, intent, data, msg, hsigned⟩ := signed_of_process rfl h
  obtain ⟨key, hkey⟩ := hsigned.verified
  obtain ⟨-, rfl⟩ := Prod.mk.inj (Option.some.inj (verify_table hkey))
  exact ⟨s, s', ctx, intent, data, _, _, hs, h, hsigned.hands, hsigned.message, ⟨by decide +kernel, rfl⟩,
    by decide +kernel⟩

end ClearMsig
