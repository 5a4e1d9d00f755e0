import ClearMsig.Client
import ClearMsig.Sample
import ClearMsig.Utils.Proofs.DateTextProofs
import ClearMsig.Utils.Proofs.MessageProofs

/-!
# The messages of the program and of the client

Both sides write the same text but for the year: the program casts its leading digit to a byte, the client
prints the number. They agree on the years with four digits and on no others.
-/

namespace ClearMsig

open Calendar

/-! ## Dates -/

/-- The client computes the parts of a date as the program does. -/
theorem Client.formatTimestamp_eq (ts : Int64) :
    Client.formatTimestamp ts =
      let p := timestampToParts ts
      Decimal.paddedText 4 p.year.toInt ++ [45] ++ Decimal.paddedText 2 p.month.toInt ++ [45] ++
        Decimal.paddedText 2 p.day.toInt ++ [32] ++ Decimal.paddedText 2 p.hour.toInt ++ [58] ++
        Decimal.paddedText 2 p.min.toInt ++ [58] ++ Decimal.paddedText 2 p.sec.toInt := by
  exact Eq.refl _

/-- The other years are not: the program writes four characters, none of them a sign. -/
theorem paddedText_four_iff {x : Int64} :
    Decimal.paddedText 4 x.toInt = decimal4 (asU32 x) ↔ 0 ≤ x.toInt ∧ x.toInt ≤ 9999 := by
  refine ⟨fun h => ?_, fun ⟨h0, h⟩ => paddedText_four h0 h⟩
  have hlen : (Decimal.paddedText 4 x.toInt).length = 4 := by
    rw [h]
    rfl
  by_cases h0 : 0 ≤ x.toInt
  · obtain ⟨n, hn⟩ := Int.eq_ofNat_of_zero_le h0
    rw [hn] at hlen ⊢
    have hlt := Decimal.paddedText_length_natCast (by decide) hlen
    omega
  · have hneg : x.toInt < 0 := Int.lt_of_not_ge h0
    simp only [Decimal.paddedText, hneg, if_true, List.length_cons, List.length_append,
      List.length_replicate] at hlen h
    have hsmall : x.toInt.natAbs < 10 ^ 3 :=
      (Decimal.natText_length_le_iff (by decide)).mp (by omega)
    -- so that the cast year is just below `2 ^ 32`
    have hx := asU32_toNat x
    have hlead := congrArg UInt8.toNat (List.cons.inj h).1
    have h1000 : (1000 : UInt32).toNat = 1000 := rfl
    rw [digit, UInt8.toNat_add, UInt32.toNat_toUInt8, UInt32.toNat_div, h1000] at hlead
    have h48 : (48 : UInt8).toNat = 48 := rfl
    have h45 : (45 : UInt8).toNat = 45 := rfl
    rw [h48, h45] at hlead
    omega

theorem fourDigitYear_iff (ts : Int64) :
    FourDigitYear ts ↔ 0 ≤ (timestampToParts ts).year.toInt ∧ (timestampToParts ts).year.toInt ≤ 9999 := by
  obtain ⟨hvalid, hsec⟩ := timestampToParts_spec ts
  have hlo : secondsBeforeYear 0 = -62167219200 := by decide
  have hhi : secondsBeforeYear 10000 = 253402300800 := by decide
  have h0 := hvalid.le_year_iff 0
  have h1 := hvalid.le_year_iff 10000
  rw [hsec, hlo] at h0
  rw [hsec, hhi] at h1
  simp only [Parts.civil] at h0 h1
  unfold FourDigitYear
  omega

/-- The dates of the two sides are the same exactly when the year has at most four digits. -/
theorem Client.formatTimestamp_eq_iff (ts : Int64) :
    Client.formatTimestamp ts = dateText (timestampToParts ts) ↔ FourDigitYear ts := by
  rw [Client.formatTimestamp_eq, dateText_eq_padded (timestampToParts_spec ts).1, fourDigitYear_iff,
    ← paddedText_four_iff]
  simp only [List.append_cancel_right_eq]

/-! ## Hexadecimal -/

theorem Client.hexByte_eq (b : UInt8) :
    Client.hexByte b = [MessageBuilder.hexDigit (b >>> 4), MessageBuilder.hexDigit (b &&& 0x0f)] := by
  have hall : (List.range 256).all (fun n => Client.hexByte (UInt8.ofNat n) =
      [MessageBuilder.hexDigit (UInt8.ofNat n >>> 4),
        MessageBuilder.hexDigit (UInt8.ofNat n &&& 0x0f)]) = true := by decide +kernel
  have h := List.all_eq_true.mp hall b.toNat (List.mem_range.mpr b.toNat_lt)
  rw [UInt8.ofNat_toNat] at h
  exact of_decide_eq_true h

theorem Client.hexEncode_eq (data : Bytes) : Client.hexEncode data = hexText data := by
  rw [Client.hexEncode, hexText]
  exact List.flatMap_congr fun b _ => Client.hexByte_eq b

/-! ## Messages -/

/-- A message of the program is the wrapped text. -/
theorem Client.wrapOffchain_eq {text : Bytes} (h : 20 + text.length ≤ MSG_BUF_SIZE) :
    Client.wrapOffchain text = MessageBuilder.offchainHeader text.length ++ text := by
  have hmod : text.length % 2 ^ 16 = text.length := by
    refine Nat.mod_eq_of_lt ?_
    simp only [MSG_BUF_SIZE] at h
    omega
  rw [Client.wrapOffchain, hmod]
  rfl

theorem Client.wrapOffchain_injective : Function.Injective Client.wrapOffchain := by
  intro body body' h
  have hdrop (b : Bytes) : (Client.wrapOffchain b).drop 20 = b := rfl
  rw [← hdrop body, h, hdrop]

/-- The client's message with a given content. -/
def Client.contentMsg (ctx : MessageContext) (content : Bytes) : Bytes :=
  Client.wrapOffchain (ascii "expires " ++ Client.formatTimestamp ctx.expiry ++ ascii ": " ++
    ctx.action ++ ascii " " ++ content ++ Client.suffix ctx.walletName ctx.proposalIndex)

theorem Client.addIntentMsg_eq (sha256 : Bytes → ByteArr 32) (ctx : MessageContext) (data : Bytes) :
    Client.addIntentMsg sha256 ctx.action ctx.expiry ctx.walletName ctx.proposalIndex data =
      Client.contentMsg ctx (ascii "add intent definition_hash: " ++ hexText (sha256 data).val) := by
  rw [Client.addIntentMsg, Client.contentMsg, Client.hexEncode_eq]
  have hsplit : ascii " add intent definition_hash: " =
      ascii " " ++ ascii "add intent definition_hash: " := rfl
  rw [hsplit]
  simp only [List.append_assoc]

theorem Client.removeIntentMsg_eq (ctx : MessageContext) (k : UInt8) :
    Client.removeIntentMsg ctx.action ctx.expiry ctx.walletName ctx.proposalIndex k =
      Client.contentMsg ctx (ascii "remove intent " ++ Decimal.natText k.toNat) := by
  rw [Client.removeIntentMsg, Client.contentMsg]
  have hsplit : ascii " remove intent " = ascii " " ++ ascii "remove intent " := rfl
  rw [hsplit]
  simp only [List.append_assoc]

/-- The two sides wrap the same text up to the date. -/
theorem Client.contentMsg_eq_iff {ctx : MessageContext} {content : Bytes}
    (h : 20 + (messageText ctx content).length ≤ MSG_BUF_SIZE) :
    MessageBuilder.offchainHeader (messageText ctx content).length ++ messageText ctx content =
        Client.contentMsg ctx content ↔
      FourDigitYear ctx.expiry := by
  rw [← Client.wrapOffchain_eq h, Client.contentMsg, Client.wrapOffchain_injective.eq_iff,
    ← Client.formatTimestamp_eq_iff, messageText, headText, tailText, Client.suffix,
    List.append_cancel_right_eq, List.append_cancel_right_eq, List.append_cancel_right_eq,
    List.append_cancel_right_eq, List.append_cancel_right_eq, List.append_cancel_left_eq, eq_comm]

/-- What the program builds for a meta-intent is what the client signs exactly when the year of the expiry
has at most four digits. -/
theorem client_agrees_iff {sha256 : Bytes → ByteArr 32} {ctx : MessageContext} {intent : Intent}
    {data m : Bytes} (h : signedMessage sha256 ctx intent data = .ok m) :
    (intent.readType = .ok .addIntent →
      (m = Client.addIntentMsg sha256 ctx.action ctx.expiry ctx.walletName ctx.proposalIndex data ↔
        FourDigitYear ctx.expiry)) ∧
    ∀ k, intent.readType = .ok .removeIntent → data = [k] →
      (m = Client.removeIntentMsg ctx.action ctx.expiry ctx.walletName ctx.proposalIndex k ↔
        FourDigitYear ctx.expiry) := by
  obtain ⟨content, hcontent, hfit, rfl⟩ := signedMessage_eq_ok.mp h
  rw [contentText, bind_eq_ok] at hcontent
  obtain ⟨t, ht, hcontent⟩ := hcontent
  constructor
  · intro hadd
    obtain rfl := Except.ok.inj (ht.symm.trans hadd)
    cases hcontent
    rw [Client.addIntentMsg_eq]
    exact Client.contentMsg_eq_iff hfit
  · rintro k hremove rfl
    obtain rfl := Except.ok.inj (ht.symm.trans hremove)
    cases hcontent
    rw [Client.removeIntentMsg_eq]
    exact Client.contentMsg_eq_iff hfit

namespace ClientSample

open Sample

def addition : Intent := { templated [] "" with intentType := IntentType.addIntent.toU8 }

def removal : Intent := { templated [] "" with intentType := IntentType.removeIntent.toU8 }

/-- The first second of the year 10000. -/
def lateContext : MessageContext := { contextFor "a" with expiry := 253402300800 }

end ClientSample

open ClientSample Sample in
theorem client_agrees_iff_sample :
    (∃ m, signedMessage (env []).sha256 (contextFor "a") addition [1, 2] = .ok m ∧
      m = Client.addIntentMsg (env []).sha256 (ascii "propose") 1000 (ascii "a") 0 [1, 2]) ∧
    ∃ m, signedMessage (env []).sha256 (contextFor "a") removal [5] = .ok m ∧
      m = Client.removeIntentMsg (ascii "propose") 1000 (ascii "a") 0 5 := by
  have hyear : FourDigitYear 1000 := by decide
  have hadd : signedMessage (env []).sha256 (contextFor "a") addition [1, 2] =
      .ok (Client.addIntentMsg (env []).sha256 (ascii "propose") 1000 (ascii "a") 0 [1, 2]) := by
    decide +kernel
  have hremove : signedMessage (env []).sha256 (contextFor "a") removal [5] =
      .ok (Client.removeIntentMsg (ascii "propose") 1000 (ascii "a") 0 5) := by
    decide +kernel
  exact ⟨⟨_, hadd, ((client_agrees_iff hadd).1 rfl).mpr hyear⟩,
    ⟨_, hremove, ((client_agrees_iff hremove).2 5 rfl rfl).mpr hyear⟩⟩

open ClientSample Sample in
/-- The program writes a colon where the client writes the two digits of ten thousands and thousands. -/
theorem client_disagrees :
    ∃ m, signedMessage (env []).sha256 lateContext removal [5] = .ok m ∧
      m = message "expires :000-01-01 00:00:00: propose remove intent 5 | wallet: a proposal: 0" ∧
      m ≠ Client.removeIntentMsg (ascii "propose") 253402300800 (ascii "a") 0 5 ∧
      Client.removeIntentMsg (ascii "propose") 253402300800 (ascii "a") 0 5 =
        message "expires 10000-01-01 00:00:00: propose remove intent 5 | wallet: a proposal: 0" := by
  rw [message_ofList, message_ofList]
  refine ⟨_, ?_, rfl, ?_, ?_⟩ <;> decide +kernel

end ClearMsig
