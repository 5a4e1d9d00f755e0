import ClearMsig.Proofs.InvariantProofs
import ClearMsig.Sample
import ClearMsig.Separation
import ClearMsig.Utils.Proofs.MessageProofs

/-!
# What a message says about its context

The proof reads a message from both ends: the date has a fixed length, the action ends at a space, and
the proposal index is the run of digits at the end. What is left is the content and the wallet name,
which the mark between them separates when it is found at one place. The content of an intent of a run is
empty or the phrase of a meta-intent, so that the mark is the first one.
-/

namespace ClearMsig

/-! ## The two ends -/

theorem action_noSpace {action : Bytes} (h : IsAction action) :
    ∀ x ∈ action, decide (x ≠ (32 : UInt8)) = true := by
  rcases h with rfl | rfl | rfl
  · exact List.all_eq_true.mp rfl
  · exact List.all_eq_true.mp rfl
  · exact List.all_eq_true.mp rfl

theorem stopsAt_space (rest : Bytes) :
    Reading.StopsAt (fun x => decide (x ≠ (32 : UInt8))) (ascii " " ++ rest) :=
  Reading.stopsAt_cons rfl _

/-- The mark in front of the proposal index ends in a space. -/
theorem proposalMark_stopsAt (front : Bytes) :
    Reading.StopsAt Decimal.isDigit (front ++ ascii " proposal: ").reverse := by
  rw [List.reverse_append]
  exact Reading.stopsAt_cons rfl _

/-- Action, proposal index, and the text in between. -/
theorem ends_of_messageText {ctx ctx' : MessageContext} {content content' : Bytes}
    (ha : IsAction ctx.action) (ha' : IsAction ctx'.action)
    (h : messageText ctx content = messageText ctx' content') :
    ctx.action = ctx'.action ∧ ctx.proposalIndex = ctx'.proposalIndex ∧
      content ++ (walletMark ++ ctx.walletName) = content' ++ (walletMark ++ ctx'.walletName) := by
  simp only [messageText, headText, tailText, List.append_assoc] at h
  have hdate := List.append_cancel_left h
  have hrest := (List.append_inj hdate ((dateText_length _).trans (dateText_length _).symm)).2
  have hfront := List.append_cancel_left hrest
  obtain ⟨haction, hspace⟩ := Reading.append_inj_of_stopsAt (action_noSpace ha) (action_noSpace ha')
    (stopsAt_space _) (stopsAt_space _) hfront
  have hback := List.append_cancel_left hspace
  simp only [← List.append_assoc] at hback
  obtain ⟨hbody, hindex⟩ := Reading.append_inj_of_stopsAt_right
    (Decimal.natText_isDigit ctx.proposalIndex.toNat) (Decimal.natText_isDigit ctx'.proposalIndex.toNat)
    (proposalMark_stopsAt _) (proposalMark_stopsAt _) hback
  have hname := List.append_cancel_right hbody
  simp only [List.append_assoc] at hname
  exact ⟨haction, UInt64.toNat_inj.mp (Decimal.natText_injective hindex), hname⟩

/-! ## Content and name -/

theorem hexText_length (data : Bytes) : (hexText data).length = 2 * data.length := by
  induction data with
  | nil => rfl
  | cons b data ih =>
    have hcons : hexText (b :: data) = [MessageBuilder.hexDigit (b >>> 4),
      MessageBuilder.hexDigit (b &&& 0x0f)] ++ hexText data := rfl
    rw [hcons, List.length_append, ih, List.length_cons]
    simp only [List.length_cons, List.length_nil]
    omega

theorem hash_append_inj {hash hash' : ByteArr 32} {s s' : Bytes}
    (h : hexText hash.val ++ s = hexText hash'.val ++ s') : hexText hash.val = hexText hash'.val ∧ s = s' := by
  refine List.append_inj h ?_
  rw [hexText_length, hexText_length, hash.property, hash'.property]

theorem stopsAt_mark (name : Bytes) : Reading.StopsAt Decimal.isDigit (walletMark ++ name) :=
  Reading.stopsAt_cons rfl _

theorem stopsAt_definition (rest : Bytes) :
    Reading.StopsAt Decimal.isDigit (ascii " definition_hash: " ++ rest) :=
  Reading.stopsAt_cons rfl _

/-- The phrase of a meta-intent ends where the mark begins. -/
theorem MetaPhrase.append_inj {t t' : IntentType} {content content' name name' : Bytes}
    (hp : MetaPhrase t content) (hp' : MetaPhrase t' content')
    (h : content ++ (walletMark ++ name) = content' ++ (walletMark ++ name')) :
    t = t' ∧ content = content' ∧ name = name' := by
  cases hp with
  | addIntent hash =>
    cases hp' with
    | addIntent hash' =>
      simp only [List.append_assoc] at h
      obtain ⟨hhash, hname⟩ := hash_append_inj (List.append_cancel_left h)
      exact ⟨rfl, by rw [hhash], List.append_cancel_left hname⟩
    | removeIntent | updateIntent => cases h
  | removeIntent index =>
    cases hp' with
    | removeIntent index' =>
      simp only [List.append_assoc] at h
      obtain ⟨hindex, hname⟩ := Decimal.natText_append_inj (stopsAt_mark name) (stopsAt_mark name')
        (List.append_cancel_left h)
      exact ⟨rfl, by rw [hindex], List.append_cancel_left hname⟩
    | addIntent | updateIntent => cases h
  | updateIntent index hash =>
    cases hp' with
    | updateIntent index' hash' =>
      simp only [List.append_assoc] at h
      obtain ⟨hindex, hrest⟩ := Decimal.natText_append_inj (stopsAt_definition _) (stopsAt_definition _)
        (List.append_cancel_left h)
      obtain ⟨hhash, hname⟩ := hash_append_inj (List.append_cancel_left hrest)
      exact ⟨rfl, by rw [hindex, hhash], List.append_cancel_left hname⟩
    | addIntent | removeIntent => cases h

/-- The content of a message for a meta-intent is its phrase. -/
theorem metaPhrase_of_contentOf {sha256 : Bytes → ByteArr 32} {intent : Intent} {data content : Bytes}
    {t : IntentType} (ht : t ≠ .custom) (h : contentOf sha256 intent data t = .ok content) :
    MetaPhrase t content := by
  cases t with
  | custom => exact absurd rfl ht
  | addIntent =>
    cases h
    exact .addIntent _
  | removeIntent =>
    simp only [contentOf, bind_eq_ok, Except.ok.injEq] at h
    obtain ⟨-, -, rfl⟩ := h
    exact .removeIntent _
  | updateIntent =>
    simp only [contentOf, bind_eq_ok, Except.ok.injEq] at h
    obtain ⟨-, -, rfl⟩ := h
    exact .updateIntent _ _

/-- No phrase begins like the text in front of a wallet name. -/
theorem MetaPhrase.ne_mark {t : IntentType} {content name name' : Bytes} (h : MetaPhrase t content) :
    content ++ (walletMark ++ name) ≠ walletMark ++ name' := by
  intro heq
  cases h with
  | addIntent | removeIntent | updateIntent => cases heq

/-! ## The mark in front of the name -/

/-- Behind a clean name's mark there is no second one. -/
theorem CleanName.lastBefore {name : Bytes} (h : CleanName name) : Reading.LastBefore walletMark name := by
  intro hinfix
  refine h ?_
  simpa [walletMark, ascii, List.infix_cons_iff, List.cons_prefix_cons] using hinfix

theorem hexDigit_ne_bar (n : UInt8) : MessageBuilder.hexDigit n ≠ 124 := by
  have hall : ∀ b ∈ 0 :: ascii "0123456789abcdef", b ≠ (124 : UInt8) := by decide +kernel
  refine hall _ ?_
  rw [MessageBuilder.hexDigit, List.getD_eq_getElem?_getD]
  cases hn : (ascii "0123456789abcdef")[n.toNat]? with
  | none => exact List.mem_cons_self
  | some b => exact List.mem_cons_of_mem _ (List.mem_of_getElem? hn)

theorem bar_not_mem_hexText (data : Bytes) : (124 : UInt8) ∉ hexText data := by
  intro hbar
  obtain ⟨byte, -, hbar⟩ := List.mem_flatMap.mp hbar
  rcases List.mem_cons.mp hbar with hhigh | hlow
  · exact hexDigit_ne_bar _ hhigh.symm
  · exact hexDigit_ne_bar _ (List.mem_singleton.mp hlow).symm

theorem bar_not_mem_natText (n : Nat) : (124 : UInt8) ∉ Decimal.natText n := by
  intro hbar
  have hdigit := Decimal.natText_isDigit n 124 hbar
  exact absurd hdigit (by decide)

/-- The phrase of a meta-intent has no bar. -/
theorem MetaPhrase.bar_not_mem {t : IntentType} {content : Bytes} (h : MetaPhrase t content) :
    (124 : UInt8) ∉ content := by
  have hwords : (124 : UInt8) ∉ ascii "add intent definition_hash: " ∧ (124 : UInt8) ∉ ascii "remove intent " ∧
      (124 : UInt8) ∉ ascii "update intent " ∧ (124 : UInt8) ∉ ascii " definition_hash: " := by
    decide +kernel
  obtain ⟨hadd, hremove, hupdate, hdefinition⟩ := hwords
  cases h with
  | addIntent hash => simp [hadd, bar_not_mem_hexText]
  | removeIntent index => simp [hremove, bar_not_mem_natText]
  | updateIntent index hash => simp [hupdate, hdefinition, bar_not_mem_natText, bar_not_mem_hexText]

/-- A content without a bar is clean. -/
theorem cleanContent_of_bar_not_mem {content : Bytes} (h : (124 : UInt8) ∉ content) :
    CleanContent content := by
  rintro ⟨front, back, heq⟩
  have hmark : walletMark = 32 :: 124 :: ascii " wallet: " := by decide +kernel
  have hmost : walletMark.dropLast = 32 :: 124 :: ascii " wallet:" := by decide +kernel
  have hbar : (content ++ [32]) ++ 124 :: ascii " wallet:" =
      (front ++ [32]) ++ 124 :: (ascii " wallet: " ++ back) := by
    rw [hmost, hmark] at heq
    simpa using heq.symm
  have hback : (124 : UInt8) ∉ ascii " wallet:" := by decide +kernel
  obtain ⟨-, hrest⟩ := Reading.append_cons_inj_of_once (by simpa using h) hback hbar
  -- the mark without its last byte is too short for the mark
  have hlen := congrArg List.length hrest
  have hlen₁ : (ascii " wallet:").length = 8 := by decide +kernel
  have hlen₂ : (ascii " wallet: ").length = 9 := by decide +kernel
  rw [List.length_append, hlen₁, hlen₂] at hlen
  omega

/-- The mark is found where one of the two conditions rules out a place before it, and another a place behind
it. -/
theorem located_of_clean {content content' name name' : Bytes} (h : CleanContent content' ∨ CleanName name)
    (h' : CleanContent content ∨ CleanName name') : Reading.Located walletMark content name content' name' :=
  ⟨h.imp_right CleanName.lastBefore, h'.imp_right CleanName.lastBefore⟩

/-! ## The contents of a run -/

section Stored

variable {env : Env} {s : Accounts} {c : Call} {a : Address}

theorem NewIntent.bytePool_nil {i : Intent} (h : NewIntent env s c a i) : i.bytePool.toList = [] := by
  cases h with
  | ofWallet _ _ _ _ _ h => exact h.bytePool_nil
  | ofBytes _ _ _ h => exact h.bytePool_nil

/-- No intent of a run has a byte pool. -/
theorem bytePool_nil_of_reachable (hr : Runs.Reachable (program env) s) {i : Intent}
    (hi : s.intent? a = some i) : i.bytePool.toList = [] := by
  refine intent_of_reachable (P := fun i => i.bytePool.toList = []) hr ?_ ?_ hi
  · intro i i' hd hnil
    rw [Intent.bytePool_congr hd]
    exact hnil
  · intro s c a i hnew
    exact hnew.bytePool_nil

end Stored

/-- The template in an empty byte pool is empty. -/
theorem tokens_of_bytePool_nil {i : Intent} {ts : List Token} (hnil : i.bytePool.toList = [])
    (h : i.tokens = .ok ts) : ts = [] := by
  simp only [Intent.tokens, Intent.templateStr, hnil, List.length_nil, bind_eq_ok] at h
  obtain ⟨template, htemplate, hts⟩ := h
  split_ifs at htemplate with hlen
  simp only [bind_eq_ok, slice_eq_ok, getSlice_eq_some, Except.ok.injEq] at htemplate
  obtain ⟨t, ⟨-, -, rfl⟩, -, -, rfl⟩ := htemplate
  simp only [List.drop_nil, List.take_nil, templateTokens, Except.ok.injEq] at hts
  exact hts.symm

/-- A content that is empty, for a custom intent, or the phrase of a meta-intent. -/
def Phrased (t : IntentType) (content : Bytes) : Prop := (t = .custom ∧ content = []) ∨ MetaPhrase t content

/-- So are the contents of the intents of a run. -/
theorem Stored.phrased {env : Env} {sha256 : Bytes → ByteArr 32} {i : Intent} {t : IntentType}
    {data content : Bytes} (hi : Stored env i) (h : contentOf sha256 i data t = .ok content) :
    Phrased t content := by
  obtain ⟨s, a, hr, hi⟩ := hi
  by_cases ht : t = .custom
  · subst ht
    simp only [contentOf, bind_eq_ok] at h
    obtain ⟨ts, hts, htext⟩ := h
    obtain rfl := tokens_of_bytePool_nil (bytePool_nil_of_reachable hr hi) hts
    exact .inl ⟨rfl, (Except.ok.inj htext).symm⟩
  · exact .inr (metaPhrase_of_contentOf ht h)

/-- Between phrased contents, the type and the wallet name can be read off. -/
theorem Phrased.append_inj {t t' : IntentType} {content content' name name' : Bytes}
    (hp : Phrased t content) (hp' : Phrased t' content')
    (h : content ++ (walletMark ++ name) = content' ++ (walletMark ++ name')) : t = t' ∧ name = name' := by
  rcases hp with ⟨rfl, rfl⟩ | ht
  · rcases hp' with ⟨rfl, rfl⟩ | ht'
    · exact ⟨rfl, List.append_cancel_left h⟩
    · exact absurd h.symm ht'.ne_mark
  · rcases hp' with ⟨rfl, rfl⟩ | ht'
    · exact absurd h ht.ne_mark
    · obtain ⟨htype, -, hname⟩ := ht.append_inj ht' h
      exact ⟨htype, hname⟩

/-! ## Separation -/

/-- One signature has one message. -/
theorem Env.SharedSignature.eq {env : Env} {m m' : Bytes} (h : env.SharedSignature m m') : m = m' := by
  obtain ⟨hideal, key, key', sig, hverify, hverify'⟩ := h
  exact (hideal key key' sig m m' hverify hverify').2

theorem contentText_eq_ok {sha256 : Bytes → ByteArr 32} {intent : Intent} {data content : Bytes}
    (h : contentText sha256 intent data = .ok content) :
    ∃ t, intent.readType = .ok t ∧ contentOf sha256 intent data t = .ok content := by
  simpa only [contentText, bind_eq_ok] using h

/-- Two intents with one content have one type, unless the one that is custom writes the other's phrase. -/
theorem types_of_content {sha256 : Bytes → ByteArr 32} {intent intent' : Intent}
    {data data' content : Bytes} {t t' : IntentType} (hc : contentOf sha256 intent data t = .ok content)
    (hc' : contentOf sha256 intent' data' t' = .ok content) :
    t = t' ∨ (t = .custom ∧ MetaPhrase t' content) ∨ (t' = .custom ∧ MetaPhrase t content) := by
  by_cases ht : t = .custom <;> by_cases ht' : t' = .custom
  · exact .inl (ht.trans ht'.symm)
  · exact .inr (.inl ⟨ht, metaPhrase_of_contentOf ht' hc'⟩)
  · exact .inr (.inr ⟨ht', metaPhrase_of_contentOf ht hc⟩)
  · have hsame : content ++ (walletMark ++ []) = content ++ (walletMark ++ []) := rfl
    exact .inl ((metaPhrase_of_contentOf ht hc).append_inj (metaPhrase_of_contentOf ht' hc') hsame).1

/-- What equal texts say about the two contexts. -/
theorem separated_of_messageText {env : Env} {ctx ctx' : MessageContext} {intent intent' : Intent}
    {data data' content content' : Bytes} {t t' : IntentType}
    (ha : IsAction ctx.action) (ha' : IsAction ctx'.action)
    (hc : contentOf env.sha256 intent data t = .ok content)
    (hc' : contentOf env.sha256 intent' data' t' = .ok content')
    (h : messageText ctx content = messageText ctx' content') :
    Separated env ctx ctx' intent intent' t t' content content' := by
  obtain ⟨haction, hindex, hmiddle⟩ := ends_of_messageText ha ha' h
  have hclean {i : Intent} {d x : Bytes} {u : IntentType} (hu : u ≠ .custom)
      (hx : contentOf env.sha256 i d u = .ok x) : CleanContent x :=
    cleanContent_of_bar_not_mem (metaPhrase_of_contentOf hu hx).bar_not_mem
  refine ⟨haction, hindex, ?_, ?_, fun ht => hclean ht hc, fun ht' => hclean ht' hc', ?_, ?_⟩
  · intro hi hi'
    exact ((hi.phrased hc).append_inj (hi'.phrased hc') hmiddle).symm
  · intro hmark hmark'
    exact ((located_of_clean hmark hmark').append_inj hmiddle).symm
  · intro ht ht'
    obtain ⟨htype, -, hname⟩ :=
      (metaPhrase_of_contentOf ht hc).append_inj (metaPhrase_of_contentOf ht' hc') hmiddle
    exact ⟨hname, htype⟩
  · intro hname
    rw [hname] at hmiddle
    obtain rfl := List.append_cancel_right hmiddle
    exact ⟨rfl, types_of_content hc hc'⟩

/-- Two messages with the same bytes, or with one signature, agree on the action and the proposal index, and
on the wallet name and the intent type: always between intents of reachable states, and between any intents as
far as the mark in front of the name is found and no template writes the phrase of a meta-intent. -/
theorem messages_separated {env : Env} {ctx ctx' : MessageContext} {intent intent' : Intent}
    {data data' m m' : Bytes} (ha : IsAction ctx.action) (ha' : IsAction ctx'.action)
    (hm : signedMessage env.sha256 ctx intent data = .ok m)
    (hm' : signedMessage env.sha256 ctx' intent' data' = .ok m')
    (h : m = m' ∨ env.SharedSignature m m') :
    ∃ t t' content content', intent.readType = .ok t ∧ intent'.readType = .ok t' ∧
      contentOf env.sha256 intent data t = .ok content ∧
      contentOf env.sha256 intent' data' t' = .ok content' ∧
      Separated env ctx ctx' intent intent' t t' content content' := by
  obtain rfl : m = m' := h.elim id Env.SharedSignature.eq
  obtain ⟨content, content', hc, hc', htext⟩ := messageText_eq_of_signedMessage hm hm'
  obtain ⟨t, ht, hcontent⟩ := contentText_eq_ok hc
  obtain ⟨t', ht', hcontent'⟩ := contentText_eq_ok hc'
  exact ⟨t, t', content, content', ht, ht', hcontent, hcontent',
    separated_of_messageText ha ha' hcontent hcontent' htext⟩

namespace SeparationSample

open Sample

/-- The intent of a wallet that removes intents. -/
def removal : Intent := { templated [] "" with intentType := IntentType.removeIntent.toU8 }

def disguised : Intent := templated [] "remove intent 5"

def plain : Intent := templated [] "pay"

def suffixed : Intent := templated [] "pay | wallet: b"

/-- The message to remove intent 5, signed by key 2. -/
def signed : Bytes :=
  messageOf (ascii "expires 1970-01-01 " ++ ascii "00:16:40: propose " ++ ascii "remove intent 5" ++
    ascii " | wallet: a " ++ ascii "proposal: 0")

def signing : Env := env [(key 2, signed)]

/-- A wallet stores an intent for which the message is built. -/
theorem stored_removal : ∃ i, Stored signing i ∧
    signedMessage signing.sha256 (contextFor "a") i [5] = .ok signed ∧ i.readType = .ok .removeIntent := by
  have hobs : observe signing [create "a" 1 1 [key 2]] (fun _ s => (s.intent? (intent "a" 1)).any fun i =>
      decide (signedMessage signing.sha256 (contextFor "a") i [5] = .ok signed ∧
        i.readType = .ok .removeIntent)) = some true := by
    decide +kernel
  obtain ⟨tr, s, hrun, -, hany⟩ := run_of_observe hobs
  obtain ⟨i, hi, hmessage⟩ := (Option.any_eq_true _ _).mp hany
  exact ⟨i, ⟨s, _, ⟨tr, hrun⟩, hi⟩, of_decide_eq_true hmessage⟩

end SeparationSample

open SeparationSample Sample in
/-- The removal of intent 5, signed once: the disguised intent, and an intent that a wallet stores. -/
theorem messages_separated_sample :
    Separated signing (contextFor "a") (contextFor "a") disguised removal .custom .removeIntent
      (ascii "remove intent 5") (ascii "remove intent 5") ∧
    ∃ i, Stored signing i ∧ Separated signing (contextFor "a") (contextFor "a") i removal .removeIntent
      .removeIntent (ascii "remove intent 5") (ascii "remove intent 5") := by
  have hm : signedMessage signing.sha256 (contextFor "a") disguised [] = .ok signed := by decide +kernel
  have hm' : signedMessage signing.sha256 (contextFor "a") removal [5] = .ok signed := by decide +kernel
  have hverify : signing.sigVerify (key 2) (sig 0) signed = true := by decide +kernel
  have hshared : signing.SharedSignature signed signed :=
    ⟨env_idealSignatures _, key 2, key 2, sig 0, hverify, hverify⟩
  have hc : contentOf signing.sha256 disguised [] .custom = .ok (ascii "remove intent 5") := by
    decide +kernel
  have hc' (i : Intent) : contentOf signing.sha256 i [5] .removeIntent = .ok (ascii "remove intent 5") := by
    show contentOf signing.sha256 removal [5] .removeIntent = _
    decide +kernel
  constructor
  · obtain ⟨t, t', content, content', ht, ht', hcontent, hcontent', hsep⟩ :=
      messages_separated (.inl rfl) (.inl rfl) hm hm' (.inr hshared)
    obtain rfl : IntentType.custom = t := Except.ok.inj ht
    obtain rfl : IntentType.removeIntent = t' := Except.ok.inj ht'
    obtain rfl := Except.ok.inj (hc.symm.trans hcontent)
    obtain rfl := Except.ok.inj ((hc' _).symm.trans hcontent')
    exact hsep
  · obtain ⟨i, hi, hm₁, ht₁⟩ := stored_removal
    obtain ⟨t, t', content, content', ht, ht', hcontent, hcontent', hsep⟩ :=
      messages_separated (.inl rfl) (.inl rfl) hm₁ hm' (.inl rfl)
    obtain rfl : IntentType.removeIntent = t := Except.ok.inj (ht₁.symm.trans ht)
    obtain rfl : IntentType.removeIntent = t' := Except.ok.inj ht'
    obtain rfl := Except.ok.inj ((hc' _).symm.trans hcontent)
    obtain rfl := Except.ok.inj ((hc' _).symm.trans hcontent')
    exact ⟨i, hi, hsep⟩

open SeparationSample Sample in
/-- A template that writes the phrase of a meta-intent, and one that writes a wallet name. -/
theorem messages_collide :
    (disguised.readType = .ok .custom ∧ removal.readType = .ok .removeIntent ∧
      messageFor "a" disguised [] = messageFor "a" removal [5] ∧
      messageFor "a" removal [5] =
        .ok (message "expires 1970-01-01 00:16:40: propose remove intent 5 | wallet: a proposal: 0")) ∧
    ((contextFor "a").walletName ≠ (contextFor "b | wallet: a").walletName ∧
      messageFor "a" suffixed [] = messageFor "b | wallet: a" plain [] ∧
      messageFor "b | wallet: a" plain [] = .ok
        (message "expires 1970-01-01 00:16:40: propose pay | wallet: b | wallet: a proposal: 0")) := by
  rw [message_ofList, message_ofList]
  decide +kernel

end ClearMsig
