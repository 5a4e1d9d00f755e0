import ClearMsig.Authorization
import ClearMsig.Program
import ClearMsig.Utils.MessageText

/-!
# Messages of different contexts

A message is a concatenation without lengths, so its parts can be read back only where they are
delimited. The contents of the meta-intents are phrases of a fixed form; a template can write anything,
and a wallet name is free text.
-/

namespace ClearMsig

/-- The actions of the instructions that take a signature. -/
def IsAction (action : Bytes) : Prop :=
  action = ascii "propose" ∨ action = ascii "approve" ∨ action = ascii "cancel"

/-- The text in front of a wallet name. -/
def walletMark : Bytes := ascii " | wallet: "

/-- The name does not contain the text in front of a wallet name, nor begins with it less its first
space. -/
def CleanName (name : Bytes) : Prop := ¬ walletMark <:+: ascii " " ++ name

/-- Behind the content, the text in front of the wallet name occurs for the first time. -/
def CleanContent (content : Bytes) : Prop := Reading.FirstBehind walletMark content

/-- The intent is stored in a reachable state. -/
def Stored (env : Env) (intent : Intent) : Prop :=
  ∃ s a, Runs.Reachable (program env) s ∧ s.intent? a = some intent

/-- The contents of the messages for meta-intents. -/
inductive MetaPhrase : IntentType → Bytes → Prop where
  | addIntent (hash : ByteArr 32) :
      MetaPhrase .addIntent (ascii "add intent definition_hash: " ++ hexText hash.val)
  | removeIntent (index : UInt8) :
      MetaPhrase .removeIntent (ascii "remove intent " ++ Decimal.natText index.toNat)
  | updateIntent (index : UInt8) (hash : ByteArr 32) :
      MetaPhrase .updateIntent (ascii "update intent " ++ Decimal.natText index.toNat ++
        ascii " definition_hash: " ++ hexText hash.val)

/-- What two messages with the same bytes have in common: the action and the proposal index, and between
intents of reachable states the wallet name and the intent type.

Between any other intents, the wallet name and the content are the same if the mark in front of the wallet
name is found at one place: neither content has it, or neither name, or one of the messages has it only once.
The content of a meta-intent never has it. Where the names are the same, so are the types, unless the template
of a custom intent writes the phrase of a meta-intent. -/
structure Separated (env : Env) (ctx ctx' : MessageContext) (intent intent' : Intent) (t t' : IntentType)
    (content content' : Bytes) : Prop where
  action_eq : ctx.action = ctx'.action
  proposalIndex_eq : ctx.proposalIndex = ctx'.proposalIndex
  ofStored : Stored env intent → Stored env intent' → ctx.walletName = ctx'.walletName ∧ t = t'
  ofMark : CleanContent content' ∨ CleanName ctx.walletName →
    CleanContent content ∨ CleanName ctx'.walletName →
    ctx.walletName = ctx'.walletName ∧ content = content'
  cleanOfMeta : t ≠ .custom → CleanContent content
  cleanOfMeta' : t' ≠ .custom → CleanContent content'
  ofMeta : t ≠ .custom → t' ≠ .custom → ctx.walletName = ctx'.walletName ∧ t = t'
  ofName : ctx.walletName = ctx'.walletName → content = content' ∧
    (t = t' ∨ (t = .custom ∧ MetaPhrase t' content) ∨ (t' = .custom ∧ MetaPhrase t content'))

/-- One signature verifies for both messages, under keys of the submitter's choice. -/
def Env.SharedSignature (env : Env) (m m' : Bytes) : Prop :=
  env.IdealSignatures ∧ ∃ k k' sig, env.sigVerify k sig m = true ∧ env.sigVerify k' sig m' = true

end ClearMsig
