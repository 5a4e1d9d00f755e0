import ClearMsig.Program

/-!
# The accounts of a call

The client side in `bench/src/helpers.rs`: the addresses it derives, and the account list it puts into each
instruction.
-/

namespace ClearMsig

/-- `AccountMeta`. -/
structure AccountMeta where
  pubkey : Address
  isSigner : Bool
  isWritable : Bool
  deriving DecidableEq

namespace AccountMeta

/-- `AccountMeta::new`. -/
def new (pubkey : Address) (isSigner : Bool) : AccountMeta := ⟨pubkey, isSigner, true⟩

/-- `AccountMeta::new_readonly`. -/
def newReadonly (pubkey : Address) (isSigner : Bool) : AccountMeta := ⟨pubkey, isSigner, false⟩

end AccountMeta

variable (env : Env)

/-- `wallet_pda`: the address of the wallet with a name, and the hash of the name. -/
def walletPda (name : Bytes) : Address × Address :=
  let nameHash := env.sha256 name
  (env.pda (Env.walletSeeds nameHash), nameHash)

/-- `vault_pda`. -/
def vaultPda (wallet : Address) : Address := env.pda (Env.vaultSeeds wallet)

/-- `create_wallet_metas`. -/
def createWalletMetas (payer : Address) (walletName : Bytes) : List AccountMeta :=
  let (wallet, nameHash) := walletPda env walletName
  [.new payer true, .newReadonly nameHash false, .new wallet false, .new (env.intentPda wallet 0) false,
    .new (env.intentPda wallet 1) false, .new (env.intentPda wallet 2) false,
    .newReadonly env.systemProgramId false]

/-- `propose_metas`. -/
def proposeMetas (payer wallet intent : Address) (proposalIndex : UInt64) : List AccountMeta :=
  let proposal := env.proposalPda intent proposalIndex
  [.new payer true, .new wallet false, .new intent false, .new proposal false,
    .newReadonly env.systemProgramId false]

/-- `approve_metas`. -/
def approveMetas (wallet intent proposal : Address) : List AccountMeta :=
  [.newReadonly wallet false, .new intent false, .new proposal false]

/-- `cancel_metas`. -/
def cancelMetas (wallet intent proposal : Address) : List AccountMeta :=
  [.newReadonly wallet false, .new intent false, .new proposal false]

/-- `execute_metas`. -/
def executeMetas (wallet intent proposal : Address) (remaining : List AccountMeta) : List AccountMeta :=
  [.new wallet false, .new (vaultPda env wallet) false, .new intent false, .new proposal false,
    .newReadonly env.systemProgramId false] ++ remaining

/-- `cleanup_metas`. -/
def cleanupMetas (proposal rentRefund : Address) : List AccountMeta :=
  [.new proposal false, .new rentRefund false]

/-- The list that goes with a view of an account. -/
def AccountView.toMeta (view : AccountView) : AccountMeta := ⟨view.address, view.isSigner, view.isWritable⟩

/-- The account list of an instruction. The payer of a new wallet is not part of the call; the number of a
new proposal is the one its wallet has next. -/
def Instruction.metas (s : Accounts) (payer : Address) : Instruction → List AccountMeta
  | .createWallet _ args => createWalletMetas env payer args.name
  | .propose payer wallet intent _ =>
    proposeMetas env payer wallet intent (((s.wallet? wallet).map (·.proposalIndex)).getD 0)
  | .approve wallet intent proposal _ => approveMetas wallet intent proposal
  | .cancel wallet intent proposal _ => cancelMetas wallet intent proposal
  | .execute declared intent proposal remaining =>
    executeMetas env declared.wallet.address intent proposal (remaining.map (·.toMeta))
  | .cleanupProposal proposal rentRefund => cleanupMetas proposal rentRefund

end ClearMsig
