import ClearMsig.Instructions.Context

/-!
# `create_wallet`

`instructions/create_wallet.rs`: a wallet with its three meta-intents.
-/

namespace ClearMsig

structure CreateWalletArgs where
  name : Bytes
  approvalThreshold : UInt8
  cancellationThreshold : UInt8
  timelockSeconds : UInt32
  proposers : List Address
  approvers : List Address

namespace CreateWallet

/-- The checks at the head of `create`. The list lengths are cast to `u8` first. -/
def checks (env : Env) (nameHash : Address) (args : CreateWalletArgs) : Result Unit := do
  require (nameHash = env.sha256 args.name) .invalidSeeds
  let proposerCount := UInt8.ofNat args.proposers.length
  let approverCount := UInt8.ofNat args.approvers.length
  require (proposerCount.toNat ≤ 16) .invalidArgument
  require (approverCount.toNat ≤ 16) .invalidArgument
  require (args.approvalThreshold > 0) .invalidArgument
  require (args.approvalThreshold ≤ approverCount) .invalidArgument
  require (args.cancellationThreshold > 0) .invalidArgument
  require (args.cancellationThreshold ≤ approverCount) .invalidArgument
  require (args.name.length ≤ 64) .invalidArgument

/-- The wallet account `create` fills in. -/
def newWallet (args : CreateWalletArgs) (bump : UInt8) : ClearWallet where
  bump := bump
  proposalIndex := 0
  intentIndex := 2
  nameLen := UInt8.ofNat args.name.length
  nameBuf := ByteArr.ofBytes 64 args.name

/-- One round of the loop over `meta_intents`, on a zeroed account. -/
def metaIntent (args : CreateWalletArgs) (wallet : Address) (index : UInt8) (intentType : IntentType)
    (bump : UInt8) : Result Intent := do
  let proposers ← PodVec.setFromSlice args.proposers
  let approvers ← PodVec.setFromSlice args.approvers
  .ok
    { wallet, bump, intentIndex := index, intentType := intentType.toU8, approved := 1
      approvalThreshold := args.approvalThreshold
      cancellationThreshold := args.cancellationThreshold
      timelockSeconds := args.timelockSeconds
      templateOffset := 0, templateLen := 0, activeProposalCount := 0
      proposers, approvers, params := .empty, accounts := .empty, instructions := .empty
      dataSegments := .empty, seeds := .empty, bytePool := .empty }

/-- `create`, with the four `init` accounts at the addresses their seeds give. -/
def create (env : Env) (s : Accounts) (nameHash : Address) (args : CreateWalletArgs) :
    Result Accounts := do
  let wallet := env.pda (Env.walletSeeds nameHash)
  checks env nameHash args
  let bump (index : UInt8) := env.pdaBump (Env.intentSeeds wallet index)
  let addIntent ← metaIntent args wallet 0 .addIntent (bump 0)
  let removeIntent ← metaIntent args wallet 1 .removeIntent (bump 1)
  let updateIntent ← metaIntent args wallet 2 .updateIntent (bump 2)
  let s ← s.create wallet (.wallet (newWallet args (env.pdaBump (Env.walletSeeds nameHash))))
  let s ← s.create (env.intentPda wallet 0) (.intent addIntent)
  let s ← s.create (env.intentPda wallet 1) (.intent removeIntent)
  s.create (env.intentPda wallet 2) (.intent updateIntent)

end CreateWallet

end ClearMsig
