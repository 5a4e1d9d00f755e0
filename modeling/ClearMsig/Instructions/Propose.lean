import ClearMsig.Instructions.Context

/-!
# `propose`

`instructions/propose.rs`.
-/

namespace ClearMsig

structure ProposeArgs where
  expiry : Int64
  proposerPubkey : Address
  signature : Signature
  paramsData : Bytes

namespace Propose

/-- The context whose message the proposer signs. -/
def messageContext (wallet : ClearWallet) (expiry : Int64) : MessageContext where
  expiry := expiry
  action := ascii "propose"
  walletName := wallet.name
  proposalIndex := wallet.proposalIndex

/-- The proposal account `propose` fills in. -/
def newProposal (walletAddr intentAddr payer : Address) (wallet : ClearWallet) (clock : Int64)
    (bump : UInt8) (args : ProposeArgs) (paramsData : PodVec UInt8 512) : Proposal where
  wallet := walletAddr
  intent := intentAddr
  proposalIndex := wallet.proposalIndex
  proposer := args.proposerPubkey
  status := .active
  proposedAt := clock
  approvedAt := 0
  bump := bump
  approvalBitmap := 0
  cancellationBitmap := 0
  rentRefund := payer
  paramsData := paramsData

/-- The parameters of a custom intent must satisfy its constraints. -/
def checkParams (intent : Intent) (paramsData : Bytes) : Result Unit := do
  if (← intent.readType) = .custom then
    intent.validateParamConstraints paramsData

/-- `propose`. -/
def propose (env : Env) (clock : Int64) (s : Accounts) (payer walletAddr intentAddr : Address)
    (args : ProposeArgs) : Result Accounts := do
  let wallet ← Accounts.orRefuse (s.wallet? walletAddr)
  let intent ← Accounts.orRefuse (s.intent? intentAddr)
  constraint (intent.wallet = walletAddr)
  require (intent.isApproved = true) .invalidArgument
  let proposalAddr := env.proposalPda intentAddr wallet.proposalIndex
  let bump := env.pdaBump (Env.proposalSeeds intentAddr wallet.proposalIndex)
  require (args.expiry > clock) .invalidArgument
  require (intent.isProposer args.proposerPubkey = true) .missingRequiredSignature
  checkParams intent args.paramsData
  let msg ← signedMessage env.sha256 (messageContext wallet args.expiry) intent args.paramsData
  require (env.sigVerify args.proposerPubkey args.signature msg = true) .invalidArgument
  let paramsData ← PodVec.setFromSlice args.paramsData
  require (intent.activeProposalCount.toNat + 1 < 2 ^ 16) .invalidArgument
  require (wallet.proposalIndex.toNat + 1 < 2 ^ 64) .arithmeticOverflow
  let s ← s.create proposalAddr
    (.proposal (newProposal walletAddr intentAddr payer wallet clock bump args paramsData))
  let s := s.set intentAddr
    (.intent { intent with activeProposalCount := intent.activeProposalCount + 1 })
  .ok (s.set walletAddr (.wallet { wallet with proposalIndex := wallet.proposalIndex + 1 }))

end Propose

end ClearMsig
