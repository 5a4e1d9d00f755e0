import ClearMsig.Instructions.Approve
import ClearMsig.Instructions.Cancel
import ClearMsig.Instructions.CreateWallet
import ClearMsig.Instructions.Propose

/-!
# Instruction data

The instruction data that `bench/src/helpers.rs` builds for this program and for the one it is compared with,
which takes shorter lengths and the number of a proposal. `tests.rs` builds the same data for this program.
-/

namespace ClearMsig

/-- `ProgramKind`. -/
inductive ProgramKind where
  | anchorV2
  | quasar
  deriving DecidableEq

namespace ProgramKind

/-- `discriminator`. The second program numbers its instructions, and does not know any others. -/
def discriminator (sha256 : Bytes → ByteArr 32) (kind : ProgramKind) (fnName : Bytes) : Result Bytes :=
  match kind with
  | .anchorV2 => .ok ((sha256 (ascii "global:" ++ fnName)).val.take 8)
  | .quasar =>
    if fnName = ascii "create_wallet" then .ok [0]
    else if fnName = ascii "propose" then .ok [1]
    else if fnName = ascii "approve" then .ok [2]
    else if fnName = ascii "cancel" then .ok [3]
    else if fnName = ascii "execute" then .ok [4]
    else if fnName = ascii "cleanup_proposal" then .ok [5]
    else .error .panic

/-- The width of the length in front of a slice. -/
def lengthWidth : ProgramKind → Nat
  | .anchorV2 => 8
  | .quasar => 4

/-- The items of a slice with their number in front. -/
def slice {α : Type} (kind : ProgramKind) (item : α → Bytes) (items : List α) : Bytes :=
  toLE kind.lengthWidth items.length ++ items.flatMap item

end ProgramKind

section Builders

variable (sha256 : Bytes → ByteArr 32) (kind : ProgramKind)

/-- `i64::to_le_bytes`. -/
def int64Bytes (x : Int64) : Bytes := toLE 8 x.toUInt64.toNat

/-- `build_create_wallet_data`. -/
def buildCreateWalletData (args : CreateWalletArgs) : Result Bytes := do
  let data ← kind.discriminator sha256 (ascii "create_wallet")
  .ok (data ++ [args.approvalThreshold] ++ [args.cancellationThreshold] ++
    toLE 4 args.timelockSeconds.toNat ++ kind.slice (fun b => [b]) args.name ++
    kind.slice (·.val) args.proposers ++ kind.slice (·.val) args.approvers)

/-- `build_propose_data`. -/
def buildProposeData (proposalIndex : UInt64) (args : ProposeArgs) : Result Bytes := do
  let data ← kind.discriminator sha256 (ascii "propose")
  let data := data ++ if kind = .quasar then toLE 8 proposalIndex.toNat else []
  let data := data ++ int64Bytes args.expiry ++ args.proposerPubkey.val ++ args.signature.val
  match kind with
  | .anchorV2 => .ok (data ++ toLE 8 args.paramsData.length ++ args.paramsData)
  | .quasar => .ok (data ++ args.paramsData)

/-- The data of a vote: `build_approve_data` and `build_cancel_data`. -/
def buildVoteData (fnName : Bytes) (expiry : Int64) (index : UInt8) (signature : Signature) : Result Bytes := do
  let data ← kind.discriminator sha256 fnName
  .ok (data ++ int64Bytes expiry ++ [index] ++ signature.val)

def buildApproveData (args : ApproveArgs) : Result Bytes :=
  buildVoteData sha256 kind (ascii "approve") args.expiry args.approverIndex args.signature

def buildCancelData (args : CancelArgs) : Result Bytes :=
  buildVoteData sha256 kind (ascii "cancel") args.expiry args.cancellerIndex args.signature

/-- `build_execute_data`. -/
def buildExecuteData : Result Bytes := kind.discriminator sha256 (ascii "execute")

/-- `build_cleanup_data`. -/
def buildCleanupData : Result Bytes := kind.discriminator sha256 (ascii "cleanup_proposal")

end Builders

/-- An instruction with its arguments, as a client asks for it. -/
inductive Request where
  | createWallet (args : CreateWalletArgs)
  | propose (proposalIndex : UInt64) (args : ProposeArgs)
  | approve (args : ApproveArgs)
  | cancel (args : CancelArgs)
  | execute
  | cleanupProposal

namespace Request

/-- The instruction data of a request. -/
def data (sha256 : Bytes → ByteArr 32) (kind : ProgramKind) : Request → Result Bytes
  | .createWallet args => buildCreateWalletData sha256 kind args
  | .propose proposalIndex args => buildProposeData sha256 kind proposalIndex args
  | .approve args => buildApproveData sha256 kind args
  | .cancel args => buildCancelData sha256 kind args
  | .execute => buildExecuteData sha256 kind
  | .cleanupProposal => buildCleanupData sha256 kind

/-- What the program is told: the first program reads the number of a proposal from the wallet. -/
def told (kind : ProgramKind) : Request → Request
  | .propose proposalIndex args => .propose (if kind = .quasar then proposalIndex else 0) args
  | request => request

/-- The lengths that are written fit into their fields. -/
def Fits (kind : ProgramKind) : Request → Prop
  | .createWallet args => args.name.length < 256 ^ kind.lengthWidth ∧
      args.proposers.length < 256 ^ kind.lengthWidth ∧ args.approvers.length < 256 ^ kind.lengthWidth
  | .propose _ args => kind = .anchorV2 → args.paramsData.length < 256 ^ kind.lengthWidth
  | .approve _ | .cancel _ | .execute | .cleanupProposal => True

end Request

end ClearMsig
