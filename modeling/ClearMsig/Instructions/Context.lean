import ClearMsig.State.Intent
import ClearMsig.State.Proposal
import ClearMsig.State.Wallet
import ClearMsig.Utils.Message

/-!
# Accounts and the environment

The accounts the program owns, as a map from addresses, and the parts of the runtime that are not in
the repository, as parameters. Accounts are zero-copy: what a handler writes into one is the only
change to it.
-/

namespace ClearMsig

/-- The data of an account owned by the program, by its discriminator. -/
inductive AccountData where
  | wallet (w : ClearWallet)
  | intent (i : Intent)
  | proposal (p : Proposal)

/-- The program's accounts. -/
abbrev Accounts := Address → Option AccountData

namespace Accounts

/-- Before the first instruction there are no accounts. -/
def none : Accounts := fun _ => .none

def wallet? (s : Accounts) (a : Address) : Option ClearWallet :=
  match s a with
  | some (.wallet w) => some w
  | _ => .none

def intent? (s : Accounts) (a : Address) : Option Intent :=
  match s a with
  | some (.intent i) => some i
  | _ => .none

def proposal? (s : Accounts) (a : Address) : Option Proposal :=
  match s a with
  | some (.proposal p) => some p
  | _ => .none

/-- What the framework does with an account that is missing or of another type. -/
def orRefuse {α : Type} (o : Option α) : Result α :=
  match o with
  | some x => .ok x
  | .none => .error .constraint

/-- Overwrite the data of an account. -/
def set (s : Accounts) (a : Address) (d : AccountData) : Accounts := Function.update s a (some d)

/-- Close an account. -/
def close (s : Accounts) (a : Address) : Accounts := Function.update s a .none

/-- Create an account; this fails on an address already in use. -/
def create (s : Accounts) (a : Address) (d : AccountData) : Result Accounts :=
  if (s a).isNone then .ok (s.set a d) else .error .constraint

end Accounts

/-- A check of the `#[derive(Accounts)]` constraints. -/
def constraint (c : Prop) [Decidable c] : Result Unit :=
  if c then .ok () else .error .constraint

/-- An account as the runtime passes it to an instruction. -/
structure AccountView where
  address : Address
  isSigner : Bool
  isWritable : Bool
  data : Bytes
  deriving DecidableEq

/-- A cross-program invocation: program, `(address, is_writable, is_signer)` per account, data. -/
structure Cpi where
  programId : Address
  accounts : List (Address × Bool × Bool)
  data : Bytes
  deriving DecidableEq

/-- What the program takes from outside the repository. -/
structure Env where
  sha256 : Bytes → ByteArr 32
  /-- `find_program_address`: seeds and program to address and bump. -/
  findProgramAddress : List Bytes → Address → Address × UInt8
  /-- `brine_ed25519::sig_verify`. -/
  sigVerify : Address → Signature → Bytes → Bool
  /-- `crate::ID`. -/
  programId : Address
  systemProgramId : Address
  podVec : PodVecLayout
  /-- The effect of a sequence of invocations on the program's own accounts. -/
  invoke : List Cpi → Accounts → Result Accounts

namespace Env

variable (env : Env)

/-- PDA of seeds under this program. -/
def pda (seeds : List Bytes) : Address := (env.findProgramAddress seeds env.programId).1

def pdaBump (seeds : List Bytes) : UInt8 := (env.findProgramAddress seeds env.programId).2

/-- Seeds of the wallet for a name hash. -/
def walletSeeds (nameHash : Address) : List Bytes := [ascii "clear_wallet", nameHash.val]

def vaultSeeds (wallet : Address) : List Bytes := [ascii "vault", wallet.val]

def intentSeeds (wallet : Address) (index : UInt8) : List Bytes :=
  [ascii "intent", wallet.val, [index]]

def proposalSeeds (intent : Address) (index : UInt64) : List Bytes :=
  [ascii "proposal", intent.val, toLE 8 index.toNat]

/-- The address of intent `index` of a wallet. -/
def intentPda (wallet : Address) (index : UInt8) : Address := env.pda (intentSeeds wallet index)

/-- The address of proposal `index` of an intent. -/
def proposalPda (intent : Address) (index : UInt64) : Address := env.pda (proposalSeeds intent index)

end Env

end ClearMsig
