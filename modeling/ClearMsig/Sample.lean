import ClearMsig.Authorization
import ClearMsig.Utils.MessageText

/-!
# A small environment to run the program in

Signatures come from a finite table, addresses are read off the seeds, and the hash keeps the first 32
bytes. The table makes the signature scheme ideal. Calls are replayed from the empty account map.
-/

namespace ClearMsig

namespace Sample

/-- Signature number `n`. -/
def sig (n : UInt8) : Signature := ByteArr.ofBytes 64 [n]

/-- Key or address number `n`. -/
def key (n : UInt8) : Address := ByteArr.ofBytes 32 [n]

/-- Row `n` of the table holds the key and the message that signature `n` was made for. -/
def verify (table : List (Address × Bytes)) (address : Address) (s : Signature) (msg : Bytes) : Bool :=
  match s.val with
  | n :: _ => decide (table[n.toNat]? = some (address, msg))
  | [] => false

/-- The address of seeds: the first letter of the tag, the first byte of the number, the middle seed
where it ends in zeros. -/
def findPda (seeds : List Bytes) (_ : Address) : Address × UInt8 :=
  let middle := seeds.getD 1 []
  if middle.drop 30 = [0, 0] then
    (ByteArr.ofBytes 32 ((seeds.getD 0 []).take 1 ++ (seeds.getD 2 []).take 1 ++ middle), 255)
  else (key 0, 0)

/-- The length field of a vector is a little-endian `u16`. -/
def podVec : PodVecLayout where
  headerLen := 2
  len N header := min N (leNat header)
  len_le _ _ := Nat.min_le_left _ _
  len_zero N := by simp [leNat]

/-- The environment with a table of signatures. Foreign programs leave the accounts as they are. -/
def env (table : List (Address × Bytes)) : Env where
  sha256 b := ByteArr.ofBytes 32 b
  findProgramAddress := findPda
  sigVerify := verify table
  programId := key 0
  systemProgramId := key 0
  podVec := podVec
  invoke _ s := .ok s

theorem env_idealSignatures (table : List (Address × Bytes)) : (env table).IdealSignatures := by
  intro address address' s msg msg' h h'
  simp only [env, verify] at h h'
  cases hs : s.val with
  | nil => simp [hs] at h
  | cons n rest =>
    simp only [hs, decide_eq_true_eq] at h h'
    rw [h] at h'
    simpa using h'

theorem intentPda_val {table : List (Address × Bytes)} {W : Address} {k : UInt8}
    (hW : W.val.drop 30 = [0, 0]) :
    ((env table).intentPda W k).val = ascii "i" ++ k :: W.val.take 30 := by
  have hpda : (env table).intentPda W k = ByteArr.ofBytes 32 (ascii "i" ++ k :: W.val) :=
    congrArg Prod.fst (if_pos hW)
  rw [hpda]
  show (ascii "i" ++ k :: W.val ++ List.replicate 32 0).take 32 = _
  have hlen : 30 ≤ W.val.length := by rw [W.property]; decide
  simp [ascii, List.take_append_of_le_length hlen]

/-- The intents of an address that ends in zeros have addresses of their own. -/
theorem intentPda_injective {table : List (Address × Bytes)} {W W' : Address} {k k' : UInt8}
    (hW : W.val.drop 30 = [0, 0]) (h : (env table).intentPda W' k' = (env table).intentPda W k) :
    W' = W ∧ k' = k := by
  have hval := congrArg Subtype.val h
  rw [intentPda_val hW] at hval
  by_cases hW' : W'.val.drop 30 = [0, 0]
  · rw [intentPda_val hW', List.append_cancel_left_eq, List.cons.injEq] at hval
    obtain ⟨hk, htake⟩ := hval
    refine ⟨Subtype.ext ?_, hk⟩
    rw [← List.take_append_drop 30 W'.val, htake, hW', ← hW, List.take_append_drop]
  · have hzero : (env table).intentPda W' k' = key 0 := congrArg Prod.fst (if_neg hW')
    rw [hzero] at hval
    cases hval

/-- The wallet, the intents and the proposals of a name. -/
def nameHash (name : String) : Address := ByteArr.ofBytes 32 (ascii name)

def wallet (name : String) : Address := (findPda (Env.walletSeeds (nameHash name)) (key 0)).1

def intent (name : String) (index : UInt8) : Address :=
  (findPda (Env.intentSeeds (wallet name) index) (key 0)).1

def proposal (name : String) (index : UInt8) (number : UInt64) : Address :=
  (findPda (Env.proposalSeeds (intent name index) number) (key 0)).1

/-- A new wallet without timelock, with key 1 as its proposer. -/
def create (name : String) (approvalThreshold cancellationThreshold : UInt8)
    (approvers : List Address) : Call :=
  ⟨0, .createWallet (nameHash name)
    ⟨ascii name, approvalThreshold, cancellationThreshold, 0, [key 1], approvers⟩⟩

/-- Signed calls for a wallet, submitted at time 0 with the expiry 1000. -/
def propose (name : String) (index : UInt8) (signature : UInt8) (params : Bytes) : Call :=
  ⟨0, .propose (key 9) (wallet name) (intent name index) ⟨1000, key 1, sig signature, params⟩⟩

def approve (name : String) (index : UInt8) (number : UInt64) (voter signature : UInt8) : Call :=
  ⟨0, .approve (wallet name) (intent name index) (proposal name index number)
    ⟨1000, voter, sig signature⟩⟩

def cancel (name : String) (index : UInt8) (number : UInt64) (voter signature : UInt8) : Call :=
  ⟨0, .cancel (wallet name) (intent name index) (proposal name index number)
    ⟨1000, voter, sig signature⟩⟩

/-- An account an executor passes. -/
def view (address : Address) : AccountView := ⟨address, true, true, []⟩

def execute (name : String) (index : UInt8) (number : UInt64) (remaining : List Address) : Call :=
  ⟨0, .execute ⟨view (findPda (Env.vaultSeeds (wallet name)) (key 0)).1, view (key 0),
    view (wallet name)⟩ (intent name index) (proposal name index number) (remaining.map view)⟩

/-- A message with its offchain header, from its text. -/
def messageOf (text : Bytes) : Bytes := MessageBuilder.offchainHeader text.length ++ text

def message (text : String) : Bytes := messageOf (ascii text)

/-- A literal is read as its list of characters, not through its encoding. -/
theorem message_ofList (cs : List Char) :
    message (String.ofList cs) = messageOf (cs.map fun c => UInt8.ofNat c.toNat) := by
  rw [message, ascii, String.toList_ofList]

/-- The message to add an intent whose body starts with 32 given bytes. -/
def addIntentMessage (action : String) (head : Address) (name : String) (number : String) : Bytes :=
  messageOf (ascii "expires 1970-01-01 00:16:40: " ++ ascii action ++
    ascii " add intent definition_hash: " ++ hexText head.val ++ ascii " | wallet: " ++ ascii name ++
    ascii " proposal: " ++ ascii number)

/-- The first 48 bytes of a custom intent body: approved, thresholds 1, no timelock and no template. -/
def intentBody (owner : Address) (index : UInt8) (count : UInt8) : Bytes :=
  owner.val ++ [255, index, 3, 1, 1, 1] ++ [0, 0, 0, 0] ++ [0, 0, 0, 0] ++ [count, 0]

/-- The items of a list that there is room for. -/
def vec {α : Type} {N : Nat} (items : List α) : PodVec α N := ⟨items.take N, List.length_take_le _ _⟩

/-- A custom intent with parameters and a template. -/
def templated (types : List ParamType) (template : String) : Intent where
  wallet := wallet "a"
  bump := 255
  intentIndex := 3
  intentType := IntentType.custom.toU8
  approved := 1
  approvalThreshold := 1
  cancellationThreshold := 1
  timelockSeconds := 0
  templateOffset := 0
  templateLen := UInt16.ofNat (ascii template).length
  activeProposalCount := 0
  proposers := vec [key 1]
  approvers := vec [key 2]
  params := vec (types.map fun t => ⟨t, 0, 0, .none, 0⟩)
  accounts := .empty
  instructions := .empty
  dataSegments := .empty
  seeds := .empty
  bytePool := vec (ascii template)

/-- The context of a proposal for a wallet. -/
def contextFor (name : String) : MessageContext := ⟨1000, ascii "propose", ascii name, 0⟩

def messageFor (name : String) (intent : Intent) (data : Bytes) : Result Bytes :=
  signedMessage (env []).sha256 (contextFor name) intent data

end Sample

/-- Replay calls from the empty account map, the first call first: the history and the last state. -/
def replayFrom (env : Env) (tr : List (Runs.Event Accounts Call)) (s : Accounts) :
    List Call → Option (List (Runs.Event Accounts Call) × Accounts)
  | [] => some (tr, s)
  | c :: calls =>
    match process env s c with
    | .ok s' => replayFrom env (⟨s, c, s'⟩ :: tr) s' calls
    | .error _ => none

def replay (env : Env) (calls : List Call) : Option (List (Runs.Event Accounts Call) × Accounts) :=
  replayFrom env [] Accounts.none calls

theorem run_of_replayFrom {env : Env} {tr tr' : List (Runs.Event Accounts Call)} {s s' : Accounts}
    {calls : List Call} (hr : Runs.Run (program env) tr s)
    (h : replayFrom env tr s calls = some (tr', s')) : Runs.Run (program env) tr' s' := by
  induction calls generalizing tr s with
  | nil =>
    simp only [replayFrom, Option.some.injEq, Prod.mk.injEq] at h
    obtain ⟨rfl, rfl⟩ := h
    exact hr
  | cons c calls ih =>
    simp only [replayFrom] at h
    split at h
    · rename_i s1 hs1
      exact ih (hr.next hs1) h
    · cases h

/-- What a replay ends in is a run of the program. -/
theorem run_of_replay {env : Env} {tr : List (Runs.Event Accounts Call)} {s : Accounts}
    {calls : List Call} (h : replay env calls = some (tr, s)) : Runs.Run (program env) tr s :=
  run_of_replayFrom (.start rfl) h

theorem replayFrom_append {env : Env} (tr : List (Runs.Event Accounts Call)) (s : Accounts)
    (calls later : List Call) :
    replayFrom env tr s (calls ++ later) =
      (replayFrom env tr s calls).bind fun r => replayFrom env r.1 r.2 later := by
  induction calls generalizing tr s with
  | nil => rfl
  | cons c calls ih =>
    simp only [List.cons_append, replayFrom]
    split
    · exact ih _ _
    · rfl

/-- What a replay shows of its history and its last state. -/
def observe {α : Type} (env : Env) (calls : List Call)
    (f : List (Runs.Event Accounts Call) → Accounts → α) : Option α :=
  (replay env calls).map fun r => f r.1 r.2

theorem labels_of_replayFrom {env : Env} {tr tr' : List (Runs.Event Accounts Call)} {s s' : Accounts}
    {calls : List Call} (h : replayFrom env tr s calls = some (tr', s')) :
    tr'.map (·.label) = calls.reverse ++ tr.map (·.label) := by
  induction calls generalizing tr s with
  | nil =>
    simp only [replayFrom, Option.some.injEq, Prod.mk.injEq] at h
    rw [← h.1]
    rfl
  | cons c calls ih =>
    simp only [replayFrom] at h
    split at h
    · rw [ih h]
      simp
    · cases h

/-- A run of the calls in which the observation is made. -/
theorem run_of_observe {α : Type} {env : Env} {calls : List Call}
    {f : List (Runs.Event Accounts Call) → Accounts → α} {x : α} (h : observe env calls f = some x) :
    ∃ tr s, Runs.Run (program env) tr s ∧ tr.map (·.label) = calls.reverse ∧ f tr s = x := by
  obtain ⟨r, hr, rfl⟩ := Option.map_eq_some_iff.mp h
  refine ⟨r.1, r.2, run_of_replay hr, ?_, rfl⟩
  rw [labels_of_replayFrom hr]
  simp

/-- The last call of a replay is accepted in a reachable state. -/
theorem accepted_of_replay (env : Env) (calls : List Call) (c : Call)
    (h : (replay env (calls ++ [c])).isSome = true) :
    ∃ s s', Runs.Reachable (program env) s ∧ process env s c = .ok s' := by
  simp only [replay, replayFrom_append] at h
  cases hr : replayFrom env [] Accounts.none calls with
  | none => simp [hr] at h
  | some r =>
    simp only [hr, Option.bind_some, replayFrom] at h
    cases hp : process env r.2 c with
    | error e => simp [hp] at h
    | ok s' => exact ⟨r.2, s', ⟨r.1, run_of_replay hr⟩, hp⟩

end ClearMsig
