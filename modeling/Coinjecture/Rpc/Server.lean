import Coinjecture.Node.ServiceCalls

/-! # The JSON-RPC server

The methods of the server that hold a handle to the account store and the marketplace. A method first
checks its parameters (an `Except`, which cannot write), then reads and writes the stores. The caller
is not authenticated: the submitter, the solver or the revealer is whoever the parameters name, and
no signature is asked for. Submitting a transaction writes to the pool only; a query writes
nothing. -/

namespace Coinjecture.Rpc.Server

open Lib.Effect Lib.Float64 Lib.Bincode Lib.Trace
open Core.Types Core.Problem Core.Transactions
open Core.Extern Core.Crypto Core.Privacy
open State.Stores State.Stores.Ledger State.Marketplace
open State.Marketplace.MarketplaceState
open Node.Validator Node.Service Node.ServiceCalls

/-- What the server takes from other crates: `hex::decode`, `serde_json::from_str`,
`bincode::deserialize`, and the platform's `log2`. -/
structure RpcExt where
  hexDecode : String → Except String Bytes
  problemFromJson : String → Except String ProblemType
  transactionFromJson : String → Except String Transaction
  transactionFromBincode : Bytes → Except String Transaction
  log2 : F64 → F64

/-- How a call may end without a result. -/
inductive RpcFailure where
  | error (code : ℤ) (message : String)
  | panic
  deriving DecidableEq

namespace RpcFailure

/-- `INVALID_PARAMS`. -/
def invalidParams (message : String) : RpcFailure := .error (-32602) message

/-- `internal_error`: the cause is logged and not told. -/
def ofFailure : Failure → RpcFailure
  | .err _ => .error (-32603) "Internal server error"
  | .panic => .panic

end RpcFailure

open RpcFailure

def MIN_FEE_BOUNTY_SUBMISSION : Balance := 1000000000000
def MAX_BOUNTY_TITLE_LEN : ℕ := 256
def MAX_BOUNTY_BRIEFING_LEN : ℕ := 8192

/-! ### Parameters -/

structure PrivateProblemParams where
  commitment : String
  proofBytes : String
  vkHash : String
  publicInputs : List String
  problemType : String
  size : Usize
  complexityEstimate : F64
  bounty : Balance
  minWorkScore : F64
  expirationDays : UInt64

structure PrivateProblemWalletParams where
  problem : ProblemType
  salt : String
  bounty : Balance
  minWorkScore : F64
  expirationDays : UInt64
  submitter : String
  title : Option String
  briefing : Option String

structure RevealParams where
  problemId : String
  problem : String
  salt : String

structure PublicProblemParams where
  problem : ProblemType
  bounty : Balance
  minWorkScore : F64
  expirationDays : UInt64
  submitter : String
  title : Option String
  briefing : Option String

structure PublicSubsetSumParams where
  numbers : List Int64
  target : Int64
  bounty : Balance
  minWorkScore : F64
  expirationDays : UInt64
  submitter : String

structure SolutionSubmissionParams where
  problemId : String
  solution : Solution
  solver : String

/-! ### Checks of the parameters -/

/-- `if c { return Err(e) }`. -/
def failIf (c : Prop) [Decidable c] (message : String) : Except RpcFailure Unit :=
  if c then .error (invalidParams message) else .ok ()

/-- `validate_str_len`. The length is the one in UTF-8. -/
def validateStrLen (value : String) (maxLen : ℕ) (field : String) : Except RpcFailure Unit :=
  failIf (maxLen < value.utf8ByteSize) s!"{field} exceeds maximum length of {maxLen} bytes"

/-- `char::is_whitespace`. -/
def isWhitespace (c : Char) : Bool :=
  let n := c.toNat
  (9 ≤ n && n ≤ 13) || n = 0x20 || n = 0x85 || n = 0xA0 || n = 0x1680 || (0x2000 ≤ n && n ≤ 0x200A) ||
    n = 0x2028 || n = 0x2029 || n = 0x202F || n = 0x205F || n = 0x3000

/-- `str::trim`. -/
def trim (s : String) : String :=
  String.ofList
    (((s.toList.dropWhile isWhitespace).reverse.dropWhile isWhitespace).reverse)

/-- `trim_start_matches("0x")`, which strips the prefix as often as it is there. -/
def trim0x : List Char → List Char
  | '0' :: 'x' :: cs => trim0x cs
  | cs => cs

variable (rpc : RpcExt)

def decodeHex (s : String) : Except RpcFailure Bytes :=
  (rpc.hexDecode (String.ofList (trim0x s.toList))).mapError invalidParams

/-- 32 bytes in hex. -/
def parse32 (lengthMessage : String) (s : String) : Except RpcFailure Bytes32 := do
  let bytes ← decodeHex rpc s
  failIf (bytes.length ≠ 32) lengthMessage
  pure (BitVec.ofNat 256 (bytes.foldl (fun n b => n * 256 + b.toNat) 0))

/-- `parse_address`. -/
def parseAddress (address : String) : Except RpcFailure Address :=
  Address.mk <$> parse32 rpc "Address must be 32 bytes" address

/-- `parse_hash`. -/
def parseHash (hash : String) : Except RpcFailure Hash :=
  Hash.mk <$> parse32 rpc "Hash must be 32 bytes" hash

def parseSalt (salt : String) : Except RpcFailure Bytes32 :=
  parse32 rpc "Salt must be 32 bytes" salt

/-- `normalize_bounty_metadata`. -/
def normalizeBountyMetadata (title briefing : Option String) :
    Except RpcFailure (Option String × Option String) := do
  let title := (title.map trim).filter fun t => !t.isEmpty
  let briefing := (briefing.map trim).filter fun b => !b.isEmpty
  match title with
  | some t => validateStrLen t MAX_BOUNTY_TITLE_LEN "title"
  | none => pure ()
  match briefing with
  | some b => validateStrLen b MAX_BOUNTY_BRIEFING_LEN "briefing"
  | none => pure ()
  pure (title, briefing)

/-- `validate_problem`. -/
def validateProblem : ProblemType → Except RpcFailure Unit
  | .SubsetSum numbers _ => do
    failIf (numbers.isEmpty) "Numbers array cannot be empty"
    failIf (1000 < numbers.length) "Numbers array too large (max 1000)"
  | .SAT vars clauses => do
    failIf (vars = 0 ∨ 10000 < vars) "SAT variable count must be 1-10000"
    failIf (clauses.isEmpty ∨ 50000 < clauses.length) "SAT clauses must contain 1-50000 entries"
  | .TSP cities distances => do
    failIf (cities < 2 ∨ 1000 < cities) "TSP city count must be 2-1000"
    failIf (distances.length ≠ cities.toNat ∨
      distances.any fun row => row.length ≠ cities.toNat)
      "TSP distances must be a square matrix matching city count"
  | .Custom _ data => failIf (1024 * 1024 < data.length) "Custom problem payload exceeds 1 MB"

def checkExpiration (expirationDays : UInt64) (message : String) : Except RpcFailure Unit :=
  failIf (expirationDays = 0 ∨ 365 < expirationDays) message

/-- What the two methods that list any problem check before they read an account. -/
def checkListing (problem : ProblemType) (bounty : Balance) (minWorkScore : F64)
    (expirationDays : UInt64) (submitter : String) (title briefing : Option String) :
    Except RpcFailure (Address × Option String × Option String) := do
  failIf (bounty = 0) "Bounty must be greater than 0"
  checkExpiration expirationDays "Expiration must be 1-365 days"
  failIf (!minWorkScore.isFinite ∨ minWorkScore.le F64.zero)
    "min_work_score must be a positive finite number"
  validateProblem problem
  let submitter ← parseAddress rpc submitter
  let (title, briefing) ← normalizeBountyMetadata title briefing
  pure (submitter, title, briefing)

def PublicProblemParams.check (params : PublicProblemParams) :
    Except RpcFailure (Address × Option String × Option String) := do
  validateStrLen params.submitter 256 "submitter"
  checkListing rpc params.problem params.bounty params.minWorkScore params.expirationDays
    params.submitter params.title params.briefing

def PrivateProblemWalletParams.check (params : PrivateProblemWalletParams) :
    Except RpcFailure (Address × Option String × Option String) := do
  validateStrLen params.submitter 256 "submitter"
  validateStrLen params.salt 256 "salt"
  checkListing rpc params.problem params.bounty params.minWorkScore params.expirationDays
    params.submitter params.title params.briefing

/-- The work score is not checked here. -/
def PublicSubsetSumParams.check (params : PublicSubsetSumParams) : Except RpcFailure Address := do
  validateStrLen params.submitter 256 "submitter"
  failIf (10000 < params.numbers.length) "numbers array exceeds maximum of 10000 elements"
  let submitter ← parseAddress rpc params.submitter
  failIf (params.numbers.isEmpty) "Numbers array cannot be empty"
  failIf (1000 < params.numbers.length) "Numbers array too large (max 1000)"
  failIf (params.bounty = 0) "Bounty must be greater than 0"
  checkExpiration params.expirationDays "Expiration must be 1-365 days"
  pure submitter

/-- The mode a private submission asks for. Neither the bounty nor the work score is checked. -/
def PrivateProblemParams.check (params : PrivateProblemParams) :
    Except RpcFailure SubmissionMode := do
  validateStrLen params.commitment 256 "commitment"
  validateStrLen params.proofBytes (1024 * 1024) "proof_bytes"
  validateStrLen params.vkHash 256 "vk_hash"
  validateStrLen params.problemType 256 "problem_type"
  failIf (100000 < params.size) "size exceeds maximum of 100000"
  failIf (params.complexityEstimate.lt F64.zero ∨
    (F64.ofNat (10 ^ 15)).lt params.complexityEstimate) "complexity_estimate out of range"
  checkExpiration params.expirationDays "expiration_days must be 1-365"
  let commitment ← parseHash rpc params.commitment
  let proofBytes ← decodeHex rpc params.proofBytes
  let vkHash ← parseHash rpc params.vkHash
  let publicInputs ← params.publicInputs.mapM (decodeHex rpc)
  pure (.Private commitment ⟨proofBytes, vkHash, publicInputs⟩
    ⟨params.problemType, params.size, params.complexityEstimate⟩)

def RevealParams.check (params : RevealParams) :
    Except RpcFailure (Hash × ProblemType × Bytes32) := do
  validateStrLen params.problemId 256 "problem_id"
  validateStrLen params.salt 256 "salt"
  failIf (1024 * 1024 < params.problem.utf8ByteSize) "problem JSON exceeds 1 MB"
  let problemId ← parseHash rpc params.problemId
  let problem ← (rpc.problemFromJson params.problem).mapError fun e =>
    invalidParams s!"Invalid problem JSON: {e}"
  let salt ← parseSalt rpc params.salt
  pure (problemId, problem, salt)

def SolutionSubmissionParams.check (params : SolutionSubmissionParams) :
    Except RpcFailure (Address × Hash) := do
  validateStrLen params.solver 256 "solver"
  validateStrLen params.problemId 256 "problem_id"
  let solver ← parseAddress rpc params.solver
  let problemId ← parseHash rpc params.problemId
  pure (solver, problemId)

/-- The transaction in a payload: JSON from the web wallet, bincode in hex from the other one. -/
def decodeTransaction (txHex : String) : Except RpcFailure Transaction :=
  if (trim txHex).toList.head? = some '\x7b' then
    (rpc.transactionFromJson txHex).mapError fun e => invalidParams s!"JSON deserialize error: {e}"
  else do
    let txBytes ← (rpc.hexDecode (String.ofList (trim0x txHex.toList))).mapError fun e =>
      invalidParams s!"Hex decode error: {e}"
    (rpc.transactionFromBincode txBytes).mapError fun e =>
      invalidParams s!"Bincode deserialize error: {e}"

/-! ### Methods -/

variable (ext : Ext) {σ α : Type}

/-- `?` on what does not touch the state. -/
def ofExcept (x : Except RpcFailure α) : Exec RpcFailure σ α :=
  match x with
  | .ok a => pure a
  | .error e => throw e

@[simp] theorem run_ofExcept_ok_bind {β : Type} (a : α) (f : α → Exec RpcFailure σ β) (s : σ) :
    run (ofExcept (.ok a) >>= f) s = run (f a) s := rfl

@[simp] theorem run_ofExcept_error_bind {β : Type} (e : RpcFailure) (f : α → Exec RpcFailure σ β)
    (s : σ) : run (ofExcept (.error e) >>= f) s = (.error e, s) := rfl

def onMarket (x : Exec Failure MarketplaceState α) : Exec RpcFailure Ledger α :=
  mapErr ofFailure (onMarketplace x)

def hexEncode (h : Hash) : String :=
  String.ofList (h.asBytes.flatMap fun b =>
    [Nat.digitChar (b.toNat / 16), Nat.digitChar (b.toNat % 16)])

/-- The balance of the submitter and the cost of the listing, if the one covers the other. -/
def affordable (submitter : Address) (bounty : Balance) :
    Exec RpcFailure Ledger (Balance × Balance) := do
  let balance ← gets (Ledger.balance submitter)
  throwIf (2 ^ 128 ≤ bounty.toNat + MIN_FEE_BOUNTY_SUBMISSION.toNat)
    (invalidParams "Bounty plus submission fee would overflow")
  let totalCost := bounty + MIN_FEE_BOUNTY_SUBMISSION
  let (owned, cost, fee) := (balance.toNat, totalCost.toNat, MIN_FEE_BOUNTY_SUBMISSION.toNat)
  throwIf (balance < totalCost) (invalidParams
    s!"Insufficient balance: have {owned}, need {cost} (bounty + {fee} submission fee)")
  pure (balance, totalCost)

/-- The writes of the three methods that charge the submitter: the listing and its escrow, then the
balance that was read before, less the cost. -/
def listAndDebit (now : Int64) (mode : SubmissionMode) (submitter : Address) (bounty : Balance)
    (minWorkScore : F64) (expirationDays : UInt64) (title briefing : Option String)
    (balance totalCost : Balance) : Exec RpcFailure Ledger Hash := do
  let problemId ← onMarket (submitProblem ext now mode submitter bounty minWorkScore expirationDays
    title briefing)
  modify (setBalance submitter (balance - totalCost))
  pure problemId

/-- `submit_private_problem`: the submitter is the zero address, and nobody pays. -/
def submitPrivateProblem (now : Int64) (params : PrivateProblemParams) :
    Exec RpcFailure Ledger String := do
  let mode ← ofExcept (params.check rpc)
  let problemId ← onMarket (submitProblem ext now mode ⟨0⟩ params.bounty params.minWorkScore
    params.expirationDays none none)
  pure (hexEncode problemId)

/-- `difficulty_weight`. -/
def difficultyWeight : ProblemType → F64
  | .SubsetSum numbers _ => rpc.log2 (F64.ofNat numbers.length)
  | .SAT vars clauses => (F64.ofNat vars.toNat).mul (rpc.log2 (F64.ofNat clauses.length))
  | .TSP cities _ => (F64.ofNat cities.toNat).mul (F64.ofNat cities.toNat)
  | .Custom .. => F64.one

/-- `problem_public_params`. -/
def problemPublicParams (problem : ProblemType) (minWorkScore : F64) : ProblemParameters :=
  let (problemType, size) : String × Usize := match problem with
    | .SubsetSum numbers _ => ("SubsetSum", UInt64.ofNat numbers.length)
    | .SAT vars _ => ("SAT", vars)
    | .TSP cities _ => ("TSP", cities)
    | .Custom _ data => ("Custom", UInt64.ofNat data.length)
  ⟨problemType, size, (difficultyWeight rpc problem).max minWorkScore⟩

/-- `submit_private_problem_with_wallet`. -/
def submitPrivateProblemWithWallet (now : Int64) (params : PrivateProblemWalletParams) :
    Exec RpcFailure Ledger (String × String) := do
  let (submitter, title, briefing) ← ofExcept (params.check rpc)
  let (balance, totalCost) ← affordable submitter params.bounty
  let salt ← ofExcept (parseSalt rpc params.salt)
  let publicParams := problemPublicParams rpc params.problem params.minWorkScore
  let (proof, commitment) := WellformednessProof.create ext params.problem salt publicParams
  let problemId ← listAndDebit ext now (.Private commitment proof publicParams) submitter
    params.bounty params.minWorkScore params.expirationDays title briefing balance totalCost
  pure (hexEncode problemId, hexEncode commitment)

/-- `reveal_problem`. -/
def revealProblem (now : Int64) (params : RevealParams) : Exec RpcFailure Ledger Bool := do
  let (problemId, problem, salt) ← ofExcept (params.check rpc)
  onMarket (MarketplaceState.revealProblem ext problemId ⟨problem, salt, now⟩)
  pure true

/-- `submit_public_problem`. -/
def submitPublicProblem (now : Int64) (params : PublicProblemParams) :
    Exec RpcFailure Ledger String := do
  let (submitter, title, briefing) ← ofExcept (params.check rpc)
  let (balance, totalCost) ← affordable submitter params.bounty
  let problemId ← listAndDebit ext now (.Public params.problem) submitter params.bounty
    params.minWorkScore params.expirationDays title briefing balance totalCost
  pure (hexEncode problemId)

/-- `submit_public_subset_sum`. -/
def submitPublicSubsetSum (now : Int64) (params : PublicSubsetSumParams) :
    Exec RpcFailure Ledger String := do
  let submitter ← ofExcept (params.check rpc)
  let (balance, totalCost) ← affordable submitter params.bounty
  let problemId ← listAndDebit ext now (.Public (.SubsetSum params.numbers params.target)) submitter
    params.bounty params.minWorkScore params.expirationDays none none balance totalCost
  pure (hexEncode problemId)

/-- `submit_solution`. The bounty is claimed in a step of its own. -/
def submitSolution (now : Int64) (params : SolutionSubmissionParams) :
    Exec RpcFailure Ledger Bool := do
  let (solver, problemId) ← ofExcept (params.check rpc)
  onMarket (MarketplaceState.submitSolution now problemId solver params.solution)
  let (solverAddr, bounty) ← onMarket (claimBounty problemId)
  let currentBalance ← gets (Ledger.balance solverAddr)
  modify (setBalance solverAddr (currentBalance + bounty))
  pure true

section Pool

-- The pool of pending transactions is whatever its `add` makes of it.
variable {Pool : Type} (add : Transaction → Pool → Except String Hash × Pool)

/-- `submit_transaction`. -/
def submitTransaction (txHex : String) : Exec RpcFailure Pool String := do
  throwIf (256 * 1024 < txHex.utf8ByteSize)
    (invalidParams "Transaction payload exceeds 256 KB limit")
  let tx ← ofExcept (decodeTransaction rpc txHex)
  throwIf (!Transaction.verifySignature ext tx) (invalidParams "Invalid transaction signature")
  let result ← gets (add tx)
  modify fun _ => result.2
  match result.1 with
  | .ok hash => pure (hexEncode hash)
  | .error e => throw (invalidParams s!"Failed to add transaction to pool: {e}")

end Pool

/-! ### The server at work -/

/-- A node and its pool. -/
structure ServerState (ext : Ext) (Pool : Type) where
  node : NodeState ext
  pool : Pool

/-- The calls other than block submission and the faucet, each at the time it is served. A query
answers from the state. -/
inductive RpcCall (ext : Ext) (Pool : Type) where
  | query (answer : ServerState ext Pool → String)
  | submitTransaction (txHex : String)
  | submitPrivateProblem (now : Int64) (params : PrivateProblemParams)
  | submitPrivateProblemWithWallet (now : Int64) (params : PrivateProblemWalletParams)
  | revealProblem (now : Int64) (params : RevealParams)
  | submitPublicProblem (now : Int64) (params : PublicProblemParams)
  | submitPublicSubsetSum (now : Int64) (params : PublicSubsetSumParams)
  | submitSolution (now : Int64) (params : SolutionSubmissionParams)

/-- The ledger a call leaves. -/
def RpcCall.serve {Pool : Type} : RpcCall ext Pool → Ledger → Ledger
  | .query _, L => L
  | .submitTransaction _, L => L
  | .submitPrivateProblem now params, L => (run (Server.submitPrivateProblem rpc ext now params) L).2
  | .submitPrivateProblemWithWallet now params, L =>
    (run (Server.submitPrivateProblemWithWallet rpc ext now params) L).2
  | .revealProblem now params, L => (run (Server.revealProblem rpc ext now params) L).2
  | .submitPublicProblem now params, L => (run (Server.submitPublicProblem rpc ext now params) L).2
  | .submitPublicSubsetSum now params, L =>
    (run (Server.submitPublicSubsetSum rpc ext now params) L).2
  | .submitSolution now params, L => (run (Server.submitSolution rpc now params) L).2

/-- The pool a call leaves. -/
def RpcCall.pooled {Pool : Type} (add : Transaction → Pool → Except String Hash × Pool) :
    RpcCall ext Pool → Pool → Pool
  | .submitTransaction txHex, pool => (run (Server.submitTransaction rpc ext add txHex) pool).2
  | _, pool => pool

inductive ServerEvent (ext : Ext) (Pool : Type) where
  | block (event : NodeEvent)
  | call (call : RpcCall ext Pool)

/-- The node taking blocks and the server taking calls. -/
def serverMachine {Pool : Type} (add : Transaction → Pool → Except String Hash × Pool)
    (v : BlockValidator) : Machine (ServerEvent ext Pool) (ServerState ext Pool) where
  next e s :=
    match e with
    | .block event => { s with node := (nodeMachine ext v).next event s.node }
    | .call call =>
      { node := { s.node with ledger := call.serve rpc ext s.node.ledger }
        pool := call.pooled rpc ext add s.pool }
  halts _ _ := false

end Coinjecture.Rpc.Server
