import Coinjecture.Core.Crypto
import Coinjecture.State.Accounts
import Coinjecture.Tokenomics.Rewards

/-! # The block validator

`validateBlockWithOptions` makes its checks in the order of the source. It looks at the header, the
reveal, the signature of each transaction and, from height 1 on, the amount of the coinbase; it does
not look at the transactions root, at the commitment in the header or at the recipient of the
coinbase. `applyBlock` is the validator's own way of running a block: on the accounts only, stopping at
the first transaction that fails, with the fees paid to the miner. -/

namespace Coinjecture.Node.Validator

open Lib.Effect Lib.Float64 Lib.Bincode
open Core.Types Core.Problem Core.Transactions
open Core.Blocks Core.Extern Core.Crypto
open State.Accounts State.Accounts.AccountState
open Tokenomics.Rewards

/-- `ValidationError`, without the variants of the checks that no block goes through. -/
inductive ValidationError where
  | InvalidHeight (expected actual : UInt64)
  | InvalidPrevHash
  | InvalidSolution
  | InvalidCommitment
  | InsufficientWorkScore (workScore : F64)
  | InsufficientDifficulty
  | FutureTimestamp
  | InvalidTransaction (message : String)
  | InvalidCoinbaseAmount (expected actual : Balance)
  | StateError (error : StateError)
  deriving DecidableEq

structure BlockValidator where
  minWorkScore : F64
  minDifficulty : UInt32
  maxTimestampDrift : Int64

/-- `BlockValidator::new`. -/
def BlockValidator.new (minDifficulty : UInt32) : BlockValidator where
  minWorkScore := F64.zero
  minDifficulty := minDifficulty
  maxTimestampDrift := 120

/-! ### Validation -/

/-- `if c { return Err(e) }`. -/
def check (c : Prop) [Decidable c] (e : ValidationError) : Except ValidationError Unit :=
  if c then .error e else .ok ()

/-- The hex digits of a hash. -/
def hexDigits (h : Hash) : List UInt8 := h.asBytes.flatMap fun b => [b / 16, b % 16]

def leadingZeros (h : Hash) : ℕ := ((hexDigits h).takeWhile (· == 0)).length

namespace BlockValidator

variable (ext : Ext) (now : Int64) (v : BlockValidator)

/-- `validate_timestamp`. The flag that skips the age check is not looked at. -/
def validateTimestamp (timestamp : Timestamp) (_skipAgeCheck : Bool) :
    Except ValidationError Unit :=
  if now + v.maxTimestampDrift < timestamp then .error .FutureTimestamp else .ok ()

/-- `validate_difficulty`: by the bincode hash of the header or else by its JSON hash. -/
def validateDifficulty (block : Block) : Except ValidationError Unit :=
  if v.minDifficulty.toNat ≤ leadingZeros (BlockHeader.hash ext block.header) then .ok ()
  else if leadingZeros (BlockHeader.hashFromJson ext block.header) < v.minDifficulty.toNat then
    .error .InsufficientDifficulty
  else .ok ()

/-- The loop over the transactions. -/
def validateSignatures : List Transaction → Except ValidationError Unit
  | [] => .ok ()
  | tx :: txs =>
    if !Transaction.verifySignature ext tx then .error (.InvalidTransaction "Invalid signature")
    else validateSignatures txs

/-- The check of the coinbase amount, which genesis and an unknown cumulative work skip. -/
def validateReward (block : Block) (parentCumulativeWork : Option (BitVec 128)) :
    Except ValidationError Unit :=
  match parentCumulativeWork with
  | none => .ok ()
  | some w =>
    let expected := calculateBlockReward block.header.workScore w
    if 0 < block.header.height ∧ block.coinbase.reward ≠ expected then
      .error (.InvalidCoinbaseAmount expected block.coinbase.reward)
    else .ok ()

/-- `validate_block_with_options`. -/
def validateBlockWithOptions (block : Block) (prevHash : Hash) (expectedHeight : UInt64)
    (skipTimestampAgeCheck : Bool) (parentCumulativeWorkForEmission : Option (BitVec 128)) :
    Except ValidationError Unit := do
  check (block.header.height ≠ expectedHeight) (.InvalidHeight expectedHeight block.header.height)
  check (block.header.prevHash ≠ prevHash) .InvalidPrevHash
  v.validateTimestamp now block.header.timestamp skipTimestampAgeCheck
  check (!block.solutionReveal.solution.verify block.solutionReveal.problem) .InvalidSolution
  check (!Commitment.verify ext block.solutionReveal.commitment block.solutionReveal.problem
    block.solutionReveal.solution block.header.prevHash) .InvalidCommitment
  check (block.header.workScore.lt v.minWorkScore) (.InsufficientWorkScore block.header.workScore)
  v.validateDifficulty ext block
  validateSignatures ext block.transactions
  validateReward block parentCumulativeWorkForEmission

end BlockValidator

/-! ### What is accepted -/

section Accepted

variable {ext : Ext} {now : Int64} {v : BlockValidator} {block : Block} {prevHash : Hash}
  {expectedHeight : UInt64} {skip : Bool} {w : Option (BitVec 128)}

theorem validateSignatures_ok (txs : List Transaction) :
    BlockValidator.validateSignatures ext txs = .ok () ↔
      ∀ tx ∈ txs, Transaction.verifySignature ext tx = true := by
  induction txs with
  | nil => simp [BlockValidator.validateSignatures]
  | cons tx txs ih =>
    rw [BlockValidator.validateSignatures, List.forall_mem_cons]
    cases h : Transaction.verifySignature ext tx with
    | false => simp
    | true => simp [ih]

theorem check_ok {c : Prop} [Decidable c] {e : ValidationError} : check c e = .ok () ↔ ¬ c := by
  unfold check
  split_ifs with h
  · simp [h]
  · simp [h]

theorem bind_ok {x y : Except ValidationError Unit} :
    (x >>= fun _ => y) = .ok () ↔ x = .ok () ∧ y = .ok () := by
  rcases x with _ | _
  · simp [bind, Except.bind]
  · simp [bind, Except.bind]

/-- The validator accepts a block if every one of its checks passes. -/
theorem validateBlockWithOptions_ok :
    v.validateBlockWithOptions ext now block prevHash expectedHeight skip w = .ok () ↔
      block.header.height = expectedHeight ∧ block.header.prevHash = prevHash ∧
      v.validateTimestamp now block.header.timestamp skip = .ok () ∧
      block.solutionReveal.solution.verify block.solutionReveal.problem = true ∧
      Commitment.verify ext block.solutionReveal.commitment block.solutionReveal.problem
        block.solutionReveal.solution block.header.prevHash = true ∧
      block.header.workScore.lt v.minWorkScore = false ∧
      v.validateDifficulty ext block = .ok () ∧
      (∀ tx ∈ block.transactions, Transaction.verifySignature ext tx = true) ∧
      BlockValidator.validateReward block w = .ok () := by
  unfold BlockValidator.validateBlockWithOptions
  simp [bind_ok, check_ok, validateSignatures_ok]

end Accepted

/-! ### Running a block on the accounts -/

/-- The balance of `src`, which has to cover `cost`. -/
def coveringBalance (what : String) (src : Address) (cost : Balance) :
    Exec ValidationError AccountState Balance := do
  let senderBalance ← gets (getBalance src)
  throwIf (senderBalance < cost) (.InvalidTransaction
    s!"Insufficient balance{what}: has {senderBalance.toNat}, needs {cost.toNat}")
  pure senderBalance

def verifyNonce (src : Address) (nonce : UInt64) : Exec ValidationError AccountState Unit := do
  let expectedNonce ← gets (getNonce src)
  throwIf (nonce ≠ expectedNonce) (.InvalidTransaction
    s!"Invalid nonce: expected {expectedNonce.toNat}, got {nonce.toNat}")

/-- The end of every branch: the fee goes to the miner and the nonce of the sender advances. -/
def payMiner (miner src : Address) (fee : Balance) : Exec ValidationError AccountState Unit := do
  let minerBalance ← gets (getBalance miner)
  modify (setBalance miner (minerBalance + fee))
  modify (incrementNonce src)

/-- Check the balance, then the nonce, then take `cost` from the sender: the branches of a transaction
that is charged in one go. -/
def chargeSender (what : String) (miner src : Address) (cost fee : Balance) (nonce : UInt64) :
    Exec ValidationError AccountState Unit := do
  let senderBalance ← coveringBalance what src cost
  verifyNonce src nonce
  modify (setBalance src (senderBalance - cost))
  payMiner miner src fee

def applyTransfer (miner : Address) (tx : TransferTransaction) :
    Exec ValidationError AccountState Unit := do
  let _senderBalance ← coveringBalance "" tx.from (tx.amount + tx.fee)
  verifyNonce tx.from tx.nonce
  mapErr .StateError (transfer tx.from tx.to tx.amount)
  let senderBalanceAfter ← gets (getBalance tx.from)
  modify (setBalance tx.from (senderBalanceAfter - tx.fee))
  payMiner miner tx.from tx.fee

/-- The deposits of an opening, read before either is written. -/
def deductDeposits (participantA participantB : Address) (depositA depositB : Balance) :
    Exec ValidationError AccountState Unit := do
  let balanceA ← gets (getBalance participantA)
  let balanceB ← gets (getBalance participantB)
  throwIf (balanceA < depositA) (.InvalidTransaction
    s!"Participant A insufficient balance: has {balanceA.toNat}, needs {depositA.toNat}")
  throwIf (balanceB < depositB) (.InvalidTransaction
    s!"Participant B insufficient balance: has {balanceB.toNat}, needs {depositB.toNat}")
  modify (setBalance participantA (balanceA - depositA))
  modify (setBalance participantB (balanceB - depositB))

def applyChannel (miner : Address) (tx : ChannelTransaction) :
    Exec ValidationError AccountState Unit := do
  let _senderBalance ← coveringBalance " for fee" tx.from tx.fee
  verifyNonce tx.from tx.nonce
  match tx.channelType with
  | .Open participantA participantB depositA depositB _ =>
    deductDeposits participantA participantB depositA depositB
  | .Update .. | .CooperativeClose .. | .UnilateralClose .. => pure ()
  let senderBalanceAfter ← gets (getBalance tx.from)
  modify (setBalance tx.from (senderBalanceAfter - tx.fee))
  payMiner miner tx.from tx.fee

/-- One transaction of `apply_block`. -/
def applyTransaction (miner : Address) : Transaction → Exec ValidationError AccountState Unit
  | .Transfer tx => applyTransfer miner tx
  | .TimeLock tx => chargeSender "" miner tx.from (tx.amount + tx.fee) tx.fee tx.nonce
  | .Escrow tx =>
    match tx.escrowType with
    | .Create _ _ amount _ _ => chargeSender "" miner tx.from (amount + tx.fee) tx.fee tx.nonce
    | .Release | .Refund => chargeSender " for fee" miner tx.from tx.fee tx.fee tx.nonce
  | .Channel tx => applyChannel miner tx
  | .TrustLine tx => chargeSender " for trustline fee" miner tx.from tx.fee tx.fee tx.nonce
  | .DimensionalPoolSwap tx => chargeSender " for pool swap fee" miner tx.from tx.fee tx.fee tx.nonce
  | .Marketplace tx =>
    match tx.operation with
    | .SubmitProblem _ bounty .. =>
      chargeSender " for problem submission" miner tx.from (tx.fee + bounty) tx.fee tx.nonce
    | .SubmitSolution .. | .ClaimBounty .. | .CancelProblem .. =>
      chargeSender " for marketplace fee" miner tx.from tx.fee tx.fee tx.nonce

def applyTransactions (miner : Address) : List Transaction → Exec ValidationError AccountState Unit
  | [] => pure ()
  | tx :: txs => do
    applyTransaction miner tx
    applyTransactions miner txs

/-- `apply_block`. -/
def applyBlock (block : Block) : Exec ValidationError AccountState Unit := do
  let currentBalance ← gets (getBalance block.header.miner)
  modify (setBalance block.header.miner (currentBalance + block.coinbase.reward))
  applyTransactions block.header.miner block.transactions

@[simp] theorem run_coveringBalance_bind {α : Type} (what : String) (src : Address) (cost : Balance)
    (f : Balance → Exec ValidationError AccountState α) (s : AccountState) :
    run (coveringBalance what src cost >>= f) s =
      if s.getBalance src < cost then (.error (.InvalidTransaction s!"Insufficient balance{what}: has {(s.getBalance src).toNat}, needs {cost.toNat}"), s)
      else run (f (s.getBalance src)) s := by
  simp only [coveringBalance, bind_assoc, run_gets_bind, run_throwIf_bind, pure_bind]

@[simp] theorem run_verifyNonce_bind {α : Type} (src : Address) (nonce : UInt64)
    (f : Unit → Exec ValidationError AccountState α) (s : AccountState) :
    run (verifyNonce src nonce >>= f) s =
      if nonce ≠ s.getNonce src then (.error (.InvalidTransaction s!"Invalid nonce: expected {(s.getNonce src).toNat}, got {nonce.toNat}"), s)
      else run (f ()) s := by
  simp only [verifyNonce, bind_assoc, run_gets_bind, run_throwIf_bind]

theorem run_payMiner (miner src : Address) (fee : Balance) (s : AccountState) :
    run (payMiner miner src fee) s =
      (.ok (), (s.setBalance miner (s.getBalance miner + fee)).incrementNonce src) := by
  simp only [payMiner, run_gets_bind, run_modify_bind, run_modify]

/-! ### Blocks that pass

Blocks of height 1 on a parent of cumulative work 1, with the digests and signatures BLAKE3 and Ed25519
give. Each has the hash its header needs for difficulty 4. -/

namespace Sample

def parent : Hash := ⟨0xaf1349b9f5f9a1a6a0404dea36dcc9499bcb25c9adc112b7cc9a93cae41f3262⟩

def problem : ProblemType := .SubsetSum [1] 1

def solution : Solution := .SubsetSum [0]

def problemHash : Hash := ⟨0x6b274ae156511318e0a2e3aefd738b06559949b1b53cfb10a050ee125c37644d⟩

def solutionHash : Hash := ⟨0xe0ff1c2bce1210c02be06dc88e72ce1c11d4c30f6c590a2e066ab443d0553913⟩

def commitment : Commitment :=
  ⟨⟨0x2ba73a0f417e4edd5a01b84c37ff2e9f02382e9e3380520ace839e299f39222a⟩, problemHash⟩

def aliceKey : PublicKey := ⟨0x8a88e3dd7409f195fd52db2d3cba5d72ca6709bf1d94121bf3748801b40f6f5c⟩

def malloryKey : PublicKey := ⟨0x8139770ea87d175f56a35466c34c7ecccb8d8a91b4ee37a25df60f5b8fc9b394⟩

def bob : Address := ⟨0xb0b0b0b0b0b0b0b0b0b0b0b0b0b0b0b0b0b0b0b0b0b0b0b0b0b0b0b0b0b0b0b0⟩

def carol : Address := ⟨0xc0c0c0c0c0c0c0c0c0c0c0c0c0c0c0c0c0c0c0c0c0c0c0c0c0c0c0c0c0c0c0c0⟩

/-- Alice pays 5 to Bob, at a fee of 1. -/
def aliceTransfer : TransferTransaction where
  «from» := aliceKey.toAddress
  «to» := bob
  amount := 5
  fee := 1
  nonce := 0
  publicKey := aliceKey
  signature := ⟨0x3815fcf731bf5c1f2e600ff8f81ee6439af119180c988a564768267fdea3ec85b5ab37112ecab8b3b4f40aabaf2ba2bf8014ee574587e0785551125c941bac02⟩

/-- Alice pays 5 to Mallory, signed by Mallory with his own key. -/
def malloryTransfer : TransferTransaction where
  «from» := aliceKey.toAddress
  «to» := malloryKey.toAddress
  amount := 5
  fee := 1
  nonce := 0
  publicKey := malloryKey
  signature := ⟨0x4acc9c9268d6ce7b2f39dca0391f2ca33e0f8344f5eeee62404e761c59224cf8a415b7157b825b444b70b960db0a2f14ce0b21573dea821d0985e99106af6301⟩

def header (transactionsRoot : Hash) (nonce : UInt64) : BlockHeader where
  version := 1
  height := 1
  prevHash := parent
  timestamp := 1767225600
  transactionsRoot := transactionsRoot
  solutionsRoot := Hash.ZERO
  commitment := commitment
  workScore := F64.one
  miner := carol
  nonce := nonce
  solveTimeUs := 10
  verifyTimeUs := 1
  timeAsymmetryRatio := ⟨0x4024000000000000⟩
  solutionQuality := F64.one
  complexityWeight := F64.one
  energyEstimateJoules := F64.one

def block (header : BlockHeader) (transactions : List Transaction) : Block where
  header := header
  coinbase := ⟨carol, 50000000000000, 1⟩
  transactions := transactions
  solutionReveal := ⟨problem, solution, commitment⟩

def emptyHeader : BlockHeader := header Hash.ZERO 151264

def emptyBlock : Block := block emptyHeader []

def aliceHeader : BlockHeader :=
  header ⟨0xb4173bfafb0b0b5815a1f700285bf15b9590c2e49edba24df8a83acaaff14d65⟩ 95251

/-- Alice's transfer. -/
def aliceBlock : Block := block aliceHeader [.Transfer aliceTransfer]

def twiceHeader : BlockHeader :=
  header ⟨0xc642ef939a43595a72c54e6dfab323515c1712f475877565391ef98be656d3f0⟩ 7149

/-- Alice's transfer, twice. -/
def twiceBlock : Block := block twiceHeader [.Transfer aliceTransfer, .Transfer aliceTransfer]

def malloryHeader : BlockHeader :=
  header ⟨0xc2f764ae136c23050aeb5469881c19b7d94bc58bcccdea16565e10881aa81590⟩ 77008

/-- Mallory's transfer of what is Alice's. -/
def malloryBlock : Block := block malloryHeader [.Transfer malloryTransfer]

def ext : Ext := Ext.ofTables
  [(encode problem, problemHash.bytes),
    (encode solution, solutionHash.bytes),
    (problemHash.asBytes ++ parent.asBytes ++ solutionHash.asBytes, commitment.hash.bytes),
    (encode (Transaction.Transfer aliceTransfer),
      0x79859dd23297515296d9ec5b3f373d85d5b7c799e324ef61097aead751ee4521),
    (encode (Transaction.Transfer malloryTransfer),
      0xb11f6ea837e85c8847f589be75d7330bd879e4bbc3ba3417280c0bfbbf2ec8d0),
    (encode emptyHeader, 0x000057b5e8d2c8ede5aa71a035a2897f75d9f7d5f3fd5558a7913926810578b1),
    (encode aliceHeader, 0x0000bd83a6e2c68def2cb8561254a0fe94c04977aa472d07832c091c42e13fb2),
    (encode twiceHeader, 0x0000a8231c34c9cedc308a682bafafd646cccbb6e5ffb3ead5c7692b10d96dac),
    (encode malloryHeader, 0x000041b6768183662226e0fa56ffce68508c3d8cb0b8b0860932783a0deab7f2)]
  [(aliceKey, aliceTransfer.signingMessage, aliceTransfer.signature),
    (malloryKey, malloryTransfer.signingMessage, malloryTransfer.signature)]

def validator : BlockValidator := BlockValidator.new 4

/-- The validator accepts the block on `parent`, a minute after its time stamp. -/
def accepts (block : Block) : Bool :=
  validator.validateBlockWithOptions ext 1767225660 block parent 1 false (some 1) = .ok ()

/-- Alice has 100 and nobody else has anything. -/
def aliceHas100 : AccountState := .ofBalances [(aliceKey.toAddress, 100)]

example : accepts emptyBlock ∧ accepts aliceBlock ∧ accepts twiceBlock ∧ accepts malloryBlock := by
  decide +kernel

end Sample

end Coinjecture.Node.Validator
