import Coinjecture.Core.MerkleTree

/-! # Validity of transactions and blocks

The bounds of `validation.rs`, the checks a transaction makes of itself, and `Block::verify`. The leaves of
the transactions root are here the hashes of the transactions. -/

namespace Coinjecture.Core.Validation

open Lib.Bincode Lib.Float64
open Core.Types Core.Problem Core.Transactions
open Core.Blocks Core.Extern Core.Crypto
open Core.MerkleTree

def MAX_AMOUNT : Balance := BitVec.allOnes 128 / 2

def MIN_FEE : Balance := 1

def MIN_FEE_BOUNTY_SUBMISSION : Balance := 1000000000000

def MAX_BOUNTY_TITLE_LEN : ℕ := 256

def MAX_BOUNTY_BRIEFING_LEN : ℕ := 8192

def MAX_TX_DATA_SIZE : ℕ := 64 * 1024

def MAX_BLOCK_TRANSACTIONS : ℕ := 10000

def MAX_ADDITIONAL_SIGNATURES : ℕ := 8

def MAX_DISPUTE_PROOF_SIZE : ℕ := 1024

def MAX_FUTURE_DRIFT_SECS : Int64 := 120

def SUPPORTED_BLOCK_VERSIONS : List UInt32 := [1, 2]

inductive ValidationError where
  | ZeroAmount
  | AmountOverflow (amount : Balance)
  | FeeTooLow (fee : Balance)
  | AmountPlusFeeOverflow (amount fee : Balance)
  | DataTooLarge (size : ℕ)
  | TooManyTransactions (count : ℕ)
  | TooManySignatures (count : ℕ)
  | DisputeProofTooLarge (size : ℕ)
  | StringTooLong (size : ℕ)
  | UnsupportedVersion (version : UInt32)
  | NegativeTimestamp (timestamp : Timestamp)
  | FutureTimestamp (timestamp : Timestamp)
  | NonFiniteWorkScore (workScore : F64)
  | NegativeWorkScore (workScore : F64)
  | NonFiniteTimeAsymmetry (ratio : F64)
  | InvalidSolutionQuality (quality : F64)
  | InvalidNonNegativeFloat (value : F64)
  deriving DecidableEq

/-- `if c { return Err(e) }`. -/
def check (c : Prop) [Decidable c] (e : ValidationError) : Except ValidationError Unit :=
  if c then .error e else .ok ()

/-- `is_ok`. -/
def isOk (x : Except ValidationError Unit) : Bool := x.toOption.isSome

/-! ### Fields -/

/-- `checked_add`, as a check. -/
def checkedAdd (amount fee : Balance) : Except ValidationError Unit :=
  check (2 ^ 128 ≤ amount.toNat + fee.toNat) (.AmountPlusFeeOverflow amount fee)

def validateAmount (amount : Balance) : Except ValidationError Unit := do
  check (amount = 0) .ZeroAmount
  check (MAX_AMOUNT < amount) (.AmountOverflow amount)

def validateFee (fee : Balance) : Except ValidationError Unit := do
  check (fee < MIN_FEE) (.FeeTooLow fee)
  check (MAX_AMOUNT < fee) (.AmountOverflow fee)

def validateFeeAllowZero (fee : Balance) : Except ValidationError Unit :=
  check (MAX_AMOUNT < fee) (.AmountOverflow fee)

def validateAmountAndFee (amount fee : Balance) : Except ValidationError Unit := do
  validateAmount amount
  validateFee fee
  checkedAdd amount fee

def validateTransferFields (amount fee : Balance) : Except ValidationError Unit := do
  validateAmount amount
  validateFeeAllowZero fee
  checkedAdd amount fee

def validateTimelockFields (amount fee : Balance) : Except ValidationError Unit :=
  validateAmountAndFee amount fee

def validateEscrowFields (amount fee : Balance) : Except ValidationError Unit :=
  validateAmountAndFee amount fee

def validateAdditionalSignaturesCount (count : ℕ) : Except ValidationError Unit :=
  check (MAX_ADDITIONAL_SIGNATURES < count) (.TooManySignatures count)

def validateDisputeProof (proof : Bytes) : Except ValidationError Unit :=
  check (MAX_DISPUTE_PROOF_SIZE < proof.length) (.DisputeProofTooLarge proof.length)

def validateDataPayload (data : Bytes) : Except ValidationError Unit :=
  check (MAX_TX_DATA_SIZE < data.length) (.DataTooLarge data.length)

def validateBountyTitle (s : String) : Except ValidationError Unit :=
  check (MAX_BOUNTY_TITLE_LEN < s.utf8ByteSize) (.StringTooLong s.utf8ByteSize)

def validateBountyBriefing (s : String) : Except ValidationError Unit :=
  check (MAX_BOUNTY_BRIEFING_LEN < s.utf8ByteSize) (.StringTooLong s.utf8ByteSize)

/-- `char::is_whitespace`. -/
def isWhitespace (c : Char) : Bool :=
  let n := c.toNat
  (9 ≤ n && n ≤ 13) || n = 0x20 || n = 0x85 || n = 0xA0 || n = 0x1680 || (0x2000 ≤ n && n ≤ 0x200A) ||
    n = 0x2028 || n = 0x2029 || n = 0x202F || n = 0x205F || n = 0x3000

/-- `trim().is_empty()`. -/
def isBlank (s : String) : Bool := s.toList.all isWhitespace

/-! ### Transactions -/

section Transactions

variable (ext : Ext) (now : Int64)

/-- What every kind checks first: the signature, and that the address is the key's. -/
def isSignedBySender (tx : Transaction) : Bool :=
  Transaction.verifySignature ext tx && tx.sender = tx.publicKey.toAddress

def TransferTransaction.isValid (tx : TransferTransaction) : Bool :=
  isSignedBySender ext (.Transfer tx) && isOk (validateTransferFields tx.amount tx.fee)

/-- The unlock time has to be in the future. -/
def TimeLockTransaction.isValid (tx : TimeLockTransaction) : Bool :=
  isSignedBySender ext (.TimeLock tx) && isOk (validateTimelockFields tx.amount tx.fee) &&
    !(tx.unlockTime ≤ now)

def EscrowTransaction.isValid (tx : EscrowTransaction) : Bool :=
  isSignedBySender ext (.Escrow tx) &&
    isOk (validateAdditionalSignaturesCount tx.additionalSignatures.length) &&
    match tx.escrowType with
    | .Create _ _ amount _ _ => isOk (validateEscrowFields amount tx.fee)
    | .Release | .Refund => isOk (validateFee tx.fee)

def ChannelTransaction.isValid (tx : ChannelTransaction) : Bool :=
  isSignedBySender ext (.Channel tx) &&
    isOk (validateAdditionalSignaturesCount tx.additionalSignatures.length) &&
    (match tx.channelType with
    | .Open _ _ depositA depositB _ => isOk (validateAmount depositA) && isOk (validateAmount depositB)
    | .UnilateralClose _ _ _ disputeProof => isOk (validateDisputeProof disputeProof)
    | .Update .. | .CooperativeClose .. => true) &&
    isOk (validateFee tx.fee)

/-- The fee is not looked at. -/
def TrustLineTransaction.isValid (tx : TrustLineTransaction) : Bool :=
  isSignedBySender ext (.TrustLine tx) &&
    match tx.trustlineType with
    | .Create accountB limitAToB limitBToA qualityIn qualityOut _ dimensionalScale =>
      tx.from ≠ accountB && !(limitAToB = 0 && limitBToA = 0) &&
        !(10000 < qualityIn || 10000 < qualityOut) &&
        !(dimensionalScale < 1 || 8 < dimensionalScale)
    | .UpdateLimits limitAToB limitBToA => !(limitAToB.isNone && limitBToA.isNone)
    | .EvolvePhase deltaTau => !(deltaTau.le F64.zero || (F64.ofNat 100).lt deltaTau)
    | .Freeze | .Close => true

/-- Twice the amount is taken in 128 bits. -/
def PoolSwapTransaction.isValid (tx : PoolSwapTransaction) : Bool :=
  isSignedBySender ext (.DimensionalPoolSwap tx) && tx.poolFrom ≠ tx.poolTo && tx.amountIn ≠ 0 &&
    !(tx.minAmountOut = 0 || tx.amountIn * 2 < tx.minAmountOut) && !(tx.amountIn < tx.fee)

/-- The checks that depend on the operation. -/
def MarketplaceOperation.isValid (fee : Balance) : MarketplaceOperation → Bool
  | .SubmitProblem problem bounty minWorkScore expirationDays title briefing =>
    isOk (validateAmount bounty) && isOk (checkedAdd fee bounty) &&
      !(!minWorkScore.isFinite || minWorkScore.le F64.zero) &&
      !(expirationDays = 0 || 365 < expirationDays) &&
      (match problem with
      | .Custom _ data => isOk (validateDataPayload data)
      | _ => true) &&
      (title.all fun t => !isBlank t && isOk (validateBountyTitle t)) &&
      briefing.all fun b => !isBlank b && isOk (validateBountyBriefing b)
  | .SubmitSolution _ solution =>
    match solution with
    | .Custom data => isOk (validateDataPayload data)
    | _ => true
  | .ClaimBounty _ | .CancelProblem _ => true

def MarketplaceTransaction.isValid (tx : MarketplaceTransaction) : Bool :=
  isSignedBySender ext (.Marketplace tx) &&
    (match tx.operation with
    | .SubmitProblem .. => MIN_FEE_BOUNTY_SUBMISSION ≤ tx.fee && tx.fee ≤ MAX_AMOUNT
    | _ => isOk (validateFeeAllowZero tx.fee)) &&
    MarketplaceOperation.isValid tx.fee tx.operation

/-- `Transaction::is_valid`. -/
def isValid : Transaction → Bool
  | .Transfer tx => TransferTransaction.isValid ext tx
  | .TimeLock tx => TimeLockTransaction.isValid ext now tx
  | .Escrow tx => EscrowTransaction.isValid ext tx
  | .Channel tx => ChannelTransaction.isValid ext tx
  | .TrustLine tx => TrustLineTransaction.isValid ext tx
  | .DimensionalPoolSwap tx => PoolSwapTransaction.isValid ext tx
  | .Marketplace tx => MarketplaceTransaction.isValid ext tx

end Transactions

/-! ### Blocks -/

/-- `!value.is_finite() || value < 0.0`. -/
def checkNonNegative (value : F64) : Except ValidationError Unit :=
  check (!value.isFinite ∨ value.lt F64.zero) (.InvalidNonNegativeFloat value)

/-- `validate_block_header_fields`. -/
def validateBlockHeaderFields (version : UInt32) (timestamp : Timestamp)
    (workScore timeAsymmetryRatio solutionQuality complexityWeight energyEstimateJoules : F64)
    (txCount : ℕ) (nowSecs : Int64) : Except ValidationError Unit := do
  check (version ∉ SUPPORTED_BLOCK_VERSIONS) (.UnsupportedVersion version)
  check (timestamp < 0) (.NegativeTimestamp timestamp)
  check (nowSecs + MAX_FUTURE_DRIFT_SECS < timestamp) (.FutureTimestamp timestamp)
  check (!workScore.isFinite) (.NonFiniteWorkScore workScore)
  check (workScore.lt F64.zero) (.NegativeWorkScore workScore)
  check (!timeAsymmetryRatio.isFinite) (.NonFiniteTimeAsymmetry timeAsymmetryRatio)
  check (!solutionQuality.isFinite ∨ !(F64.zero.le solutionQuality && solutionQuality.le F64.one))
    (.InvalidSolutionQuality solutionQuality)
  checkNonNegative complexityWeight
  checkNonNegative energyEstimateJoules
  check (MAX_BLOCK_TRANSACTIONS < txCount) (.TooManyTransactions txCount)

section Blocks

variable (ext : Ext) (now : Int64)

/-- `SolutionReveal::verify`. -/
def SolutionReveal.verify (reveal : SolutionReveal) (epochSalt : Hash) : Bool :=
  Commitment.verify ext reveal.commitment reveal.problem reveal.solution epochSalt &&
    reveal.solution.verify reveal.problem

/-- `Block::verify`. -/
def Block.verify (block : Block) : Bool :=
  isOk (validateBlockHeaderFields block.header.version block.header.timestamp block.header.workScore
    block.header.timeAsymmetryRatio block.header.solutionQuality block.header.complexityWeight
    block.header.energyEstimateJoules block.transactions.length now) &&
    SolutionReveal.verify ext block.solutionReveal block.header.prevHash &&
    block.transactions.all (isValid ext now) && block.coinbase.height = block.header.height &&
    calculateTransactionsRoot ext block.transactions = block.header.transactionsRoot

end Blocks

/-! ### What is checked -/

theorem check_ok {c : Prop} [Decidable c] {e : ValidationError} : check c e = .ok () ↔ ¬ c := by
  unfold check
  split_ifs with h
  · simp [h]
  · simp [h]

theorem bind_ok {x y : Except ValidationError Unit} :
    (x >>= fun _ => y) = .ok () ↔ x = .ok () ∧ y = .ok () := by
  rcases x with _ | _
  · simp [bind, Except.bind]
  · simp [bind, Except.bind]

theorem isOk_iff {x : Except ValidationError Unit} : isOk x = true ↔ x = .ok () := by
  rcases x with _ | _
  · simp [isOk, Except.toOption]
  · simp [isOk, Except.toOption]

/-- A valid transaction has a valid signature. -/
theorem verifySignature_of_isValid {ext : Ext} {now : Int64} {tx : Transaction}
    (h : isValid ext now tx = true) : Transaction.verifySignature ext tx = true := by
  have hsigned : isSignedBySender ext tx = true := by
    cases tx with
    | Transfer tx => exact (Bool.and_eq_true_iff.mp h).1
    | TimeLock tx => exact (Bool.and_eq_true_iff.mp (Bool.and_eq_true_iff.mp h).1).1
    | Escrow tx => exact (Bool.and_eq_true_iff.mp (Bool.and_eq_true_iff.mp h).1).1
    | Channel tx =>
      exact (Bool.and_eq_true_iff.mp (Bool.and_eq_true_iff.mp (Bool.and_eq_true_iff.mp h).1).1).1
    | TrustLine tx => exact (Bool.and_eq_true_iff.mp h).1
    | DimensionalPoolSwap tx =>
      exact (Bool.and_eq_true_iff.mp (Bool.and_eq_true_iff.mp
        (Bool.and_eq_true_iff.mp (Bool.and_eq_true_iff.mp h).1).1).1).1
    | Marketplace tx => exact (Bool.and_eq_true_iff.mp (Bool.and_eq_true_iff.mp h).1).1
  exact (Bool.and_eq_true_iff.mp hsigned).1

end Coinjecture.Core.Validation
