import Coinjecture.Core.Problem

/-! # Transactions

The seven transaction kinds with their sub-operations, the bytes each kind signs, and the bincode
encoding that the transaction hash is taken of. Nothing here depends on a hash function: the hash
itself and the signature check are in `Crypto`. -/

namespace Coinjecture.Core.Transactions

open Lib.Bincode Lib.Float64
open Core.Types Core.Problem

structure TransferTransaction where
  «from» : Address
  «to» : Address
  amount : Balance
  fee : Balance
  nonce : UInt64
  publicKey : PublicKey
  signature : Ed25519Signature
  deriving DecidableEq

structure TimeLockTransaction where
  «from» : Address
  recipient : Address
  amount : Balance
  unlockTime : Int64
  fee : Balance
  nonce : UInt64
  publicKey : PublicKey
  signature : Ed25519Signature
  deriving DecidableEq

inductive EscrowType where
  | Create (recipient : Address) (arbiter : Option Address) (amount : Balance) (timeout : Int64)
      (conditionsHash : Hash)
  | Release
  | Refund
  deriving DecidableEq

structure EscrowTransaction where
  escrowType : EscrowType
  escrowId : Hash
  «from» : Address
  fee : Balance
  nonce : UInt64
  publicKey : PublicKey
  signature : Ed25519Signature
  additionalSignatures : List (Address × Ed25519Signature)
  deriving DecidableEq

inductive ChannelType where
  | Open (participantA participantB : Address) (depositA depositB : Balance) (timeout : Int64)
  | Update (sequence : UInt64) (balanceA balanceB : Balance)
  | CooperativeClose (finalBalanceA finalBalanceB : Balance)
  | UnilateralClose (sequence : UInt64) (balanceA balanceB : Balance) (disputeProof : Bytes)
  deriving DecidableEq

structure ChannelTransaction where
  channelType : ChannelType
  channelId : Hash
  «from» : Address
  fee : Balance
  nonce : UInt64
  publicKey : PublicKey
  signature : Ed25519Signature
  additionalSignatures : List (Address × Ed25519Signature)
  deriving DecidableEq

inductive TrustLineType where
  | Create (accountB : Address) (limitAToB limitBToA : Balance) (qualityIn qualityOut : UInt16)
      (rippleEnabled : Bool) (dimensionalScale : UInt8)
  | UpdateLimits (limitAToB limitBToA : Option Balance)
  | Freeze
  | Close
  | EvolvePhase (deltaTau : F64)
  deriving DecidableEq

structure TrustLineTransaction where
  trustlineType : TrustLineType
  trustlineId : Hash
  «from» : Address
  fee : Balance
  nonce : UInt64
  publicKey : PublicKey
  signature : Ed25519Signature
  deriving DecidableEq

inductive DimensionalPool where
  | D1 | D2 | D3 | D4 | D5 | D6 | D7 | D8
  deriving DecidableEq

/-- `pool as u8`. -/
def DimensionalPool.toU8 : DimensionalPool → UInt8
  | .D1 => 0 | .D2 => 1 | .D3 => 2 | .D4 => 3 | .D5 => 4 | .D6 => 5 | .D7 => 6 | .D8 => 7

structure PoolSwapTransaction where
  poolFrom : DimensionalPool
  poolTo : DimensionalPool
  «from» : Address
  amountIn : Balance
  minAmountOut : Balance
  fee : Balance
  nonce : UInt64
  publicKey : PublicKey
  signature : Ed25519Signature
  deriving DecidableEq

inductive MarketplaceOperation where
  | SubmitProblem (problem : ProblemType) (bounty : Balance) (minWorkScore : F64)
      (expirationDays : UInt64) (title briefing : Option String)
  | SubmitSolution (problemId : Hash) (solution : Solution)
  | ClaimBounty (problemId : Hash)
  | CancelProblem (problemId : Hash)
  deriving DecidableEq

structure MarketplaceTransaction where
  operation : MarketplaceOperation
  «from» : Address
  fee : Balance
  nonce : UInt64
  publicKey : PublicKey
  signature : Ed25519Signature
  deriving DecidableEq

inductive Transaction where
  | Transfer (tx : TransferTransaction)
  | TimeLock (tx : TimeLockTransaction)
  | Escrow (tx : EscrowTransaction)
  | Channel (tx : ChannelTransaction)
  | TrustLine (tx : TrustLineTransaction)
  | DimensionalPoolSwap (tx : PoolSwapTransaction)
  | Marketplace (tx : MarketplaceTransaction)
  deriving DecidableEq

structure CoinbaseTransaction where
  «to» : Address
  reward : Balance
  height : UInt64
  deriving DecidableEq

inductive TransactionKind where
  | Transfer | TimeLock | Escrow | Channel | TrustLine | DimensionalPoolSwap | Marketplace
  deriving DecidableEq

/-! ### The fields all kinds have -/

namespace Transaction

def kind : Transaction → TransactionKind
  | Transfer _ => .Transfer
  | TimeLock _ => .TimeLock
  | Escrow _ => .Escrow
  | Channel _ => .Channel
  | TrustLine _ => .TrustLine
  | DimensionalPoolSwap _ => .DimensionalPoolSwap
  | Marketplace _ => .Marketplace

/-- `Transaction::from`. -/
def sender : Transaction → Address
  | Transfer tx => tx.from
  | TimeLock tx => tx.from
  | Escrow tx => tx.from
  | Channel tx => tx.from
  | TrustLine tx => tx.from
  | DimensionalPoolSwap tx => tx.from
  | Marketplace tx => tx.from

def fee : Transaction → Balance
  | Transfer tx => tx.fee
  | TimeLock tx => tx.fee
  | Escrow tx => tx.fee
  | Channel tx => tx.fee
  | TrustLine tx => tx.fee
  | DimensionalPoolSwap tx => tx.fee
  | Marketplace tx => tx.fee

def nonce : Transaction → UInt64
  | Transfer tx => tx.nonce
  | TimeLock tx => tx.nonce
  | Escrow tx => tx.nonce
  | Channel tx => tx.nonce
  | TrustLine tx => tx.nonce
  | DimensionalPoolSwap tx => tx.nonce
  | Marketplace tx => tx.nonce

def publicKey : Transaction → PublicKey
  | Transfer tx => tx.publicKey
  | TimeLock tx => tx.publicKey
  | Escrow tx => tx.publicKey
  | Channel tx => tx.publicKey
  | TrustLine tx => tx.publicKey
  | DimensionalPoolSwap tx => tx.publicKey
  | Marketplace tx => tx.publicKey

def signature : Transaction → Ed25519Signature
  | Transfer tx => tx.signature
  | TimeLock tx => tx.signature
  | Escrow tx => tx.signature
  | Channel tx => tx.signature
  | TrustLine tx => tx.signature
  | DimensionalPoolSwap tx => tx.signature
  | Marketplace tx => tx.signature

/-- `required_minimum_fee`: transfers and most marketplace operations are free. -/
def requiredMinimumFee (poolMin : Balance) : Transaction → Balance
  | Transfer _ => 0
  | Marketplace m =>
    match m.operation with
    | .SubmitProblem .. => poolMin
    | _ => 0
  | _ => poolMin

end Transaction

/-! ### The bytes a sender signs -/

def TransferTransaction.signingMessage (tx : TransferTransaction) : Bytes :=
  encode tx.from ++ encode tx.to ++ encode tx.amount ++ encode tx.fee ++ encode tx.nonce ++
    encode tx.publicKey

def TimeLockTransaction.signingMessage (tx : TimeLockTransaction) : Bytes :=
  encode tx.from ++ encode tx.recipient ++ encode tx.amount ++ encode tx.unlockTime ++
    encode tx.fee ++ encode tx.nonce ++ encode tx.publicKey

/-- Only what `Create` carries is signed, and of that neither the arbiter nor the conditions. -/
def EscrowTransaction.signingMessage (tx : EscrowTransaction) : Bytes :=
  encode tx.escrowId ++ encode tx.from ++ encode tx.fee ++ encode tx.nonce ++ encode tx.publicKey ++
    match tx.escrowType with
    | .Create recipient _ amount timeout _ => encode recipient ++ encode amount ++ encode timeout
    | .Release | .Refund => []

/-- The balances of `Update` and `UnilateralClose` are not signed. -/
def ChannelTransaction.signingMessage (tx : ChannelTransaction) : Bytes :=
  encode tx.channelId ++ encode tx.from ++ encode tx.fee ++ encode tx.nonce ++ encode tx.publicKey ++
    match tx.channelType with
    | .Open _ _ depositA depositB _ => encode depositA ++ encode depositB
    | .CooperativeClose finalBalanceA finalBalanceB => encode finalBalanceA ++ encode finalBalanceB
    | .Update .. | .UnilateralClose .. => []

instance : Encode TrustLineType := ⟨fun
  | .Create accountB limitAToB limitBToA qualityIn qualityOut rippleEnabled dimensionalScale =>
    variant 0 ++ encode accountB ++ encode limitAToB ++ encode limitBToA ++ encode qualityIn ++
      encode qualityOut ++ encode rippleEnabled ++ encode dimensionalScale
  | .UpdateLimits limitAToB limitBToA => variant 1 ++ encode limitAToB ++ encode limitBToA
  | .Freeze => variant 2
  | .Close => variant 3
  | .EvolvePhase deltaTau => variant 4 ++ encode deltaTau⟩

def TrustLineTransaction.signingMessage (tx : TrustLineTransaction) : Bytes :=
  encode tx.trustlineId ++ encode tx.from ++ encode tx.fee ++ encode tx.nonce ++
    encode tx.publicKey ++ encode tx.trustlineType

def PoolSwapTransaction.signingMessage (tx : PoolSwapTransaction) : Bytes :=
  [tx.poolFrom.toU8, tx.poolTo.toU8] ++ encode tx.from ++ encode tx.amountIn ++
    encode tx.minAmountOut ++ encode tx.fee ++ encode tx.nonce ++ encode tx.publicKey

instance : Encode MarketplaceOperation := ⟨fun
  | .SubmitProblem problem bounty minWorkScore expirationDays title briefing =>
    variant 0 ++ encode problem ++ encode bounty ++ encode minWorkScore ++ encode expirationDays ++
      encode title ++ encode briefing
  | .SubmitSolution problemId solution => variant 1 ++ encode problemId ++ encode solution
  | .ClaimBounty problemId => variant 2 ++ encode problemId
  | .CancelProblem problemId => variant 3 ++ encode problemId⟩

def MarketplaceTransaction.signingMessage (tx : MarketplaceTransaction) : Bytes :=
  encode tx.from ++ encode tx.fee ++ encode tx.nonce ++ encode tx.publicKey ++ encode tx.operation

def Transaction.signingMessage : Transaction → Bytes
  | .Transfer tx => tx.signingMessage
  | .TimeLock tx => tx.signingMessage
  | .Escrow tx => tx.signingMessage
  | .Channel tx => tx.signingMessage
  | .TrustLine tx => tx.signingMessage
  | .DimensionalPoolSwap tx => tx.signingMessage
  | .Marketplace tx => tx.signingMessage

/-! ### The encoding a transaction is hashed in -/

instance : Encode TransferTransaction := ⟨fun tx =>
  encode tx.from ++ encode tx.to ++ encode tx.amount ++ encode tx.fee ++ encode tx.nonce ++
    encode tx.publicKey ++ encode tx.signature⟩

instance : Encode TimeLockTransaction := ⟨fun tx =>
  encode tx.from ++ encode tx.recipient ++ encode tx.amount ++ encode tx.unlockTime ++
    encode tx.fee ++ encode tx.nonce ++ encode tx.publicKey ++ encode tx.signature⟩

instance : Encode EscrowType := ⟨fun
  | .Create recipient arbiter amount timeout conditionsHash =>
    variant 0 ++ encode recipient ++ encode arbiter ++ encode amount ++ encode timeout ++
      encode conditionsHash
  | .Release => variant 1
  | .Refund => variant 2⟩

instance : Encode EscrowTransaction := ⟨fun tx =>
  encode tx.escrowType ++ encode tx.escrowId ++ encode tx.from ++ encode tx.fee ++
    encode tx.nonce ++ encode tx.publicKey ++ encode tx.signature ++ encode tx.additionalSignatures⟩

instance : Encode ChannelType := ⟨fun
  | .Open participantA participantB depositA depositB timeout =>
    variant 0 ++ encode participantA ++ encode participantB ++ encode depositA ++
      encode depositB ++ encode timeout
  | .Update sequence balanceA balanceB =>
    variant 1 ++ encode sequence ++ encode balanceA ++ encode balanceB
  | .CooperativeClose finalBalanceA finalBalanceB =>
    variant 2 ++ encode finalBalanceA ++ encode finalBalanceB
  | .UnilateralClose sequence balanceA balanceB disputeProof =>
    variant 3 ++ encode sequence ++ encode balanceA ++ encode balanceB ++ encode disputeProof⟩

instance : Encode ChannelTransaction := ⟨fun tx =>
  encode tx.channelType ++ encode tx.channelId ++ encode tx.from ++ encode tx.fee ++
    encode tx.nonce ++ encode tx.publicKey ++ encode tx.signature ++ encode tx.additionalSignatures⟩

instance : Encode TrustLineTransaction := ⟨fun tx =>
  encode tx.trustlineType ++ encode tx.trustlineId ++ encode tx.from ++ encode tx.fee ++
    encode tx.nonce ++ encode tx.publicKey ++ encode tx.signature⟩

instance : Encode DimensionalPool := ⟨fun pool => variant pool.toU8.toNat⟩

instance : Encode PoolSwapTransaction := ⟨fun tx =>
  encode tx.poolFrom ++ encode tx.poolTo ++ encode tx.from ++ encode tx.amountIn ++
    encode tx.minAmountOut ++ encode tx.fee ++ encode tx.nonce ++ encode tx.publicKey ++
    encode tx.signature⟩

instance : Encode MarketplaceTransaction := ⟨fun tx =>
  encode tx.operation ++ encode tx.from ++ encode tx.fee ++ encode tx.nonce ++
    encode tx.publicKey ++ encode tx.signature⟩

instance : Encode Transaction := ⟨fun
  | .Transfer tx => variant 0 ++ encode tx
  | .TimeLock tx => variant 1 ++ encode tx
  | .Escrow tx => variant 2 ++ encode tx
  | .Channel tx => variant 3 ++ encode tx
  | .TrustLine tx => variant 4 ++ encode tx
  | .DimensionalPoolSwap tx => variant 5 ++ encode tx
  | .Marketplace tx => variant 6 ++ encode tx⟩

end Coinjecture.Core.Transactions
