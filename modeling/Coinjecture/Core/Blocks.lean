import Coinjecture.Core.Transactions

/-! # Blocks

The header, the coinbase, the body and the revealed solution. The block hash is the hash of the
header's bincode encoding (`BlockHeader.hash` in `Crypto`); nothing of the coinbase, the transactions
or the reveal enters it except through `transactionsRoot` and `commitment`. -/

namespace Coinjecture.Core.Blocks

open Lib.Bincode Lib.Float64
open Core.Types Core.Problem Core.Transactions

structure Commitment where
  hash : Hash
  problemHash : Hash
  deriving DecidableEq

structure SolutionReveal where
  problem : ProblemType
  solution : Solution
  commitment : Commitment
  deriving DecidableEq

structure BlockHeader where
  version : UInt32
  height : UInt64
  prevHash : Hash
  timestamp : Timestamp
  transactionsRoot : Hash
  solutionsRoot : Hash
  commitment : Commitment
  workScore : F64
  miner : Address
  nonce : UInt64
  solveTimeUs : UInt64
  verifyTimeUs : UInt64
  timeAsymmetryRatio : F64
  solutionQuality : F64
  complexityWeight : F64
  energyEstimateJoules : F64
  deriving DecidableEq

structure Block where
  header : BlockHeader
  coinbase : CoinbaseTransaction
  transactions : List Transaction
  solutionReveal : SolutionReveal
  deriving DecidableEq

instance : Encode Commitment := ⟨fun c => encode c.hash ++ encode c.problemHash⟩

instance : Encode BlockHeader := ⟨fun h =>
  encode h.version ++ encode h.height ++ encode h.prevHash ++ encode h.timestamp ++
    encode h.transactionsRoot ++ encode h.solutionsRoot ++ encode h.commitment ++
    encode h.workScore ++ encode h.miner ++ encode h.nonce ++ encode h.solveTimeUs ++
    encode h.verifyTimeUs ++ encode h.timeAsymmetryRatio ++ encode h.solutionQuality ++
    encode h.complexityWeight ++ encode h.energyEstimateJoules⟩

/-- The epoch salt is the parent's hash. -/
def BlockHeader.epochSalt (h : BlockHeader) : Hash := h.prevHash

end Coinjecture.Core.Blocks
