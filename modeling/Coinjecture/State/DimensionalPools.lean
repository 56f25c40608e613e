import Coinjecture.Core.Transactions
import Coinjecture.Lib.Effect
import Coinjecture.Lib.Table

/-! # Dimensional pools

The liquidity of the eight pools and the record of every swap. A swap lowers the liquidity of both
pools and moves nothing between accounts. -/

namespace Coinjecture.State.DimensionalPools

open Lib.Effect Lib.Table Lib.Float64
open Core.Types Core.Transactions

structure PoolLiquidity where
  pool : DimensionalPool
  liquidity : Balance
  lockedLiquidity : Balance
  unlockedLiquidity : Balance
  lastUnlockFraction : F64
  dimensionalFactor : F64
  allocationRatio : F64
  tau : F64
  phase : F64
  lastUpdateHeight : UInt64
  deriving DecidableEq

structure PoolSwapRecord where
  txHash : Hash
  «from» : Address
  poolFrom : DimensionalPool
  poolTo : DimensionalPool
  amountIn : Balance
  amountOut : Balance
  swapRatio : F64
  blockHeight : UInt64
  deriving DecidableEq

/-- `DimensionalPoolState`: the two tables a swap touches. -/
@[ext] structure DimensionalPoolState where
  pools : Keyed PoolLiquidity.pool
  swaps : Keyed PoolSwapRecord.txHash

namespace DimensionalPoolState

abbrev getPoolLiquidity (pool : DimensionalPool) (s : DimensionalPoolState) : Option PoolLiquidity :=
  s.pools.get pool

def savePoolLiquidity (pool : PoolLiquidity) (s : DimensionalPoolState) : DimensionalPoolState :=
  { s with pools := s.pools.insert pool }

/-- What a swap pays out: `amount_in × (D_from / D_to)`. -/
def amountOut (src dst : PoolLiquidity) (amountIn : Balance) : Balance :=
  ((F64.ofNat amountIn.toNat).mul (src.dimensionalFactor.div dst.dimensionalFactor)).toUnsigned 128

/-- `DimensionalPoolState::execute_swap`. Both pools are read before either is written. -/
def executeSwap (poolFrom poolTo : DimensionalPool) (amountIn minAmountOut : Balance)
    (blockHeight : UInt64) : Exec Failure DimensionalPoolState Balance := do
  let liquidityFrom ← okOr (.err "Source pool not found") (← gets (getPoolLiquidity poolFrom))
  let liquidityTo ← okOr (.err "Destination pool not found") (← gets (getPoolLiquidity poolTo))
  rejectIf (liquidityFrom.liquidity < amountIn)
    s!"Insufficient liquidity in source pool: has {liquidityFrom.liquidity.toNat}, needs {amountIn.toNat}"
  let out := amountOut liquidityFrom liquidityTo amountIn
  rejectIf (out < minAmountOut) s!"Slippage exceeded: got {out.toNat}, minimum {minAmountOut.toNat}"
  rejectIf (liquidityTo.liquidity < out)
    s!"Insufficient liquidity in destination pool: has {liquidityTo.liquidity.toNat}, needs {out.toNat}"
  modify (savePoolLiquidity { liquidityFrom with
    liquidity := liquidityFrom.liquidity - amountIn, lastUpdateHeight := blockHeight })
  modify (savePoolLiquidity { liquidityTo with
    liquidity := liquidityTo.liquidity - out, lastUpdateHeight := blockHeight })
  pure out

/-- `DimensionalPoolState::record_swap`. -/
def recordSwap (txHash : Hash) (src : Address) (poolFrom poolTo : DimensionalPool)
    (amountIn amountOut : Balance) (blockHeight : UInt64) (s : DimensionalPoolState) :
    DimensionalPoolState :=
  { s with swaps := s.swaps.insert (
    { txHash := txHash
      «from» := src
      poolFrom := poolFrom
      poolTo := poolTo
      amountIn := amountIn
      amountOut := amountOut
      swapRatio := (F64.ofNat amountOut.toNat).div (F64.ofNat amountIn.toNat)
      blockHeight := blockHeight }) }

/-! ### What the operations do -/

/-- The pools after a swap. -/
def swapped (src dst : PoolLiquidity) (amountIn : Balance) (blockHeight : UInt64)
    (s : DimensionalPoolState) : DimensionalPoolState :=
  (s.savePoolLiquidity { src with
    liquidity := src.liquidity - amountIn
    lastUpdateHeight := blockHeight }).savePoolLiquidity { dst with
    liquidity := dst.liquidity - amountOut src dst amountIn
    lastUpdateHeight := blockHeight }

variable {poolFrom poolTo : DimensionalPool} {src dst : PoolLiquidity} {s : DimensionalPoolState}

theorem executeSwap_guarded (hsrc : s.pools.get poolFrom = some src)
    (hdst : s.pools.get poolTo = some dst) (amountIn minAmountOut : Balance)
    (blockHeight : UInt64) :
    Guarded (executeSwap poolFrom poolTo amountIn minAmountOut blockHeight) s
      (amountIn ≤ src.liquidity ∧ minAmountOut ≤ amountOut src dst amountIn ∧
        amountOut src dst amountIn ≤ dst.liquidity)
      (amountOut src dst amountIn, swapped src dst amountIn blockHeight s) := by
  constructor
  · rintro ⟨h1, h2, h3⟩
    simp only [executeSwap, getPoolLiquidity, run_gets_bind, hsrc, hdst, run_okOr_some_bind,
      run_rejectIf_bind, BitVec.not_lt.mpr h1, BitVec.not_lt.mpr h2, BitVec.not_lt.mpr h3, if_false,
      run_modify_bind, run_pure, swapped]
  · intro hn
    simp only [executeSwap, getPoolLiquidity, run_gets_bind, hsrc, hdst, run_okOr_some_bind,
      run_rejectIf_bind]
    split_ifs with h1 h2 h3
    · exact ⟨_, rfl⟩
    · exact ⟨_, rfl⟩
    · exact ⟨_, rfl⟩
    · exact absurd ⟨BitVec.not_lt.mp h1, BitVec.not_lt.mp h2, BitVec.not_lt.mp h3⟩ hn

theorem executeSwap_none (h : s.pools.get poolFrom = none ∨ s.pools.get poolTo = none)
    (amountIn minAmountOut : Balance) (blockHeight : UInt64) :
    ∃ m, run (executeSwap poolFrom poolTo amountIn minAmountOut blockHeight) s =
      (.error (.err m), s) := by
  simp only [executeSwap, getPoolLiquidity, run_gets_bind]
  rcases hsrc : s.pools.get poolFrom with _ | src
  · exact ⟨_, run_okOr_none_bind ..⟩
  · have hdst : s.pools.get poolTo = none := by
      rcases h with h | h
      · rw [hsrc] at h; cases h
      · exact h
    simp only [run_okOr_some_bind, run_gets_bind, hdst]
    exact ⟨_, run_okOr_none_bind ..⟩

end DimensionalPoolState

end Coinjecture.State.DimensionalPools
