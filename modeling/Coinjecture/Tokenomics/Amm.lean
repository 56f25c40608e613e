import Coinjecture.Core.Types
import Coinjecture.Lib.Records
import Coinjecture.Lib.Saturating
import Coinjecture.Lib.Table
import Mathlib.Algebra.Order.Floor.Semiring
import Mathlib.Data.Nat.Sqrt

/-! # The automated market maker

Pools of two tokens with the invariant `x · y = k · e^(-ητ)`. The `f64` values are exact here, in an ordered
field with the infinity and the NaN of a division by zero beside it, and conversions to `u128` round down;
the sums of `u128` wrap. The decay is a function of the blocks that have passed and the blocks of a year. -/

namespace Coinjecture.Tokenomics.Amm

open Lib.Bincode Lib.Records Lib.Saturating Lib.Table
open Core.Types

variable {K : Type} [Field K] [LinearOrder K] [FloorSemiring K]

/-! ### Quotients -/

/-- `as u128` of a number: rounded down, and at most the largest. -/
def toU128 (q : K) : Balance := if 2 ^ 128 ≤ ⌊q⌋₊ then BitVec.allOnes 128 else BitVec.ofNat 128 ⌊q⌋₊

/-- A quotient of numbers that are not negative. -/
inductive Quotient (K : Type) where
  | num (q : K)
  | inf
  | nan

namespace Quotient

def of (a : K) (b : Balance) : Quotient K :=
  if b = 0 then if a = 0 then nan else inf else num (a / b.toNat)

/-- `f64::min`: the other one if one is NaN. -/
def min : Quotient K → Quotient K → Quotient K
  | nan, r => r
  | r, nan => r
  | inf, r => r
  | r, inf => r
  | num p, num q => num (if p ≤ q then p else q)

/-- `((amount as f64) * r) as u128`. -/
def share (amount : Balance) : Quotient K → Balance
  | num q => toU128 (amount.toNat * q)
  | inf => if amount = 0 then 0 else BitVec.allOnes 128
  | nan => 0

/-- `r as u128`. -/
def toU128 : Quotient K → Balance
  | num q => Amm.toU128 q
  | inf => BitVec.allOnes 128
  | nan => 0

def toOption : Quotient K → Option K
  | num q => some q
  | _ => none

end Quotient

/-! ### Pools -/

structure LiquidityPool (K : Type) where
  poolId : Bytes32
  tokenA : UInt8
  tokenB : UInt8
  reserveA : Balance
  reserveB : Balance
  initialK : K
  createdAtBlock : UInt64
  totalLpTokens : Balance
  lpBalances : Bytes32 → Option Balance
  cumulativeFees : Balance

/-- A price impact that is not a number is `none`. -/
structure SwapResult (K : Type) where
  amountIn : Balance
  amountOut : Balance
  feePaid : Balance
  priceBefore : K
  priceAfter : K
  priceImpact : Option K

structure LiquidityResult (K : Type) where
  lpTokensReceived : Balance
  amountADeposited : Balance
  amountBDeposited : Balance
  shareOfPool : Option K

/-- What a swap makes of the reserve that is sold to and the reserve that is paid from. -/
structure Swapped where
  fee : Balance
  reserveIn : Balance
  reserveOut : Balance
  amountOut : Balance
  deriving DecidableEq

/-- The body that `swap_a_for_b` and `swap_b_for_a` share: `Δy = y - k / (x + Δx)`. -/
def swapped (k : K) (feeRate : K) (reserveIn reserveOut amountIn : Balance) : Swapped :=
  let fee := toU128 (amountIn.toNat * feeRate)
  let amountAfterFee := amountIn - fee
  let newReserveIn := reserveIn + amountAfterFee
  let newReserveOut := (Quotient.of k newReserveIn).toU128
  ⟨fee, newReserveIn, newReserveOut, satSub reserveOut newReserveOut⟩

namespace LiquidityPool

def new (poolId : Bytes32) (tokenA tokenB : UInt8) (amountA amountB : Balance) (provider : Bytes32)
    (currentBlock : UInt64) : LiquidityPool K :=
  let lpTokens := BitVec.ofNat 128 (Nat.sqrt (amountA.toNat * amountB.toNat))
  { poolId := poolId
    tokenA := tokenA
    tokenB := tokenB
    reserveA := amountA
    reserveB := amountB
    initialK := amountA.toNat * amountB.toNat
    createdAtBlock := currentBlock
    totalLpTokens := lpTokens
    lpBalances := Function.update (fun _ => none) provider (some lpTokens)
    cumulativeFees := 0 }

variable (decay : ℕ → ℕ → K)

/-- `k(τ) = k₀ · e^(-ητ)`, with `e^(-ητ)` for the blocks since the creation. -/
def currentK (pool : LiquidityPool K) (currentBlock blocksPerYear : UInt64) : K :=
  pool.initialK * decay (currentBlock.toNat - pool.createdAtBlock.toNat) blocksPerYear.toNat

def priceAInB (pool : LiquidityPool K) : K :=
  if pool.reserveA = 0 then 0 else pool.reserveB.toNat / pool.reserveA.toNat

def priceBInA (pool : LiquidityPool K) : K :=
  if pool.reserveB = 0 then 0 else pool.reserveA.toNat / pool.reserveB.toNat

/-- `((new_price - old_price) / old_price).abs()`. -/
def impact (oldPrice newPrice : K) : Option K :=
  if oldPrice = 0 then none else some |(newPrice - oldPrice) / oldPrice|

def swapAForB (pool : LiquidityPool K) (amountAIn : Balance) (currentBlock blocksPerYear : UInt64)
    (feeRate : K) : SwapResult K × LiquidityPool K :=
  let r := swapped (pool.currentK decay currentBlock blocksPerYear) feeRate pool.reserveA pool.reserveB amountAIn
  let pool' := { pool with
    reserveA := r.reserveIn, reserveB := r.reserveOut, cumulativeFees := pool.cumulativeFees + r.fee }
  (⟨amountAIn, r.amountOut, r.fee, pool.priceAInB, pool'.priceAInB, impact pool.priceAInB pool'.priceAInB⟩, pool')

def swapBForA (pool : LiquidityPool K) (amountBIn : Balance) (currentBlock blocksPerYear : UInt64)
    (feeRate : K) : SwapResult K × LiquidityPool K :=
  let r := swapped (pool.currentK decay currentBlock blocksPerYear) feeRate pool.reserveB pool.reserveA amountBIn
  let pool' := { pool with
    reserveA := r.reserveOut, reserveB := r.reserveIn, cumulativeFees := pool.cumulativeFees + r.fee }
  (⟨amountBIn, r.amountOut, r.fee, pool.priceBInA, pool'.priceBInA, impact pool.priceBInA pool'.priceBInA⟩, pool')

/-- The tokens for a deposit: the first one fixes them, a later one gets the smaller of its two shares. -/
def lpTokensFor (pool : LiquidityPool K) (amountA amountB : Balance) : Balance :=
  if pool.totalLpTokens = 0 then BitVec.ofNat 128 (Nat.sqrt (amountA.toNat * amountB.toNat))
  else
    let ratioA := Quotient.of (amountA.toNat : K) pool.reserveA
    let ratioB := Quotient.of (amountB.toNat : K) pool.reserveB
    (ratioA.min ratioB).share pool.totalLpTokens

def addLiquidity (pool : LiquidityPool K) (amountA amountB : Balance) (provider : Bytes32) :
    LiquidityResult K × LiquidityPool K :=
  let lpTokens := pool.lpTokensFor amountA amountB
  let pool' := { pool with
    reserveA := pool.reserveA + amountA
    reserveB := pool.reserveB + amountB
    totalLpTokens := pool.totalLpTokens + lpTokens
    lpBalances := Function.update pool.lpBalances provider
      (some ((pool.lpBalances provider).getD 0 + lpTokens)) }
  (⟨lpTokens, amountA, amountB, (Quotient.of (lpTokens.toNat : K) pool'.totalLpTokens).toOption⟩, pool')

def removeLiquidity (pool : LiquidityPool K) (lpTokens : Balance) (provider : Bytes32) :
    Option ((Balance × Balance) × LiquidityPool K) :=
  match pool.lpBalances provider with
  | none => none
  | some balance =>
    if balance < lpTokens then none
    else
      let share := Quotient.of (lpTokens.toNat : K) pool.totalLpTokens
      let amountA := share.share pool.reserveA
      let amountB := share.share pool.reserveB
      some ((amountA, amountB), { pool with
        reserveA := pool.reserveA - amountA
        reserveB := pool.reserveB - amountB
        totalLpTokens := pool.totalLpTokens - lpTokens
        lpBalances := Function.update pool.lpBalances provider (some (balance - lpTokens)) })

end LiquidityPool

/-! ### The manager -/

structure AmmManager (K : Type) where
  pools : Keyed (LiquidityPool.poolId (K := K))
  feeRate : K
  blocksPerYear : UInt64

namespace AmmManager

/-- The fee is 0.3%. -/
def new (blocksPerYear : UInt64) : AmmManager K := ⟨Keyed.empty, 3 / 1000, blocksPerYear⟩

/-- The two tokens and the block, and zeros. -/
def poolIdOf (tokenA tokenB : UInt8) (currentBlock : UInt64) : Bytes32 :=
  BitVec.ofNat 256 (ofBeBytes (tokenA :: tokenB :: leBytes 8 currentBlock.toNat ++ List.replicate 22 0))

def createPool (manager : AmmManager K) (tokenA tokenB : UInt8) (amountA amountB : Balance)
    (provider : Bytes32) (currentBlock : UInt64) : Bytes32 × AmmManager K :=
  let poolId := poolIdOf tokenA tokenB currentBlock
  let pool := LiquidityPool.new poolId tokenA tokenB amountA amountB provider currentBlock
  (poolId, { manager with pools := manager.pools.insert pool })

variable (decay : ℕ → ℕ → K)

def swap (manager : AmmManager K) (poolId : Bytes32) (sellA : Bool) (amountIn : Balance)
    (currentBlock : UInt64) : Option (SwapResult K × AmmManager K) :=
  match manager.pools.get poolId with
  | none => none
  | some pool =>
    let (result, pool) :=
      if sellA then pool.swapAForB decay amountIn currentBlock manager.blocksPerYear manager.feeRate
      else pool.swapBForA decay amountIn currentBlock manager.blocksPerYear manager.feeRate
    some (result, { manager with pools := manager.pools.insert pool })

end AmmManager

end Coinjecture.Tokenomics.Amm
