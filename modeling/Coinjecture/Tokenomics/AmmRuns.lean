import Coinjecture.Lib.Trace
import Coinjecture.Tokenomics.Amm
import Mathlib.Algebra.Order.Floor.Semifield
import Mathlib.Tactic.Positivity
import Mathlib.Tactic.Ring

/-! # What a pool owes

What a market maker is for: a swap moves between the trader and the reserves, the tokens of the providers are
claims on the whole, and nobody gains by swapping back at once. The swaps take `k` from the creation of the
pool and the time that has passed, while deposits change the reserves and not `k`: the law holds of a swap if
the reserves are what `k` says, in the bounds given here.

* `lawful_iff`, `profitless_iff` : a swap, and a swap and back, as inequalities between the reserves and `k`.
* `solvent_iff` : the runs that follow the law. -/

namespace Coinjecture.Tokenomics.AmmRuns

open Lib.Saturating Lib.Table Lib.Trace
open Core.Types
open Tokenomics.Amm

variable {K : Type} [Field K] [LinearOrder K] [FloorSemiring K]

/-- The addresses of providers are finitely many. -/
instance : Fintype Bytes32 := Fintype.ofEquiv (Fin (2 ^ 256)) ⟨BitVec.ofFin, BitVec.toFin, fun _ => rfl, fun _ => rfl⟩

/-! ### Runs -/

inductive Op where
  | createPool (tokenA tokenB : UInt8) (amountA amountB : Balance) (provider : Bytes32) (currentBlock : UInt64)
  | swap (poolId : Bytes32) (sellA : Bool) (amountIn : Balance) (currentBlock : UInt64)
  | addLiquidity (poolId : Bytes32) (amountA amountB : Balance) (provider : Bytes32)
  | removeLiquidity (poolId : Bytes32) (lpTokens : Balance) (provider : Bytes32)
  deriving DecidableEq

variable (decay : ℕ → ℕ → K)

def amm : Machine Op (AmmManager K) where
  next op manager :=
    match op with
    | .createPool tokenA tokenB amountA amountB provider currentBlock =>
      (manager.createPool tokenA tokenB amountA amountB provider currentBlock).2
    | .swap poolId sellA amountIn currentBlock =>
      (manager.swap decay poolId sellA amountIn currentBlock).elim manager Prod.snd
    | .addLiquidity poolId amountA amountB provider =>
      match manager.pools.get poolId with
      | none => manager
      | some pool => { manager with pools := manager.pools.insert (pool.addLiquidity amountA amountB provider).2 }
    | .removeLiquidity poolId lpTokens provider =>
      match (manager.pools.get poolId).bind (·.removeLiquidity lpTokens provider) with
      | none => manager
      | some (_, pool) => { manager with pools := manager.pools.insert pool }
  halts _ _ := false

/-! ### The law -/

/-- The reserve that is sold to, and the one that is paid from. -/
def reserveIn {K : Type} (sellA : Bool) (pool : LiquidityPool K) : Balance := if sellA then pool.reserveA else pool.reserveB

def reserveOut (sellA : Bool) (pool : LiquidityPool K) : Balance := if sellA then pool.reserveB else pool.reserveA

/-- What the call brings to the pools of the token. -/
def deposit (tokenA : Bool) : Op → ℕ
  | .createPool _ _ amountA amountB _ _ => if tokenA then amountA.toNat else amountB.toNat
  | .swap _ sellA amountIn _ => if tokenA = sellA then amountIn.toNat else 0
  | .addLiquidity _ amountA amountB _ => if tokenA then amountA.toNat else amountB.toNat
  | .removeLiquidity .. => 0

/-- A swap takes what it pays from the one reserve, and adds what it takes less the fee to the other. -/
def LawfulSwap (step : Op × AmmManager K) : Prop :=
  ∀ poolId sellA amountIn currentBlock result manager pool pool',
    step.1 = .swap poolId sellA amountIn currentBlock →
    step.2.swap decay poolId sellA amountIn currentBlock = some (result, manager) →
    step.2.pools.get poolId = some pool → manager.pools.get poolId = some pool' →
    (reserveOut sellA pool').toNat + result.amountOut.toNat = (reserveOut sellA pool).toNat ∧
      (reserveIn sellA pool').toNat = (reserveIn sellA pool).toNat + (amountIn.toNat - result.feePaid.toNat)

/-- No reserve grows by more than what the call brings. -/
def NoGrowth (step : Op × AmmManager K) : Prop :=
  ∀ poolId pool pool', step.2.pools.get poolId = some pool →
    ((amm decay).next step.1 step.2).pools.get poolId = some pool' →
    ∀ tokenA, (reserveIn tokenA pool').toNat ≤ (reserveIn tokenA pool).toNat + deposit tokenA step.1

/-- The tokens of the providers add up to the total. -/
def Backed (pool : LiquidityPool K) : Prop := weighMap BitVec.toNat pool.lpBalances = pool.totalLpTokens.toNat

def AllBacked (manager : AmmManager K) : Prop := ∀ poolId pool, manager.pools.get poolId = some pool → Backed pool

/-- Where the second call swaps back what the first one paid, at the same block, it pays no more than the first
took. -/
def NoProfit (step back : Op × AmmManager K) : Prop :=
  ∀ poolId sellA amountIn currentBlock result result',
    step.1 = .swap poolId sellA amountIn currentBlock →
    step.2.swap decay poolId sellA amountIn currentBlock = some result →
    back.1 = .swap poolId (!sellA) result.1.amountOut currentBlock →
    back.2.swap decay poolId (!sellA) result.1.amountOut currentBlock = some result' →
    result'.1.amountOut ≤ amountIn

/-- The run follows the law. -/
structure Solvent (ops : List Op) (manager : AmmManager K) : Prop where
  swaps : ∀ step ∈ (amm decay).trace ops manager, LawfulSwap decay step
  growth : ∀ step ∈ (amm decay).trace ops manager, NoGrowth decay step
  backed : (∀ step ∈ (amm decay).trace ops manager, AllBacked step.2) ∧ AllBacked ((amm decay).final ops manager)
  profit : ((amm decay).trace ops manager).IsChain (NoProfit decay)

/-! ### The bounds -/

/-- The fee on an amount. -/
def fee (amount : Balance) : ℕ := amount.toNat * 3 / 1000

/-- `k` is below the product of the new reserve and the next number above the one paid from, and the new reserve
is a `u128`. -/
structure Balanced (k : K) (reserveIn reserveOut amountIn : Balance) : Prop where
  carry : reserveIn.toNat + (amountIn.toNat - fee amountIn) < 2 ^ 128
  covers : k = 0 ∨ reserveOut = BitVec.allOnes 128 ∨
    k < (reserveOut.toNat + 1) * (reserveIn.toNat + (amountIn.toNat - fee amountIn) : ℕ)

/-- The product of the reserves less the fees of the two swaps is at most `k`. -/
structure Covered (k : K) (reserveIn reserveOut amountIn amountOut : Balance) : Prop where
  product : ((reserveIn.toNat - fee amountIn : ℕ) : K) * (reserveOut.toNat - fee amountOut : ℕ) ≤ k
  zero : k = 0 → reserveOut = 0 → reserveIn.toNat ≤ fee amountIn

instance (k : K) (reserveIn reserveOut amountIn : Balance) : Decidable (Balanced k reserveIn reserveOut amountIn) :=
  decidable_of_iff (_ ∧ _) ⟨fun h => ⟨h.1, h.2⟩, fun h => ⟨h.carry, h.covers⟩⟩

instance (k : K) (reserveIn reserveOut amountIn amountOut : Balance) :
    Decidable (Covered k reserveIn reserveOut amountIn amountOut) :=
  decidable_of_iff (_ ∧ _) ⟨fun h => ⟨h.1, h.2⟩, fun h => ⟨h.product, h.zero⟩⟩

/-- A swap is balanced; a deposit does not wrap the tokens, or wraps those of its provider as well. -/
def Sane (step : Op × AmmManager K) : Prop :=
  match step.1 with
  | .swap poolId sellA amountIn currentBlock => ∀ pool ∈ step.2.pools.get poolId,
      Balanced (pool.currentK decay currentBlock step.2.blocksPerYear) (reserveIn sellA pool) (reserveOut sellA pool)
        amountIn
  | .addLiquidity poolId amountA amountB provider => ∀ pool ∈ step.2.pools.get poolId,
      NoCarry pool.totalLpTokens (pool.lpTokensFor amountA amountB) ∨
        ¬ NoCarry ((pool.lpBalances provider).getD 0) (pool.lpTokensFor amountA amountB)
  | _ => True

/-- Where the second call swaps back what the first one paid, the pool is covered. -/
def SaneReturn (step back : Op × AmmManager K) : Prop :=
  match step.1, back.1 with
  | .swap poolId sellA amountIn currentBlock, .swap poolId' sellA' amountIn' currentBlock' =>
    ∀ result ∈ step.2.swap decay poolId sellA amountIn currentBlock, ∀ pool ∈ step.2.pools.get poolId,
      poolId' = poolId ∧ sellA' = (!sellA) ∧ amountIn' = result.1.amountOut ∧ currentBlock' = currentBlock →
        Covered (pool.currentK decay currentBlock step.2.blocksPerYear) (reserveIn sellA pool)
          (reserveOut sellA pool) amountIn amountIn'
  | _, _ => True

instance (step : Op × AmmManager K) : Decidable (Sane decay step) :=
  match step with
  | (.createPool .., _) => isTrue trivial
  | (.swap .., _) => inferInstanceAs (Decidable (∀ pool ∈ Keyed.get _ _, Balanced _ _ _ _))
  | (.addLiquidity .., _) => inferInstanceAs (Decidable (∀ pool ∈ Keyed.get _ _, _ ∨ ¬ _))
  | (.removeLiquidity .., _) => isTrue trivial

instance (step back : Op × AmmManager K) : Decidable (SaneReturn decay step back) :=
  match step, back with
  | (.swap .., _), (.swap .., _) =>
    inferInstanceAs (Decidable (∀ result ∈ AmmManager.swap .., ∀ pool ∈ Keyed.get _ _, _ ∧ _ ∧ _ ∧ _ → Covered ..))
  | (.swap .., _), (.createPool .., _) => isTrue trivial
  | (.swap .., _), (.addLiquidity .., _) => isTrue trivial
  | (.swap .., _), (.removeLiquidity .., _) => isTrue trivial
  | (.createPool .., _), _ => isTrue trivial
  | (.addLiquidity .., _), _ => isTrue trivial
  | (.removeLiquidity .., _), _ => isTrue trivial

/-! ### Rounded numbers -/

section Numbers

theorem toNat_toU128 (q : K) : (toU128 q).toNat = min ⌊q⌋₊ (2 ^ 128 - 1) := by
  rw [toU128]
  split_ifs with h
  · rw [BitVec.toNat_allOnes]
    omega
  · rw [BitVec.toNat_ofNat, Nat.mod_eq_of_lt (not_le.mp h)]
    omega

theorem eq_allOnes_iff {y : Balance} : y = BitVec.allOnes 128 ↔ 2 ^ 128 - 1 ≤ y.toNat := by
  rw [← BitVec.toNat_inj, BitVec.toNat_allOnes]
  have := y.isLt
  omega

theorem toU128_le_iff {q : K} (hq : 0 ≤ q) {y : Balance} :
    (toU128 q).toNat ≤ y.toNat ↔ y = BitVec.allOnes 128 ∨ q < y.toNat + 1 := by
  have hlt : q < y.toNat + 1 ↔ ⌊q⌋₊ < y.toNat + 1 := by
    rw [Nat.floor_lt hq, Nat.cast_add, Nat.cast_one]
  rw [toNat_toU128, hlt, eq_allOnes_iff]
  omega

theorem le_toU128_iff {q : K} (hq : 0 ≤ q) {n : ℕ} (hn : n < 2 ^ 128) : n ≤ (toU128 q).toNat ↔ (n : K) ≤ q := by
  rw [toNat_toU128, ← Nat.le_floor_iff hq]
  omega

variable [IsStrictOrderedRing K]

/-- `k / n` rounded down is at most `y`. -/
theorem quotient_le_iff {k : K} (hk : 0 ≤ k) {n y : Balance} : (Quotient.of k n).toU128.toNat ≤ y.toNat ↔
    k = 0 ∨ y = BitVec.allOnes 128 ∨ k < (y.toNat + 1) * n.toNat := by
  rw [Quotient.of]
  split_ifs with hn hzero
  · simp [Quotient.toU128, hzero]
  · have hnot : ¬ k < (y.toNat + 1) * (n.toNat : K) := by
      rw [hn, toNat_zero', Nat.cast_zero, mul_zero]
      exact not_lt.mpr hk
    rw [Quotient.toU128, BitVec.toNat_allOnes, eq_allOnes_iff]
    simp [hzero, hnot]
  · have hpos : (0 : K) < n.toNat := by
      have : n.toNat ≠ 0 := fun h => hn (BitVec.eq_of_toNat_eq (by rw [h, toNat_zero']))
      exact_mod_cast Nat.pos_of_ne_zero this
    rw [Quotient.toU128, toU128_le_iff (div_nonneg hk hpos.le), div_lt_iff₀ hpos]
    refine ⟨.inr, ?_⟩
    rintro (hzero | h)
    · right
      rw [hzero]
      positivity
    · exact h

/-- `x` is at most `k / n` rounded down. -/
theorem le_quotient_iff {k : K} (hk : 0 ≤ k) {n : Balance} {x : ℕ} (hx : x < 2 ^ 128) :
    x ≤ (Quotient.of k n).toU128.toNat ↔ (x : K) * n.toNat ≤ k ∧ (k = 0 → n = 0 → x = 0) := by
  rw [Quotient.of]
  split_ifs with hn hzero
  · simp [Quotient.toU128, hn, hzero]
  · simp [Quotient.toU128, hn, hzero, hk]
    omega
  · have hpos : (0 : K) < n.toNat := by
      have : n.toNat ≠ 0 := fun h => hn (BitVec.eq_of_toNat_eq (by rw [h, toNat_zero']))
      exact_mod_cast Nat.pos_of_ne_zero this
    rw [Quotient.toU128, le_toU128_iff (div_nonneg hk hpos.le) hx, le_div_iff₀ hpos]
    exact ⟨fun h => ⟨h, fun _ hn' => absurd hn' hn⟩, And.left⟩

theorem toNat_fee (amount : Balance) : (toU128 ((amount.toNat : K) * (3 / 1000))).toNat = fee amount := by
  have hfloor : ⌊(amount.toNat : K) * (3 / 1000)⌋₊ = fee amount := by
    have hquotient : (amount.toNat : K) * (3 / 1000) = ((amount.toNat * 3 : ℕ) : K) / (1000 : ℕ) := by
      push_cast
      ring
    rw [hquotient, Nat.floor_div_natCast, Nat.floor_natCast, fee]
  have := amount.isLt
  rw [toNat_toU128, hfloor, fee]
  omega

theorem fee_le (amount : Balance) : fee amount ≤ amount.toNat := by
  rw [fee]
  omega

end Numbers

/-! ### One swap -/

section Swaps

variable [IsStrictOrderedRing K] {k : K} {x y amountIn : Balance}

/-- The reserve that is sold to, unless the sum wraps. -/
theorem toNat_reserveIn_swapped : (swapped k (3 / 1000) x y amountIn).reserveIn.toNat =
    (x.toNat + (amountIn.toNat - fee amountIn)) % 2 ^ 128 := by
  have hle : (toU128 ((amountIn.toNat : K) * (3 / 1000))) ≤ amountIn := by
    rw [BitVec.le_def, toNat_fee]
    exact fee_le amountIn
  simp only [swapped]
  rw [BitVec.toNat_add, BitVec.toNat_sub_of_le hle, toNat_fee]

/-- A swap follows the law exactly where it is balanced. -/
theorem lawful_iff (hk : 0 ≤ k) :
    ((swapped k (3 / 1000) x y amountIn).reserveOut.toNat + (swapped k (3 / 1000) x y amountIn).amountOut.toNat =
        y.toNat ∧
      (swapped k (3 / 1000) x y amountIn).reserveIn.toNat = x.toNat + (amountIn.toNat - fee amountIn)) ↔
      Balanced k x y amountIn := by
  have hin : (swapped k (3 / 1000) x y amountIn).reserveIn.toNat = x.toNat + (amountIn.toNat - fee amountIn) ↔
      x.toNat + (amountIn.toNat - fee amountIn) < 2 ^ 128 := by
    rw [toNat_reserveIn_swapped]
    constructor
    · intro h
      rw [← h]
      exact Nat.mod_lt _ (by positivity)
    · exact Nat.mod_eq_of_lt
  have hout : (swapped k (3 / 1000) x y amountIn).reserveOut.toNat +
        (swapped k (3 / 1000) x y amountIn).amountOut.toNat = y.toNat ↔
      (Quotient.of k (swapped k (3 / 1000) x y amountIn).reserveIn).toU128.toNat ≤ y.toNat := by
    simp only [swapped, toNat_satSub]
    omega
  rw [hout, hin, quotient_le_iff hk]
  constructor
  · rintro ⟨hcovers, hcarry⟩
    rw [hin.mpr hcarry] at hcovers
    exact ⟨hcarry, hcovers⟩
  · rintro ⟨hcarry, hcovers⟩
    rw [hin.mpr hcarry]
    exact ⟨hcovers, hcarry⟩

/-- Of two balanced swaps, in and back at one `k`, the second pays at most what the first took exactly where the
pool is covered. -/
theorem profitless_iff (hk : 0 ≤ k) (hin : Balanced k x y amountIn)
    (hback : Balanced k (swapped k (3 / 1000) x y amountIn).reserveOut (swapped k (3 / 1000) x y amountIn).reserveIn
      (swapped k (3 / 1000) x y amountIn).amountOut) :
    (swapped k (3 / 1000) (swapped k (3 / 1000) x y amountIn).reserveOut
        (swapped k (3 / 1000) x y amountIn).reserveIn (swapped k (3 / 1000) x y amountIn).amountOut).amountOut ≤
      amountIn ↔ Covered k x y amountIn (swapped k (3 / 1000) x y amountIn).amountOut := by
  obtain ⟨hout, hreserve⟩ := (lawful_iff hk).mpr hin
  obtain ⟨hout', hreserve'⟩ := (lawful_iff hk).mpr hback
  generalize hr : swapped k (3 / 1000) x y amountIn = r at *
  have hnew : (swapped k (3 / 1000) r.reserveOut r.reserveIn r.amountOut).reserveOut =
      (Quotient.of k (swapped k (3 / 1000) r.reserveOut r.reserveIn r.amountOut).reserveIn).toU128 := rfl
  generalize swapped k (3 / 1000) r.reserveOut r.reserveIn r.amountOut = r' at *
  have hfee := fee_le amountIn
  have hfee' := fee_le r.amountOut
  have hn : r'.reserveIn.toNat = y.toNat - fee r.amountOut := by omega
  have hx : x.toNat - fee amountIn < 2 ^ 128 := by
    have := x.isLt
    omega
  have hle : r'.amountOut ≤ amountIn ↔ x.toNat - fee amountIn ≤ r'.reserveOut.toNat := by
    rw [BitVec.le_def]
    omega
  -- the fee on what is paid from a reserve leaves something of it
  have hzero : r'.reserveIn = 0 ↔ y = 0 := by
    rw [← BitVec.toNat_inj, ← BitVec.toNat_inj, hn, toNat_zero', fee]
    omega
  rw [hle, hnew, le_quotient_iff hk hx, hn, hzero, Nat.sub_eq_zero_iff_le]
  exact ⟨fun h => ⟨h.1, h.2⟩, fun h => ⟨h.product, h.zero⟩⟩

end Swaps

/-! ### What a call does -/

section Calls

variable {op : Op} {manager : AmmManager K} {pool pool' : LiquidityPool K} {poolId : Bytes32} {sellA : Bool}
  {amountIn : Balance} {currentBlock : UInt64}

/-- What a swap makes of its pool. -/
structure SwapsTo (pool : LiquidityPool K) (sellA : Bool) (r : Swapped) (pool' : LiquidityPool K) : Prop where
  reserveIn : reserveIn sellA pool' = r.reserveIn
  reserveOut : reserveOut sellA pool' = r.reserveOut
  poolId : pool'.poolId = pool.poolId
  initialK : pool'.initialK = pool.initialK
  createdAtBlock : pool'.createdAtBlock = pool.createdAtBlock
  totalLpTokens : pool'.totalLpTokens = pool.totalLpTokens
  lpBalances : pool'.lpBalances = pool.lpBalances

variable (manager sellA amountIn currentBlock) in
theorem swap_eq (hget : manager.pools.get poolId = some pool) : ∃ result pool',
    manager.swap decay poolId sellA amountIn currentBlock =
        some (result, { manager with pools := manager.pools.insert pool' }) ∧
      result.amountOut = (swapped (pool.currentK decay currentBlock manager.blocksPerYear) manager.feeRate
        (reserveIn sellA pool) (reserveOut sellA pool) amountIn).amountOut ∧
      result.feePaid = (swapped (pool.currentK decay currentBlock manager.blocksPerYear) manager.feeRate
        (reserveIn sellA pool) (reserveOut sellA pool) amountIn).fee ∧
      SwapsTo pool sellA (swapped (pool.currentK decay currentBlock manager.blocksPerYear) manager.feeRate
        (reserveIn sellA pool) (reserveOut sellA pool) amountIn) pool' := by
  cases sellA with
  | false =>
    exact ⟨(pool.swapBForA decay amountIn currentBlock manager.blocksPerYear manager.feeRate).1,
      (pool.swapBForA decay amountIn currentBlock manager.blocksPerYear manager.feeRate).2,
      by simp [AmmManager.swap, hget], rfl, rfl, ⟨rfl, rfl, rfl, rfl, rfl, rfl, rfl⟩⟩
  | true =>
    exact ⟨(pool.swapAForB decay amountIn currentBlock manager.blocksPerYear manager.feeRate).1,
      (pool.swapAForB decay amountIn currentBlock manager.blocksPerYear manager.feeRate).2,
      by simp [AmmManager.swap, hget], rfl, rfl, ⟨rfl, rfl, rfl, rfl, rfl, rfl, rfl⟩⟩

/-- What a call does to the pool under an identifier. -/
inductive Change (op : Op) (manager : AmmManager K) (poolId : Bytes32) :
    Option (LiquidityPool K) → Option (LiquidityPool K) → Prop where
  | same (o : Option (LiquidityPool K)) : Change op manager poolId o o
  | created {o : Option (LiquidityPool K)} {tokenA tokenB : UInt8} {amountA amountB : Balance}
      {provider : Bytes32} {currentBlock : UInt64}
      (hop : op = .createPool tokenA tokenB amountA amountB provider currentBlock) :
      Change op manager poolId o (some (.new poolId tokenA tokenB amountA amountB provider currentBlock))
  | swapped {pool pool' : LiquidityPool K} {sellA : Bool} {amountIn : Balance} {currentBlock : UInt64}
      (hop : op = .swap poolId sellA amountIn currentBlock)
      (h : SwapsTo pool sellA (Amm.swapped (pool.currentK decay currentBlock manager.blocksPerYear)
        manager.feeRate (AmmRuns.reserveIn sellA pool) (AmmRuns.reserveOut sellA pool) amountIn) pool') :
      Change op manager poolId (some pool) (some pool')
  | added {pool : LiquidityPool K} {amountA amountB : Balance} {provider : Bytes32}
      (hop : op = .addLiquidity poolId amountA amountB provider) :
      Change op manager poolId (some pool) (some (pool.addLiquidity amountA amountB provider).2)
  | removed {pool pool' : LiquidityPool K} {lpTokens : Balance} {provider : Bytes32} {amounts : Balance × Balance}
      (hop : op = .removeLiquidity poolId lpTokens provider)
      (h : pool.removeLiquidity lpTokens provider = some (amounts, pool')) :
      Change op manager poolId (some pool) (some pool')

theorem removeLiquidity_eq {lpTokens : Balance} {provider : Bytes32} {amounts : Balance × Balance}
    (h : pool.removeLiquidity lpTokens provider = some (amounts, pool')) :
    ∃ balance, pool.lpBalances provider = some balance ∧ lpTokens ≤ balance ∧
      amounts.1 = (Quotient.of (lpTokens.toNat : K) pool.totalLpTokens).share pool.reserveA ∧
      amounts.2 = (Quotient.of (lpTokens.toNat : K) pool.totalLpTokens).share pool.reserveB ∧
      pool' = { pool with
        reserveA := pool.reserveA - amounts.1
        reserveB := pool.reserveB - amounts.2
        totalLpTokens := pool.totalLpTokens - lpTokens
        lpBalances := Function.update pool.lpBalances provider (some (balance - lpTokens)) } := by
  unfold LiquidityPool.removeLiquidity at h
  split at h
  · cases h
  next balance hbalance =>
    split_ifs at h with hlt
    injection h with h
    injection h with hamounts hpool
    subst hamounts
    exact ⟨balance, hbalance, BitVec.not_lt.mp hlt, rfl, rfl, hpool.symm⟩

variable (op manager poolId) in
theorem change : Change decay op manager poolId (manager.pools.get poolId)
    (((amm decay).next op manager).pools.get poolId) := by
  cases op with
  | createPool tokenA tokenB amountA amountB provider currentBlock =>
    simp only [amm, AmmManager.createPool, Keyed.get_insert]
    split_ifs with hid
    · have hnew : Change decay (.createPool tokenA tokenB amountA amountB provider currentBlock) manager poolId
          (manager.pools.get poolId) (some (.new poolId tokenA tokenB amountA amountB provider currentBlock)) :=
        .created rfl
      rwa [hid] at hnew ⊢
    · exact .same _
  | swap swapId sellA amountIn currentBlock =>
    rcases hget : manager.pools.get swapId with _ | pool
    · have hnone : manager.swap decay swapId sellA amountIn currentBlock = none := by
        simp only [AmmManager.swap, hget]
      simp only [amm, hnone, Option.elim_none]
      exact .same _
    obtain ⟨result, pool', hswap, -, -, hspec⟩ := swap_eq decay manager sellA amountIn currentBlock hget
    simp only [amm, hswap, Option.elim_some, Keyed.get_insert, hspec.poolId, manager.pools.keyed hget]
    split_ifs with hid
    · subst hid
      rw [hget]
      exact .swapped rfl hspec
    · exact .same _
  | addLiquidity addId amountA amountB provider =>
    simp only [amm]
    rcases hget : manager.pools.get addId with _ | pool
    · exact .same _
    have hkey : pool.poolId = addId := manager.pools.keyed hget
    change Change decay _ manager poolId _
      ((manager.pools.insert (pool.addLiquidity amountA amountB provider).2).get poolId)
    have hkey' : (pool.addLiquidity amountA amountB provider).2.poolId = addId := hkey
    rw [Keyed.get_insert, hkey']
    split_ifs with hid
    · subst hid
      rw [hget]
      exact .added rfl
    · exact .same _
  | removeLiquidity removeId lpTokens provider =>
    simp only [amm]
    rcases hget : manager.pools.get removeId with _ | pool
    · exact .same _
    rcases hremove : pool.removeLiquidity lpTokens provider with _ | ⟨amounts, pool'⟩
    · simp only [Option.bind_some, hremove]
      exact .same _
    have hkey : pool'.poolId = removeId := by
      obtain ⟨balance, -, -, -, -, rfl⟩ := removeLiquidity_eq hremove
      have hkey : pool.poolId = removeId := manager.pools.keyed hget
      exact hkey
    simp only [Option.bind_some, hremove, Keyed.get_insert, hkey]
    split_ifs with hid
    · subst hid
      rw [hget]
      exact .removed rfl hremove
    · exact .same _

theorem settings_next (op : Op) (manager : AmmManager K) :
    ((amm decay).next op manager).feeRate = manager.feeRate ∧
      ((amm decay).next op manager).blocksPerYear = manager.blocksPerYear := by
  cases op with
  | createPool => exact ⟨rfl, rfl⟩
  | swap swapId sellA amountIn currentBlock =>
    simp only [amm, AmmManager.swap]
    rcases manager.pools.get swapId with _ | pool
    · exact ⟨rfl, rfl⟩
    · exact ⟨rfl, rfl⟩
  | addLiquidity addId amountA amountB provider =>
    simp only [amm]
    rcases manager.pools.get addId with _ | pool
    · exact ⟨rfl, rfl⟩
    · exact ⟨rfl, rfl⟩
  | removeLiquidity removeId lpTokens provider =>
    simp only [amm]
    rcases (manager.pools.get removeId).bind (·.removeLiquidity lpTokens provider) with _ | ⟨amounts, pool⟩
    · exact ⟨rfl, rfl⟩
    · exact ⟨rfl, rfl⟩

end Calls

/-! ### The tokens of the providers -/

section Tokens

variable {F : Type} {pool pool' : LiquidityPool K} {provider : Bytes32}

theorem balance_le {pool : LiquidityPool F} (h : Backed pool) (provider : Bytes32) :
    ((pool.lpBalances provider).getD 0).toNat ≤ pool.totalLpTokens.toNat := by
  rw [← h]
  have hle := Finset.single_le_sum (f := fun a => (pool.lpBalances a).elim 0 BitVec.toNat)
    (fun _ _ => Nat.zero_le _) (Finset.mem_univ provider)
  refine le_trans (le_of_eq ?_) hle
  rcases pool.lpBalances provider with _ | balance
  · simp
  · simp

theorem backed_new [Field F] (poolId : Bytes32) (tokenA tokenB : UInt8) (amountA amountB : Balance) (provider : Bytes32)
    (currentBlock : UInt64) :
    Backed (.new poolId tokenA tokenB amountA amountB provider currentBlock : LiquidityPool F) := by
  have hweigh := weighMap_update BitVec.toNat (fun _ : Bytes32 => (none : Option Balance)) provider
    (some (BitVec.ofNat 128 (Nat.sqrt (amountA.toNat * amountB.toNat))))
  have hnone : weighMap BitVec.toNat (fun _ : Bytes32 => (none : Option Balance)) = 0 :=
    Finset.sum_eq_zero fun _ _ => rfl
  rw [hnone, Option.elim_none, Option.elim_some, Nat.add_zero, Nat.zero_add] at hweigh
  exact hweigh

/-- A deposit keeps the sum exactly if the tokens do not wrap, or those of the provider wrap too. -/
theorem backed_addLiquidity_iff (h : Backed pool) {amountA amountB : Balance} :
    Backed (pool.addLiquidity amountA amountB provider).2 ↔
      (NoCarry pool.totalLpTokens (pool.lpTokensFor amountA amountB) ∨
        ¬ NoCarry ((pool.lpBalances provider).getD 0) (pool.lpTokensFor amountA amountB)) := by
  have hweigh := weighMap_update BitVec.toNat pool.lpBalances provider
    (some ((pool.lpBalances provider).getD 0 + pool.lpTokensFor amountA amountB))
  have hle := balance_le h provider
  have hget : (pool.lpBalances provider).elim 0 BitVec.toNat = ((pool.lpBalances provider).getD 0).toNat := by
    rcases pool.lpBalances provider with _ | balance
    · simp
    · simp
  rw [hget, Option.elim_some, BitVec.toNat_add, h] at hweigh
  change weighMap BitVec.toNat (Function.update _ _ _) = (pool.totalLpTokens + _).toNat ↔ _
  rw [BitVec.toNat_add, NoCarry, NoCarry]
  have hlt := pool.totalLpTokens.isLt
  have hlt' := (pool.lpTokensFor amountA amountB).isLt
  omega

theorem backed_removeLiquidity (h : Backed pool) {lpTokens : Balance} {amounts : Balance × Balance}
    (hremove : pool.removeLiquidity lpTokens provider = some (amounts, pool')) : Backed pool' := by
  obtain ⟨balance, hbalance, hle, -, -, rfl⟩ := removeLiquidity_eq hremove
  have hweigh := weighMap_update BitVec.toNat pool.lpBalances provider (some (balance - lpTokens))
  have htotal := balance_le h provider
  rw [hbalance, Option.getD_some] at htotal
  have hle' := BitVec.le_def.mp hle
  rw [hbalance, Option.elim_some, Option.elim_some, BitVec.toNat_sub_of_le hle, h] at hweigh
  have hlp : lpTokens ≤ pool.totalLpTokens := BitVec.le_def.mpr (hle'.trans htotal)
  change weighMap BitVec.toNat (Function.update _ _ _) = (pool.totalLpTokens - lpTokens).toNat
  rw [BitVec.toNat_sub_of_le hlp]
  omega

theorem backed_swapsTo {pool pool' : LiquidityPool F} {sellA : Bool} {r : Swapped}
    (h : SwapsTo pool sellA r pool') : Backed pool' ↔ Backed pool := by
  rw [Backed, Backed, h.lpBalances, h.totalLpTokens]

end Tokens

/-! ### What a step keeps -/

section Steps

variable [IsStrictOrderedRing K] {decay} {op : Op} {manager : AmmManager K}

theorem share_le {lpTokens total : Balance} (h : lpTokens ≤ total) (reserve : Balance) :
    (Quotient.of (lpTokens.toNat : K) total).share reserve ≤ reserve := by
  have hle := BitVec.le_def.mp h
  rw [Quotient.of, BitVec.le_def]
  split_ifs with htotal hzero
  · simp [Quotient.share]
  · rw [htotal, toNat_zero', Nat.le_zero] at hle
    rw [hle, Nat.cast_zero] at hzero
    exact absurd rfl hzero
  · have hpos : (0 : K) < total.toNat := by
      have : total.toNat ≠ 0 := fun h => htotal (BitVec.eq_of_toNat_eq (by rw [h, toNat_zero']))
      exact_mod_cast Nat.pos_of_ne_zero this
    have hratio : (lpTokens.toNat : K) / total.toNat ≤ 1 := by
      rw [div_le_one hpos]
      exact_mod_cast hle
    have hnonneg : (0 : K) ≤ reserve.toNat := Nat.cast_nonneg _
    rw [Quotient.share, toU128_le_iff (mul_nonneg hnonneg (div_nonneg (Nat.cast_nonneg _) hpos.le))]
    right
    calc (reserve.toNat : K) * (lpTokens.toNat / total.toNat) ≤ reserve.toNat :=
          mul_le_of_le_one_right hnonneg hratio
      _ < reserve.toNat + 1 := lt_add_one _

/-- What holds of a manager whatever is done: the fee, and that no `k` is negative. -/
structure WellFormed (manager : AmmManager K) : Prop where
  feeRate : manager.feeRate = 3 / 1000
  initialK : ∀ poolId pool, manager.pools.get poolId = some pool → 0 ≤ pool.initialK

theorem wellFormed_next (h : WellFormed manager) : WellFormed ((amm decay).next op manager) := by
  refine ⟨(settings_next decay op manager).1.trans h.feeRate, fun poolId pool' hget' => ?_⟩
  have hchange := change decay op manager poolId
  rw [hget'] at hchange
  generalize hget : manager.pools.get poolId = old at hchange
  cases hchange with
  | same => exact h.initialK poolId pool' hget
  | created => exact mul_nonneg (Nat.cast_nonneg _) (Nat.cast_nonneg _)
  | swapped hop hspec =>
    rw [hspec.initialK]
    exact h.initialK poolId _ hget
  | added =>
    have hold := h.initialK poolId _ hget
    exact hold
  | removed hop hremove =>
    obtain ⟨balance, -, -, -, -, rfl⟩ := removeLiquidity_eq hremove
    have hold := h.initialK poolId _ hget
    exact hold

theorem currentK_nonneg {F : Type} [Field F] [LinearOrder F] [IsStrictOrderedRing F] {decay : ℕ → ℕ → F}
    (hdecay : ∀ blocks year, 0 ≤ decay blocks year) {pool : LiquidityPool F}
    (h : 0 ≤ pool.initialK) (currentBlock blocksPerYear : UInt64) :
    0 ≤ pool.currentK decay currentBlock blocksPerYear :=
  mul_nonneg h (hdecay _ _)

variable {poolId : Bytes32} {sellA : Bool} {amountIn : Balance} {currentBlock : UInt64} {pool : LiquidityPool K}

/-- What the law says of a swap, as a fact about the reserves. -/
theorem lawful_swapped (h : WellFormed manager)
    (hlawful : LawfulSwap decay (.swap poolId sellA amountIn currentBlock, manager))
    (hget : manager.pools.get poolId = some pool) :
    (swapped (pool.currentK decay currentBlock manager.blocksPerYear) (3 / 1000) (reserveIn sellA pool)
          (reserveOut sellA pool) amountIn).reserveOut.toNat +
        (swapped (pool.currentK decay currentBlock manager.blocksPerYear) (3 / 1000) (reserveIn sellA pool)
          (reserveOut sellA pool) amountIn).amountOut.toNat = (reserveOut sellA pool).toNat ∧
      (swapped (pool.currentK decay currentBlock manager.blocksPerYear) (3 / 1000) (reserveIn sellA pool)
          (reserveOut sellA pool) amountIn).reserveIn.toNat =
        (reserveIn sellA pool).toNat + (amountIn.toNat - fee amountIn) := by
  obtain ⟨result, pool', hswap, hout, hfee, hspec⟩ := swap_eq decay manager sellA amountIn currentBlock hget
  have hget' : (manager.pools.insert pool').get poolId = some pool' := by
    rw [Keyed.get_insert, if_pos (hspec.poolId.trans (manager.pools.keyed hget)).symm]
  obtain ⟨h1, h2⟩ := hlawful _ _ _ _ result _ pool pool' rfl hswap hget hget'
  rw [hspec.reserveIn, hfee, h.feeRate] at h2
  rw [hspec.reserveOut, hout, h.feeRate] at h1
  have hnum : (swapped (pool.currentK decay currentBlock manager.blocksPerYear) (3 / 1000)
      (reserveIn sellA pool) (reserveOut sellA pool) amountIn).fee.toNat = fee amountIn := toNat_fee amountIn
  rw [hnum] at h2
  exact ⟨h1, h2⟩

/-- The swaps that follow the law. -/
theorem lawfulSwap_iff (hdecay : ∀ blocks year, 0 ≤ decay blocks year) (h : WellFormed manager) :
    LawfulSwap decay (.swap poolId sellA amountIn currentBlock, manager) ↔
      Sane decay (.swap poolId sellA amountIn currentBlock, manager) := by
  simp only [Sane]
  constructor
  · intro hlawful pool hget
    exact (lawful_iff (currentK_nonneg hdecay (h.initialK poolId pool hget) _ _)).mp (lawful_swapped h hlawful hget)
  · rintro hbalanced poolId' sellA' amountIn' currentBlock' result manager' pool pool' hop hswap hget hget'
    cases hop
    obtain ⟨result', new, hswap', hout, hfee, hspec⟩ := swap_eq decay manager sellA amountIn currentBlock hget
    rw [hswap'] at hswap
    cases hswap
    rw [Keyed.get_insert, if_pos (hspec.poolId.trans (manager.pools.keyed hget)).symm] at hget'
    obtain rfl := Option.some.inj hget'
    have hnum : (swapped (pool.currentK decay currentBlock manager.blocksPerYear) (3 / 1000)
        (reserveIn sellA pool) (reserveOut sellA pool) amountIn).fee.toNat = fee amountIn := toNat_fee amountIn
    rw [hspec.reserveIn, hfee, hspec.reserveOut, hout, h.feeRate, hnum]
    exact (lawful_iff (currentK_nonneg hdecay (h.initialK poolId pool hget) _ _)).mpr (hbalanced pool hget)

theorem reserveIn_eq_reserveOut {F : Type} {tokenA sellA : Bool} (h : tokenA ≠ sellA) (pool : LiquidityPool F) :
    reserveIn tokenA pool = reserveOut sellA pool := by
  cases tokenA <;> cases sellA <;> first | rfl | exact absurd rfl h

/-- Where swaps follow the law and the tokens of the providers add up, reserves grow by deposits only. -/
theorem noGrowth_of_lawful (h : WellFormed manager) (hbacked : AllBacked manager)
    (hlawful : LawfulSwap decay (op, manager)) : NoGrowth decay (op, manager) := by
  intro poolId pool pool' hget hget' tokenA
  have hchange := change decay op manager poolId
  simp only at hget hget'
  rw [hget, hget'] at hchange
  cases hchange with
  | same => exact Nat.le_add_right _ _
  | created hop =>
    subst hop
    cases tokenA <;> exact Nat.le_add_left _ _
  | @swapped _ _ sellA amountIn currentBlock hop hspec =>
    subst hop
    obtain ⟨hout, hin⟩ := lawful_swapped h hlawful hget
    rw [h.feeRate] at hspec
    by_cases htoken : tokenA = sellA
    · subst htoken
      rw [hspec.reserveIn, hin]
      simp only [deposit, if_true]
      omega
    · rw [reserveIn_eq_reserveOut htoken, reserveIn_eq_reserveOut htoken, hspec.reserveOut]
      omega
  | added hop =>
    subst hop
    cases tokenA with
    | false =>
      change (pool.reserveB + _).toNat ≤ _
      rw [BitVec.toNat_add]
      exact Nat.mod_le _ _
    | true =>
      change (pool.reserveA + _).toNat ≤ _
      rw [BitVec.toNat_add]
      exact Nat.mod_le _ _
  | @removed _ _ lpTokens provider amounts hop hremove =>
    obtain ⟨balance, hbalance, hle, ha, hb, rfl⟩ := removeLiquidity_eq hremove
    have htotal := balance_le (hbacked poolId pool hget) provider
    rw [hbalance, Option.getD_some] at htotal
    have hlp := BitVec.le_def.mpr ((BitVec.le_def.mp hle).trans htotal)
    refine le_trans ?_ (Nat.le_add_right _ _)
    cases tokenA with
    | false =>
      change (pool.reserveB - _).toNat ≤ pool.reserveB.toNat
      rw [hb, BitVec.toNat_sub_of_le (share_le hlp _)]
      exact Nat.sub_le _ _
    | true =>
      change (pool.reserveA - _).toNat ≤ pool.reserveA.toNat
      rw [ha, BitVec.toNat_sub_of_le (share_le hlp _)]
      exact Nat.sub_le _ _

/-- A swap and a swap back, of which both are balanced. -/
theorem return_iff (hdecay : ∀ blocks year, 0 ≤ decay blocks year) (h : WellFormed manager)
    {result : SwapResult K × AmmManager K} (hget : manager.pools.get poolId = some pool)
    (hswap : manager.swap decay poolId sellA amountIn currentBlock = some result)
    (hin : Sane decay (.swap poolId sellA amountIn currentBlock, manager))
    (hback : Sane decay (.swap poolId (!sellA) result.1.amountOut currentBlock, result.2)) :
    ∃ result', result.2.swap decay poolId (!sellA) result.1.amountOut currentBlock = some result' ∧
      (result'.1.amountOut ≤ amountIn ↔
        Covered (pool.currentK decay currentBlock manager.blocksPerYear) (reserveIn sellA pool)
          (reserveOut sellA pool) amountIn result.1.amountOut) := by
  obtain ⟨first, pool', hfirst, hout, -, hspec⟩ := swap_eq decay manager sellA amountIn currentBlock hget
  rw [hfirst] at hswap
  cases hswap
  have hget' : (manager.pools.insert pool').get poolId = some pool' := by
    rw [Keyed.get_insert, if_pos (hspec.poolId.trans (manager.pools.keyed hget)).symm]
  obtain ⟨second, pool'', hsecond, hout', -, -⟩ := swap_eq decay
    { manager with pools := manager.pools.insert pool' } (!sellA) first.amountOut currentBlock hget'
  refine ⟨_, hsecond, ?_⟩
  -- both swaps see the same `k`, and the reserves the first one left
  have hk : pool'.currentK decay currentBlock manager.blocksPerYear =
      pool.currentK decay currentBlock manager.blocksPerYear := by
    rw [LiquidityPool.currentK, LiquidityPool.currentK, hspec.initialK, hspec.createdAtBlock]
  have hin' : reserveIn (!sellA) pool' = reserveOut sellA pool' :=
    reserveIn_eq_reserveOut (by cases sellA <;> decide) pool'
  have hout'' : reserveOut (!sellA) pool' = reserveIn sellA pool' :=
    (reserveIn_eq_reserveOut (by cases sellA <;> decide) pool').symm
  have hbalanced := hback pool' hget'
  have hbalanced' := hin pool hget
  simp only at hout' hbalanced hbalanced'
  rw [hk, hin', hout'', hspec.reserveIn, hspec.reserveOut, hout, h.feeRate] at hbalanced
  rw [hk, hin', hout'', hspec.reserveIn, hspec.reserveOut, hout, h.feeRate] at hout'
  simp only
  rw [hout', hout, h.feeRate]
  exact profitless_iff (currentK_nonneg hdecay (h.initialK poolId pool hget) _ _) hbalanced' hbalanced

theorem noProfit_iff (hdecay : ∀ blocks year, 0 ≤ decay blocks year) (h : WellFormed manager) {back : Op}
    (hin : Sane decay (op, manager)) (hback : Sane decay (back, (amm decay).next op manager)) :
    NoProfit decay (op, manager) (back, (amm decay).next op manager) ↔
      SaneReturn decay (op, manager) (back, (amm decay).next op manager) := by
  constructor
  · intro hprofit
    rcases op with _ | ⟨poolId, sellA, amountIn, currentBlock⟩ | _ | _
    · trivial
    · rcases back with _ | ⟨poolId', sellA', amountIn', currentBlock'⟩ | _ | _
      · trivial
      · rintro result hswap pool hget ⟨rfl, rfl, rfl, rfl⟩
        have hnext : (amm decay).next (.swap poolId' sellA amountIn currentBlock') manager = result.2 := by
          simp only [amm, Option.mem_def.mp hswap, Option.elim_some]
        rw [hnext] at hback hprofit
        obtain ⟨result', hswap', hiff⟩ := return_iff hdecay h hget hswap hin hback
        exact hiff.mp (hprofit _ _ _ _ result result' rfl hswap rfl hswap')
      · trivial
      · trivial
    · trivial
    · trivial
  · intro hreturned poolId sellA amountIn currentBlock result result' hop hswap hreturn hswap'
    simp only at hop hswap hreturn hswap'
    subst hop hreturn
    have hnext : (amm decay).next (.swap poolId sellA amountIn currentBlock) manager = result.2 := by
      simp only [amm, hswap, Option.elim_some]
    rw [hnext] at hback hreturned hswap'
    rcases hget : manager.pools.get poolId with _ | pool
    · simp only [AmmManager.swap, hget] at hswap
      cases hswap
    obtain ⟨result'', hswap'', hiff⟩ := return_iff hdecay h hget hswap hin hback
    rw [hswap'] at hswap''
    cases hswap''
    exact hiff.mpr (hreturned result hswap pool hget ⟨rfl, rfl, rfl, rfl⟩)

end Steps

/-! ### Runs -/

section Runs

variable {decay} {op : Op} {manager : AmmManager K} {ops : List Op}

theorem sane_iff {step : Op × AmmManager K} : Sane decay step ↔
    (∀ poolId sellA amountIn currentBlock, step.1 = .swap poolId sellA amountIn currentBlock → Sane decay step) ∧
      ∀ poolId amountA amountB provider, step.1 = .addLiquidity poolId amountA amountB provider →
        Sane decay step := by
  refine ⟨fun h => ⟨fun _ _ _ _ _ => h, fun _ _ _ _ _ => h⟩, fun ⟨hswap, hadd⟩ => ?_⟩
  obtain ⟨op, manager⟩ := step
  cases op with
  | createPool => trivial
  | swap => exact hswap _ _ _ _ rfl
  | addLiquidity => exact hadd _ _ _ _ rfl
  | removeLiquidity => trivial

/-- Only a deposit can break the sums. -/
theorem allBacked_next_iff (h : AllBacked manager) : AllBacked ((amm decay).next op manager) ↔
    ∀ poolId amountA amountB provider, op = .addLiquidity poolId amountA amountB provider →
      Sane decay (op, manager) := by
  constructor
  · rintro hnext poolId amountA amountB provider rfl pool hget
    have hinsert := hnext poolId (pool.addLiquidity amountA amountB provider).2
    have hkey : (pool.addLiquidity amountA amountB provider).2.poolId = poolId := by
      have hkey : pool.poolId = poolId := manager.pools.keyed hget
      exact hkey
    rw [Option.mem_def] at hget
    simp only [amm] at hget hinsert
    rw [hget] at hinsert
    simp only [Keyed.get_insert, hkey, if_true] at hinsert
    exact (backed_addLiquidity_iff (h poolId pool hget)).mp (hinsert trivial)
  · intro hsane poolId pool' hget'
    have hchange := change decay op manager poolId
    rw [hget'] at hchange
    generalize hget : manager.pools.get poolId = old at hchange
    cases hchange with
    | same => exact h poolId pool' hget
    | created => exact backed_new ..
    | swapped hop hspec => exact (backed_swapsTo hspec).mpr (h poolId _ hget)
    | added hop =>
      have hadd := hsane _ _ _ _ hop
      subst hop
      exact (backed_addLiquidity_iff (h poolId _ hget)).mpr (hadd _ hget)
    | removed hop hremove => exact backed_removeLiquidity (h poolId _ hget) hremove

theorem backed_trace_iff (hstart : AllBacked manager) :
    ((∀ step ∈ (amm decay).trace ops manager, AllBacked step.2) ∧ AllBacked ((amm decay).final ops manager)) ↔
      ∀ step ∈ (amm decay).trace ops manager, ∀ poolId amountA amountB provider,
        step.1 = .addLiquidity poolId amountA amountB provider → Sane decay step :=
  Machine.safe_iff (P := AllBacked) (Q := fun _ => True)
    (C := fun step => ∀ poolId amountA amountB provider,
      step.1 = .addLiquidity poolId amountA amountB provider → Sane decay step)
    (fun _ _ _ => trivial) (fun _ _ _ h => allBacked_next_iff h) trivial hstart

variable [IsStrictOrderedRing K]

variable (decay ops) in
theorem wellFormed_trace (hstart : WellFormed manager) : ∀ step ∈ (amm decay).trace ops manager, WellFormed step.2 :=
  Machine.invariant_trace (P := WellFormed) (fun _ _ => wellFormed_next) hstart

/-- Of steps that are sane, those that return what the one before paid make no profit where they are sane. -/
theorem profit_iff (hdecay : ∀ blocks year, 0 ≤ decay blocks year) (hstart : WellFormed manager)
    (hsane : ∀ step ∈ (amm decay).trace ops manager, Sane decay step) :
    ((amm decay).trace ops manager).IsChain (NoProfit decay) ↔
      ((amm decay).trace ops manager).IsChain (SaneReturn decay) := by
  have hlink := List.isChain_iff_forall_rel_of_append_cons_cons.mp (Machine.isChain_trace (amm decay) ops manager)
  rw [List.isChain_iff_forall_rel_of_append_cons_cons, List.isChain_iff_forall_rel_of_append_cons_cons]
  have hiff : ∀ step back front rest, (amm decay).trace ops manager = front ++ step :: back :: rest →
      (NoProfit decay step back ↔ SaneReturn decay step back) := by
    intro step back front rest heq
    have hstep : step ∈ (amm decay).trace ops manager := by rw [heq]; simp
    have hback : back ∈ (amm decay).trace ops manager := by rw [heq]; simp
    obtain ⟨op, before⟩ := step
    obtain ⟨returned, after⟩ := back
    obtain rfl : after = (amm decay).next op before := hlink heq
    exact noProfit_iff hdecay (wellFormed_trace decay ops hstart _ hstep) (hsane _ hstep) (hsane _ hback)
  exact ⟨fun h step back front rest heq => (hiff step back front rest heq).mp (h heq),
    fun h step back front rest heq => (hiff step back front rest heq).mpr (h heq)⟩

/-- The runs that follow the law are those of balanced swaps, of deposits that do not wrap the tokens alone, and
of swaps back where the pool is covered. -/
theorem solvent_iff (decay : ℕ → ℕ → K) (hdecay : ∀ blocks year, 0 ≤ decay blocks year) (blocksPerYear : UInt64)
    (ops : List Op) : Solvent decay ops (.new blocksPerYear) ↔
      (∀ step ∈ (amm decay).trace ops (.new blocksPerYear), Sane decay step) ∧
        ((amm decay).trace ops (.new blocksPerYear)).IsChain (SaneReturn decay) := by
  have hstart : WellFormed (AmmManager.new blocksPerYear : AmmManager K) := ⟨rfl, fun poolId pool h => by cases h⟩
  have hnone : AllBacked (AmmManager.new blocksPerYear : AmmManager K) := fun poolId pool h => by cases h
  have hwell := wellFormed_trace decay ops hstart
  constructor
  · intro h
    have hsane : ∀ step ∈ (amm decay).trace ops (.new blocksPerYear), Sane decay step := by
      intro step hmem
      refine sane_iff.mpr ⟨fun poolId sellA amountIn currentBlock hop => ?_, (backed_trace_iff hnone).mp h.backed step hmem⟩
      obtain ⟨op, manager⟩ := step
      simp only at hop
      subst hop
      exact (lawfulSwap_iff hdecay (hwell _ hmem)).mp (h.swaps _ hmem)
    exact ⟨hsane, (profit_iff hdecay hstart hsane).mp h.profit⟩
  · rintro ⟨hsane, hreturn⟩
    have hbacked := (backed_trace_iff hnone).mpr fun step hmem _ _ _ _ _ => hsane step hmem
    have hswaps : ∀ step ∈ (amm decay).trace ops (.new blocksPerYear), LawfulSwap decay step := by
      intro step hmem poolId sellA amountIn currentBlock result manager pool pool' hop
      obtain ⟨op, before⟩ := step
      simp only at hop
      subst hop
      exact (lawfulSwap_iff hdecay (hwell _ hmem)).mpr (hsane _ hmem) poolId sellA amountIn currentBlock result
        manager pool pool' rfl
    exact ⟨hswaps, fun step hmem => noGrowth_of_lawful (hwell step hmem) (hbacked.1 step hmem) (hswaps step hmem),
      hbacked, (profit_iff hdecay hstart hsane).mpr hreturn⟩

end Runs

/-! ### One pool -/

section Example

/-- The decay in the block of the creation. -/
def fresh (_ _ : ℕ) : ℚ := 1

def poolId : Bytes32 := AmmManager.poolIdOf 1 2 0

/-- Half of the liquidity is taken out. -/
def withdrawal : List Op := [.createPool 1 2 1000 1000 7 0, .removeLiquidity poolId 500 7]

/-- 500 of each token are left and `k` is a million: a swap of 10 pays nothing, and the reserve it would pay from
becomes 1960. -/
theorem reserve_grows_from_nothing : ¬ Solvent fresh (withdrawal ++ [.swap poolId true 10 0]) (.new 100000) := by
  intro h
  generalize hstart : (AmmManager.new 100000 : AmmManager ℚ) = manager at h
  have hmem : (Op.swap poolId true 10 0, (amm fresh).final withdrawal manager) ∈
      (amm fresh).trace (withdrawal ++ [.swap poolId true 10 0]) manager := by
    rw [Machine.trace_append]
    exact List.mem_append_right _ List.mem_cons_self
  have hgrowth := h.growth _ hmem poolId
  have hbefore : (((amm fresh).final withdrawal manager).pools.get poolId).map (·.reserveB.toNat) = some 500 := by
    rw [← hstart]
    decide +kernel
  have hafter : (((amm fresh).next (.swap poolId true 10 0) ((amm fresh).final withdrawal manager)).pools.get
      poolId).map (·.reserveB.toNat) = some 1960 := by
    rw [← hstart]
    decide +kernel
  obtain ⟨pool, hget, hpool⟩ := Option.map_eq_some_iff.mp hbefore
  obtain ⟨pool', hget', hpool'⟩ := Option.map_eq_some_iff.mp hafter
  have hle := hgrowth pool pool' hget hget' false
  simp only [reserveIn, deposit, Bool.false_eq_true, if_false, hpool, hpool'] at hle
  omega

/-- A swap and back, then a deposit that is taken out again. -/
def trading : List Op :=
  [.createPool 1 2 1000000 1000000 7 0, .swap poolId true 1000 0, .swap poolId false 997 0,
    .addLiquidity poolId 500 500 8, .removeLiquidity poolId 400 8]

theorem solvent_trading : Solvent fresh trading (.new 100000) :=
  (solvent_iff fresh (fun _ _ => zero_le_one) 100000 trading).mpr ⟨by decide +kernel, by decide +kernel⟩

end Example

end Coinjecture.Tokenomics.AmmRuns
