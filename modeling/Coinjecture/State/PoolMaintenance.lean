import Coinjecture.Core.Extern
import Coinjecture.State.DimensionalPools

/-! # Pool maintenance

How the pools are set up at genesis, and what a miner does to them around a block of its own: the
reward is spread over the pools, and every ten blocks liquidity is unlocked and yields are added. The
ratios come from the consensus state, which is a function of the block height through `exp`. -/

namespace Coinjecture.State.PoolMaintenance

open Lib.Float64
open Core.Types Core.Transactions Core.Extern
open State.DimensionalPools State.DimensionalPools.DimensionalPoolState

def ETA : F64 := ⟨0x3FE6A09E667F3BCD⟩

def TAU_C : F64 := ⟨0x3FF6A09E667F3BCD⟩

/-- 0.00, 0.20, 0.41, 0.68, 0.98, 1.36, 1.96 and 2.72. -/
def TAU_POINTS : List F64 :=
  [⟨0⟩, ⟨0x3FC999999999999A⟩, ⟨0x3FDA3D70A3D70A3D⟩, ⟨0x3FE5C28F5C28F5C3⟩, ⟨0x3FEF5C28F5C28F5C⟩,
    ⟨0x3FF5C28F5C28F5C3⟩, ⟨0x3FFF5C28F5C28F5C⟩, ⟨0x4005C28F5C28F5C3⟩]

def POOLS : List DimensionalPool := [.D1, .D2, .D3, .D4, .D5, .D6, .D7, .D8]

/-- θ = λτ at the critical equilibrium, where λ = η. -/
def LAMBDA : F64 := ETA

/-- The dimensional factors of `DIMENSIONAL_SCALES`: 1.000, 0.867, 0.750, 0.618, 0.500, 0.382, 0.250
and 0.146. -/
def SCALE_FACTORS : List F64 :=
  [F64.one, ⟨0x3FEBBE76C8B43958⟩, ⟨0x3FE8000000000000⟩, ⟨0x3FE3C6A7EF9DB22D⟩, ⟨0x3FE0000000000000⟩,
    ⟨0x3FD872B020C49BA6⟩, ⟨0x3FD0000000000000⟩, ⟨0x3FC2B020C49BA5E3⟩]

/-- 0.222, 0.193, 0.167, 0.137, 0.111, 0.085, 0.056 and 0.032. -/
def ALLOCATION_RATIOS : List F64 :=
  [⟨0x3FCC6A7EF9DB22D1⟩, ⟨0x3FC8B4395810624E⟩, ⟨0x3FC5604189374BC7⟩, ⟨0x3FC189374BC6A7F0⟩,
    ⟨0x3FBC6A7EF9DB22D1⟩, ⟨0x3FB5C28F5C28F5C3⟩, ⟨0x3FACAC083126E979⟩, ⟨0x3FA0624DD2F1A9FC⟩]

variable (ext : Ext)

/-! ### The consensus state -/

structure ConsensusState where
  tau : F64
  magnitude : F64
  deriving DecidableEq

def ConsensusState.atTau (tau : F64) : ConsensusState := ⟨tau, ext.exp (ETA.neg.mul tau)⟩

/-- The consensus state that is saved for a block. -/
def ConsensusState.atHeight (height : UInt64) : ConsensusState :=
  .atTau ext ((F64.ofNat height.toNat).div TAU_C)

/-- The sum from the left. -/
def sumFloats : List F64 → F64
  | [] => F64.zero
  | x :: xs => xs.foldl F64.add x

/-- `dimensional_scales`. -/
def ConsensusState.dimensionalScales (c : ConsensusState) : List F64 :=
  TAU_POINTS.map fun tau => c.magnitude.mul (ext.exp (ETA.neg.mul tau))

/-- `DimensionalScales::normalized`. -/
def normalized (scales : List F64) : List F64 :=
  let norm := (sumFloats (scales.map fun d => d.mul d)).sqrt
  scales.map fun d => d.div norm

/-- `DimensionalScales::allocation_ratios`, which normalises once more. -/
def allocationRatios (scales : List F64) : List F64 :=
  let sum := sumFloats (normalized scales)
  (normalized scales).map fun d => d.div sum

def ConsensusState.unlockFraction (c : ConsensusState) (tauN : F64) : F64 :=
  if c.tau.lt tauN then F64.zero else F64.one.sub (ext.exp (ETA.neg.mul (c.tau.sub tauN)))

/-- `yield_rate`, the same in every consensus state. -/
def yieldRate (tauN : F64) : F64 := ETA.mul (ext.exp (ETA.neg.mul tauN))

/-! ### The four operations -/

/-- A pool at genesis: all of its liquidity is locked. -/
def genesisPool (initialLiquidity : Balance) (genesisHeight : UInt64) (pool : DimensionalPool)
    (tau dimensionalFactor allocation : F64) : PoolLiquidity where
  pool := pool
  liquidity := initialLiquidity
  lockedLiquidity := initialLiquidity
  unlockedLiquidity := 0
  lastUnlockFraction := F64.zero
  dimensionalFactor := dimensionalFactor
  allocationRatio := allocation
  tau := tau
  phase := LAMBDA.mul tau
  lastUpdateHeight := genesisHeight

/-- `initialize_pools`. -/
def initializePools (totalSupply : Balance) (genesisHeight : UInt64) (s : DimensionalPoolState) :
    DimensionalPoolState :=
  (POOLS.zip (TAU_POINTS.zip (SCALE_FACTORS.zip ALLOCATION_RATIOS))).foldl
    (fun s (pool, tau, dimensionalFactor, allocation) => s.savePoolLiquidity
      (genesisPool (((F64.ofNat totalSupply.toNat).mul allocation).toUnsigned 128) genesisHeight pool
        tau dimensionalFactor allocation)) s

/-- Change the liquidity of a pool, if it has one. -/
def updatePool (f : PoolLiquidity → Option PoolLiquidity) (pool : DimensionalPool)
    (s : DimensionalPoolState) : DimensionalPoolState :=
  match (s.getPoolLiquidity pool).bind f with
  | some liquidity => s.savePoolLiquidity liquidity
  | none => s

/-- `distribute_block_reward`. -/
def distributeBlockReward (c : ConsensusState) (totalReward : Balance) (blockHeight : UInt64)
    (s : DimensionalPoolState) : DimensionalPoolState :=
  let ratios := allocationRatios (normalized (c.dimensionalScales ext))
  (POOLS.zip ratios).foldl (fun s (pool, ratio) =>
    let poolReward := ((F64.ofNat totalReward.toNat).mul ratio).toUnsigned 128
    updatePool (fun l => some { l with
      liquidity := l.liquidity + poolReward
      lockedLiquidity := l.lockedLiquidity + poolReward
      allocationRatio := ratio
      lastUpdateHeight := blockHeight }) pool s) s

/-- What is unlocked of a pool, if anything is. -/
def unlocked (fraction : F64) (blockHeight : UInt64) (l : PoolLiquidity) : Option PoolLiquidity :=
  let newFraction := fraction.sub l.lastUnlockFraction
  if !(F64.lt ⟨0x3F50624DD2F1A9FC⟩ newFraction) then none
  else
    let tokens := ((F64.ofNat l.liquidity.toNat).mul newFraction).toUnsigned 128
    let amount := if tokens < l.lockedLiquidity then tokens else l.lockedLiquidity
    if 0 < amount then some { l with
      lockedLiquidity := l.lockedLiquidity - amount
      unlockedLiquidity := l.unlockedLiquidity + amount
      lastUnlockFraction := fraction
      lastUpdateHeight := blockHeight }
    else none

/-- `execute_unlock_schedules`. -/
def executeUnlockSchedules (c : ConsensusState) (blockHeight : UInt64) (s : DimensionalPoolState) :
    DimensionalPoolState :=
  (POOLS.zip TAU_POINTS).foldl (fun s (pool, tauN) =>
    updatePool (unlocked (c.unlockFraction ext tauN) blockHeight) pool s) s

/-- The yield of a pool, if there is one. -/
def yielded (rate : F64) (blockHeight : UInt64) (l : PoolLiquidity) : Option PoolLiquidity :=
  if 0 < l.unlockedLiquidity then
    let amount := (((F64.ofNat l.unlockedLiquidity.toNat).mul rate).mul
      ⟨0x3F50624DD2F1A9FC⟩).toUnsigned 128
    if 0 < amount then some { l with
      unlockedLiquidity := l.unlockedLiquidity + amount
      liquidity := l.liquidity + amount
      lastUpdateHeight := blockHeight }
    else none
  else none

/-- `distribute_yields`. -/
def distributeYields (blockHeight : UInt64) (s : DimensionalPoolState) : DimensionalPoolState :=
  (POOLS.zip TAU_POINTS).foldl (fun s (pool, tauN) =>
    updatePool (yielded (yieldRate ext tauN) blockHeight) pool s) s

/-- The pool updates of `mining_loop` in the consensus state that is read there. -/
def maintain (c : ConsensusState) (reward : Balance) (blockHeight : UInt64)
    (s : DimensionalPoolState) : DimensionalPoolState :=
  let s := distributeBlockReward ext c reward blockHeight s
  if blockHeight % 10 = 0 then distributeYields ext blockHeight (executeUnlockSchedules ext c blockHeight s)
  else s

end Coinjecture.State.PoolMaintenance
