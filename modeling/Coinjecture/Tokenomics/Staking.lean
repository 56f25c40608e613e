import Coinjecture.Core.Types
import Coinjecture.Lib.Saturating
import Coinjecture.Lib.Table
import Coinjecture.Tokenomics.Pools

/-! # Staking

The positions of a staker in the pools, the rewards on them and the manager of all portfolios. Rewards are
computed when they are claimed, from the amount that is staked then and the block of the last claim. The
order in which a map is iterated is the platform's: the sums of floats depend on it. -/

namespace Coinjecture.Tokenomics.Staking

open Lib.Float64 Lib.Saturating Lib.Table
open Core.Types
open Tokenomics.Pools

/-- An order in which the positions of a portfolio are iterated. -/
structure Order where
  pools : List PoolType
  perm : pools.Perm PoolType.all

structure StakingMetrics where
  avgDimensionalScale : F64
  medianPortfolioStake : Balance
  currentBlock : UInt64
  blocksPerYear : UInt64
  deriving DecidableEq

structure StakePosition where
  poolType : PoolType
  amount : Balance
  startBlock : UInt64
  lastClaimBlock : UInt64
  pendingRewards : Balance
  deriving DecidableEq

structure StakingPortfolio where
  owner : Address
  positions : Keyed StakePosition.poolType
  vivianiDelta : F64
  multiplier : F64

variable (exp : F64 → F64) (order : Order)

def getBaseYield (poolType : PoolType) : F64 := ETA.mul (poolType.scale exp)

def StakePosition.calculateBaseRewards (position : StakePosition) (currentBlock blocksPerYear : UInt64) :
    Balance :=
  let blocksElapsed := currentBlock.toNat - position.lastClaimBlock.toNat
  let baseYield := getBaseYield exp position.poolType
  let yieldFraction := (F64.ofNat blocksElapsed).div (F64.ofNat blocksPerYear.toNat)
  (((F64.ofNat position.amount.toNat).mul baseYield).mul yieldFraction).toUnsigned 128

namespace StakingPortfolio

def new (owner : Address) : StakingPortfolio := ⟨owner, Keyed.empty, F64.one, F64.one⟩

/-- `positions.values()`. -/
def values (portfolio : StakingPortfolio) : List StakePosition :=
  order.pools.filterMap portfolio.positions.get

def totalStaked (portfolio : StakingPortfolio) : Balance :=
  ((portfolio.values order).map StakePosition.amount).sum

def calculateEtaLambda (portfolio : StakingPortfolio) : F64 × F64 :=
  let positions := portfolio.values order
  if positions.isEmpty then (F64.zero, F64.zero)
  else
    let totalStaked := portfolio.totalStaked order
    if totalStaked = 0 then (F64.zero, F64.zero)
    else
      let share (position : StakePosition) :=
        (F64.ofNat position.amount.toNat).div (F64.ofNat totalStaked.toNat)
      let etaUser := (positions.map fun pos => (pos.poolType.scale exp).mul (share pos)).foldl F64.add F64.zero
      let hhi := (positions.map fun pos => (share pos).mul (share pos)).foldl F64.add F64.zero
      (etaUser, F64.one.sub hhi)

def calculateVivianiDelta (portfolio : StakingPortfolio) (metrics : StakingMetrics) : F64 :=
  let (eta, lambda) := portfolio.calculateEtaLambda exp order
  if eta.isZero || lambda.isZero then F64.one
  else
    let difference := eta.sub metrics.avgDimensionalScale
    let scaleDeviation := if difference.negative then difference.neg else difference
    scaleDeviation.add (F64.one.sub lambda)

def calculateMultiplier (portfolio : StakingPortfolio) : F64 :=
  let (_, lambda) := portfolio.calculateEtaLambda exp order
  let positions := portfolio.values order
  if positions.isEmpty then F64.one
  else
    let poolCoverage := (F64.ofNat positions.length).div ⟨0x4020000000000000⟩
    F64.one.add ((lambda.mul poolCoverage).mul deltaCritical)

def updateMetrics (portfolio : StakingPortfolio) (metrics : StakingMetrics) : StakingPortfolio :=
  { portfolio with
    vivianiDelta := portfolio.calculateVivianiDelta exp order metrics
    multiplier := portfolio.calculateMultiplier exp order }

/-- A later stake is added to the position, whose last claim stays. -/
def stake (portfolio : StakingPortfolio) (poolType : PoolType) (amount : Balance) (currentBlock : UInt64)
    (metrics : StakingMetrics) : StakingPortfolio :=
  let position : StakePosition :=
    match portfolio.positions.get poolType with
    | some position => { position with amount := position.amount + amount }
    | none => ⟨poolType, amount, currentBlock, currentBlock, 0⟩
  { portfolio with positions := portfolio.positions.insert position }.updateMetrics exp order metrics

def unstake (portfolio : StakingPortfolio) (poolType : PoolType) (amount : Balance) (metrics : StakingMetrics) :
    Option (Balance × StakingPortfolio) :=
  match portfolio.positions.get poolType with
  | none => none
  | some position =>
    let actual := if amount ≤ position.amount then amount else position.amount
    let position := { position with amount := position.amount - actual }
    let positions := if position.amount = 0 then portfolio.positions.erase poolType
      else portfolio.positions.insert position
    some (actual, { portfolio with positions := positions }.updateMetrics exp order metrics)

def baseRewards (portfolio : StakingPortfolio) (metrics : StakingMetrics) : Balance :=
  ((portfolio.values order).map fun pos =>
    pos.calculateBaseRewards exp metrics.currentBlock metrics.blocksPerYear).sum

def calculateTotalRewards (portfolio : StakingPortfolio) (metrics : StakingMetrics) : Balance :=
  ((F64.ofNat (portfolio.baseRewards exp order metrics).toNat).mul portfolio.multiplier).toUnsigned 128

def claimRewards (portfolio : StakingPortfolio) (metrics : StakingMetrics) : Balance × StakingPortfolio :=
  let claimed (position : StakePosition) : StakePosition :=
    { position with lastClaimBlock := metrics.currentBlock, pendingRewards := 0 }
  (portfolio.calculateTotalRewards exp order metrics,
    { portfolio with positions := portfolio.positions.map claimed fun _ => rfl })

end StakingPortfolio

structure StakingManager where
  portfolios : Keyed StakingPortfolio.owner
  totalStaked : Balance
  metrics : StakingMetrics

namespace StakingManager

def setBlock (manager : StakingManager) (block : UInt64) : StakingManager :=
  { manager with metrics := { manager.metrics with currentBlock := block } }

def getOrCreatePortfolio (manager : StakingManager) (owner : Address) : StakingPortfolio :=
  (manager.portfolios.get owner).getD (.new owner)

def stake (manager : StakingManager) (owner : Address) (poolType : PoolType) (amount : Balance)
    (currentBlock : UInt64) : StakingManager :=
  let portfolio := (manager.getOrCreatePortfolio owner).stake exp order poolType amount currentBlock
    manager.metrics
  { manager with
    portfolios := manager.portfolios.insert portfolio
    totalStaked := manager.totalStaked + amount }

def unstake (manager : StakingManager) (owner : Address) (poolType : PoolType) (amount : Balance) :
    Option (Balance × StakingManager) :=
  match manager.portfolios.get owner with
  | none => none
  | some portfolio =>
    match portfolio.unstake exp order poolType amount manager.metrics with
    | none => none
    | some (actual, portfolio) => some (actual, { manager with
        portfolios := manager.portfolios.insert portfolio
        totalStaked := satSub manager.totalStaked actual })

/-- `claim_rewards` of a portfolio of the manager, with the manager's metrics. -/
def claimRewards (manager : StakingManager) (owner : Address) : Balance × StakingManager :=
  match manager.portfolios.get owner with
  | none => (0, manager)
  | some portfolio =>
    let (total, portfolio) := portfolio.claimRewards exp order manager.metrics
    (total, { manager with portfolios := manager.portfolios.insert portfolio })

end StakingManager

end Coinjecture.Tokenomics.Staking
