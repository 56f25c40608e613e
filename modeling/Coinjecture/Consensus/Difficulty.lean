import Coinjecture.Core.Problem

/-! # The difficulty adjuster

Each miner keeps an adjuster of its own: the last solve times that it has measured and the problem
size that they have led to. `generate_problem` asks it how large the problem shall be. -/

namespace Coinjecture.Consensus.Difficulty

open Lib.Float64
open Core.Types

def DIFFICULTY_WINDOW : ℕ := 20

def ABSOLUTE_MIN_SIZE : Usize := 1

def MIN_OPERATIONAL_SIZE : Usize := 45

def DEFAULT_TARGET_US : UInt64 := 10000000

def BOOTSTRAP_CURRENT_SIZE : Usize := 110

def CANONICAL_MAX_SIZE : Usize := 220

/-- 1.0 -/
def HIGH_VARIANCE_RATIO : F64 := F64.one

/-- 1.2 -/
def RECOVERY_STABLE_RATIO : F64 := ⟨0x3FF3333333333333⟩

def RECOVERY_STEP : Usize := 1

/-- 1 / √2 -/
def ETA : F64 := ⟨0x3FE6A09E667F3BCD⟩

def PHI : F64 := ⟨0x3FF9E3779B97F4A8⟩

/-- 1000000.0 -/
def million : F64 := ⟨0x412E848000000000⟩

/-! ### Floats and sizes -/

def toF64 (n : UInt64) : F64 := F64.ofNat n.toNat

/-- `x as usize`. -/
def toUsize (x : F64) : Usize := UInt64.ofBitVec (F64.toUnsigned 64 x)

/-- `x.round()`: halves away from zero. -/
def roundF64 (x : F64) : F64 :=
  if x.isFinite then
    F64.ofRat x.negative (if x.toRat < 0 then ⌈x.toRat - 1 / 2⌉ else ⌊x.toRat + 1 / 2⌋)
  else x

/-- `x.min(y)`: the other argument if one is NaN. -/
def minF64 (x y : F64) : F64 := if x.isNaN then y else if y.lt x then y else x

/-- `usize::saturating_sub(1)`. -/
def predUsize (n : Usize) : Usize := if n = 0 then 0 else n - 1

/-! ### What the adjuster reads -/

/-- The names under which `generate_problem` asks for a size. -/
inductive ProblemName where
  | SubsetSum
  | SAT
  | TSP
  deriving DecidableEq

structure ProblemDescriptor where
  scalingExponent : F64
  sizeRatio : F64
  absoluteMaxSize : Usize
  absoluteMinSize : Usize

/-- `ProblemRegistry::get`. -/
abbrev ProblemRegistry := ProblemName → Option ProblemDescriptor

/-- `default_registry`. -/
def defaultRegistry : ProblemRegistry
  | .SubsetSum => some ⟨⟨0x3FE999999999999A⟩, F64.one, 180, 3⟩
  | .SAT => some ⟨⟨0x3FE6666666666666⟩, F64.one, 320, 3⟩
  | .TSP => some ⟨⟨0x3FE0000000000000⟩, ⟨0x3FECCCCCCCCCCCCD⟩, 150, 3⟩

/-- What is read from the network metrics. -/
structure NetworkMetrics where
  medianBlockTime : F64
  hardnessFactor : ℕ → F64

structure DifficultyAdjuster where
  recentSolveTimesUs : List UInt64
  size : Usize
  recoveryTarget : Option Usize
  stallCounter : Usize
  networkMetrics : Option NetworkMetrics
  registry : Option ProblemRegistry

namespace DifficultyAdjuster

/-- `DifficultyAdjuster::new`, with what is set afterwards. -/
def new (networkMetrics : Option NetworkMetrics) (registry : Option ProblemRegistry) :
    DifficultyAdjuster where
  recentSolveTimesUs := []
  size := BOOTSTRAP_CURRENT_SIZE
  recoveryTarget := none
  stallCounter := 0
  networkMetrics := networkMetrics
  registry := registry

variable (powf : F64 → F64 → F64) (self : DifficultyAdjuster)

def hasMetrics : Bool := self.networkMetrics.isSome

def currentSize : Usize := max self.size ABSOLUTE_MIN_SIZE

def optimalSolveTimeUs : UInt64 :=
  match self.networkMetrics with
  | some metrics => toUsize ((metrics.medianBlockTime.max ⟨0x3FB999999999999A⟩).mul million)
  | none => DEFAULT_TARGET_US

/-- `scaling_exp`, `abs_max` and `abs_min`. -/
def sizeParameters (name : ProblemName) : F64 × Usize × Usize :=
  match self.registry with
  | some registry =>
    match registry name with
    | some desc => (desc.scalingExponent, desc.absoluteMaxSize, desc.absoluteMinSize)
    | none => (⟨0x3FE999999999999A⟩, 60, ABSOLUTE_MIN_SIZE)
  | none =>
    match name with
    | .TSP => (⟨0x3FE0000000000000⟩, 120, ABSOLUTE_MIN_SIZE)
    | .SAT => (⟨0x3FE6666666666666⟩, 320, ABSOLUTE_MIN_SIZE)
    | .SubsetSum => (⟨0x3FE999999999999A⟩, 120, ABSOLUTE_MIN_SIZE)

def category : ProblemName → ℕ
  | .SubsetSum => 3
  | .SAT => 0
  | .TSP => 1

def canonicalMax : ProblemName → Usize
  | .SubsetSum => CANONICAL_MAX_SIZE
  | .SAT => 320
  | .TSP => 120

def getSizeLimits (name : ProblemName) : Usize × Usize :=
  let (scalingExp, absMax, absMin) := self.sizeParameters name
  match self.networkMetrics with
  | some metrics =>
    let hardness := metrics.hardnessFactor (category name)
    let optimalTime := (metrics.medianBlockTime.mul ETA).mul hardness
    let baseTime := F64.one
    let estimatedSize := toUsize ((powf (optimalTime.div baseTime) scalingExp).mul hardness)
    let minSize := toUsize ((((toF64 estimatedSize).mul ⟨0x3FC999999999999A⟩).max
      (toF64 absMin)).max (toF64 ABSOLUTE_MIN_SIZE))
    let maxSize := toUsize (minF64 ((toF64 estimatedSize).mul ⟨0x4000000000000000⟩) (toF64 absMax))
    let maxSize := min (max (max maxSize self.currentSize) MIN_OPERATIONAL_SIZE) absMax
    let minSize := min minSize (predUsize maxSize)
    (max minSize ABSOLUTE_MIN_SIZE, max maxSize (ABSOLUTE_MIN_SIZE + 1))
  | none =>
    let minSize := max absMin ABSOLUTE_MIN_SIZE
    let maxSize := min absMax (canonicalMax name)
    (minSize, max maxSize (minSize + 1))

/-! ### Sizes -/

def sizeForProblemType (name : ProblemName) : Usize :=
  match self.registry.bind fun registry => registry name with
  | some desc =>
    let maxSize := desc.absoluteMaxSize
    let minSize := max desc.absoluteMinSize ABSOLUTE_MIN_SIZE
    min (max (toUsize (roundF64 ((toF64 self.currentSize).mul desc.sizeRatio))) minSize) maxSize
  | none =>
    match name with
    | .SubsetSum => min self.currentSize CANONICAL_MAX_SIZE
    | .SAT => min (max (toUsize (roundF64 ((toF64 self.currentSize).mul F64.one)))
        ABSOLUTE_MIN_SIZE) 320
    | .TSP => min (max (toUsize (roundF64 ((toF64 self.currentSize).mul ⟨0x3FECCCCCCCCCCCCD⟩)))
        ABSOLUTE_MIN_SIZE) 150

def sizeForProblemTypeAsync (name : ProblemName) : Usize :=
  let (minSize, maxSize) := self.getSizeLimits powf name
  let sizeRatio := match self.registry with
    | some registry => ((registry name).map ProblemDescriptor.sizeRatio).getD F64.one
    | none =>
      match name with
      | .TSP => ⟨0x3FECCCCCCCCCCCCD⟩
      | _ => F64.one
  min (max (toUsize (roundF64 ((toF64 self.currentSize).mul sizeRatio)))
    (max minSize ABSOLUTE_MIN_SIZE)) (max maxSize (minSize + 1))

/-- The size that `generate_problem` asks for. -/
def sizeFor (name : ProblemName) : Usize :=
  if self.hasMetrics then self.sizeForProblemTypeAsync powf name
  else self.sizeForProblemType name

/-! ### Solve times -/

def recordSolveTimeUs (solveTimeUs : UInt64) : DifficultyAdjuster :=
  let times := self.recentSolveTimesUs ++ [solveTimeUs]
  { self with
    recentSolveTimesUs := if times.length > DIFFICULTY_WINDOW then times.drop 1 else times }

/-- `u64::saturating_add` of all times, divided by their number. -/
def movingAverageUs : UInt64 :=
  if self.recentSolveTimesUs = [] then DEFAULT_TARGET_US
  else
    let sum := self.recentSolveTimesUs.foldl
      (fun acc t => UInt64.ofNat (min (acc.toNat + t.toNat) (2 ^ 64 - 1))) 0
    sum / UInt64.ofNat self.recentSolveTimesUs.length

def solveTimeStdDev (meanSecs : F64) : F64 :=
  if self.recentSolveTimesUs.length < 2 then F64.zero
  else
    let squares := self.recentSolveTimesUs.map fun t =>
      let delta := ((toF64 t).div million).sub meanSecs
      delta.mul delta
    let variance := (squares.foldl F64.add F64.zero).div
      (F64.ofNat self.recentSolveTimesUs.length)
    variance.sqrt

/-- `isqrt`: Newton's iteration from `n` on. -/
def isqrt (n : ℕ) : ℕ := if n = 0 then 0 else Nat.sqrt.iter n n

def computeNewSizeDeterministic (currentSize : Usize) (avgUs targetUs : UInt64) : Usize :=
  if avgUs = 0 then currentSize
  else
    let sizeSq := currentSize.toNat * currentSize.toNat
    let scaled := min (sizeSq * targetUs.toNat) (2 ^ 128 - 1) / avgUs.toNat
    UInt64.ofNat (isqrt scaled)

def applyStallPenalty : DifficultyAdjuster :=
  let oldSize := self.currentSize
  let reduced := UInt64.ofNat (max (max (oldSize.toNat * 7 / 10) MIN_OPERATIONAL_SIZE.toNat)
    ABSOLUTE_MIN_SIZE.toNat)
  { self with
    recoveryTarget := some (self.recoveryTarget.getD oldSize)
    size := reduced
    stallCounter := min (self.stallCounter + 1) 20 }

/-- The size after a recovery, and what is left to recover. -/
def applyRecovery (current : Usize) (timeRatio : F64) : Usize × DifficultyAdjuster :=
  match self.recoveryTarget with
  | some target =>
    if timeRatio.le RECOVERY_STABLE_RATIO then
      let next := min (current + RECOVERY_STEP) target
      (max next ABSOLUTE_MIN_SIZE,
        if target ≤ next then { self with recoveryTarget := none } else self)
    else (max current ABSOLUTE_MIN_SIZE, self)
  | none =>
    (max current ABSOLUTE_MIN_SIZE,
      if timeRatio.le ⟨0x3FF8000000000000⟩ && 0 < self.stallCounter then
        { self with stallCounter := self.stallCounter - 1 }
      else self)

/-- `adjust_difficulty` and `adjust_difficulty_async` differ in the target and in the limits. -/
def adjustDifficultyTo (targetUs : UInt64) (limits : DifficultyAdjuster → Usize × Usize) :
    DifficultyAdjuster :=
  if self.recentSolveTimesUs.length < DIFFICULTY_WINDOW / 2 then self
  else
    let avgUs := self.movingAverageUs
    let avgSecs := (toF64 avgUs).div million
    let optimal := (toF64 targetUs).div million
    let maxTarget := optimal.mul PHI
    let self := if (maxTarget.mul ⟨0x4000000000000000⟩).lt avgSecs then self.applyStallPenalty
      else self
    let stdDev := self.solveTimeStdDev avgSecs
    if (avgSecs.mul HIGH_VARIANCE_RATIO).lt stdDev then self
    else
      let rawNewSize := computeNewSizeDeterministic self.currentSize avgUs (max targetUs 1)
      let stallRatio := avgUs / max targetUs 1
      let adjustedSize :=
        if 5 < stallRatio then max (rawNewSize * 2 / 5) ABSOLUTE_MIN_SIZE
        else if 2 < stallRatio then max (rawNewSize * 7 / 10) ABSOLUTE_MIN_SIZE
        else rawNewSize
      let minClamped := UInt64.ofNat (self.currentSize.toNat * 2 / 5)
      let maxClamped := UInt64.ofNat (self.currentSize.toNat * 2 / 1)
      let (globalMin, globalMax) := limits self
      let bounded := min (max adjustedSize (max minClamped globalMin)) (min maxClamped globalMax)
      let (bounded, self) := self.applyRecovery bounded
        ((toF64 avgUs).div (toF64 (max targetUs 1)))
      { self with size := max bounded ABSOLUTE_MIN_SIZE }

def adjustDifficulty : DifficultyAdjuster :=
  self.adjustDifficultyTo DEFAULT_TARGET_US fun _ => (MIN_OPERATIONAL_SIZE, CANONICAL_MAX_SIZE)

def adjustDifficultyAsync : DifficultyAdjuster :=
  self.adjustDifficultyTo self.optimalSolveTimeUs fun self => self.getSizeLimits powf .SubsetSum

/-- `penalize_failure` and `penalize_failure_async` differ in the least size. -/
def penalizeFailureTo (minSize : Usize) : DifficultyAdjuster :=
  let oldSize := self.currentSize
  let reduced := UInt64.ofNat (max (max (max (oldSize.toNat * 90 / 100) minSize.toNat)
    MIN_OPERATIONAL_SIZE.toNat) ABSOLUTE_MIN_SIZE.toNat)
  { self with
    recoveryTarget := some (self.recoveryTarget.getD oldSize)
    size := reduced
    stallCounter := min (self.stallCounter + 1) 20 }

def penalizeFailure : DifficultyAdjuster := self.penalizeFailureTo MIN_OPERATIONAL_SIZE

def penalizeFailureAsync : DifficultyAdjuster :=
  self.penalizeFailureTo (self.getSizeLimits powf .SubsetSum).1

/-- A miner after a problem that it has solved in that time. -/
def afterSolved (solveTimeUs : UInt64) : DifficultyAdjuster :=
  let self := self.recordSolveTimeUs solveTimeUs
  if self.hasMetrics then self.adjustDifficultyAsync powf else self.adjustDifficulty

/-- A miner after a problem that it has not solved. -/
def afterFailed : DifficultyAdjuster :=
  if self.hasMetrics then self.penalizeFailureAsync powf else self.penalizeFailure

end DifficultyAdjuster

end Coinjecture.Consensus.Difficulty
