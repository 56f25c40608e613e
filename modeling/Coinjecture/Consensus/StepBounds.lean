import Coinjecture.Consensus.Difficulty
import Coinjecture.Lib.Float64Order
import Coinjecture.Lib.Newton
import Coinjecture.Lib.Trace
import Coinjecture.Lib.Words

/-! # The step of an adjustment

The size keeps within its bounds through every run (`bounded_run`). What one adjustment does to it is clamped
to two fifths and to twice the size, but after a stall that is the size which the penalty has left, and the
recovery adds one to what the clamp let through.

* `adjust_bounded_iff` : the adjustments that keep the step, by the average that they see. -/

namespace Coinjecture.Consensus.StepBounds

open Lib.Float64 Lib.Newton Lib.Trace Lib.Words
open Core.Types
open Consensus.Difficulty Consensus.Difficulty.DifficultyAdjuster

/-! ### What is said of a run -/

/-- What a miner does to its adjuster. -/
inductive Op where
  | record (solveTimeUs : UInt64)
  | adjust
  | penalizeFailure
  | applyStallPenalty
  deriving DecidableEq

/-- The operations that do not ask for network metrics. -/
def adjusterMachine : Machine Op DifficultyAdjuster where
  next op self :=
    match op with
    | .record solveTimeUs => self.recordSolveTimeUs solveTimeUs
    | .adjust => self.adjustDifficulty
    | .penalizeFailure => self.penalizeFailure
    | .applyStallPenalty => self.applyStallPenalty
  halts _ _ := false

/-- The absolute bounds. -/
def InBounds (self : DifficultyAdjuster) : Prop :=
  MIN_OPERATIONAL_SIZE ≤ self.currentSize ∧ self.currentSize ≤ CANONICAL_MAX_SIZE

/-- `SCALE_CLAMP_MIN_NUM / SCALE_CLAMP_MIN_DEN` and `SCALE_CLAMP_MAX_NUM / SCALE_CLAMP_MAX_DEN` of the size. -/
def InStep (size size' : Usize) : Prop :=
  size.toNat * 2 / 5 ≤ size'.toNat ∧ size'.toNat ≤ size.toNat * 2 / 1

instance (size size' : Usize) : Decidable (InStep size size') := inferInstanceAs (Decidable (_ ∧ _))

/-- Every adjustment of the run changes the size by a factor within the step. -/
def StepsBounded (ops : List Op) (self : DifficultyAdjuster) : Prop :=
  ∀ p ∈ adjusterMachine.trace ops self, p.1 = .adjust → InStep p.2.currentSize p.2.adjustDifficulty.currentSize

instance (ops : List Op) (self : DifficultyAdjuster) : Decidable (StepsBounded ops self) :=
  inferInstanceAs (Decidable (∀ p ∈ adjusterMachine.trace ops self, p.1 = Op.adjust → _))

/-- `avg_secs > max_target * 2.0` -/
def stalled (avgUs : UInt64) : Bool :=
  ((((toF64 DEFAULT_TARGET_US).div million).mul PHI).mul ⟨0x4000000000000000⟩).lt ((toF64 avgUs).div million)

/-- `std_dev > avg_secs * HIGH_VARIANCE_RATIO` -/
def highVariance (self : DifficultyAdjuster) : Bool :=
  let avgSecs := (toF64 self.movingAverageUs).div million
  (avgSecs.mul HIGH_VARIANCE_RATIO).lt (self.solveTimeStdDev avgSecs)

/-- The adjustment is deferred, or: above 32.36 seconds the size is less than 115, and up to 2.5 seconds
there is no more left to recover than twice the size. -/
def Steady (self : DifficultyAdjuster) : Prop :=
  self.recentSolveTimesUs.length < DIFFICULTY_WINDOW / 2 ∨ highVariance self = true ∨
    ((32360679 < self.movingAverageUs → self.currentSize < 115) ∧
      ∀ target ∈ self.recoveryTarget, 0 < self.movingAverageUs → self.movingAverageUs ≤ 2500000 →
        target.toNat ≤ 2 * self.currentSize.toNat)

/-! ### The comparisons of floats -/

section Thresholds

variable {y : F64}

/-- Quotients of `u64` by the same number. -/
theorem quotient_mono (hy : y.negative = false) (hfinite : y.isFinite = true) (hzero : y.isZero = false)
    (a b : UInt64) (h : a ≤ b) : ((toF64 a).div y).key ≤ ((toF64 b).div y).key :=
  ofNat_div_mono h (UInt64.toNat_lt b) hy hfinite hzero

theorem isNaN_quotient (hnan : y.isNaN = false) (hinf : y.isInf = false) (hzero : y.isZero = false)
    (avgUs : UInt64) : ((toF64 avgUs).div y).isNaN = false :=
  isNaN_div (isNaN_round ..) hnan hinf hzero

theorem stalled_iff (avgUs : UInt64) : stalled avgUs = true ↔ 32360679 < avgUs := by
  have hnan := isNaN_quotient (y := million) (by decide) (by decide) (by decide) avgUs
  rw [stalled, lt_iff (by decide +kernel) hnan]
  exact lt_iff_of_step (k := 32360680) (quotient_mono (y := million) (by decide) (by decide) (by decide)) rfl
    (by decide +kernel) (by decide +kernel) avgUs

/-- Up to 12 seconds the times are stable. -/
theorem stable_iff (avgUs : UInt64) :
    ((toF64 avgUs).div (toF64 (max DEFAULT_TARGET_US 1))).le RECOVERY_STABLE_RATIO = true ↔
      avgUs ≤ 12000000 := by
  have hnan := isNaN_quotient (y := toF64 (max DEFAULT_TARGET_US 1)) (by decide +kernel) (by decide +kernel)
    (by decide +kernel) avgUs
  rw [le_iff hnan (by decide), ← not_lt, ← UInt64.not_lt]
  refine not_congr (lt_iff_of_step (k := 12000001) (quotient_mono ?_ ?_ ?_) rfl ?_ ?_ avgUs)
  · decide +kernel
  · decide +kernel
  · decide +kernel
  · decide +kernel
  · decide +kernel

end Thresholds

/-! ### The size that is clamped -/

section Clamp

theorem iter_eq {n x : ℕ} (hn : 0 < n) (hx : Nat.sqrt n ≤ x) : Nat.sqrt.iter n x = Nat.sqrt n := by
  have hroot : 0 < Nat.sqrt n := Nat.sqrt_pos.mpr hn
  induction x using Nat.strong_induction_on with
  | _ x ih =>
    rw [Nat.sqrt.iter]
    change (if newtonStep n x < x then Nat.sqrt.iter n (newtonStep n x) else x) = _
    split_ifs with hnext
    · exact ih _ hnext (sqrt_le_newtonStep (hroot.trans_le hx))
    · exact le_antisymm (le_sqrt_of_le_newtonStep (not_lt.mp hnext)) hx

theorem isqrt_eq (n : ℕ) : isqrt n = Nat.sqrt n := by
  rw [isqrt]
  split_ifs with hzero
  · rw [hzero, Nat.sqrt_zero]
  · exact iter_eq (Nat.pos_of_ne_zero hzero) (Nat.sqrt_le_self n)

variable {current : Usize} {avgUs : UInt64}

/-- `adjusted_size`, from the size of the adjuster. -/
def adjustedSize (current : Usize) (avgUs : UInt64) : Usize :=
  let rawNewSize := computeNewSizeDeterministic current avgUs (max DEFAULT_TARGET_US 1)
  let stallRatio := avgUs / max DEFAULT_TARGET_US 1
  if 5 < stallRatio then max (rawNewSize * 2 / 5) ABSOLUTE_MIN_SIZE
  else if 2 < stallRatio then max (rawNewSize * 7 / 10) ABSOLUTE_MIN_SIZE
  else rawNewSize

/-- `bounded`, before the recovery. -/
def boundedSize (current : Usize) (avgUs : UInt64) : Usize :=
  min (max (adjustedSize current avgUs) (max (UInt64.ofNat (current.toNat * 2 / 5)) MIN_OPERATIONAL_SIZE))
    (min (UInt64.ofNat (current.toNat * 2 / 1)) CANONICAL_MAX_SIZE)

/-- `raw_new_size`, from the size and the average. -/
def rawSize (current avg : ℕ) : ℕ :=
  if avg = 0 then current else Nat.sqrt (current * current * 10000000 / avg)

theorem le_rawSize_iff {c avg k : ℕ} (havg : 0 < avg) : k ≤ rawSize c avg ↔ k * k * avg ≤ c * c * 10000000 := by
  rw [rawSize, if_neg havg.ne', Nat.le_sqrt, Nat.le_div_iff_mul_le havg]

/-- A slower average makes the size smaller, by the root of the ratio. -/
theorem mul_rawSize_le {c avg p q : ℕ} (havg : 0 < avg) (h : p * p * 10000000 ≤ q * q * avg) :
    p * rawSize c avg ≤ q * c := by
  have hraw := (le_rawSize_iff (c := c) havg).mp le_rfl
  refine Nat.mul_self_le_mul_self_iff.mp (Nat.le_of_mul_le_mul_right ?_ havg)
  calc p * rawSize c avg * (p * rawSize c avg) * avg
      = p * p * (rawSize c avg * rawSize c avg * avg) := by ring
    _ ≤ p * p * (c * c * 10000000) := Nat.mul_le_mul_left _ hraw
    _ = p * p * 10000000 * (c * c) := by ring
    _ ≤ q * q * avg * (c * c) := Nat.mul_le_mul_right _ h
    _ = q * c * (q * c) * avg := by ring

theorem rawSize_lt {c : ℕ} (hc : c ≤ 220) (avg : ℕ) : rawSize c avg < 2 ^ 40 := by
  have hsq : c * c ≤ 220 * 220 := Nat.mul_le_mul hc hc
  rw [rawSize]
  split_ifs with havg
  · omega
  · have hdiv : c * c * 10000000 / avg ≤ c * c * 10000000 := Nat.div_le_self _ _
    have hroot : Nat.sqrt (c * c * 10000000 / avg) ≤ c * c * 10000000 / avg := Nat.sqrt_le_self _
    omega

theorem toNat_rawNewSize (hcurrent : current.toNat ≤ 220) :
    (computeNewSizeDeterministic current avgUs (max DEFAULT_TARGET_US 1)).toNat =
      rawSize current.toNat avgUs.toNat := by
  have htarget : (max DEFAULT_TARGET_US 1).toNat = 10000000 := rfl
  have hzero : avgUs = 0 ↔ avgUs.toNat = 0 := by rw [← UInt64.toNat_inj]; rfl
  have hsq : current.toNat * current.toNat ≤ 220 * 220 := Nat.mul_le_mul hcurrent hcurrent
  have hlt := rawSize_lt hcurrent avgUs.toNat
  simp only [rawSize] at hlt ⊢
  simp only [computeNewSizeDeterministic, hzero, htarget]
  split_ifs at hlt ⊢ with havg
  · rfl
  · rw [min_eq_left (by omega), isqrt_eq]
    exact UInt64.toNat_ofNat_of_lt' (hlt.trans (by decide))

/-- The size before it is clamped, in natural numbers. -/
theorem toNat_adjustedSize (hcurrent : current.toNat ≤ 220) : (adjustedSize current avgUs).toNat =
    if 5 < avgUs.toNat / 10000000 then max (rawSize current.toNat avgUs.toNat * 2 / 5) 1
    else if 2 < avgUs.toNat / 10000000 then max (rawSize current.toNat avgUs.toNat * 7 / 10) 1
    else rawSize current.toNat avgUs.toNat := by
  have hlt := rawSize_lt hcurrent avgUs.toNat
  rw [← toNat_rawNewSize hcurrent] at hlt ⊢
  unfold adjustedSize
  generalize computeNewSizeDeterministic current avgUs (max DEFAULT_TARGET_US 1) = raw at hlt
  have hratio : (avgUs / max DEFAULT_TARGET_US 1).toNat = avgUs.toNat / 10000000 := rfl
  have hfive : 5 < avgUs / max DEFAULT_TARGET_US 1 ↔ 5 < avgUs.toNat / 10000000 := by
    rw [UInt64.lt_iff_toNat_lt, hratio]; rfl
  have htwo : 2 < avgUs / max DEFAULT_TARGET_US 1 ↔ 2 < avgUs.toNat / 10000000 := by
    rw [UInt64.lt_iff_toNat_lt, hratio]; rfl
  have hdouble : (raw * 2 : UInt64).toNat = raw.toNat * 2 := by
    rw [UInt64.toNat_mul]
    exact Nat.mod_eq_of_lt (show raw.toNat * 2 < 2 ^ 64 by omega)
  have hseven : (raw * 7 : UInt64).toNat = raw.toNat * 7 := by
    rw [UInt64.toNat_mul]
    exact Nat.mod_eq_of_lt (show raw.toNat * 7 < 2 ^ 64 by omega)
  simp only [hfive, htwo]
  split_ifs
  · rw [toNat_max, UInt64.toNat_div, hdouble]
    rfl
  · rw [toNat_max, UInt64.toNat_div, hseven]
    rfl
  · rfl

/-- After a stall the size is at most two fifths: `0.7² · 10 / 32.36 < 0.4²`. -/
theorem adjustedSize_le_of_stalled (hcurrent : current.toNat ≤ 220) (hstalled : 32360679 < avgUs.toNat) :
    (adjustedSize current avgUs).toNat ≤ max (current.toNat * 2 / 5) 1 := by
  have hfactor : 7 * rawSize current.toNat avgUs.toNat ≤ 4 * current.toNat :=
    mul_rawSize_le (by omega) (by omega)
  rw [toNat_adjustedSize hcurrent]
  split_ifs <;> omega

/-- An average of 10 seconds or more lets nothing grow. -/
theorem adjustedSize_le (hcurrent : current.toNat ≤ 220) (hpos : 0 < current.toNat)
    (hslow : 10000000 ≤ avgUs.toNat) : (adjustedSize current avgUs).toNat ≤ current.toNat := by
  have hle : 1 * rawSize current.toNat avgUs.toNat ≤ 1 * current.toNat :=
    mul_rawSize_le (by omega) (by omega)
  rw [toNat_adjustedSize hcurrent]
  split_ifs <;> omega

/-- The size doubles exactly up to 2.5 seconds. -/
theorem le_adjustedSize_iff (hcurrent : current.toNat ≤ 220) (hpos : 0 < current.toNat) :
    2 * current.toNat ≤ (adjustedSize current avgUs).toNat ↔ 0 < avgUs.toNat ∧ avgUs.toNat ≤ 2500000 := by
  rcases Nat.lt_or_ge avgUs.toNat 10000000 with hfast | hslow
  · rw [toNat_adjustedSize hcurrent, if_neg (by omega), if_neg (by omega)]
    rcases Nat.eq_zero_or_pos avgUs.toNat with hzero | havg
    · rw [hzero, rawSize, if_pos rfl]
      omega
    · rw [le_rawSize_iff havg]
      have hsq : 0 < current.toNat * current.toNat := Nat.mul_pos hpos hpos
      have hfour : 2 * current.toNat * (2 * current.toNat) * avgUs.toNat =
          current.toNat * current.toNat * (4 * avgUs.toNat) := by ring
      rw [hfour, Nat.mul_le_mul_left_iff hsq]
      omega
  · have hle := adjustedSize_le hcurrent hpos hslow
    omega

theorem toNat_boundedSize (hcurrent : current.toNat ≤ 220) : (boundedSize current avgUs).toNat =
    min (max (adjustedSize current avgUs).toNat (max (current.toNat * 2 / 5) 45)) (min (current.toNat * 2) 220) := by
  have hlow : (UInt64.ofNat (current.toNat * 2 / 5)).toNat = current.toNat * 2 / 5 :=
    UInt64.toNat_ofNat_of_lt' (show _ < 2 ^ 64 by omega)
  have hhigh : (UInt64.ofNat (current.toNat * 2 / 1)).toNat = current.toNat * 2 := by
    rw [Nat.div_one]
    exact UInt64.toNat_ofNat_of_lt' (show _ < 2 ^ 64 by omega)
  rw [boundedSize, toNat_min, toNat_min, toNat_max, toNat_max, hlow, hhigh]
  rfl

end Clamp

/-! ### What an operation does -/

section Operations

/-- The size is within its bounds, and what is left to recover is above it. -/
structure Inv (s : DifficultyAdjuster) : Prop where
  low : 45 ≤ s.size.toNat
  high : s.size.toNat ≤ 220
  target : ∀ target ∈ s.recoveryTarget, s.size.toNat ≤ target.toNat ∧ target.toNat ≤ 220

variable {self : DifficultyAdjuster}

theorem Inv.currentSize_eq (h : Inv self) : self.currentSize = self.size := by
  have hlow := h.low
  refine UInt64.toNat_inj.mp ?_
  rw [currentSize, toNat_max]
  exact max_eq_left (show (1 : ℕ) ≤ _ by omega)

theorem Inv.inBounds (h : Inv self) : InBounds self := by
  rw [InBounds, h.currentSize_eq, UInt64.le_iff_toNat_le, UInt64.le_iff_toNat_le]
  exact ⟨h.low, h.high⟩

theorem inv_new (networkMetrics : Option NetworkMetrics) (registry : Option ProblemRegistry) :
    Inv (new networkMetrics registry) where
  low := show 45 ≤ BOOTSTRAP_CURRENT_SIZE.toNat by decide
  high := show BOOTSTRAP_CURRENT_SIZE.toNat ≤ 220 by decide
  target _ h := by cases h

theorem inv_record (h : Inv self) (solveTimeUs : UInt64) : Inv (self.recordSolveTimeUs solveTimeUs) where
  low := h.low
  high := h.high
  target := h.target

/-- A penalty: a smaller size, and the first of the sizes since the last recovery to go back to. -/
theorem inv_penalty (h : Inv self) {reduced counter : Usize} (hlow : 45 ≤ reduced.toNat)
    (hle : reduced.toNat ≤ self.size.toNat) : Inv { self with
      recoveryTarget := some (self.recoveryTarget.getD self.currentSize)
      size := reduced
      stallCounter := counter } where
  low := hlow
  high := hle.trans h.high
  target target htarget := by
    obtain rfl := Option.some.inj htarget
    rw [h.currentSize_eq]
    cases hself : self.recoveryTarget with
    | none => exact ⟨hle, h.high⟩
    | some old =>
      obtain ⟨hsize, hold⟩ := h.target old hself
      exact ⟨hle.trans hsize, hold⟩

theorem toNat_stallPenalty (h : Inv self) :
    self.applyStallPenalty.size.toNat = max (self.size.toNat * 7 / 10) 45 := by
  have hhigh := h.high
  change (UInt64.ofNat (max (max (self.currentSize.toNat * 7 / 10) 45) 1)).toNat = _
  rw [h.currentSize_eq, UInt64.toNat_ofNat_of_lt' (show _ < 2 ^ 64 by omega)]
  omega

theorem inv_stallPenalty (h : Inv self) : Inv self.applyStallPenalty := by
  have hlow := h.low
  have hsize := toNat_stallPenalty h
  have hge : 45 ≤ self.applyStallPenalty.size.toNat := by omega
  have hle : self.applyStallPenalty.size.toNat ≤ self.size.toNat := by omega
  exact inv_penalty h hge hle

theorem inv_penalizeFailure (h : Inv self) : Inv self.penalizeFailure := by
  have hlow := h.low
  have hhigh := h.high
  have hsize : self.penalizeFailure.size.toNat = max (self.size.toNat * 90 / 100) 45 := by
    change (UInt64.ofNat (max (max (max (self.currentSize.toNat * 90 / 100) 45) 45) 1)).toNat = _
    rw [h.currentSize_eq, UInt64.toNat_ofNat_of_lt' (show _ < 2 ^ 64 by omega)]
    omega
  have hge : 45 ≤ self.penalizeFailure.size.toNat := by omega
  have hle : self.penalizeFailure.size.toNat ≤ self.size.toNat := by omega
  exact inv_penalty h hge hle

/-- `apply_recovery` and the size that is set after it. -/
def recovered (self : DifficultyAdjuster) (avgUs : UInt64) : DifficultyAdjuster :=
  let (bounded, self) := self.applyRecovery (boundedSize self.currentSize avgUs)
    ((toF64 avgUs).div (toF64 (max DEFAULT_TARGET_US 1)))
  { self with size := max bounded ABSOLUTE_MIN_SIZE }

theorem adjustDifficulty_eq : self.adjustDifficulty =
    if self.recentSolveTimesUs.length < DIFFICULTY_WINDOW / 2 then self
    else
      let after := if stalled self.movingAverageUs then self.applyStallPenalty else self
      if highVariance self then after else recovered after self.movingAverageUs := by
  unfold adjustDifficulty adjustDifficultyTo
  cases hstalled : stalled self.movingAverageUs with
  | false =>
    have hlt : ((((toF64 DEFAULT_TARGET_US).div million).mul PHI).mul ⟨0x4000000000000000⟩).lt
        ((toF64 self.movingAverageUs).div million) = false := hstalled
    simp only [hlt, Bool.false_eq_true, if_false]
    rfl
  | true =>
    have hlt : ((((toF64 DEFAULT_TARGET_US).div million).mul PHI).mul ⟨0x4000000000000000⟩).lt
        ((toF64 self.movingAverageUs).div million) = true := hstalled
    simp only [hlt, if_true]
    rfl

theorem boundedSize_range (h : Inv self) (avgUs : UInt64) :
    self.size.toNat * 2 / 5 ≤ (boundedSize self.size avgUs).toNat ∧ 45 ≤ (boundedSize self.size avgUs).toNat ∧
      (boundedSize self.size avgUs).toNat ≤ self.size.toNat * 2 ∧ (boundedSize self.size avgUs).toNat ≤ 220 := by
  have hlow := h.low
  have hhigh := h.high
  rw [toNat_boundedSize hhigh]
  omega

theorem max_boundedSize (h : Inv self) (avgUs : UInt64) :
    max (boundedSize self.size avgUs) ABSOLUTE_MIN_SIZE = boundedSize self.size avgUs := by
  obtain ⟨-, hlow, -⟩ := boundedSize_range h avgUs
  refine UInt64.toNat_inj.mp ?_
  rw [toNat_max]
  exact max_eq_left (show (1 : ℕ) ≤ _ by omega)

theorem recovered_none (h : Inv self) (avgUs : UInt64) (hnone : self.recoveryTarget = none) :
    (recovered self avgUs).size = boundedSize self.size avgUs ∧ (recovered self avgUs).recoveryTarget = none := by
  have hmax := max_boundedSize h avgUs
  simp only [recovered, h.currentSize_eq, applyRecovery, hnone]
  split_ifs
  · exact ⟨by rw [hmax, hmax], rfl⟩
  · exact ⟨by rw [hmax, hmax], hnone⟩

theorem recovered_slow (h : Inv self) {avgUs : UInt64} (hslow : 12000000 < avgUs) :
    (recovered self avgUs).size = boundedSize self.size avgUs ∧
      (recovered self avgUs).recoveryTarget = self.recoveryTarget := by
  cases htarget : self.recoveryTarget with
  | none => exact recovered_none h avgUs htarget
  | some target =>
    have hmax := max_boundedSize h avgUs
    have hstable : ¬((toF64 avgUs).div (toF64 (max DEFAULT_TARGET_US 1))).le RECOVERY_STABLE_RATIO = true :=
      fun hle => UInt64.not_le.mpr hslow ((stable_iff avgUs).mp hle)
    simp only [recovered, h.currentSize_eq, applyRecovery, htarget, if_neg hstable]
    exact ⟨by rw [hmax, hmax], trivial⟩

theorem recovered_stable (h : Inv self) {avgUs : UInt64} (hfast : avgUs ≤ 12000000) {target : Usize}
    (htarget : self.recoveryTarget = some target) :
    (recovered self avgUs).size.toNat = min ((boundedSize self.size avgUs).toNat + 1) target.toNat ∧
      (recovered self avgUs).recoveryTarget =
        if target.toNat ≤ (boundedSize self.size avgUs).toNat + 1 then none else some target := by
  obtain ⟨-, hlow, -, hhigh⟩ := boundedSize_range h avgUs
  have hsize := h.low
  obtain ⟨hle, -⟩ := h.target target htarget
  have hstep : (boundedSize self.size avgUs + RECOVERY_STEP).toNat = (boundedSize self.size avgUs).toNat + 1 :=
    toNat_add_of_lt (show (boundedSize self.size avgUs).toNat + 1 < 2 ^ 64 by omega)
  have hnext : (min (boundedSize self.size avgUs + RECOVERY_STEP) target).toNat =
      min ((boundedSize self.size avgUs).toNat + 1) target.toNat := by rw [toNat_min, hstep]
  simp only [recovered, h.currentSize_eq, applyRecovery, htarget, if_pos ((stable_iff avgUs).mpr hfast)]
  constructor
  · rw [toNat_max, toNat_max, hnext]
    change max (max _ 1) 1 = _
    omega
  · have hdone : target ≤ min (boundedSize self.size avgUs + RECOVERY_STEP) target ↔
        target.toNat ≤ (boundedSize self.size avgUs).toNat + 1 := by
      rw [UInt64.le_iff_toNat_le, hnext]
      omega
    simp only [hdone]
    split_ifs
    · rfl
    · exact htarget

/-- An average above 12 seconds lets nothing grow. -/
theorem boundedSize_le (h : Inv self) {avgUs : UInt64} (hslow : 12000000 < avgUs) :
    (boundedSize self.size avgUs).toNat ≤ self.size.toNat := by
  have hlow := h.low
  have havg : 12000000 < avgUs.toNat := UInt64.lt_iff_toNat_lt.mp hslow
  have hle : (adjustedSize self.size avgUs).toNat ≤ self.size.toNat :=
    adjustedSize_le h.high (by omega) (by omega)
  rw [toNat_boundedSize h.high]
  omega

theorem inv_recovered (h : Inv self) (avgUs : UInt64) : Inv (recovered self avgUs) := by
  obtain ⟨-, hlow, -, hhigh⟩ := boundedSize_range h avgUs
  by_cases hslow : 12000000 < avgUs
  · obtain ⟨hsize, htarget⟩ := recovered_slow h hslow
    have hle := boundedSize_le h hslow
    refine ⟨by rw [hsize]; exact hlow, by rw [hsize]; exact hhigh, fun target hmem => ?_⟩
    rw [htarget] at hmem
    obtain ⟨habove, hmax⟩ := h.target target hmem
    rw [hsize]
    exact ⟨hle.trans habove, hmax⟩
  · rw [UInt64.not_lt] at hslow
    cases hself : self.recoveryTarget with
    | none =>
      obtain ⟨hsize, htarget⟩ := recovered_none h avgUs hself
      refine ⟨by rw [hsize]; exact hlow, by rw [hsize]; exact hhigh, fun target hmem => ?_⟩
      rw [htarget] at hmem
      cases hmem
    | some target =>
      obtain ⟨hsize, htarget⟩ := recovered_stable h hslow hself
      obtain ⟨habove, hmax⟩ := h.target target hself
      have hself45 := h.low
      refine ⟨by omega, by omega, fun left hmem => ?_⟩
      rw [htarget] at hmem
      split_ifs at hmem
      · cases hmem
      · obtain rfl := Option.some.inj hmem
        omega

theorem inv_adjust (h : Inv self) : Inv self.adjustDifficulty := by
  rw [adjustDifficulty_eq]
  simp only
  split_ifs
  · exact h
  · exact inv_stallPenalty h
  · exact h
  · exact inv_recovered (inv_stallPenalty h) _
  · exact inv_recovered h _

end Operations

/-! ### One adjustment -/

section Step

variable {self : DifficultyAdjuster}

theorem inStep_iff (h : Inv self) {s : DifficultyAdjuster} (hs : Inv s) : InStep self.currentSize s.currentSize ↔
    self.size.toNat * 2 / 5 ≤ s.size.toNat ∧ s.size.toNat ≤ self.size.toNat * 2 := by
  rw [InStep, h.currentSize_eq, hs.currentSize_eq, Nat.div_one]

/-- After a stall the size is clamped twice: at 70 percent, and at two fifths of that. -/
theorem stalled_bounded_iff (h : Inv self) {avgUs : UInt64} (hstalled : 32360679 < avgUs) :
    InStep self.currentSize (recovered self.applyStallPenalty avgUs).currentSize ↔ self.size.toNat < 115 := by
  have hpenalty := inv_stallPenalty h
  have hslow : 12000000 < avgUs := UInt64.lt_trans (by decide) hstalled
  have havg : 32360679 < avgUs.toNat := UInt64.lt_iff_toNat_lt.mp hstalled
  have hadjusted := adjustedSize_le_of_stalled hpenalty.high havg
  have hbounded := @toNat_boundedSize _ avgUs hpenalty.high
  have hsize := toNat_stallPenalty h
  have hlow := h.low
  have hhigh := h.high
  rw [inStep_iff h (inv_recovered hpenalty avgUs), (recovered_slow hpenalty hslow).1]
  omega

/-- What is left to recover adds one to a size that has doubled. -/
theorem recovered_bounded_iff (h : Inv self) (avgUs : UInt64) :
    InStep self.currentSize (recovered self avgUs).currentSize ↔
      ∀ target ∈ self.recoveryTarget, 0 < avgUs → avgUs ≤ 2500000 → target.toNat ≤ 2 * self.currentSize.toNat := by
  obtain ⟨hfifths, hlow, hdouble, hhigh⟩ := boundedSize_range h avgUs
  rw [inStep_iff h (inv_recovered h avgUs), h.currentSize_eq]
  cases htarget : self.recoveryTarget with
  | none =>
    rw [(recovered_none h avgUs htarget).1]
    exact iff_of_true ⟨hfifths, hdouble⟩ fun target hmem => by cases hmem
  | some target =>
    have hsize := h.low
    obtain ⟨habove, hmax⟩ := h.target target htarget
    have hall : (∀ left ∈ some target, 0 < avgUs → avgUs ≤ 2500000 → left.toNat ≤ 2 * self.size.toNat) ↔
        (0 < avgUs.toNat → avgUs.toNat ≤ 2500000 → target.toNat ≤ 2 * self.size.toNat) := by
      simp only [Option.mem_def, Option.some.injEq, forall_eq', UInt64.lt_iff_toNat_lt, UInt64.le_iff_toNat_le]
      rfl
    rw [hall]
    by_cases hslow : 12000000 < avgUs
    · have havg : 12000000 < avgUs.toNat := UInt64.lt_iff_toNat_lt.mp hslow
      rw [(recovered_slow h hslow).1]
      omega
    · rw [UInt64.not_lt] at hslow
      rw [(recovered_stable h hslow htarget).1]
      have hdoubled := @le_adjustedSize_iff _ avgUs h.high (by omega)
      have hbounded := @toNat_boundedSize _ avgUs h.high
      omega

theorem adjust_bounded_iff (h : Inv self) :
    InStep self.currentSize self.adjustDifficulty.currentSize ↔ Steady self := by
  have hlow := h.low
  have hhigh := h.high
  have hsize := toNat_stallPenalty h
  have hstay : InStep self.currentSize self.currentSize := (inStep_iff h h).mpr (by omega)
  have hpenalty : InStep self.currentSize self.applyStallPenalty.currentSize :=
    (inStep_iff h (inv_stallPenalty h)).mpr (by omega)
  have hsmall : self.currentSize < 115 ↔ self.size.toNat < 115 := by
    rw [h.currentSize_eq, UInt64.lt_iff_toNat_lt]
    rfl
  rw [adjustDifficulty_eq, Steady, hsmall]
  simp only [stalled_iff]
  by_cases hfew : self.recentSolveTimesUs.length < DIFFICULTY_WINDOW / 2
  · rw [if_pos hfew]
    exact iff_of_true hstay (Or.inl hfew)
  by_cases hvariance : highVariance self = true
  · rw [if_neg hfew, if_pos hvariance]
    refine iff_of_true ?_ (Or.inr (Or.inl hvariance))
    split_ifs
    · exact hpenalty
    · exact hstay
  rw [if_neg hfew, if_neg hvariance, or_iff_right hfew, or_iff_right hvariance]
  by_cases hstalled : 32360679 < self.movingAverageUs
  · rw [if_pos hstalled, stalled_bounded_iff h hstalled]
    constructor
    · intro hless
      refine ⟨fun _ => hless, fun target _ _ hfast => ?_⟩
      exact absurd (UInt64.lt_of_lt_of_le hstalled hfast) (by decide)
    · intro hsteady
      exact hsteady.1 hstalled
  · rw [if_neg hstalled, recovered_bounded_iff h]
    constructor
    · intro hleft
      exact ⟨fun hlt => absurd hlt hstalled, hleft⟩
    · intro hsteady
      exact hsteady.2

end Step

/-! ### Runs -/

section Runs

variable {self : DifficultyAdjuster}

/-- What every operation keeps. -/
theorem inv_next (op : Op) (h : Inv self) : Inv (adjusterMachine.next op self) := by
  cases op with
  | record solveTimeUs => exact inv_record h solveTimeUs
  | adjust => exact inv_adjust h
  | penalizeFailure => exact inv_penalizeFailure h
  | applyStallPenalty => exact inv_stallPenalty h

theorem inv_run (ops : List Op) (h : Inv self) :
    (∀ p ∈ adjusterMachine.trace ops self, Inv p.2) ∧ Inv (adjusterMachine.final ops self) := by
  have hstep : ∀ p ∈ adjusterMachine.trace ops self, Inv p.2 → Inv (adjusterMachine.next p.1 p.2) :=
    fun p _ hp => inv_next p.1 hp
  exact ⟨Machine.invariant_trace hstep h, Machine.invariant hstep h⟩

/-- In every run of a new adjuster the size keeps within its absolute bounds, and each adjustment keeps to the
step exactly if all of them are steady. -/
theorem steps_bounded_iff (networkMetrics : Option NetworkMetrics) (registry : Option ProblemRegistry)
    (ops : List Op) :
    ((∀ p ∈ adjusterMachine.trace ops (new networkMetrics registry), InBounds p.2) ∧
      InBounds (adjusterMachine.final ops (new networkMetrics registry))) ∧
    (StepsBounded ops (new networkMetrics registry) ↔
      ∀ p ∈ adjusterMachine.trace ops (new networkMetrics registry), p.1 = .adjust → Steady p.2) := by
  obtain ⟨htrace, hfinal⟩ := inv_run ops (inv_new networkMetrics registry)
  refine ⟨⟨fun p hp => (htrace p hp).inBounds, hfinal.inBounds⟩, ?_⟩
  exact forall₂_congr fun p hp => imp_congr_right fun _ => adjust_bounded_iff (htrace p hp)

/-- From 220 to 61 in one step after twenty solve times of 100 seconds, and from 45 to 91 where 110 is left to
recover. -/
theorem steps_too_large :
    ¬StepsBounded (List.replicate 10 (.record 1000000) ++ [.adjust] ++ List.replicate 20 (.record 100000000) ++
        [.adjust]) (new none none) ∧
      ¬StepsBounded (List.replicate 9 .penalizeFailure ++ List.replicate 10 (.record 1000000) ++ [.adjust])
        (new none none) := by
  decide +kernel

end Runs

end Coinjecture.Consensus.StepBounds
