import Coinjecture.Core.FixedPoint
import Coinjecture.Core.Types

/-! # The block reward

`⌊w · S · K / isqrt W⌋` for the truncated work score `w` of a header and the cumulative work `W`
through its parent. A product that leaves the 128 bits gives the largest reward. -/

namespace Coinjecture.Tokenomics.Rewards

open Lib.Float64
open Lib.Words (eq_of_checkedAdd eq_of_checkedDiv)
open Core
open Core.Types

def REWARD_FIXED_POINT_SCALE : BitVec 128 := 1000000000000

def REWARD_EMISSION_MULTIPLIER : BitVec 128 := 50

/-- The `while` loop of `isqrt`. -/
def isqrtLoop (n x y : BitVec 128) : BitVec 128 :=
  if y < x then isqrtLoop n y ((y + n / y) / 2) else x
termination_by x.toNat

/-- `fixed_point::isqrt`. -/
def isqrt (n : BitVec 128) : BitVec 128 :=
  if n = 0 then 0
  else isqrtLoop n n (n / 2 + n % 2)

theorem fixedPoint_isqrtLoop {n x y r : BitVec 128} (h : FixedPoint.isqrtLoop n x y = some r) :
    isqrtLoop n x y = r := by
  induction x, y using isqrtLoop.induct n with
  | case1 x y hlt ih =>
    rw [FixedPoint.isqrtLoop, dif_pos hlt] at h
    obtain ⟨q, hq, h⟩ := Option.bind_eq_some_iff.mp h
    obtain ⟨sum, hsum, h⟩ := Option.bind_eq_some_iff.mp h
    obtain ⟨half, hhalf, h⟩ := Option.bind_eq_some_iff.mp h
    rw [isqrtLoop, if_pos hlt]
    obtain rfl := eq_of_checkedDiv hq
    obtain rfl := eq_of_checkedAdd hsum
    obtain rfl := eq_of_checkedDiv hhalf
    exact ih h
  | case2 x y hge =>
    rw [FixedPoint.isqrtLoop, dif_neg hge] at h
    rw [isqrtLoop, if_neg hge]
    exact Option.some.inj h

/-- The root a reward is divided by is the integer square root. -/
theorem toNat_isqrt (n : BitVec 128) : (isqrt n).toNat = n.toNat.sqrt := by
  obtain ⟨r, hr, hval⟩ := FixedPoint.computes_isqrt n
  rw [← hval]
  unfold FixedPoint.isqrt at hr
  unfold isqrt
  split_ifs at hr ⊢ with hzero
  · rw [← Option.some.inj hr]
  · obtain ⟨y, hy, hloop⟩ := Option.bind_eq_some_iff.mp hr
    obtain ⟨y', hy', hyval⟩ := FixedPoint.computes_divCeil_two n
    obtain rfl := Option.some.inj (hy.symm.trans hy')
    have hn : n.toNat < 2 ^ 128 := n.isLt
    have hhalf : n / 2 + n % 2 = y := by
      refine BitVec.eq_of_toNat_eq ?_
      rw [hyval, BitVec.toNat_add, BitVec.toNat_udiv, BitVec.toNat_umod]
      rw [show (2 : BitVec 128).toNat = 2 from rfl]
      omega
    rw [hhalf, fixedPoint_isqrtLoop hloop]

/-- `header_work_score_trunc_u128`. -/
def headerWorkScoreTruncU128 (workScore : F64) : BitVec 128 :=
  if !workScore.isFinite || workScore.le F64.zero then 0
  else ((workScore.max F64.zero).toUnsigned 64).setWidth 128

/-- `checked_mul`. -/
def checkedMul (a b : BitVec 128) : Option (BitVec 128) :=
  if a.toNat * b.toNat < 2 ^ 128 then some (a * b) else none

/-- `RewardCalculator::calculate_block_reward`. -/
def calculateBlockReward (workScore : F64) (parentCumulativeWork : BitVec 128) : Balance :=
  if parentCumulativeWork = 0 then 0
  else
    let root := isqrt parentCumulativeWork
    let denom := if root < 1 then 1 else root
    match checkedMul (headerWorkScoreTruncU128 workScore) REWARD_FIXED_POINT_SCALE with
    | none => BitVec.allOnes 128
    | some ws =>
      match checkedMul ws REWARD_EMISSION_MULTIPLIER with
      | none => BitVec.allOnes 128
      | some num => num / denom

end Coinjecture.Tokenomics.Rewards
