import Coinjecture.Core.FixedPoint

/-! # The deterministic work score

What every node computes from the solve and the verify time of a header and the quality of its solution:
the logarithm of the asymmetry, scaled by the quality.

* `deterministic_score` : the logarithm is right where there is one, no bit is lost on the way, and the
  score is monotone in all three arguments and bounded.
-/

namespace Coinjecture.Consensus.WorkScore

open Core.FixedPoint
open Lib.LinearLog
open Lib.Words

def MIN_VERIFY_TIME_US : BitVec 64 := 1

def MIN_ASYMMETRY_US : BitVec 64 := 2

/-- `u64::max`. -/
def maxU64 (a b : BitVec 64) : BitVec 64 := if a ≤ b then b else a

/-- `u64::saturating_mul`. -/
def satMul (a b : BitVec 64) : BitVec 64 :=
  if a.toNat * b.toNat < 2 ^ 64 then a * b else BitVec.allOnes 64

/-- `calculate_deterministic`. -/
def calculateDeterministic (solveTimeUs verifyTimeUs : BitVec 64) (qualityBps : BitVec 16) :
    Option Fixed64 :=
  if qualityBps = 0 then some 0
  else
    let verifyUs := maxU64 verifyTimeUs MIN_VERIFY_TIME_US
    if solveTimeUs < satMul verifyUs MIN_ASYMMETRY_US then some 0
    else do
      match ← log2Ratio solveTimeUs verifyUs with
      | none => some 0
      | some bits => applyQuality bits qualityBps

/-! ### The score as a number -/

/-- The times give a score. -/
def Asymmetric (solve verify : ℕ) : Prop := min (max verify 1 * 2) (2 ^ 64 - 1) ≤ solve ∧ max verify 1 < solve

instance (solve verify : ℕ) : Decidable (Asymmetric solve verify) :=
  inferInstanceAs (Decidable (_ ∧ _))

def scoreOf (solve verify quality : ℕ) : ℕ :=
  if Asymmetric solve verify then qualityShare (logScore solve (max verify 1)) quality else 0

theorem toNat_maxU64 (a b : BitVec 64) : (maxU64 a b).toNat = max a.toNat b.toNat := by
  unfold maxU64
  split_ifs with h
  · exact (max_eq_right (BitVec.le_def.mp h)).symm
  · exact (max_eq_left (BitVec.le_def.not.mp h |> not_le.mp).le).symm

theorem toNat_satMul (a b : BitVec 64) : (satMul a b).toNat = min (a.toNat * b.toNat) (2 ^ 64 - 1) := by
  unfold satMul
  split_ifs with h
  · rw [BitVec.toNat_mul, Nat.mod_eq_of_lt h]
    exact (min_eq_left (by omega)).symm
  · rw [BitVec.toNat_allOnes]
    exact (min_eq_right (by omega)).symm

theorem qualityShare_zero (score : ℕ) : qualityShare score 0 = 0 := by
  rw [qualityShare, Nat.zero_min, Nat.mul_zero, Nat.zero_div]

/-- The score is computed, and it is `scoreOf`. -/
theorem computes_calculateDeterministic (solve verify : BitVec 64) (quality : BitVec 16) :
    Computes (calculateDeterministic solve verify quality)
      (scoreOf solve.toNat verify.toNat quality.toNat) := by
  have hverify : (maxU64 verify MIN_VERIFY_TIME_US).toNat = max verify.toNat 1 := toNat_maxU64 _ _
  have hpos : maxU64 verify MIN_VERIFY_TIME_US ≠ 0 := by
    intro h
    rw [h] at hverify
    exact absurd hverify (Nat.ne_of_lt (lt_max_of_lt_right one_pos))
  have hfloor : (satMul (maxU64 verify MIN_VERIFY_TIME_US) MIN_ASYMMETRY_US).toNat =
      min (max verify.toNat 1 * 2) (2 ^ 64 - 1) := by
    rw [toNat_satMul, hverify]
    rfl
  by_cases hzero : quality = 0
  · have hscore : scoreOf solve.toNat verify.toNat quality.toNat = 0 := by
      rw [scoreOf, hzero, show (0 : BitVec 16).toNat = 0 from rfl, qualityShare_zero, ite_self]
    rw [calculateDeterministic, if_pos hzero, hscore]
    exact ⟨0, rfl, rfl⟩
  rw [calculateDeterministic, if_neg hzero]
  by_cases hshort : solve < satMul (maxU64 verify MIN_VERIFY_TIME_US) MIN_ASYMMETRY_US
  · have hnone : ¬ Asymmetric solve.toNat verify.toNat := fun hasym =>
      absurd (hasym.1.trans_lt (hfloor ▸ BitVec.lt_def.mp hshort)) (lt_irrefl _)
    rw [scoreOf, if_neg hnone]
    exact ⟨0, if_pos hshort, rfl⟩
  simp only [if_neg hshort]
  by_cases hlt : maxU64 verify MIN_VERIFY_TIME_US < solve
  · have hasym : Asymmetric solve.toNat verify.toNat :=
      ⟨hfloor ▸ not_lt.mp (mt BitVec.lt_def.mpr hshort), hverify ▸ BitVec.lt_def.mp hlt⟩
    obtain ⟨bits, hbits, hval⟩ := computes_logScore hpos hlt
    rw [scoreOf, if_pos hasym, hbits, ← hverify, ← hval]
    exact computes_applyQuality bits quality
  · have hnone : ¬ Asymmetric solve.toNat verify.toNat := fun hasym =>
      hlt (BitVec.lt_def.mpr (hverify ▸ hasym.2))
    rw [scoreOf, if_neg hnone, log2Ratio_none (.inr (BitVec.not_lt.mp hlt))]
    exact ⟨0, rfl, rfl⟩

/-! ### Monotonicity and the bound -/

theorem asymmetric_mono {s t v u : ℕ} (hs : s ≤ t) (hv : u ≤ v) (h : Asymmetric s v) : Asymmetric t u := by
  unfold Asymmetric at *
  omega

theorem scoreOf_mono {s t v u q r : ℕ} (hs : s ≤ t) (hv : u ≤ v) (hq : q ≤ r) :
    scoreOf s v q ≤ scoreOf t u r := by
  unfold scoreOf
  by_cases h : Asymmetric s v
  · rw [if_pos h, if_pos (asymmetric_mono hs hv h)]
    exact qualityShare_mono (logScore_mono (lt_max_of_lt_right one_pos) h.2.le hs
      (max_le_max_right 1 hv)) hq
  · rw [if_neg h]
    exact Nat.zero_le _

theorem scoreOf_lt {s : ℕ} (hs : s < 2 ^ 64) (v q : ℕ) : scoreOf s v q < 64 * 1000000 := by
  unfold scoreOf
  split_ifs with h
  · exact (qualityShare_le _ _).trans_lt (logScore_lt hs (lt_max_of_lt_right one_pos) h.2.le)
  · decide

/-- The score is right, no bit is lost, and it is monotone and bounded. -/
theorem deterministic_score :
    (∀ n d : BitVec 64, ∃ r, log2Ratio n d = some r ∧ (r = none ↔ d = 0 ∨ n ≤ d) ∧
      ∀ score, r = some score → 2 ^ (score / SCALE).toNat * d.toNat ≤ n.toNat ∧
        n.toNat < 2 ^ ((score / SCALE).toNat + 1) * d.toNat) ∧
    (∀ s v q, ∃ score, calculateDeterministic s v q = some score ∧ score.toNat ≤ 64 * SCALE.toNat) ∧
    ∀ s t v u : BitVec 64, ∀ q r : BitVec 16, s ≤ t → u ≤ v → q ≤ r →
      ∀ a b, calculateDeterministic s v q = some a → calculateDeterministic t u r = some b → a ≤ b := by
  refine ⟨fun n d => ?_, fun s v q => ?_, fun s t v u q r hs hv hq a b ha hb => ?_⟩
  · by_cases h : d = 0 ∨ n ≤ d
    · exact ⟨none, log2Ratio_none h, by simpa using h, by simp⟩
    obtain ⟨hd, hlt⟩ := not_or.mp h
    have hlt' : d.toNat < n.toNat := BitVec.lt_def.mp (BitVec.not_le.mp hlt)
    have hdpos : 0 < d.toNat := Nat.pos_of_ne_zero fun hzero => hd (BitVec.eq_of_toNat_eq hzero)
    obtain ⟨score, hscore, hval⟩ := computes_logScore hd (BitVec.not_le.mp hlt)
    refine ⟨some score, hscore, by simpa using h, fun score' hsome => ?_⟩
    obtain rfl := Option.some.inj hsome
    have hlog : (score / SCALE).toNat = Nat.log 2 (n.toNat / d.toNat) := by
      rw [BitVec.toNat_udiv, hval]
      exact logScore_div hdpos hlt'.le
    rw [hlog]
    exact ⟨two_pow_log_mul_le hdpos hlt'.le, lt_two_pow_log_mul hdpos⟩
  · obtain ⟨score, hscore, hval⟩ := computes_calculateDeterministic s v q
    exact ⟨score, hscore, hval ▸ (scoreOf_lt s.isLt _ _).le⟩
  · obtain ⟨a', ha', hvala⟩ := computes_calculateDeterministic s v q
    obtain ⟨b', hb', hvalb⟩ := computes_calculateDeterministic t u r
    obtain rfl := Option.some.inj (ha.symm.trans ha')
    obtain rfl := Option.some.inj (hb.symm.trans hb')
    rw [BitVec.le_def, hvala, hvalb]
    exact scoreOf_mono hs hv hq

end Coinjecture.Consensus.WorkScore
