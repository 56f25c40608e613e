import Mathlib.Data.Nat.Sqrt
import Mathlib.Tactic.Linarith

/-! # Newton's iteration for the integer square root

A step from any positive number stays at or above the root, and a number that a step does not make
smaller is at or below it. -/

namespace Coinjecture.Lib.Newton

/-- One step for the root of `n`. -/
def newtonStep (n x : ℕ) : ℕ := (x + n / x) / 2

theorem sqrt_le_newtonStep {n x : ℕ} (hx : 0 < x) : Nat.sqrt n ≤ newtonStep n x := by
  rw [newtonStep, Nat.le_div_iff_mul_le two_pos]
  set s := Nat.sqrt n
  have hs : s * s ≤ n := Nat.sqrt_le n
  by_cases hlarge : s * 2 ≤ x
  · exact hlarge.trans (Nat.le_add_right _ _)
  -- `(2s - x) x ≤ s²`
  have hquot : s * 2 - x ≤ n / x := by
    rw [Nat.le_div_iff_mul_le hx]
    obtain ⟨t, ht⟩ : ∃ t, s * 2 = x + t := ⟨s * 2 - x, by omega⟩
    rw [ht, Nat.add_sub_cancel_left]
    refine le_trans ?_ hs
    nlinarith [sq_nonneg ((s : ℤ) - x)]
  omega

theorem le_sqrt_of_le_newtonStep {n x : ℕ} (h : x ≤ newtonStep n x) : x ≤ Nat.sqrt n := by
  by_cases hx : x = 0
  · exact hx ▸ Nat.zero_le _
  rw [newtonStep, Nat.le_div_iff_mul_le two_pos] at h
  have hquot : x ≤ n / x := by omega
  exact Nat.le_sqrt.mpr ((Nat.le_div_iff_mul_le (Nat.pos_of_ne_zero hx)).mp hquot)

/-- Half of `n`, rounded up, is the step from `n`. -/
theorem newtonStep_self {n : ℕ} (h : 0 < n) : newtonStep n n = (n + 1) / 2 := by
  rw [newtonStep, Nat.div_self h]

/-- Between the root and `n` the two numbers a step adds are no more than `n` together, `n ≤ 3` apart. -/
theorem add_div_le {n y : ℕ} (hroot : Nat.sqrt n ≤ y) (hy : y < n) : y + n / y ≤ max n 4 := by
  by_cases htwo : y < 2
  · have hn : n < 2 * 2 := (Nat.sqrt_lt).mp (by omega)
    have hquot : n / y ≤ n := Nat.div_le_self _ _
    omega
  by_cases hquot : n / y < 2
  · omega
  have hprod : y * (n / y) ≤ n := Nat.mul_div_le n y
  exact le_max_of_le_left (by nlinarith)

end Coinjecture.Lib.Newton
