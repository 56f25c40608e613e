import Mathlib.Data.Nat.Log
import Mathlib.Tactic.Linarith

/-! # The piecewise linear binary logarithm

A number `r` is read with `s` binary places. Between two powers of two the logarithm is replaced by the
chord, in steps of `1 / c`: the result is monotone, it is right at the powers of two, and its integer
part is the one of the logarithm. -/

namespace Coinjecture.Lib.LinearLog

/-- The leading `s + 1` bits of `r`. -/
def mantissa (s r : ℕ) : ℕ := r / 2 ^ (r.log2 - s)

/-- What the chord adds to the integer part, times `c`. -/
def chord (c s r : ℕ) : ℕ := (mantissa s r - 2 ^ s) * c / 2 ^ s

/-- The logarithm of `r / 2 ^ s`, times `c`. -/
def linearLog (c s r : ℕ) : ℕ := (r.log2 - s) * c + chord c s r

variable {c s : ℕ}

theorem le_log2_of_le {r : ℕ} (h : 2 ^ s ≤ r) : s ≤ r.log2 :=
  (Nat.le_log2 (Nat.ne_of_gt ((Nat.two_pow_pos s).trans_le h))).mpr h

theorem le_mantissa {r : ℕ} (h : 2 ^ s ≤ r) : 2 ^ s ≤ mantissa s r := by
  have hr : r ≠ 0 := Nat.ne_of_gt ((Nat.two_pow_pos s).trans_le h)
  rw [mantissa, Nat.le_div_iff_mul_le (Nat.two_pow_pos _), ← pow_add,
    Nat.add_sub_cancel' (le_log2_of_le h)]
  exact Nat.log2_self_le hr

theorem mantissa_lt {r : ℕ} (h : 2 ^ s ≤ r) : mantissa s r < 2 ^ (s + 1) := by
  have hsum : s + 1 + (r.log2 - s) = r.log2 + 1 := by
    have := le_log2_of_le h
    omega
  rw [mantissa, Nat.div_lt_iff_lt_mul (Nat.two_pow_pos _), ← pow_add, hsum]
  exact Nat.lt_log2_self

theorem chord_lt {r : ℕ} (hc : 0 < c) (h : 2 ^ s ≤ r) : chord c s r < c := by
  have hlt := mantissa_lt h
  rw [pow_succ] at hlt
  rw [chord, Nat.div_lt_iff_lt_mul (Nat.two_pow_pos _), mul_comm c]
  exact Nat.mul_lt_mul_of_pos_right (by omega) hc

/-- The integer part. -/
theorem linearLog_div {r : ℕ} (hc : 0 < c) (h : 2 ^ s ≤ r) : linearLog c s r / c = r.log2 - s := by
  rw [linearLog, add_comm, Nat.add_mul_div_right _ _ hc, Nat.div_eq_of_lt (chord_lt hc h), zero_add]

theorem log2_mono {r t : ℕ} (h : r ≤ t) : r.log2 ≤ t.log2 := by
  rw [Nat.log2_eq_log_two, Nat.log2_eq_log_two]
  exact Nat.log_mono_right h

theorem linearLog_mono {r t : ℕ} (hc : 0 < c) (hr : 2 ^ s ≤ r) (h : r ≤ t) :
    linearLog c s r ≤ linearLog c s t := by
  rcases (log2_mono h).eq_or_lt with hsame | hmore
  · -- on one chord
    have hmant : mantissa s r ≤ mantissa s t := by
      rw [mantissa, mantissa, hsame]
      exact Nat.div_le_div_right h
    rw [linearLog, linearLog, hsame]
    exact Nat.add_le_add_left (Nat.div_le_div_right (Nat.mul_le_mul_right _ (Nat.sub_le_sub_right hmant _))) _
  · -- a chord ends below the next integer
    have hint : r.log2 - s + 1 ≤ t.log2 - s := by
      have := le_log2_of_le hr
      omega
    calc linearLog c s r ≤ (r.log2 - s) * c + c := Nat.add_le_add_left (chord_lt hc hr).le _
      _ = (r.log2 - s + 1) * c := (Nat.succ_mul _ _).symm
      _ ≤ (t.log2 - s) * c := Nat.mul_le_mul_right _ hint
      _ ≤ linearLog c s t := Nat.le_add_right _ _

theorem two_pow_log_mul_le {n d : ℕ} (hd : 0 < d) (h : d ≤ n) : 2 ^ Nat.log 2 (n / d) * d ≤ n := by
  have hone : 1 ≤ n / d := (Nat.one_le_div_iff hd).mpr h
  exact (Nat.le_div_iff_mul_le hd).mp (Nat.pow_log_le_self 2 (Nat.one_le_iff_ne_zero.mp hone))

theorem lt_two_pow_log_mul {n d : ℕ} (hd : 0 < d) : n < 2 ^ (Nat.log 2 (n / d) + 1) * d :=
  (Nat.div_lt_iff_lt_mul hd).mp (Nat.lt_pow_succ_log_self one_lt_two _)

/-- The integer part of the logarithm of a quotient that was taken with `s` binary places. -/
theorem log2_shifted_div {n d : ℕ} (hd : 0 < d) (h : d ≤ n) :
    (n * 2 ^ s / d).log2 - s = Nat.log 2 (n / d) := by
  have hlow := two_pow_log_mul_le hd h
  have hhigh := lt_two_pow_log_mul (n := n) hd
  set k := Nat.log 2 (n / d)
  have hs : 0 < 2 ^ s := Nat.two_pow_pos s
  have hlow' : 2 ^ (k + s) ≤ n * 2 ^ s / d := by
    rw [Nat.le_div_iff_mul_le hd, pow_add]
    nlinarith
  have hhigh' : n * 2 ^ s / d < 2 ^ (k + s + 1) := by
    rw [Nat.div_lt_iff_lt_mul hd, show k + s + 1 = k + 1 + s by omega, pow_add 2 (k + 1) s]
    nlinarith
  have hlog : (n * 2 ^ s / d).log2 = k + s :=
    (Nat.log2_eq_iff (Nat.ne_of_gt ((Nat.two_pow_pos _).trans_le hlow'))).mpr ⟨hlow', hhigh'⟩
  rw [hlog, Nat.add_sub_cancel]

end Coinjecture.Lib.LinearLog
