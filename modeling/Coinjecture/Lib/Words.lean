import Mathlib.Data.BitVec
import Mathlib.Tactic.Common

/-! # Machine arithmetic that tells of a loss

A sum, a product, a shift or a cast of words may lose bits. Here it has no value then, as it has none
where it divides by zero; where it has one, it is the one of the natural numbers. -/

namespace Coinjecture.Lib.Words

variable {w : ℕ}

def checkedAdd (a b : BitVec w) : Option (BitVec w) :=
  if a.toNat + b.toNat < 2 ^ w then some (a + b) else none

def checkedMul (a b : BitVec w) : Option (BitVec w) :=
  if a.toNat * b.toNat < 2 ^ w then some (a * b) else none

def checkedDiv (a b : BitVec w) : Option (BitVec w) :=
  if b = 0 then none else some (a / b)

/-- `a << k`, where no bit leaves the word. -/
def checkedShl (a : BitVec w) (k : ℕ) : Option (BitVec w) :=
  if a.toNat * 2 ^ k < 2 ^ w then some (a <<< k) else none

/-- The cast to a word of `v` bits, where the value fits. -/
def checkedCast (v : ℕ) (a : BitVec w) : Option (BitVec v) :=
  if a.toNat < 2 ^ v then some (a.setWidth v) else none

theorem eq_of_checkedAdd {a b c : BitVec w} (h : checkedAdd a b = some c) : a + b = c :=
  (Option.ite_none_right_eq_some.mp h).2 |> Option.some.inj

theorem eq_of_checkedDiv {a b c : BitVec w} (h : checkedDiv a b = some c) : a / b = c :=
  (Option.ite_none_left_eq_some.mp h).2 |> Option.some.inj

/-- `x` is computed, and its value is `n`. -/
def Computes (x : Option (BitVec w)) (n : ℕ) : Prop := ∃ v, x = some v ∧ v.toNat = n

theorem computes_bind {v : ℕ} {x : Option (BitVec w)} {f : BitVec w → Option (BitVec v)} {n m : ℕ}
    (hx : Computes x n) (hf : ∀ a, a.toNat = n → Computes (f a) m) : Computes (x >>= f) m := by
  obtain ⟨a, rfl, ha⟩ := hx
  exact hf a ha

theorem computes_some (a : BitVec w) : Computes (some a) a.toNat := ⟨a, rfl, rfl⟩

theorem computes_checkedAdd {a b : BitVec w} (h : a.toNat + b.toNat < 2 ^ w) :
    Computes (checkedAdd a b) (a.toNat + b.toNat) :=
  ⟨a + b, if_pos h, BitVec.toNat_add_of_lt h⟩

theorem computes_checkedMul {a b : BitVec w} (h : a.toNat * b.toNat < 2 ^ w) :
    Computes (checkedMul a b) (a.toNat * b.toNat) :=
  ⟨a * b, if_pos h, by rw [BitVec.toNat_mul, Nat.mod_eq_of_lt h]⟩

theorem computes_checkedDiv {a b : BitVec w} (h : 0 < b.toNat) :
    Computes (checkedDiv a b) (a.toNat / b.toNat) := by
  have hb : b ≠ 0 := by
    rintro rfl
    simp at h
  exact ⟨a / b, if_neg hb, BitVec.toNat_udiv⟩

theorem computes_checkedShl {a : BitVec w} {k : ℕ} (h : a.toNat * 2 ^ k < 2 ^ w) :
    Computes (checkedShl a k) (a.toNat * 2 ^ k) :=
  ⟨a <<< k, if_pos h, by rw [BitVec.toNat_shiftLeft, Nat.shiftLeft_eq, Nat.mod_eq_of_lt h]⟩

theorem computes_checkedCast {a : BitVec w} {v : ℕ} (h : a.toNat < 2 ^ v) :
    Computes (checkedCast v a) a.toNat :=
  ⟨a.setWidth v, if_pos h, by rw [BitVec.toNat_setWidth, Nat.mod_eq_of_lt h]⟩

/-- The place of the leading one. -/
theorem sub_clz_eq_log2 {a : BitVec w} (h : 0 < a.toNat) :
    w - 1 - a.clz.toNat = a.toNat.log2 := by
  have hne : a ≠ 0 := by
    rintro rfl
    simp at h
  have hclz : a.clz.toNat < w := by
    have hlt := BitVec.lt_def.mp (BitVec.clz_lt_iff_ne_zero.mpr hne)
    exact hlt.trans_le (by simp)
  have hlow := BitVec.two_pow_sub_clz_le_toNat_of_ne_zero (Nat.zero_lt_of_lt hclz) hne
  have hhigh := BitVec.toNat_lt_two_pow_sub_clz (x := a)
  rw [eq_comm, Nat.log2_eq_iff h.ne', show w - 1 - a.clz.toNat + 1 = w - a.clz.toNat by omega]
  exact ⟨hlow, hhigh⟩

/-! ### Words of 64 bits -/

theorem toNat_min (a b : UInt64) : (min a b).toNat = min a.toNat b.toNat := by
  change (if a ≤ b then a else b).toNat = _
  split_ifs with h
  · exact (min_eq_left (UInt64.le_iff_toNat_le.mp h)).symm
  · rw [UInt64.le_iff_toNat_le] at h
    exact (min_eq_right (by omega)).symm

theorem toNat_max (a b : UInt64) : (max a b).toNat = max a.toNat b.toNat := by
  change (if a ≤ b then b else a).toNat = _
  split_ifs with h
  · exact (max_eq_right (UInt64.le_iff_toNat_le.mp h)).symm
  · rw [UInt64.le_iff_toNat_le] at h
    exact (max_eq_left (by omega)).symm

theorem toNat_add_of_lt {a b : UInt64} (h : a.toNat + b.toNat < 2 ^ 64) :
    (a + b).toNat = a.toNat + b.toNat := by
  rw [UInt64.toNat_add, Nat.mod_eq_of_lt h]

end Coinjecture.Lib.Words
