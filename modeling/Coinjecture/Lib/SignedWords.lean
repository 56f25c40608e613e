import Mathlib.Data.BitVec
import Mathlib.Tactic.Common

/-! # Signed machine words

When the operations on `i64`, and the casts to it and from it, are those of the integers. A quotient has no value
where the machine stops: when it divides by zero, or the least word by minus one. -/

namespace Coinjecture.Lib.SignedWords

/-- The integers that a signed word of 64 bits takes. -/
def InRange (x : ℤ) : Prop := -2 ^ 63 ≤ x ∧ x < 2 ^ 63

theorem bmod_eq_iff {x : ℤ} : x.bmod (2 ^ 64) = x ↔ InRange x := by
  rw [InRange]
  constructor
  · intro h
    have hlow := @Int.le_bmod x (2 ^ 64) (by decide)
    have hhigh := @Int.bmod_lt x (2 ^ 64) (by decide)
    omega
  · rintro ⟨hlow, hhigh⟩
    exact Int.bmod_eq_of_le (by omega) (by omega)

section
variable {a b : Int64}

theorem toInt_inRange (a : Int64) : InRange a.toInt := ⟨a.le_toInt, a.toInt_lt⟩

theorem toInt_add_iff : (a + b).toInt = a.toInt + b.toInt ↔ InRange (a.toInt + b.toInt) := by
  rw [Int64.toInt_add, bmod_eq_iff]

theorem toInt_sub_iff : (a - b).toInt = a.toInt - b.toInt ↔ InRange (a.toInt - b.toInt) := by
  rw [Int64.toInt_sub, bmod_eq_iff]

theorem toInt_mul_iff : (a * b).toInt = a.toInt * b.toInt ↔ InRange (a.toInt * b.toInt) := by
  rw [Int64.toInt_mul, bmod_eq_iff]

theorem toInt_max (a b : Int64) : (max a b).toInt = max a.toInt b.toInt := by
  have hmax : max a b = if a ≤ b then b else a := rfl
  rw [hmax]
  split_ifs with h
  · exact (max_eq_right (Int64.le_iff_toInt_le.mp h)).symm
  · exact (max_eq_left (le_of_not_ge fun hle => h (Int64.le_iff_toInt_le.mpr hle))).symm

/-- `a / b`, where the machine goes on. -/
def checkedDiv (a b : Int64) : Option Int64 :=
  if b = 0 ∨ (a = Int64.minValue ∧ b = -1) then none else some (a / b)

theorem eq_of_checkedDiv {c : Int64} (h : checkedDiv a b = some c) : a / b = c :=
  (Option.ite_none_left_eq_some.mp h).2 |> Option.some.inj

theorem ne_neg_one_of_pos (h : 0 < b.toInt) : b ≠ -1 := by
  rintro rfl
  exact absurd h (by decide)

theorem checkedDiv_of_pos (h : 0 < b.toInt) : checkedDiv a b = some (a / b) := by
  refine if_neg (not_or.mpr ⟨?_, fun hmin => ne_neg_one_of_pos h hmin.2⟩)
  rintro rfl
  exact absurd h (by decide)

theorem toInt_div_of_pos (h : 0 < b.toInt) : (a / b).toInt = a.toInt.tdiv b.toInt :=
  Int64.toInt_div_of_ne_right a b (ne_neg_one_of_pos h)

end

section
variable {w : ℕ}

/-- `as i64`. -/
def ofUnsigned (a : BitVec w) : Int64 := Int64.ofBitVec (a.setWidth 64)

/-- The cast back, to a word of `w` bits. -/
def toUnsigned (w : ℕ) (a : Int64) : BitVec w := a.toBitVec.signExtend w

theorem toInt_ofUnsigned_iff {a : BitVec w} : (ofUnsigned a).toInt = a.toNat ↔ a.toNat < 2 ^ 63 := by
  rw [ofUnsigned, Int64.toInt_ofBitVec, BitVec.toInt_eq_toNat_cond, BitVec.toNat_setWidth]
  constructor
  · intro h
    split_ifs at h <;> omega
  · intro h
    rw [Nat.mod_eq_of_lt (h.trans (by decide)), if_pos (by omega)]

theorem toNat_toUnsigned {a : Int64} (hw : 64 ≤ w) (h : 0 ≤ a.toInt) : ((toUnsigned w a).toNat : ℤ) = a.toInt := by
  have hsigned : (toUnsigned w a).toInt = a.toInt := by
    rw [toUnsigned, BitVec.toInt_signExtend_of_le hw, Int64.toInt_toBitVec]
  rw [← hsigned, BitVec.toInt_eq_toNat_of_msb]
  rw [← hsigned] at h
  rw [BitVec.msb_eq_toInt]
  exact decide_eq_false (not_lt.mpr h)

end

/-! ### Quotients towards zero -/

theorem natCast_tdiv_tdiv (a b c : ℕ) : ((a : ℤ).tdiv b).tdiv c = ((a / b / c : ℕ) : ℤ) := by
  rw [← Int.ofNat_tdiv, ← Int.ofNat_tdiv]

theorem neg_natCast_tdiv_tdiv (a b c : ℕ) : ((-(a : ℤ)).tdiv b).tdiv c = -((a / b / c : ℕ) : ℤ) := by
  rw [Int.neg_tdiv, Int.neg_tdiv, natCast_tdiv_tdiv]

end Coinjecture.Lib.SignedWords
