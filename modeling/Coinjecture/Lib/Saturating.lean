import Mathlib.Data.BitVec
import Mathlib.Tactic.Common

/-! # Arithmetic that stops at the ends

On words of `w` bits addition and subtraction wrap. `satSub` does not: it takes away `v`, or everything;
and it takes an addition back exactly if the addition did not wrap. `satAdd` adds `v`, or as much of it
as fits: a sum of words is the sum of their values if that fits. -/

namespace Coinjecture.Lib.Saturating

variable {w : ℕ}

def satSub (x v : BitVec w) : BitVec w := if v ≤ x then x - v else 0

/-- The sum of two words is a word. -/
def NoCarry (x v : BitVec w) : Prop := x.toNat + v.toNat < 2 ^ w

instance (x v : BitVec w) : Decidable (NoCarry x v) := inferInstanceAs (Decidable (_ < _))

theorem toNat_zero' : (0 : BitVec w).toNat = 0 := by simp

theorem satSub_of_le {x v : BitVec w} (h : v ≤ x) : satSub x v = x - v := if_pos h

theorem satSub_of_lt {x v : BitVec w} (h : x < v) : satSub x v = 0 :=
  if_neg (BitVec.not_le.mpr h)

theorem toNat_satSub (x v : BitVec w) : (satSub x v).toNat = x.toNat - v.toNat := by
  by_cases h : v ≤ x
  · rw [satSub_of_le h, BitVec.toNat_sub_of_le h]
  · have hlt : x < v := BitVec.not_le.mp h
    have hnat : x.toNat < v.toNat := hlt
    rw [satSub_of_lt hlt, toNat_zero']
    omega

/-- Where a subtraction stops at zero, what is missing stays. -/
theorem satSub_eq_sub_add (x v : BitVec w) : satSub x v = x - v + satSub v x := by
  by_cases h : v ≤ x
  · have hnone : satSub v x = 0 := by
      have hle := BitVec.le_def.mp h
      rw [BitVec.toNat_eq, toNat_satSub, toNat_zero']
      omega
    rw [satSub_of_le h, hnone, add_zero]
  · have hlt := BitVec.not_le.mp h
    rw [satSub_of_lt hlt, satSub_of_le (BitVec.le_of_lt hlt), sub_add_sub_cancel, sub_self]

/-- Taking `v` away changes nothing exactly if there is nothing to take. -/
theorem satSub_eq_self {x v : BitVec w} : satSub x v = x ↔ v = 0 ∨ x = 0 := by
  rw [BitVec.toNat_eq, toNat_satSub, BitVec.toNat_eq, BitVec.toNat_eq, toNat_zero']
  omega

/-- What was added is taken back exactly if the addition did not wrap. -/
theorem satSub_add_iff {x v : BitVec w} : satSub (x + v) v = x ↔ NoCarry x v := by
  have hx := x.isLt
  have hv := v.isLt
  rw [BitVec.toNat_eq, toNat_satSub, BitVec.toNat_add, NoCarry]
  constructor
  · intro h
    by_contra hge
    have hmod : (x.toNat + v.toNat) % 2 ^ w = x.toNat + v.toNat - 2 ^ w := by
      rw [Nat.mod_eq_sub_mod (Nat.le_of_not_lt hge), Nat.mod_eq_of_lt (by omega)]
    rw [hmod] at h
    omega
  · intro h
    rw [Nat.mod_eq_of_lt h]
    omega

/-- Two additions are taken back in the order they were made in, unless a sum wraps on top of
something. -/
theorem satSub_satSub_add_iff {x u v : BitVec w} :
    satSub (satSub (x + u + v) u) v = x ↔ x = 0 ∨ x.toNat + u.toNat + v.toNat < 2 ^ w := by
  have hx := x.isLt
  have hu := u.isLt
  have hv := v.isLt
  have hsum : (x + u + v).toNat = (x.toNat + u.toNat + v.toNat) % 2 ^ w := by
    rw [BitVec.toNat_add, BitVec.toNat_add, Nat.mod_add_mod]
  rw [BitVec.toNat_eq, toNat_satSub, toNat_satSub, hsum, BitVec.toNat_eq, toNat_zero']
  by_cases hlt : x.toNat + u.toNat + v.toNat < 2 ^ w
  · rw [Nat.mod_eq_of_lt hlt]
    omega
  · have hdiv := Nat.mod_add_div (x.toNat + u.toNat + v.toNat) (2 ^ w)
    have hquot : 0 < (x.toNat + u.toNat + v.toNat) / 2 ^ w :=
      Nat.div_pos (Nat.le_of_not_lt hlt) (Nat.two_pow_pos w)
    have hge : 2 ^ w ≤ 2 ^ w * ((x.toNat + u.toNat + v.toNat) / 2 ^ w) :=
      Nat.le_mul_of_pos_right _ hquot
    omega

/-! ### Addition -/

def satAdd (x v : BitVec w) : BitVec w := if x.toNat + v.toNat < 2 ^ w then x + v else BitVec.allOnes w

theorem toNat_satAdd {x v : BitVec w} (h : NoCarry x v) :
    (satAdd x v).toNat = x.toNat + v.toNat := by
  have hlt : x.toNat + v.toNat < 2 ^ w := h
  rw [satAdd, if_pos hlt, BitVec.toNat_add, Nat.mod_eq_of_lt hlt]

/-- `satAdd` of all words of a list, which fit. -/
theorem toNat_foldl_satAdd {α : Type} {f : α → BitVec w} {l : List α} {x : BitVec w}
    (h : x.toNat + (l.map fun a => (f a).toNat).sum < 2 ^ w) :
    (l.foldl (fun s a => satAdd s (f a)) x).toNat =
      x.toNat + (l.map fun a => (f a).toNat).sum := by
  induction l generalizing x with
  | nil => simp
  | cons a l ih =>
    rw [List.map_cons, List.sum_cons] at h
    have hfirst : (satAdd x (f a)).toNat = x.toNat + (f a).toNat :=
      toNat_satAdd (show _ < _ by omega)
    rw [List.foldl_cons, ih (by omega), hfirst, List.map_cons, List.sum_cons]
    omega

end Coinjecture.Lib.Saturating
