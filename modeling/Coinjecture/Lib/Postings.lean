import Mathlib.Algebra.Group.Pi.Lemmas
import Mathlib.Algebra.BigOperators.Group.List.Basic
import Mathlib.Tactic.Abel

/-! # Postings to an account table

A table of amounts in a commutative group is a function, and adding `v` to the entry of `a` adds the
function `Pi.single a v`. Written so, a sequence of postings is a sum: postings commute, cancel and
can be collected over a list. For amounts in a ring of integers modulo `2 ^ w` this holds with the
wrap-around included. -/

namespace Coinjecture.Lib.Postings

variable {α G β : Type} [DecidableEq α] [AddCommGroup G]

theorem update_add (b : α → G) (a : α) (v : G) :
    Function.update b a (b a + v) = b + Pi.single a v := by
  ext x
  by_cases hx : x = a
  · subst hx
    simp
  · simp [hx]

theorem update_sub (b : α → G) (a : α) (v : G) :
    Function.update b a (b a - v) = b - Pi.single a v := by
  ext x
  by_cases hx : x = a
  · subst hx
    simp
  · simp [hx]

/-- Two postings cancel if they are opposite postings to one account, or nothing. -/
theorem single_add_single_eq_zero (a b : α) (x y : G) :
    (Pi.single a x + Pi.single b y : α → G) = 0 ↔ if a = b then x + y = 0 else x = 0 ∧ y = 0 := by
  constructor
  · intro h
    have ha := congrFun h a
    have hb := congrFun h b
    split_ifs with hab
    · subst hab
      simpa using ha
    · simp [hab, Ne.symm hab] at ha hb
      exact ⟨ha, hb⟩
  · intro h
    split_ifs at h with hab
    · rw [hab, ← Pi.single_add, h, Pi.single_zero]
    · rw [h.1, h.2, Pi.single_zero, Pi.single_zero, add_zero]

end Coinjecture.Lib.Postings
