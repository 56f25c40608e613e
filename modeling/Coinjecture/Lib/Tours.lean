import Mathlib.Algebra.BigOperators.Group.List.Basic
import Mathlib.Data.List.GetD
import Mathlib.Tactic.Ring

/-! # Lengths of tours

A tour goes through a list and from its last entry back to the first. Where the distances are symmetric, a segment
can be turned round at the cost of the steps at its ends (`tourLength_turn`). -/

namespace Coinjecture.Lib.Tours

variable {α : Type*} (d : α → α → ℕ)

/-- The length of the way along the list. -/
def pathLength : List α → ℕ
  | x :: y :: l => d x y + pathLength (y :: l)
  | _ => 0

/-- The length of the way along the list and back to its start. -/
def tourLength : List α → ℕ
  | [] => 0
  | x :: l => pathLength d (x :: l ++ [x])

variable {d} {p q l : List α} {a b c e x y : α}

/-- A way in two parts, with the step between them. -/
theorem pathLength_append (l : List α) (x y : α) (q : List α) :
    pathLength d (l ++ x :: y :: q) = pathLength d (l ++ [x]) + d x y + pathLength d (y :: q) := by
  induction l with
  | nil =>
    change d x y + pathLength d (y :: q) = 0 + d x y + pathLength d (y :: q)
    rw [Nat.zero_add]
  | cons z l ih =>
    cases l with
    | nil =>
      change d z x + (d x y + pathLength d (y :: q)) = d z x + 0 + d x y + pathLength d (y :: q)
      omega
    | cons w l =>
      change d z w + pathLength d (w :: l ++ x :: y :: q) = d z w + pathLength d (w :: l ++ [x]) + _ + _
      rw [ih]
      omega

theorem pathLength_reverse (hsymm : ∀ x y, d x y = d y x) (l : List α) :
    pathLength d l.reverse = pathLength d l := by
  induction l with
  | nil => rfl
  | cons x l ih =>
    cases l with
    | nil => rfl
    | cons y l =>
      have hend : (x :: y :: l).reverse = l.reverse ++ y :: x :: [] := by simp
      have hrest : l.reverse ++ [y] = (y :: l).reverse := List.reverse_cons.symm
      rw [hend, pathLength_append, hrest, ih, hsymm y x]
      change _ + _ + 0 = d x y + pathLength d (y :: l)
      omega

/-- A tour with a segment from `b` to `c` in it, in front of `e`. Behind the last entry comes the first. -/
theorem tourLength_around (p q : List α) (a e : α) (he : (q ++ (p ++ [a])).head? = some e) :
    ∃ q', ∀ b m c, tourLength d (p ++ a :: b :: (m ++ c :: q)) =
      pathLength d (p ++ [a]) + d a b + pathLength d (b :: m ++ [c]) + d c e + pathLength d (e :: q') := by
  obtain ⟨x, l, hstart⟩ := List.exists_cons_of_ne_nil (show p ++ [a] ≠ [] by simp)
  obtain ⟨q', hclose⟩ : ∃ q', q ++ [x] = e :: q' := by
    rw [hstart] at he
    cases q with
    | nil => exact ⟨[], by rw [← Option.some.inj he]; rfl⟩
    | cons z q => exact ⟨q ++ [x], by rw [← Option.some.inj he]; rfl⟩
  refine ⟨q', fun b m c => ?_⟩
  have hcons : p ++ a :: b :: (m ++ c :: q) = x :: (l ++ b :: (m ++ c :: q)) := by
    rw [List.append_cons, hstart]
    rfl
  have hclosed : x :: (l ++ b :: (m ++ c :: q)) ++ [x] = p ++ a :: b :: (m ++ c :: e :: q') := by
    rw [← hcons, ← hclose]
    simp
  rw [hcons]
  change pathLength d (x :: (l ++ b :: (m ++ c :: q)) ++ [x]) = _
  rw [hclosed, pathLength_append]
  change _ + pathLength d (b :: m ++ c :: e :: q') = _
  rw [pathLength_append]
  ring

/-- Turning a segment round exchanges the steps `a b` and `c e` at its ends for `a c` and `b e`. -/
theorem tourLength_turn (hsymm : ∀ x y, d x y = d y x) (p m q : List α) (a b c e : α)
    (he : (q ++ (p ++ [a])).head? = some e) :
    tourLength d (p ++ a :: b :: (m ++ c :: q)) + (d a c + d b e) =
      tourLength d (p ++ a :: c :: (m.reverse ++ b :: q)) + (d a b + d c e) := by
  have hturn : pathLength d (c :: m.reverse ++ [b]) = pathLength d (b :: m ++ [c]) := by
    have hrev : (b :: m ++ [c]).reverse = c :: m.reverse ++ [b] := by simp
    rw [← hrev, pathLength_reverse hsymm]
  obtain ⟨q', hlength⟩ := tourLength_around (d := d) p q a e he
  rw [hlength b m c, hlength c m.reverse b, hturn]
  ring

/-- The steps at the ends of a segment are in the tour. -/
theorem le_tourLength (p m q : List α) (a b c e : α) (he : (q ++ (p ++ [a])).head? = some e) :
    d a b + d c e ≤ tourLength d (p ++ a :: b :: (m ++ c :: q)) := by
  obtain ⟨q', hlength⟩ := tourLength_around (d := d) p q a e he
  rw [hlength b m c]
  omega

/-- The steps of the way, by their index. -/
theorem pathLength_eq_sum (l : List α) (x : α) :
    pathLength d l = ((List.range (l.length - 1)).map fun i => d (l.getD i x) (l.getD (i + 1) x)).sum := by
  induction l with
  | nil => rfl
  | cons y l ih =>
    cases l with
    | nil => rfl
    | cons z l =>
      rw [List.length_cons, Nat.add_sub_cancel, List.length_cons, List.range_succ_eq_map, List.map_cons,
        List.sum_cons, List.map_map]
      change d y z + pathLength d (z :: l) = d y z + _
      rw [ih]
      rfl

theorem tourLength_eq_sum (l : List α) (x : α) :
    tourLength d l =
      ((List.range l.length).map fun i => d (l.getD i x) (l.getD ((i + 1) % l.length) x)).sum := by
  cases l with
  | nil => rfl
  | cons y l =>
    change pathLength d ((y :: l) ++ [y]) = _
    rw [pathLength_eq_sum _ x, List.length_append, List.length_singleton, Nat.add_sub_cancel]
    refine congrArg List.sum (List.map_congr_left fun i hi => ?_)
    have hlt := List.mem_range.mp hi
    rw [List.getD_append _ _ _ _ hlt]
    rcases Nat.lt_or_ge (i + 1) (y :: l).length with hin | hout
    · rw [List.getD_append _ _ _ _ hin, Nat.mod_eq_of_lt hin]
    · have heq : i + 1 = (y :: l).length := by omega
      rw [heq, Nat.mod_self, List.getD_append_right _ _ _ _ le_rfl, Nat.sub_self]
      rfl

end Coinjecture.Lib.Tours
