import Mathlib.Order.Lattice
import Mathlib.Tactic.Common

/-! # Binary search

The search of a sorted slice halves the part that can hold the key until one entry is left, and compares only
then. Of several entries with the key it finds one. -/

namespace Coinjecture.Lib.BinarySearch

variable {α : Type*} [LinearOrder α]

/-- The entry that is left of the `size` entries from `base` on. -/
def searchBase (keys : List α) (key : α) (size base : ℕ) : ℕ :=
  if 1 < size then
    let mid := base + size / 2
    searchBase keys key (size - size / 2) (if keys[mid]?.any (key < ·) then base else mid)
  else base
termination_by size
decreasing_by omega

/-- `binary_search`, without the place of a key that is missing. -/
def binarySearch (keys : List α) (key : α) : Option ℕ :=
  let base := searchBase keys key keys.length 0
  if keys[base]? = some key then some base else none

variable {keys : List α} {key : α} {i : ℕ}

theorem getElem?_of_binarySearch (h : binarySearch keys key = some i) : keys[i]? = some key := by
  rw [binarySearch] at h
  split_ifs at h with hkey
  obtain rfl := Option.some.inj h
  exact hkey

/-- A part that holds the key is narrowed down to an entry with the key. -/
theorem getElem?_searchBase (hsorted : keys.Pairwise (· ≤ ·)) (size base : ℕ) (hsize : 0 < size)
    (hend : base + size ≤ keys.length)
    (hkey : ∃ i, base ≤ i ∧ i < base + size ∧ keys[i]? = some key) :
    keys[searchBase keys key size base]? = some key := by
  induction size using Nat.strongRecOn generalizing base with
  | ind size ih =>
    obtain ⟨i, hbase, hlt, hi⟩ := hkey
    rw [searchBase]
    split_ifs with hone
    · have hmid : base + size / 2 < keys.length := by omega
      have hget : keys[base + size / 2]? = some keys[base + size / 2] := List.getElem?_eq_getElem hmid
      obtain ⟨hilt, hieq⟩ := List.getElem?_eq_some_iff.mp hi
      dsimp only
      rw [hget, Option.any_some]
      split_ifs with hgt
      · -- the entry in the middle is beyond the key, and so is every later one
        have hgt := of_decide_eq_true hgt
        refine ih _ (by omega) base (by omega) (by omega) ⟨i, hbase, ?_, hi⟩
        by_contra hge
        rcases Nat.lt_or_eq_of_le (show base + size / 2 ≤ i by omega) with hlt' | heq
        · have hle := List.pairwise_iff_getElem.mp hsorted _ _ hmid hilt hlt'
          rw [hieq] at hle
          exact absurd hle (not_le.mpr hgt)
        · subst heq
          rw [hieq] at hgt
          exact lt_irrefl _ hgt
      · have hle := not_lt.mp fun hlt => hgt (decide_eq_true hlt)
        rcases Nat.lt_or_ge i (base + size / 2) with hbefore | hafter
        · -- the key is before the middle, so that the entry there has the key too
          have hge := List.pairwise_iff_getElem.mp hsorted _ _ hilt hmid hbefore
          rw [hieq] at hge
          exact ih _ (by omega) _ (by omega) (by omega)
            ⟨base + size / 2, Nat.le_refl _, by omega, by rw [hget, le_antisymm hle hge]⟩
        · exact ih _ (by omega) _ (by omega) (by omega) ⟨i, hafter, by omega, hi⟩
    · obtain rfl : i = base := by omega
      exact hi

theorem exists_binarySearch (hsorted : keys.Pairwise (· ≤ ·)) (hmem : key ∈ keys) :
    ∃ i, binarySearch keys key = some i := by
  obtain ⟨i, hi⟩ := List.mem_iff_getElem?.mp hmem
  have hilt : i < keys.length := (List.getElem?_eq_some_iff.mp hi).1
  have hfound := getElem?_searchBase hsorted keys.length 0 (by omega) (by omega) ⟨i, by omega, by omega, hi⟩
  exact ⟨_, if_pos hfound⟩

end Coinjecture.Lib.BinarySearch
