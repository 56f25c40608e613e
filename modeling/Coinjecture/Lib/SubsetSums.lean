import Mathlib.Algebra.Order.BigOperators.Group.List
import Mathlib.Data.List.Induction
import Mathlib.Data.Nat.Bitwise
import Mathlib.Tactic.Abel

/-! # Sums of parts of a list

`Reach l s` says that some of the entries of `l` sum to `s`. The sums of a list that grows at its end follow from
those before (`reach_concat`), those of two lists together from the two (`reach_append`), and all of them are found
by going through the numbers below `2 ^ l.length` bit by bit (`reach_iff_mask`). -/

namespace Coinjecture.Lib.SubsetSums

section Group

variable {α : Type*} [AddCommGroup α] {l r : List α} {s v : α}

/-- Some of the entries sum to `s`. -/
def Reach (l : List α) (s : α) : Prop := ∃ sub : List α, sub.Sublist l ∧ sub.sum = s

theorem Reach.zero (l : List α) : Reach l 0 := ⟨[], List.nil_sublist l, List.sum_nil⟩

theorem reach_nil : Reach ([] : List α) s ↔ s = 0 := by
  constructor
  · rintro ⟨sub, hsub, rfl⟩
    rw [List.sublist_nil.mp hsub, List.sum_nil]
  · rintro rfl
    exact Reach.zero []

theorem reach_append : Reach (l ++ r) s ↔ ∃ a, Reach l a ∧ Reach r (s - a) := by
  constructor
  · rintro ⟨sub, hsub, rfl⟩
    obtain ⟨left, right, rfl, hleft, hright⟩ := List.sublist_append_iff.mp hsub
    exact ⟨left.sum, ⟨left, hleft, rfl⟩, right, hright, by rw [List.sum_append]; abel⟩
  · rintro ⟨a, ⟨left, hleft, rfl⟩, right, hright, hsum⟩
    exact ⟨left ++ right, hleft.append hright, by rw [List.sum_append, hsum]; abel⟩

theorem reach_singleton : Reach [v] s ↔ s = 0 ∨ s = v := by
  constructor
  · rintro ⟨sub, hsub, rfl⟩
    rcases List.sublist_singleton.mp hsub with rfl | rfl
    · exact .inl List.sum_nil
    · exact .inr List.sum_singleton
  · rintro (rfl | rfl)
    · exact Reach.zero [v]
    · exact ⟨[s], List.Sublist.refl [s], List.sum_singleton⟩

/-- The last entry is used or not. -/
theorem reach_concat : Reach (l ++ [v]) s ↔ Reach l s ∨ Reach l (s - v) := by
  rw [reach_append]
  constructor
  · rintro ⟨a, hl, hv⟩
    rcases reach_singleton.mp hv with h | h
    · rw [sub_eq_zero.mp h]
      exact .inl hl
    · rw [← h, sub_sub_cancel]
      exact .inr hl
  · rintro (h | h)
    · exact ⟨s, h, by rw [sub_self]; exact Reach.zero [v]⟩
    · exact ⟨s - v, h, by rw [sub_sub_cancel]; exact reach_singleton.mpr (.inr rfl)⟩

/-! ### Indices and masks -/

/-- The sum of the entries at these indices. -/
def sumAt (l : List α) (indices : List ℕ) : α := (indices.map fun i => l.getD i 0).sum

@[simp]
theorem sumAt_nil (l : List α) : sumAt l [] = 0 := rfl

@[simp]
theorem sumAt_cons (l : List α) (i : ℕ) (indices : List ℕ) :
    sumAt l (i :: indices) = l.getD i 0 + sumAt l indices := by
  rw [sumAt, List.map_cons, List.sum_cons, ← sumAt]

@[simp]
theorem sumAt_append (l : List α) (indices js : List ℕ) :
    sumAt l (indices ++ js) = sumAt l indices + sumAt l js := by
  rw [sumAt, List.map_append, List.sum_append, ← sumAt, ← sumAt]

theorem sumAt_perm {indices js : List ℕ} (h : indices.Perm js) : sumAt l indices = sumAt l js :=
  (h.map _).sum_eq

/-- Indices of the list that comes first. -/
theorem sumAt_append_of_lt {indices : List ℕ} (h : ∀ i ∈ indices, i < l.length) :
    sumAt (l ++ r) indices = sumAt l indices := by
  rw [sumAt, sumAt]
  refine congrArg List.sum (List.map_congr_left fun i hi => ?_)
  exact List.getD_append _ _ _ _ (h i hi)

/-- Indices of the list that comes second. -/
theorem sumAt_append_map_add (indices : List ℕ) :
    sumAt (l ++ r) (indices.map (l.length + ·)) = sumAt r indices := by
  rw [sumAt, sumAt, List.map_map]
  refine congrArg List.sum (List.map_congr_left fun i _ => ?_)
  change (l ++ r).getD (l.length + i) 0 = r.getD i 0
  rw [List.getD_append_right _ _ _ _ (Nat.le_add_right _ _), Nat.add_sub_cancel_left]

theorem map_getD_range (l : List α) : (List.range l.length).map (fun i => l.getD i 0) = l := by
  refine List.ext_getElem (by rw [List.length_map, List.length_range]) fun i _ hi => ?_
  rw [List.getElem_map, List.getElem_range, List.getD_eq_getElem _ _ hi]

/-- Different indices pick a part of the list. -/
theorem reach_sumAt {indices : List ℕ} (hnodup : indices.Nodup) (hlt : ∀ i ∈ indices, i < l.length) :
    Reach l (sumAt l indices) := by
  have hperm : indices.Perm ((List.range l.length).filter (· ∈ indices)) := by
    refine (List.perm_ext_iff_of_nodup hnodup (List.nodup_range.filter _)).mpr fun i => ?_
    rw [List.mem_filter, List.mem_range, decide_eq_true_iff]
    exact ⟨fun hi => ⟨hlt i hi, hi⟩, And.right⟩
  refine ⟨((List.range l.length).filter (· ∈ indices)).map fun i => l.getD i 0, ?_, (sumAt_perm hperm).symm⟩
  have hsub := (List.filter_sublist (p := (· ∈ indices)) (l := List.range l.length)).map fun i => l.getD i 0
  rwa [map_getD_range] at hsub

/-- The bits that are set below `n`. -/
def ones (mask n : ℕ) : List ℕ := (List.range n).filter mask.testBit

theorem lt_of_mem_ones {mask n i : ℕ} (h : i ∈ ones mask n) : i < n :=
  List.mem_range.mp (List.mem_filter.mp h).1

theorem nodup_ones (mask n : ℕ) : (ones mask n).Nodup := List.nodup_range.filter _

theorem ones_succ (mask n : ℕ) : ones mask (n + 1) = ones mask n ++ if mask.testBit n then [n] else [] := by
  rw [ones, List.range_succ, List.filter_append, List.filter_singleton, ← ones, Bool.cond_eq_ite]

theorem ones_congr {mask mask' n : ℕ} (h : ∀ i < n, mask.testBit i = mask'.testBit i) :
    ones mask n = ones mask' n :=
  List.filter_congr fun i hi => h i (List.mem_range.mp hi)

theorem sumAt_concat_ones (l : List α) (v : α) (mask : ℕ) :
    sumAt (l ++ [v]) (ones mask (l.length + 1)) =
      sumAt l (ones mask l.length) + if mask.testBit l.length then v else 0 := by
  rw [ones_succ, sumAt_append, sumAt_append_of_lt fun i hi => lt_of_mem_ones hi]
  split_ifs
  · rw [sumAt_cons, sumAt_nil, add_zero, List.getD_append_right _ _ _ _ le_rfl, Nat.sub_self]
    rfl
  · rfl

/-- The masks of a list give the sums of its parts. -/
theorem reach_iff_mask : Reach l s ↔ ∃ mask < 2 ^ l.length, sumAt l (ones mask l.length) = s := by
  induction l using List.reverseRecOn generalizing s with
  | nil =>
    rw [reach_nil]
    constructor
    · rintro rfl
      exact ⟨0, Nat.one_pos, rfl⟩
    · rintro ⟨mask, -, rfl⟩
      rfl
  | append_singleton l v ih =>
    rw [reach_concat, ih, ih, List.length_append, List.length_singleton]
    constructor
    · rintro (⟨mask, hlt, hsum⟩ | ⟨mask, hlt, hsum⟩)
      · refine ⟨mask, hlt.trans (Nat.pow_lt_pow_right (by decide) (Nat.lt_succ_self _)), ?_⟩
        rw [sumAt_concat_ones, Nat.testBit_lt_two_pow hlt, if_neg (by decide), hsum, add_zero]
      · have hbit : (2 ^ l.length + mask).testBit l.length = true := by
          rw [Nat.testBit_two_pow_add_eq, Nat.testBit_lt_two_pow hlt]
          rfl
        have hlow : ones (2 ^ l.length + mask) l.length = ones mask l.length :=
          ones_congr fun i hi => Nat.testBit_two_pow_add_gt hi mask
        refine ⟨2 ^ l.length + mask, by rw [Nat.pow_succ]; omega, ?_⟩
        rw [sumAt_concat_ones, if_pos hbit, hlow, hsum, sub_add_cancel]
    · rintro ⟨mask, -, hsum⟩
      rw [sumAt_concat_ones] at hsum
      have hlow : ones (mask % 2 ^ l.length) l.length = ones mask l.length :=
        ones_congr fun i hi => by rw [Nat.testBit_mod_two_pow, decide_eq_true hi, Bool.true_and]
      have hlt : mask % 2 ^ l.length < 2 ^ l.length := Nat.mod_lt _ (Nat.two_pow_pos _)
      split_ifs at hsum
      · exact .inr ⟨_, hlt, by rw [hlow, ← hsum, add_sub_cancel_right]⟩
      · exact .inl ⟨_, hlt, by rw [hlow, ← hsum, add_zero]⟩

end Group

/-! ### Entries that are not negative -/

section Ordered

variable {α : Type*} [AddCommGroup α] [LinearOrder α] [IsOrderedAddMonoid α] {l : List α} {s : α}

theorem Reach.nonneg (hs : Reach l s) (hl : ∀ a ∈ l, 0 ≤ a) : 0 ≤ s := by
  obtain ⟨sub, hsub, rfl⟩ := hs
  exact List.sum_nonneg fun a ha => hl a (hsub.subset ha)

theorem Reach.le_sum (hs : Reach l s) (hl : ∀ a ∈ l, 0 ≤ a) : s ≤ l.sum := by
  obtain ⟨sub, hsub, rfl⟩ := hs
  exact hsub.sum_le_sum hl

end Ordered

end Coinjecture.Lib.SubsetSums
