import Mathlib.Data.List.Perm.Basic
import Mathlib.Data.List.Sort
import Mathlib.Order.Basic

/-! # The last of the largest

`lastMax` runs through a list and keeps the last of the elements on which `f` is largest. The value of `f`
does not depend on the order of the list; the element does, unless it is the only one: any of the
largest elements comes out for some order (`exists_perm_lastMax`). `maxBy` and `sortBy` take a comparison instead of `f`,
and `firstBest` takes a test of who is admitted and a strict preference. -/

namespace Coinjecture.Lib.Selection

variable {α β : Type} [LinearOrder β] (f : α → β)

/-- The second of two elements, unless the first is larger. -/
def later (x y : α) : α := if f y < f x then x else y

/-- `Iterator::max_by`. -/
def lastMax : List α → Option α
  | [] => none
  | x :: xs => some (xs.foldl (later f) x)

/-- `a` is one of the largest elements. -/
def IsMax (l : List α) (a : α) : Prop := a ∈ l ∧ ∀ b ∈ l, f b ≤ f a

/-- There are no two largest elements. -/
def AtMostOneMax (l : List α) : Prop := ∀ a b, IsMax f l a → IsMax f l b → a = b

variable {f} {l l' xs : List α} {a x : α}

theorem IsMax.perm (h : l.Perm l') (ha : IsMax f l a) : IsMax f l' a :=
  ⟨h.mem_iff.mp ha.1, fun b hb => ha.2 b (h.mem_iff.mpr hb)⟩

theorem isMax_foldl_later (xs : List α) (x : α) : IsMax f (x :: xs) (xs.foldl (later f) x) := by
  induction xs generalizing x with
  | nil => exact ⟨List.mem_singleton_self x, fun b hb => (List.mem_singleton.mp hb) ▸ le_rfl⟩
  | cons y xs ih =>
    obtain ⟨hmem, hle⟩ := ih (later f x y)
    have hlater : (later f x y = x ∨ later f x y = y) ∧ f x ≤ f (later f x y) ∧
        f y ≤ f (later f x y) := by
      rw [later]
      split_ifs with hlt
      · exact ⟨.inl rfl, le_rfl, hlt.le⟩
      · exact ⟨.inr rfl, not_lt.mp hlt, le_rfl⟩
    obtain ⟨heither, hx, hy⟩ := hlater
    have hfirst := hle _ List.mem_cons_self
    refine ⟨?_, fun b hb => ?_⟩
    · rcases List.mem_cons.mp hmem with heq | hmem
      · rw [List.foldl_cons, heq]
        rcases heither with h | h
        · rw [h]
          exact List.mem_cons_self
        · rw [h]
          exact List.mem_cons_of_mem _ List.mem_cons_self
      · exact List.mem_cons_of_mem _ (List.mem_cons_of_mem _ hmem)
    · rcases List.mem_cons.mp hb with rfl | hb
      · exact hx.trans hfirst
      · rcases List.mem_cons.mp hb with rfl | hb
        · exact hy.trans hfirst
        · exact hle b (List.mem_cons_of_mem _ hb)

theorem isMax_lastMax (h : lastMax f l = some a) : IsMax f l a := by
  cases l with
  | nil => cases h
  | cons x xs =>
    cases h
    exact isMax_foldl_later xs x

theorem lastMax_eq_none_iff : lastMax f l = none ↔ l = [] := by
  cases l with
  | nil => exact iff_of_true rfl rfl
  | cons x xs => exact iff_of_false nofun nofun

/-- A largest element at the end is the one that comes out. -/
theorem lastMax_append_singleton (h : ∀ b ∈ xs, f b ≤ f a) : lastMax f (xs ++ [a]) = some a := by
  cases xs with
  | nil => rfl
  | cons x xs =>
    have hmax := (isMax_foldl_later (f := f) xs x).1
    rw [List.cons_append, lastMax, List.foldl_append, List.foldl_cons, List.foldl_nil, later,
      if_neg (not_lt.mpr (h _ hmax))]

/-- The largest value does not depend on the order. -/
theorem map_lastMax_perm (h : l.Perm l') : (lastMax f l).map f = (lastMax f l').map f := by
  rcases ha : lastMax f l with _ | a
  · rw [lastMax_eq_none_iff] at ha
    rw [ha, List.nil_perm] at h
    rw [h]
    rfl
  · rcases hb : lastMax f l' with _ | b
    · rw [lastMax_eq_none_iff] at hb
      rw [hb, List.perm_nil] at h
      rw [h] at ha
      cases ha
    · have hmax := isMax_lastMax ha
      have hmax' := isMax_lastMax hb
      rw [Option.map_some, Option.map_some,
        le_antisymm (hmax'.2 a (h.mem_iff.mp hmax.1)) (hmax.2 b (h.mem_iff.mpr hmax'.1))]

/-- A largest element that is alone does not depend on the order. -/
theorem lastMax_perm (h : l.Perm l') (hone : AtMostOneMax f l) : lastMax f l = lastMax f l' := by
  have hvalue := map_lastMax_perm (f := f) h
  rcases ha : lastMax f l with _ | a
  · rw [ha] at hvalue
    rcases hb : lastMax f l' with _ | b
    · rfl
    · rw [hb] at hvalue
      cases hvalue
  · rcases hb : lastMax f l' with _ | b
    · rw [ha, hb] at hvalue
      cases hvalue
    · rw [hone a b (isMax_lastMax ha) ((isMax_lastMax hb).perm h.symm)]

/-- Any of the largest elements comes out for some order. -/
theorem exists_perm_lastMax [BEq α] [LawfulBEq α] (h : IsMax f l a) :
    l.Perm (l.erase a ++ [a]) ∧ lastMax f (l.erase a ++ [a]) = some a := by
  refine ⟨?_, lastMax_append_singleton fun b hb => h.2 b (List.mem_of_mem_erase hb)⟩
  exact (List.perm_cons_erase h.1).trans (List.perm_append_singleton a (l.erase a)).symm

/-- The same where the list is filtered. -/
theorem lastMax_filter_erase_append [BEq α] [LawfulBEq α] {q : α → Bool} (h : IsMax f (l.filter q) a) :
    lastMax f ((l.erase a ++ [a]).filter q) = some a := by
  have hq : q a = true := (List.mem_filter.mp h.1).2
  rw [List.filter_append, List.filter_singleton, hq]
  refine lastMax_append_singleton fun b hb => h.2 b ?_
  obtain ⟨hmem, hb⟩ := List.mem_filter.mp hb
  exact List.mem_filter.mpr ⟨List.mem_of_mem_erase hmem, hb⟩

/-! ### Comparisons -/

/-- `Iterator::max_by` with a comparison. -/
def maxBy (cmp : α → α → Ordering) : List α → Option α
  | [] => none
  | x :: xs => some (xs.foldl (fun a b => if cmp a b = .gt then a else b) x)

/-- `slice::sort_by`. -/
def sortBy (cmp : α → α → Ordering) (l : List α) : List α :=
  l.insertionSort fun a b => cmp a b ≠ .gt

section Compare

variable {cmp : α → α → Ordering}

theorem maxBy_eq_lastMax (h : ∀ a ∈ l, ∀ b ∈ l, cmp a b = .gt ↔ f b < f a) :
    maxBy cmp l = lastMax f l := by
  cases l with
  | nil => rfl
  | cons x xs =>
    have hfold : ∀ ys : List α, ∀ a ∈ x :: xs, (∀ b ∈ ys, b ∈ x :: xs) →
        ys.foldl (fun a b => if cmp a b = .gt then a else b) a = ys.foldl (later f) a := by
      intro ys
      induction ys with
      | nil => exact fun _ _ _ => rfl
      | cons y ys ih =>
        intro a ha hys
        have hy := hys y List.mem_cons_self
        have hstep : (if cmp a y = .gt then a else y) = later f a y := by
          rw [later]
          simp only [h a ha y hy]
        rw [List.foldl_cons, List.foldl_cons, hstep]
        refine ih _ ?_ fun b hb => hys b (List.mem_cons_of_mem _ hb)
        rw [later]
        split_ifs
        · exact ha
        · exact hy
    rw [maxBy, lastMax, hfold xs x List.mem_cons_self fun b hb => List.mem_cons_of_mem _ hb]

theorem sortBy_perm (l : List α) : (sortBy cmp l).Perm l := List.perm_insertionSort _ l

theorem pairwise_orderedInsert {f : α → β} {ys : List α} {x : α}
    (hcmp : ∀ y ∈ ys, cmp x y = .gt ↔ f y < f x) (hys : ys.Pairwise fun a b => f a ≤ f b) :
    (ys.orderedInsert (fun a b => cmp a b ≠ .gt) x).Pairwise fun a b => f a ≤ f b := by
  induction ys with
  | nil => exact List.pairwise_singleton _ _
  | cons y ys ih =>
    obtain ⟨hle, htail⟩ := List.pairwise_cons.mp hys
    have hy := hcmp y List.mem_cons_self
    rw [List.orderedInsert_cons]
    split_ifs with hcase
    · have hxy : f x ≤ f y := not_lt.mp (mt hy.mpr hcase)
      refine List.pairwise_cons.mpr ⟨fun a ha => ?_, hys⟩
      rcases List.mem_cons.mp ha with rfl | ha
      · exact hxy
      · exact hxy.trans (hle a ha)
    · have hyx : f y ≤ f x := (hy.mp (not_not.mp hcase)).le
      refine List.pairwise_cons.mpr ⟨fun a ha => ?_,
        ih (fun z hz => hcmp z (List.mem_cons_of_mem _ hz)) htail⟩
      rcases List.mem_cons.mp ((List.perm_orderedInsert _ x ys).subset ha) with rfl | ha
      · exact hyx
      · exact hle a ha

theorem pairwise_sortBy {f : α → β} (hcmp : ∀ a ∈ l, ∀ b ∈ l, cmp a b = .gt ↔ f b < f a) :
    (sortBy cmp l).Pairwise fun a b => f a ≤ f b := by
  induction l with
  | nil => exact List.Pairwise.nil
  | cons x k ih =>
    have htail := ih fun a ha b hb => hcmp a (List.mem_cons_of_mem _ ha) b (List.mem_cons_of_mem _ hb)
    exact pairwise_orderedInsert (fun y hy => hcmp x List.mem_cons_self y
      (List.mem_cons_of_mem _ ((sortBy_perm k).subset hy))) htail

/-- Sorting forgets the order where no two elements compare as equal. -/
theorem sortBy_eq_of_perm {f : α → β} (h : l.Perm l') (hinj : ∀ a ∈ l, ∀ b ∈ l, f a = f b → a = b)
    (hcmp : ∀ a ∈ l, ∀ b ∈ l, cmp a b = .gt ↔ f b < f a) : sortBy cmp l = sortBy cmp l' := by
  have hperm : (sortBy cmp l).Perm (sortBy cmp l') :=
    (sortBy_perm l).trans (h.trans (sortBy_perm l').symm)
  have hsorted' := @pairwise_sortBy _ _ _ l' cmp f fun a ha b hb =>
    hcmp a (h.mem_iff.mpr ha) b (h.mem_iff.mpr hb)
  refine hperm.eq_of_pairwise (fun a b ha hb hab hba => ?_) (pairwise_sortBy hcmp) hsorted'
  exact hinj a ((sortBy_perm l).subset ha) b (h.mem_iff.mpr ((sortBy_perm l').subset hb))
    (le_antisymm hab hba)

end Compare

/-! ### The first of the best -/

section Best

variable (ok : α → Bool) (better : α → α → Bool)

/-- The first of the elements that are admitted and that none after it is better than. -/
def firstBest : List α → Option α
  | [] => none
  | x :: xs =>
    if ok x then
      match firstBest xs with
      | some y => if better y x then some y else some x
      | none => some x
    else firstBest xs

variable {ok better}

theorem firstBest_eq_none {l : List α} : firstBest ok better l = none ↔ ∀ x ∈ l, ok x = false := by
  induction l with
  | nil => exact iff_of_true rfl fun x hx => absurd hx List.not_mem_nil
  | cons x xs ih =>
    rw [firstBest, List.forall_mem_cons]
    split_ifs with hx
    · refine iff_of_false ?_ fun h => ?_
      · split
        · split_ifs
          · nofun
          · nofun
        · nofun
      · rw [h.1] at hx
        cases hx
    · rw [ih]
      exact iff_and_self.mpr fun _ => Bool.eq_false_iff.mpr hx

theorem mem_of_firstBest {l : List α} {x : α} (h : firstBest ok better l = some x) :
    x ∈ l ∧ ok x = true := by
  induction l with
  | nil => cases h
  | cons y ys ih =>
    rw [firstBest] at h
    split_ifs at h with hy
    · rcases hrest : firstBest ok better ys with _ | z
      · simp only [hrest] at h
        cases h
        exact ⟨List.mem_cons_self, hy⟩
      · simp only [hrest] at h
        split_ifs at h
        · obtain ⟨hmem, hok⟩ := ih (hrest.trans h)
          exact ⟨List.mem_cons_of_mem _ hmem, hok⟩
        · cases h
          exact ⟨List.mem_cons_self, hy⟩
    · obtain ⟨hmem, hok⟩ := ih h
      exact ⟨List.mem_cons_of_mem _ hmem, hok⟩

/-- An element is chosen if it is better than those that are admitted before it, and none that is admitted
after it is better. -/
theorem firstBest_append_cons {l k : List α} {x : α} (hx : ok x = true)
    (hl : ∀ y ∈ l, ok y = true → better x y = true)
    (hk : ∀ y ∈ k, ok y = true → better y x = false) :
    firstBest ok better (l ++ x :: k) = some x := by
  induction l with
  | nil =>
    rw [List.nil_append, firstBest, if_pos hx]
    rcases hrest : firstBest ok better k with _ | y
    · rfl
    · obtain ⟨hmem, hok⟩ := mem_of_firstBest hrest
      simp only [hk y hmem hok, Bool.false_eq_true, if_false]
  | cons y ys ih =>
    rw [List.cons_append, firstBest, ih fun z hz => hl z (List.mem_cons_of_mem _ hz)]
    split_ifs with hy
    · simp only [hl y List.mem_cons_self hy, if_true]
    · rfl

end Best

end Coinjecture.Lib.Selection
