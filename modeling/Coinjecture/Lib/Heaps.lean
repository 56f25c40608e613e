import Mathlib.Data.List.Perm.Basic
import Mathlib.Data.List.Sort
import Mathlib.Tactic.Common

/-! # Binary heaps

`BinaryHeap le` is any implementation of a priority queue whose greatest element, by `le`, is at the
front. Nothing is said about the order in which its elements are listed, nor which of several greatest
elements is taken. `sortedHeap` is one of them. -/

namespace Coinjecture.Lib.Heaps

variable {α : Type}

/-- `a` is among the greatest elements of `l`. -/
def IsGreatest (le : α → α → Bool) (l : List α) (a : α) : Prop := a ∈ l ∧ ∀ b ∈ l, le b a = true

/-- `BinaryHeap`, with the promises of its documentation. -/
structure BinaryHeap (le : α → α → Bool) where
  Heap : Type
  /-- The elements, in the order of `iter` and `drain`. -/
  iter : Heap → List α
  new : Heap
  push : α → Heap → Heap
  /-- `From<Vec>` and `collect`. -/
  ofList : List α → Heap
  peek : Heap → Option α
  pop : Heap → Option (α × Heap)
  iter_new : iter new = []
  iter_push : ∀ a h, (iter (push a h)).Perm (a :: iter h)
  iter_ofList : ∀ l, (iter (ofList l)).Perm l
  peek_none : ∀ h, peek h = none ↔ iter h = []
  peek_some : ∀ h a, peek h = some a → IsGreatest le (iter h) a
  pop_none : ∀ h, pop h = none ↔ iter h = []
  pop_some : ∀ h a h', pop h = some (a, h') → IsGreatest le (iter h) a ∧ (iter h).Perm (a :: iter h')

theorem IsGreatest.perm {le : α → α → Bool} {l l' : List α} {a : α} (h : IsGreatest le l a)
    (hperm : l.Perm l') : IsGreatest le l' a :=
  ⟨hperm.mem_iff.mp h.1, fun b hb => h.2 b (hperm.mem_iff.mpr hb)⟩

section SortedHeap

variable {le : α → α → Bool} (trans : ∀ a b c, le a b = true → le b c = true → le a c = true)
  (total : ∀ a b, (le a b || le b a) = true)

/-- From the greatest to the least. -/
def descending (le : α → α → Bool) (l : List α) : List α := l.mergeSort fun a b => le b a

theorem descending_perm (l : List α) : (descending le l).Perm l := List.mergeSort_perm l _

include trans total in
theorem pairwise_descending (l : List α) : (descending le l).Pairwise fun a b => le b a = true :=
  List.pairwise_mergeSort (fun a b c hab hbc => trans c b a hbc hab) (fun a b => total b a) l

include trans total in
theorem isGreatest_of_descending {l rest : List α} {a : α} (h : descending le l = a :: rest) :
    IsGreatest le l a := by
  have hsorted := pairwise_descending trans total l
  rw [h] at hsorted
  have hgreatest : IsGreatest le (a :: rest) a := by
    refine ⟨List.mem_cons_self, fun b hb => ?_⟩
    rcases List.mem_cons.mp hb with rfl | hb
    · simpa using total b b
    · exact (List.pairwise_cons.mp hsorted).1 b hb
  exact hgreatest.perm (h ▸ descending_perm l)

theorem descending_eq_nil {l : List α} : descending le l = [] ↔ l = [] := by
  rw [← List.length_eq_zero_iff, (descending_perm l).length_eq, List.length_eq_zero_iff]

/-- The queue that is sorted when it is looked at. -/
def sortedHeap : BinaryHeap le where
  Heap := List α
  iter := id
  new := []
  push := List.cons
  ofList := id
  peek l := (descending le l).head?
  pop l :=
    match descending le l with
    | [] => none
    | a :: rest => some (a, rest)
  iter_new := rfl
  iter_push _ _ := .refl _
  iter_ofList _ := .refl _
  peek_none l := List.head?_eq_none_iff.trans descending_eq_nil
  peek_some l a h := by
    obtain ⟨rest, hrest⟩ := List.head?_eq_some_iff.mp h
    exact isGreatest_of_descending trans total hrest
  pop_none l := by
    rw [← @descending_eq_nil _ le (id l)]
    cases h : descending le l <;> simp [h]
  pop_some l a rest h := by
    cases hsorted : descending le l with
    | nil => simp [hsorted] at h
    | cons b rest' =>
      simp only [hsorted, Option.some.injEq, Prod.mk.injEq] at h
      obtain ⟨rfl, rfl⟩ := h
      exact ⟨isGreatest_of_descending trans total hsorted, (hsorted ▸ descending_perm l).symm⟩

end SortedHeap

end Coinjecture.Lib.Heaps
