import Mathlib.Algebra.BigOperators.Group.Finset.Basic
import Mathlib.Algebra.BigOperators.Fin
import Mathlib.Algebra.Order.BigOperators.Group.Finset
import Mathlib.Data.Fintype.Basic
import Mathlib.Logic.Function.Basic
import Mathlib.Tactic.Common

/-! # Tables of records that know their key

A `Keyed key` is a table in which every record `v` is stored under `key v`: a record under a foreign
key cannot be built. `insert` and `erase` are its writes, with one simp lemma for each read of a
written table. `weigh f` adds up `f` over the records; `weigh_insert` and `weigh_erase` say what a
write does to it, and `sum_update` is the same fact about any function into `ℕ`. -/

namespace Coinjecture.Lib.Table

variable {K V : Type} {key : V → K}

/-- A table in which every record is stored under its own key. -/
@[ext] structure Keyed (key : V → K) where
  get : K → Option V
  keyed : ∀ {k v}, get k = some v → key v = k

namespace Keyed

/-- The table with no records. -/
def empty : Keyed key := ⟨fun _ => none, fun h => by cases h⟩

@[simp] theorem get_empty (k : K) : (empty : Keyed key).get k = none := rfl

/-- Change every record; `f` keeps the keys. -/
def map (f : V → V) (hf : ∀ v, key (f v) = key v) (t : Keyed key) : Keyed key where
  get k := (t.get k).map f
  keyed {k w} h := by
    obtain ⟨v, hv, rfl⟩ := Option.map_eq_some_iff.mp h
    rw [hf, t.keyed hv]

@[simp] theorem get_map (f : V → V) (hf : ∀ v, key (f v) = key v) (t : Keyed key) (k : K) :
    (t.map f hf).get k = (t.get k).map f := rfl

variable [DecidableEq K]

/-- Store `v` under its key. -/
def insert (v : V) (t : Keyed key) : Keyed key where
  get := Function.update t.get (key v) (some v)
  keyed {k w} h := by
    by_cases hk : k = key v
    · subst hk
      simp only [Function.update_self, Option.some.injEq] at h
      rw [h]
    · rw [Function.update_of_ne hk] at h
      exact t.keyed h

/-- Remove the record under `k`, if there is one. -/
def erase (k : K) (t : Keyed key) : Keyed key where
  get := Function.update t.get k none
  keyed {k' w} h := by
    by_cases hk : k' = k
    · subst hk
      simp at h
    · rw [Function.update_of_ne hk] at h
      exact t.keyed h

@[simp] theorem get_insert_self (v : V) (t : Keyed key) : (t.insert v).get (key v) = some v :=
  Function.update_self ..

theorem get_insert (v : V) (t : Keyed key) (k : K) :
    (t.insert v).get k = if k = key v then some v else t.get k := by
  simp only [insert, Function.update_apply]

theorem get_insert_ne {v : V} {k : K} (t : Keyed key) (h : k ≠ key v) :
    (t.insert v).get k = t.get k :=
  Function.update_of_ne h ..

theorem get_insert_of_get {v w : V} {k : K} {t : Keyed key} (hv : t.get k = some v)
    (hw : key w = key v) : (t.insert w).get k = some w := by
  rw [← t.keyed hv, ← hw, get_insert_self]

theorem get_erase (k k' : K) (t : Keyed key) :
    (t.erase k).get k' = if k' = k then none else t.get k' := by
  simp only [erase, Function.update_apply]

/-- Storing the record that is there changes nothing. -/
theorem insert_eq_self {v : V} {t : Keyed key} : t.insert v = t ↔ t.get (key v) = some v := by
  refine ⟨fun h => by rw [← h]; simp, fun h => ?_⟩
  ext1
  change Function.update t.get (key v) (some v) = t.get
  rw [← h, Function.update_eq_self]

theorem insert_insert {v w : V} (t : Keyed key) (h : key w = key v) :
    (t.insert v).insert w = t.insert w := by
  ext1
  simp only [insert, h, Function.update_idem]

/-- Two records stored under different keys change nothing exactly if both are there. -/
theorem insert_insert_eq_self {v w : V} {t : Keyed key} (h : key v ≠ key w) :
    (t.insert v).insert w = t ↔ t.get (key v) = some v ∧ t.get (key w) = some w := by
  constructor
  · intro heq
    refine ⟨?_, ?_⟩
    · rw [← heq, get_insert_ne _ h, get_insert_self]
    · rw [← heq, get_insert_self]
  · rintro ⟨hv, hw⟩
    rw [insert_eq_self.mpr hv, insert_eq_self.mpr hw]

theorem erase_insert {v : V} {k : K} (t : Keyed key) (h : key v = k) :
    (t.insert v).erase k = t.erase k := by
  ext1
  simp only [insert, erase, h, Function.update_idem]

/-- Erasing where there is no record changes nothing. -/
theorem erase_eq_self {k : K} {t : Keyed key} : t.erase k = t ↔ t.get k = none := by
  refine ⟨fun h => by rw [← h, get_erase, if_pos rfl], fun h => ?_⟩
  ext1
  change Function.update t.get k none = t.get
  rw [← h, Function.update_eq_self]

end Keyed

/-! ### Lists of entries -/

/-- Without the entries of one key the others are found as before. -/
theorem lookup_filter_ne {κ β : Type} [DecidableEq κ] {l : List (κ × β)} {k k' : κ} (h : k' ≠ k) :
    (l.filter fun e => e.1 ≠ k).lookup k' = l.lookup k' := by
  induction l with
  | nil => rfl
  | cons e l ih =>
    obtain ⟨a, b⟩ := e
    by_cases ha : a = k
    · subst ha
      rw [List.filter_cons_of_neg (by simp), ih, List.lookup_cons, beq_eq_false_iff_ne.mpr h]
    · rw [List.filter_cons_of_pos (by simpa using ha), List.lookup_cons, List.lookup_cons, ih]

theorem mem_of_lookup {κ β : Type} [DecidableEq κ] {l : List (κ × β)} {k : κ} {b : β}
    (h : l.lookup k = some b) : (k, b) ∈ l := by
  obtain ⟨front, back, rfl, -⟩ := List.lookup_eq_some_iff.mp h
  exact List.mem_append_right front List.mem_cons_self

/-- Where no key occurs twice, what is found is what is there. -/
theorem lookup_eq_some_iff_mem {κ β : Type} [DecidableEq κ] {l : List (κ × β)} {k : κ} {b : β}
    (hnodup : (l.map Prod.fst).Nodup) : l.lookup k = some b ↔ (k, b) ∈ l := by
  refine ⟨mem_of_lookup, fun hmem => ?_⟩
  obtain ⟨front, back, rfl⟩ := List.append_of_mem hmem
  refine List.lookup_eq_some_iff.mpr ⟨front, back, rfl, fun e he => bne_iff_ne.mpr fun heq => ?_⟩
  rw [List.map_append, List.map_cons] at hnodup
  exact (List.nodup_append.mp hnodup).2.2 _ (List.mem_map_of_mem he) _ List.mem_cons_self heq.symm

theorem lookup_perm {κ β : Type} [DecidableEq κ] {l l' : List (κ × β)} (hperm : l.Perm l')
    (hnodup : (l'.map Prod.fst).Nodup) (k : κ) : l.lookup k = l'.lookup k := by
  refine Option.ext fun b => ?_
  rw [lookup_eq_some_iff_mem ((hperm.map Prod.fst).nodup_iff.mpr hnodup), lookup_eq_some_iff_mem hnodup,
    hperm.mem_iff]

/-! ### Sums over a table -/

/-- Writing one value of a function changes its sum by the difference. -/
theorem sum_update {α : Type} [Fintype α] [DecidableEq α] (f : α → ℕ) (x : α) (y : ℕ) :
    ∑ a, Function.update f x y a + f x = ∑ a, f a + y := by
  rw [Finset.sum_update_of_mem (Finset.mem_univ x), ← Finset.add_sum_erase _ _ (Finset.mem_univ x),
    Finset.sdiff_singleton_eq_erase]
  omega

/-- The sum of `f` over the records of a table of values. -/
def weighMap [Fintype K] (f : V → ℕ) (t : K → Option V) : ℕ := ∑ k, (t k).elim 0 f

theorem weighMap_update [Fintype K] [DecidableEq K] (f : V → ℕ) (t : K → Option V) (k : K)
    (o : Option V) :
    weighMap f (Function.update t k o) + (t k).elim 0 f = weighMap f t + o.elim 0 f := by
  have h : (fun a => (Function.update t k o a).elim 0 f) =
      Function.update (fun a => (t a).elim 0 f) k (o.elim 0 f) := by
    funext a
    by_cases ha : a = k
    · subst ha; simp
    · simp [Function.update_of_ne ha]
  simp only [weighMap]
  rw [h]
  exact sum_update _ k _

namespace Keyed

variable [Fintype K]

/-- The sum of `f` over the records. -/
def weigh (f : V → ℕ) (t : Keyed key) : ℕ := weighMap f t.get

theorem le_weigh {f : V → ℕ} {v : V} {k : K} {t : Keyed key} (h : t.get k = some v) : f v ≤ t.weigh f := by
  have hk : (t.get k).elim 0 f = f v := by rw [h]; rfl
  rw [← hk]
  exact Finset.single_le_sum (f := fun k => (t.get k).elim 0 f) (fun _ _ => Nat.zero_le _) (Finset.mem_univ k)

theorem weigh_map (f : V → ℕ) (g : V → V) (hg : ∀ v, key (g v) = key v) (t : Keyed key) :
    (t.map g hg).weigh f = t.weigh (f ∘ g) := by
  refine Finset.sum_congr rfl fun k _ => ?_
  rw [get_map]
  rcases t.get k with _ | v <;> rfl

variable [DecidableEq K]

theorem weigh_insert (f : V → ℕ) (v : V) (t : Keyed key) :
    (t.insert v).weigh f + (t.get (key v)).elim 0 f = t.weigh f + f v :=
  weighMap_update f t.get (key v) (some v)

theorem weigh_erase (f : V → ℕ) (k : K) (t : Keyed key) :
    (t.erase k).weigh f + (t.get k).elim 0 f = t.weigh f :=
  weighMap_update f t.get k none

/-- A record written over one of the same weight. -/
theorem weigh_insert_of_get {f : V → ℕ} {v w : V} {k : K} {t : Keyed key} (hv : t.get k = some v)
    (hw : key w = key v) : (t.insert w).weigh f + f v = t.weigh f + f w := by
  have h := weigh_insert f w t
  rwa [hw, t.keyed hv, hv] at h

end Keyed

end Coinjecture.Lib.Table
