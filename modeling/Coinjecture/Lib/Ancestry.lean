import Coinjecture.Lib.Table
import Mathlib.Data.Finset.Card
import Mathlib.Data.List.Nodup

/-! # Records that name their parent

In a table of records each of which is a root or names the key of a parent, the lineage of a key is the
list of records from the one under the key to the root. `walk` looks it up with a bound on its length;
`Lineage` says what a lineage is, without the bound. A record that is written over leaves the lineages
through it as they are if the new record has the same parent (`Lineage.insert`). -/

namespace Coinjecture.Lib.Ancestry

open Lib.Table

variable {K V : Type} {key : V → K} (parent : V → K) (isRoot : V → Prop)

/-- What a walk to the root comes to. -/
inductive Walked (V : Type) where
  | found (lineage : List V)
  | missing
  | endless
  deriving DecidableEq

def Walked.cons (v : V) : Walked V → Walked V
  | .found lineage => .found (v :: lineage)
  | .missing => .missing
  | .endless => .endless

/-- Walk from `k` to the root, over at most `n` records. -/
def walk [DecidablePred isRoot] (t : Keyed key) : ℕ → K → Walked V
  | 0, _ => .endless
  | n + 1, k =>
    match t.get k with
    | none => .missing
    | some v => if isRoot v then .found [v] else (walk t n (parent v)).cons v

/-- The records from `k` to the root. -/
inductive Lineage (t : Keyed key) : K → List V → Prop where
  | root {k : K} {v : V} (hget : t.get k = some v) (hroot : isRoot v) : Lineage t k [v]
  | link {k : K} {v : V} {vs : List V} (hget : t.get k = some v) (hroot : ¬ isRoot v)
      (hrest : Lineage t (parent v) vs) : Lineage t k (v :: vs)

variable {parent isRoot} {t : Keyed key} {k : K} {v : V} {vs ws : List V}

theorem Walked.cons_found {r : Walked V} (h : r.cons v = .found ws) :
    ∃ vs, r = .found vs ∧ ws = v :: vs := by
  cases r with
  | found vs =>
    simp only [Walked.cons, Walked.found.injEq] at h
    exact ⟨vs, rfl, h.symm⟩
  | missing => cases h
  | endless => cases h

/-- What a walk finds is the lineage. -/
theorem lineage_of_walk [DecidablePred isRoot] {n : ℕ} (h : walk parent isRoot t n k = .found vs) :
    Lineage parent isRoot t k vs := by
  induction n generalizing k vs with
  | zero => cases h
  | succ n ih =>
    rw [walk] at h
    rcases hget : t.get k with _ | v
    · rw [hget] at h
      cases h
    · rw [hget] at h
      simp only at h
      split_ifs at h with hroot
      · cases h
        exact .root hget hroot
      · obtain ⟨rest, hrest, rfl⟩ := Walked.cons_found h
        exact .link hget hroot (ih hrest)

/-- A walk that is long enough finds the lineage. -/
theorem Lineage.walk [DecidablePred isRoot] (h : Lineage parent isRoot t k vs) {n : ℕ}
    (hn : vs.length ≤ n) : Ancestry.walk parent isRoot t n k = .found vs := by
  induction h generalizing n with
  | root hget hroot =>
    obtain ⟨n, rfl⟩ : ∃ m, n = m + 1 := ⟨n - 1, by simp at hn; omega⟩
    rw [Lib.Ancestry.walk, hget]
    exact if_pos hroot
  | link hget hroot hrest ih =>
    obtain ⟨n, rfl⟩ : ∃ m, n = m + 1 := ⟨n - 1, by simp at hn; omega⟩
    have hrest' := ih (n := n) (by simpa using hn)
    rw [Lib.Ancestry.walk, hget]
    simp only
    rw [if_neg hroot, hrest', Walked.cons]

/-- A lineage is also one in a table that has more values. -/
theorem Lineage.mono {t' : Keyed key} (h : Lineage parent isRoot t k vs)
    (hmono : ∀ k v, t.get k = some v → t'.get k = some v) : Lineage parent isRoot t' k vs := by
  induction h with
  | root hget hroot => exact .root (hmono _ _ hget) hroot
  | link hget hroot _ ih => exact .link (hmono _ _ hget) hroot ih

/-- A key has one lineage. -/
theorem Lineage.unique (h : Lineage parent isRoot t k vs) (h' : Lineage parent isRoot t k ws) :
    vs = ws := by
  induction h generalizing ws with
  | root hget hroot =>
    cases h' with
    | root hget' hroot' =>
      rw [hget] at hget'
      cases hget'
      rfl
    | link hget' hroot' hrest' =>
      rw [hget] at hget'
      cases hget'
      exact absurd hroot hroot'
  | link hget hroot hrest ih =>
    cases h' with
    | root hget' hroot' =>
      rw [hget] at hget'
      cases hget'
      exact absurd hroot' hroot
    | link hget' hroot' hrest' =>
      rw [hget] at hget'
      cases hget'
      rw [ih hrest']

/-- The records of a lineage are in the table. -/
theorem Lineage.mem (h : Lineage parent isRoot t k vs) (hv : v ∈ vs) : t.get (key v) = some v := by
  induction h with
  | root hget hroot =>
    rw [List.mem_singleton] at hv
    rw [hv, t.keyed hget, hget]
  | link hget hroot hrest ih =>
    rcases List.mem_cons.mp hv with rfl | hv
    · rw [t.keyed hget, hget]
    · exact ih hv

/-- The parent of a record of a lineage is in the lineage. -/
theorem Lineage.exists_parent (h : Lineage parent isRoot t k vs) (hv : v ∈ vs) (hroot : ¬ isRoot v) :
    ∃ p ∈ vs, t.get (parent v) = some p := by
  induction h with
  | root hget hroot' =>
    rw [List.mem_singleton] at hv
    rw [hv] at hroot
    exact absurd hroot' hroot
  | link hget hroot' hrest ih =>
    rcases List.mem_cons.mp hv with rfl | hv
    · cases hrest with
      | root hget' _ => exact ⟨_, List.mem_cons_of_mem _ List.mem_cons_self, hget'⟩
      | link hget' _ _ => exact ⟨_, List.mem_cons_of_mem _ List.mem_cons_self, hget'⟩
    · obtain ⟨p, hp, hget'⟩ := ih hv
      exact ⟨p, List.mem_cons_of_mem _ hp, hget'⟩

/-- The first record of a lineage is the one under the key. -/
theorem Lineage.exists_head (h : Lineage parent isRoot t k vs) : ∃ v ∈ vs, t.get k = some v := by
  cases h with
  | root hget _ => exact ⟨_, List.mem_cons_self, hget⟩
  | link hget _ _ => exact ⟨_, List.mem_cons_self, hget⟩

/-- A lineage has the lineages of its records. -/
theorem Lineage.of_append (h : Lineage parent isRoot t k (ws ++ v :: vs)) :
    Lineage parent isRoot t (key v) (v :: vs) := by
  induction ws generalizing k with
  | nil =>
    have hkey : key v = k := by
      cases h with
      | root hget _ => exact t.keyed hget
      | link hget _ _ => exact t.keyed hget
    rwa [hkey]
  | cons w ws ih =>
    generalize hall : (w :: ws) ++ v :: vs = all at h
    cases h with
    | root hget hroot =>
      have hlength := congrArg List.length hall
      rw [List.length_append, List.length_cons, List.length_cons, List.length_singleton] at hlength
      omega
    | link hget hroot hrest =>
      obtain ⟨rfl, rfl⟩ := List.cons.inj hall
      exact ih hrest

/-- The last record is a root. -/
theorem Lineage.exists_root (h : Lineage parent isRoot t k vs) :
    ∃ v, vs.getLast? = some v ∧ isRoot v := by
  induction h with
  | root hget hroot => exact ⟨_, rfl, hroot⟩
  | link hget hroot hrest ih =>
    obtain ⟨v, hlast, hv⟩ := ih
    refine ⟨v, ?_, hv⟩
    rw [List.getLast?_cons, hlast]
    rfl

/-! ### Length -/

/-- Every record of a lineage has a lineage, which is no longer. -/
theorem Lineage.exists_of_mem (h : Lineage parent isRoot t k vs) (hv : v ∈ vs) :
    ∃ ws, Lineage parent isRoot t (key v) ws ∧ ws.length ≤ vs.length := by
  induction h with
  | root hget hroot =>
    rw [List.mem_singleton] at hv
    rw [hv, t.keyed hget]
    exact ⟨_, .root hget hroot, le_rfl⟩
  | link hget hroot hrest ih =>
    rcases List.mem_cons.mp hv with rfl | hv
    · rw [t.keyed hget]
      exact ⟨_, .link hget hroot hrest, le_rfl⟩
    · obtain ⟨ws, hws, hle⟩ := ih hv
      exact ⟨ws, hws, hle.trans (Nat.le_succ _)⟩

/-- A lineage meets no key twice. -/
theorem Lineage.nodup (h : Lineage parent isRoot t k vs) : (vs.map key).Nodup := by
  induction h with
  | root hget hroot => exact List.nodup_singleton _
  | @link k v vs hget hroot hrest ih =>
    rw [List.map_cons, List.nodup_cons]
    refine ⟨fun hmem => ?_, ih⟩
    obtain ⟨w, hw, hkey⟩ := List.mem_map.mp hmem
    obtain ⟨ws, hws, hle⟩ := hrest.exists_of_mem hw
    rw [hkey, t.keyed hget] at hws
    have hsame := congrArg List.length (hws.unique (.link hget hroot hrest))
    rw [List.length_cons] at hsame
    omega

/-- The length of a lineage is bounded by the number of keys. -/
theorem Lineage.length_le (h : Lineage parent isRoot t k vs) {n : ℕ} (index : K → ℕ)
    (hinj : Function.Injective index) (hlt : ∀ k, index k < n) : vs.length ≤ n := by
  have hnodup : ((vs.map key).map index).Nodup := h.nodup.map hinj
  have hcard := Finset.card_le_card (s := ((vs.map key).map index).toFinset) (t := Finset.range n) (by
    intro i hi
    rw [List.mem_toFinset] at hi
    obtain ⟨k, -, rfl⟩ := List.mem_map.mp hi
    exact Finset.mem_range.mpr (hlt k))
  rw [List.toFinset_card_of_nodup hnodup, Finset.card_range, List.length_map, List.length_map] at hcard
  exact hcard

/-! ### Writing -/

/-- Over a new record with the parent of the one it replaces a lineage runs as before. -/
theorem Lineage.insert [DecidableEq K] {w : V} (h : Lineage parent isRoot t k vs)
    (hsame : ∀ v ∈ vs, key v = key w → parent w = parent v ∧ (isRoot w ↔ isRoot v)) :
    Lineage parent isRoot (t.insert w) k (vs.map fun v => if key v = key w then w else v) := by
  induction h with
  | @root k v hget hroot =>
    have hkey := t.keyed hget
    have hget' : (t.insert w).get k = some (if key v = key w then w else v) := by
      rw [Keyed.get_insert, ← hkey, hkey, hget]
      split_ifs <;> rfl
    refine .root hget' ?_
    change isRoot (if key v = key w then w else v)
    split_ifs with hk
    · exact (hsame v (List.mem_singleton_self v) hk).2.mpr hroot
    · exact hroot
  | @link k v vs hget hroot hrest ih =>
    have hkey := t.keyed hget
    have hget' : (t.insert w).get k = some (if key v = key w then w else v) := by
      rw [Keyed.get_insert, ← hkey, hkey, hget]
      split_ifs <;> rfl
    have hrest' := ih fun u hu => hsame u (List.mem_cons_of_mem _ hu)
    rw [List.map_cons]
    by_cases hk : key v = key w
    · obtain ⟨hparent, hiff⟩ := hsame v List.mem_cons_self hk
      rw [if_pos hk] at hget' ⊢
      refine .link hget' (fun hw => hroot (hiff.mp hw)) ?_
      rw [hparent]
      exact hrest'
    · rw [if_neg hk] at hget' ⊢
      exact .link hget' hroot hrest'

/-- A record under a key that is not on it leaves a lineage as it is. -/
theorem Lineage.insert_of_ne [DecidableEq K] {w : V} (h : Lineage parent isRoot t k vs)
    (hne : ∀ v ∈ vs, key v ≠ key w) : Lineage parent isRoot (t.insert w) k vs := by
  have hinsert := h.insert fun v hv hk => absurd hk (hne v hv)
  have hmap : (vs.map fun v => if key v = key w then w else v) = vs.map id :=
    List.map_congr_left fun v hv => if_neg (hne v hv)
  rwa [hmap, List.map_id] at hinsert

end Coinjecture.Lib.Ancestry
