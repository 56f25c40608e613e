import Mathlib.Data.List.Perm.Basic
import Mathlib.Data.List.Sort

/-! # Places in a sorted list

What a stable sort puts before what, told from the list that is sorted (`Precedes`, `pairwise_mergeSort`).
The elements before one of a list are counted by the relation that orders it (`countP_rel`), so that the
first `n` are those with less than `n` before them (`mem_take_iff`).

Elements that are numbered for each key, from some start on and without gaps, come in the order of
their numbers in the first `n` exactly where what has a lower number is before (`numbered_take_iff`). -/

namespace Coinjecture.Lib.Sorting

variable {α β κ : Type}

/-! ### Stable sorts -/

/-- A stable sort of `q` puts `u` before `p`. -/
def Precedes (le : α → α → Bool) (q : List α) (u p : α) : Prop :=
  le u p = true ∧ (le p u = true → [u, p].Sublist q)

instance [DecidableEq α] (le : α → α → Bool) (q : List α) (u p : α) : Decidable (Precedes le q u p) :=
  inferInstanceAs (Decidable (_ ∧ (_ → _)))

variable {le : α → α → Bool} {q l : List α} {u p : α}

theorem not_sublist_swap (h : l.Nodup) (hup : [u, p].Sublist l) : ¬ [p, u].Sublist l := by
  induction l with
  | nil => cases hup
  | cons a l ih =>
    obtain ⟨ha, hl⟩ := List.nodup_cons.mp h
    intro hpu
    have hmem : ∀ {x y : α}, [x, y].Sublist (a :: l) → y ∈ l := by
      intro x y hxy
      cases hxy with
      | cons _ hxy => exact hxy.subset (by simp)
      | cons_cons _ hxy => exact hxy.subset (by simp)
    cases hup with
    | cons _ hup =>
      cases hpu with
      | cons _ hpu => exact ih hl hup hpu
      | cons_cons _ _ => exact ha (hup.subset (by simp))
    | cons_cons _ _ => exact ha (hmem hpu)

theorem sublist_or_sublist (hu : u ∈ l) (hp : p ∈ l) (hne : u ≠ p) : [u, p].Sublist l ∨ [p, u].Sublist l := by
  obtain ⟨pre, post, rfl⟩ := List.append_of_mem hu
  rcases List.mem_append.mp hp with hp | hp
  · exact .inr ((List.singleton_sublist.mpr hp).append (List.singleton_sublist.mpr (by simp)))
  · have hpost : p ∈ post := (List.mem_cons.mp hp).resolve_left hne.symm
    exact .inl (((List.singleton_sublist.mpr hpost).cons_cons u).trans (List.sublist_append_right _ _))

theorem Precedes.asymm (h : q.Nodup) (hup : Precedes le q u p) : ¬ Precedes le q p u := fun hpu =>
  not_sublist_swap h (hup.2 hpu.1) (hpu.2 hup.1)

theorem Precedes.of_sublist {q' : List α} (hsub : q.Sublist q') (h : Precedes le q u p) : Precedes le q' u p :=
  ⟨h.1, fun hpu => (h.2 hpu).trans hsub⟩

theorem pairwise_mergeSort (htrans : ∀ a b c, le a b = true → le b c = true → le a c = true)
    (htotal : ∀ a b, (le a b || le b a) = true) (h : q.Nodup) : (q.mergeSort le).Pairwise (Precedes le q) := by
  have hsorted := List.pairwise_mergeSort htrans htotal q
  have hnodup : (q.mergeSort le).Nodup := (List.mergeSort_perm q le).nodup_iff.mpr h
  refine List.pairwise_iff_forall_sublist.mpr fun {u p} hup => ⟨?_, fun hpu => ?_⟩
  · exact List.pairwise_iff_forall_sublist.mp hsorted hup
  · have hmem : ∀ {x}, x ∈ [u, p] → x ∈ q := fun hx => List.mem_mergeSort.mp (hup.subset hx)
    have hne : u ≠ p := List.pairwise_iff_forall_sublist.mp hnodup hup
    refine (sublist_or_sublist (hmem (by simp)) (hmem (by simp)) hne).resolve_right fun hs => ?_
    -- what is equivalent stays in order
    exact not_sublist_swap hnodup hup (List.pair_sublist_mergeSort htrans htotal hpu hs)

/-! ### Places -/

variable {r : α → α → Prop} [DecidableRel r]

/-- Neither of two elements is before itself or before what is before it. -/
def Strict (r : α → α → Prop) (l : List α) : Prop := ∀ a ∈ l, ∀ b ∈ l, r a b → ¬ r b a

theorem filter_rel {pre post : List α} (hpair : (pre ++ p :: post).Pairwise r)
    (hstrict : Strict r (pre ++ p :: post)) : (pre ++ p :: post).filter (fun u => r u p) = pre := by
  obtain ⟨-, htail, hcross⟩ := List.pairwise_append.mp hpair
  have hp : p ∈ pre ++ p :: post := by simp
  have hpre : pre.filter (fun u => r u p) = pre :=
    List.filter_eq_self.mpr fun u hu => decide_eq_true (hcross u hu p List.mem_cons_self)
  have hself : ¬ r p p := fun h => hstrict p hp p hp h h
  have hpost : post.filter (fun u => r u p) = [] := by
    refine List.filter_eq_nil_iff.mpr fun u hu hru => ?_
    exact hstrict p hp u (by simp [hu]) ((List.pairwise_cons.mp htail).1 u hu) (of_decide_eq_true hru)
  rw [List.filter_append, hpre, List.filter_cons_of_neg (by simpa using hself), hpost, List.append_nil]

theorem countP_rel {pre post : List α} (hpair : (pre ++ p :: post).Pairwise r)
    (hstrict : Strict r (pre ++ p :: post)) : (pre ++ p :: post).countP (fun u => r u p) = pre.length := by
  rw [List.countP_eq_length_filter, filter_rel hpair hstrict]

theorem mem_take_iff {n : ℕ} (hpair : l.Pairwise r) (hstrict : Strict r l) (hp : p ∈ l) :
    p ∈ l.take n ↔ l.countP (fun u => r u p) < n := by
  obtain ⟨pre, post, rfl⟩ := List.append_of_mem hp
  rw [countP_rel hpair hstrict]
  have hpre : p ∉ pre := fun hmem =>
    hstrict p hp p hp ((List.pairwise_append.mp hpair).2.2 p hmem p List.mem_cons_self)
      ((List.pairwise_append.mp hpair).2.2 p hmem p List.mem_cons_self)
  constructor
  · intro hmem
    by_contra hle
    rw [List.take_append_of_le_length (by omega)] at hmem
    exact hpre (List.mem_of_mem_take hmem)
  · intro hlt
    rw [List.take_append, List.mem_append]
    obtain ⟨m, hm⟩ : ∃ m, n - pre.length = m + 1 := ⟨n - pre.length - 1, by omega⟩
    rw [hm, List.take_succ_cons]
    exact .inr List.mem_cons_self

/-! ### Numbers for each key -/

section Numbered

variable [DecidableEq κ] {key : α → κ} {num : α → ℕ} {start : κ → ℕ}

/-- The elements with a key have the numbers from its start on, in the order of the list. -/
def Numbered (key : α → κ) (num : α → ℕ) (start : κ → ℕ) (l : List α) : Prop :=
  ∀ pre p post, l = pre ++ p :: post → num p = start (key p) + pre.countP (fun u => key u = key p)

/-- The elements with a key have the numbers from its start on, each once. -/
def Gapless (key : α → κ) (num : α → ℕ) (start : κ → ℕ) (l : List α) : Prop :=
  ∀ k, ((l.filter fun p => key p = k).map num).Perm (List.range' (start k) (l.countP fun p => key p = k))

theorem Gapless.perm {l' : List α} (hl : l.Perm l') (h : Gapless key num start l) :
    Gapless key num start l' := by
  intro k
  rw [← hl.countP_eq]
  exact ((hl.filter _).map _).symm.trans (h k)

theorem Numbered.of_map {f : β → α} {l : List β} (h : Numbered key num start (l.map f)) :
    Numbered (key ∘ f) (num ∘ f) start l := by
  rintro pre p post rfl
  have hp := h (pre.map f) (f p) (post.map f) (by simp)
  rwa [List.countP_map] at hp

theorem Numbered.map {f : β → α} {l : List β} (h : Numbered (key ∘ f) (num ∘ f) start l) :
    Numbered key num start (l.map f) := by
  intro pre p post heq
  obtain ⟨pre', post', rfl, rfl, hpost⟩ := List.map_eq_append_iff.mp heq
  obtain ⟨p', post'', rfl, rfl, rfl⟩ := List.map_eq_cons_iff.mp hpost
  have hp := h pre' p' post'' rfl
  rwa [List.countP_map]

theorem countP_range' (start len m : ℕ) (h : m ≤ start + len) :
    (List.range' start len).countP (fun i => i < m) = m - start := by
  induction len generalizing start with
  | zero =>
    have hzero : m - start = 0 := by omega
    simp [hzero]
  | succ len ih =>
    rw [List.range'_succ, List.countP_cons, ih (start + 1) (by omega)]
    simp only [decide_eq_true_eq]
    split_ifs with hlt
    all_goals omega

theorem Gapless.mem_range (h : Gapless key num start l) (hp : p ∈ l) : start (key p) ≤ num p ∧
    num p < start (key p) + l.countP fun u => key u = key p := by
  have hmem : num p ∈ List.range' (start (key p)) (l.countP fun u => key u = key p) :=
    (h (key p)).mem_iff.mp (List.mem_map_of_mem (List.mem_filter.mpr ⟨hp, by simp⟩))
  exact List.mem_range'_1.mp hmem

theorem Gapless.end_le {bound : ℕ} (h : Gapless key num start l) (hbound : ∀ u ∈ l, num u < bound)
    (hp : p ∈ l) : start (key p) + l.countP (fun u => key u = key p) ≤ bound := by
  have hpos := h.mem_range hp
  have hlast : start (key p) + l.countP (fun u => key u = key p) - 1 ∈
      List.range' (start (key p)) (l.countP fun u => key u = key p) := List.mem_range'_1.mpr (by omega)
  obtain ⟨u, hu, heq⟩ := List.mem_map.mp ((h (key p)).mem_iff.mpr hlast)
  have hlt := hbound u (List.mem_of_mem_filter hu)
  omega

theorem Gapless.countP_lt (h : Gapless key num start l) (hp : p ∈ l) :
    l.countP (fun u => key u = key p ∧ num u < num p) = num p - start (key p) := by
  have hrange := h.mem_range hp
  have hcount := (h (key p)).countP_eq fun i => decide (i < num p)
  rw [countP_range' _ _ _ hrange.2.le, List.countP_map, List.countP_filter] at hcount
  rw [← hcount]
  refine List.countP_congr fun u _ => ?_
  simp [and_comm]

/-- A number is given once for each key. -/
theorem Gapless.injective (h : Gapless key num start l) (hpair : [u, p].Sublist l) (hkey : key u = key p) :
    num u ≠ num p := by
  have hnodup : ((l.filter fun u => key u = key p).map num).Nodup :=
    (h (key p)).nodup_iff.mpr List.nodup_range'
  have hsub := (hpair.filter fun u => key u = key p).map num
  rw [List.filter_cons_of_pos (by simp [hkey]), List.filter_cons_of_pos (by simp)] at hsub
  exact List.pairwise_iff_forall_sublist.mp hnodup hsub

variable {n : ℕ}

theorem eq_of_take {pre post : List α} {p : α} (h : l.take n = pre ++ p :: post) :
    l = pre ++ p :: (post ++ l.drop n) := by
  rw [← List.cons_append, ← List.append_assoc, ← h, List.take_append_drop]

/-- Those before an entry have lower numbers, so that there is no room for a lower number behind it. -/
theorem Numbered.behind (hpair : l.Pairwise r) (hgapless : Gapless key num start l)
    (h : Numbered key num start (l.take n)) :
    ∀ u ∈ l, ∀ p ∈ l.take n, key u = key p → num u < num p → r u p := by
  intro u hu p hp hkey hlt
  obtain ⟨pre, post, htake⟩ := List.append_of_mem hp
  have hl := eq_of_take htake
  have hcount := hgapless.countP_lt (List.mem_of_mem_take hp)
  have hnum := h pre p post htake
  generalize post ++ l.drop n = post' at hl
  have hbefore : pre.countP (fun v => key v = key p) =
      pre.countP fun v => key v = key p ∧ num v < num p := by
    refine List.countP_congr fun v hv => ?_
    simp only [decide_eq_true_eq, iff_self_and]
    intro hkeyv
    obtain ⟨pre', post'', rfl⟩ := List.append_of_mem hv
    have hv' := h pre' v (post'' ++ p :: post) (by simp [htake])
    rw [List.countP_append, List.countP_cons, if_pos (by simp [hkeyv])] at hnum
    rw [hkeyv] at hv'
    omega
  have hu' : u ∈ pre ++ p :: post' := hl ▸ hu
  rcases List.mem_append.mp hu' with hu' | hu'
  · rw [hl] at hpair
    exact (List.pairwise_append.mp hpair).2.2 u hu' p List.mem_cons_self
  · rcases List.mem_cons.mp hu' with rfl | hu'
    · exact absurd hlt (lt_irrefl _)
    · have hpos : 0 < post'.countP fun v => key v = key p ∧ num v < num p :=
        List.countP_pos_iff.mpr ⟨u, hu', by simp [hkey, hlt]⟩
      rw [hl, List.countP_append, List.countP_cons] at hcount
      omega

omit [DecidableRel r] in
/-- Where lower numbers go before higher ones, those before an entry are those with lower numbers. -/
theorem numbered_take (hpair : l.Pairwise r) (hstrict : Strict r l) (hgapless : Gapless key num start l)
    (h : ∀ u ∈ l, ∀ p ∈ l.take n, key u = key p → num u < num p → r u p) : Numbered key num start (l.take n) := by
  intro pre p post htake
  have hp : p ∈ l.take n := by simp [htake]
  have hl := eq_of_take htake
  have hcount := hgapless.countP_lt (List.mem_of_mem_take hp)
  have hrange := hgapless.mem_range (List.mem_of_mem_take hp)
  generalize post ++ l.drop n = post' at hl
  have hcross := (List.pairwise_append.mp (hl ▸ hpair)).2
  have hafter : post'.countP (fun v => key v = key p ∧ num v < num p) = 0 := by
    refine List.countP_eq_zero.mpr fun v hv hlow => ?_
    obtain ⟨hkey, hlt⟩ := of_decide_eq_true hlow
    have hv' : v ∈ l := by simp [hl, hv]
    have hpv : r p v := (List.pairwise_cons.mp hcross.1).1 v hv
    exact hstrict p (List.mem_of_mem_take hp) v hv' hpv (h v hv' p hp hkey hlt)
  have hbefore : pre.countP (fun v => key v = key p ∧ num v < num p) =
      pre.countP fun v => key v = key p := by
    refine List.countP_congr fun v hv => ?_
    simp only [decide_eq_true_eq, and_iff_left_iff_imp]
    intro hkey
    have hvp : r v p := hcross.2 v hv p List.mem_cons_self
    have hsub : [v, p].Sublist l := by
      rw [hl]
      exact (List.singleton_sublist.mpr hv).append (List.singleton_sublist.mpr List.mem_cons_self)
    refine lt_of_le_of_ne (not_lt.mp fun hlt => ?_) (hgapless.injective hsub hkey)
    have hv' : v ∈ l.take n := by simp [htake, hv]
    have hpl := List.mem_of_mem_take hp
    exact hstrict v (List.mem_of_mem_take hv') p hpl hvp (h p hpl v hv' hkey.symm hlt)
  rw [hl, List.countP_append, List.countP_cons, hafter, hbefore] at hcount
  simp only [lt_self_iff_false, and_false, decide_false, Bool.false_eq_true, if_false] at hcount
  omega

/-- The first elements have their numbers in order exactly where whatever has a lower number is before. -/
theorem numbered_take_iff (hpair : l.Pairwise r) (hstrict : Strict r l) (hgapless : Gapless key num start l) :
    Numbered key num start (l.take n) ↔
      ∀ u ∈ l, ∀ p ∈ l.take n, key u = key p → num u < num p → r u p :=
  ⟨Numbered.behind hpair hgapless, numbered_take hpair hstrict hgapless⟩

end Numbered

end Coinjecture.Lib.Sorting
