import Coinjecture.Core.ProblemChecks
import Coinjecture.Lib.Float64Order

/-! # Where verification and quality return

The distances of a tour are looked up without a check, and the quality compares the tour with the one that goes
to the nearest city each time; that one ends early if all cities that are left are at the distance `u64::MAX`.

* `total_iff` : for which solutions and problems both functions return, and the quality of what is accepted is
  then between zero and one. -/

namespace Coinjecture.Core.TourSafety

open Lib.Float64
open Core.Types Core.Problem Core.ProblemChecks

/-! ### Tours -/

section Tours

variable {cities : Usize} {distances : List (List UInt64)} {tour : List Usize}

/-- Every city once. -/
def IsTour (cities : Usize) (tour : List Usize) : Prop :=
  tour.length = cities.toNat ∧ tour.Nodup ∧ ∀ city ∈ tour, city < cities

theorem tourVisits_iff {visited : List Bool} (hlength : visited.length = cities.toNat) :
    tourVisits cities tour visited = true ↔
      tour.Nodup ∧ ∀ city ∈ tour, city < cities ∧ visited[city.toNat]? = some false := by
  induction tour generalizing visited with
  | nil => simp [tourVisits]
  | cons city tour ih =>
    rw [tourVisits]
    by_cases hrange : city < cities
    · have hwithin : city.toNat < visited.length := by
        rw [hlength]
        exact UInt64.lt_iff_toNat_lt.mp hrange
      have hget : visited[city.toNat]? = some visited[city.toNat] := List.getElem?_eq_getElem hwithin
      have hnot : (decide (cities ≤ city)) = false := decide_eq_false (UInt64.not_le.mpr hrange)
      rw [hnot, Bool.false_or, hget, Option.getD_some]
      cases hseen : visited[city.toNat] with
      | true =>
        simp only [if_true, Bool.false_eq_true, false_iff]
        intro h
        have hfalse := (h.2 city List.mem_cons_self).2
        rw [hget, hseen] at hfalse
        cases hfalse
      | false =>
        rw [if_neg Bool.false_ne_true, ih (by rw [List.length_set, hlength])]
        have hset (c : Usize) (hne : c ≠ city) : (visited.set city.toNat true)[c.toNat]? = visited[c.toNat]? := by
          refine List.getElem?_set_ne fun heq => hne ?_
          exact (UInt64.toNat_inj.mp heq).symm
        constructor
        · rintro ⟨hnodup, hfresh⟩
          have hnew : city ∉ tour := by
            intro hmem
            have hfalse := (hfresh city hmem).2
            rw [List.getElem?_set_self hwithin] at hfalse
            cases hfalse
          refine ⟨List.nodup_cons.mpr ⟨hnew, hnodup⟩, fun c hc => ?_⟩
          rcases List.mem_cons.mp hc with rfl | hc
          · exact ⟨hrange, by rw [hget, hseen]⟩
          · rw [← hset c (fun heq => hnew (heq ▸ hc))]
            exact hfresh c hc
        · rintro ⟨hnodup, hfresh⟩
          obtain ⟨hnew, hnodup⟩ := List.nodup_cons.mp hnodup
          refine ⟨hnodup, fun c hc => ?_⟩
          rw [hset c (fun heq => hnew (heq ▸ hc))]
          exact hfresh c (List.mem_cons_of_mem _ hc)
    · have hbeyond : (decide (cities ≤ city)) = true := decide_eq_true (UInt64.not_lt.mp hrange)
      rw [hbeyond, Bool.true_or, if_pos rfl]
      simp only [Bool.false_eq_true, false_iff]
      exact fun h => hrange (h.2 city List.mem_cons_self).1

/-- A tour is accepted if it visits every city once. -/
theorem verify_tsp : (Solution.TSP tour).verify (.TSP cities distances) = true ↔ IsTour cities tour := by
  rw [Solution.verify, Bool.and_eq_true, beq_iff_eq, tourVisits_iff List.length_replicate, IsTour]
  refine and_congr_right fun _ => and_congr_right fun _ => forall₂_congr fun city _ => ?_
  refine ⟨fun h => h.1, fun h => ⟨h, ?_⟩⟩
  rw [List.getElem?_replicate, if_pos (UInt64.lt_iff_toNat_lt.mp h)]

/-- The distances along the tour are given, and add up to a `u64`. -/
def LengthFits (tour : List Usize) (cities : Usize) (distances : List (List UInt64)) : Prop :=
  (∀ i < cities.toNat, (edge tour cities distances i).isSome) ∧
    ((List.range cities.toNat).map fun i => ((edge tour cities distances i).getD 0).toNat).sum < 2 ^ 64

theorem foldlM_checkedAddU64 {f : ℕ → Option UInt64} {is : List ℕ} {a : UInt64} :
    (is.foldlM (fun sum i => do
      let dist ← f i
      checkedAddU64 sum dist) a).isSome ↔
      (∀ i ∈ is, (f i).isSome) ∧ a.toNat + (is.map fun i => ((f i).getD 0).toNat).sum < 2 ^ 64 := by
  induction is generalizing a with
  | nil =>
    have ha := a.toNat_lt
    simp only [List.foldlM_nil, Option.pure_def, Option.isSome_some, List.not_mem_nil, false_implies,
      implies_true, List.map_nil, List.sum_nil, Nat.add_zero, true_and, true_iff]
    exact ha
  | cons i is ih =>
    rw [List.foldlM_cons, List.forall_mem_cons, List.map_cons, List.sum_cons]
    cases hf : f i with
    | none => simp
    | some dist =>
      simp only [Option.bind_eq_bind, Option.bind_some, Option.isSome_some, true_and, Option.getD_some]
      unfold checkedAddU64
      split_ifs with hfits
      · have hadd : (a + dist).toNat = a.toNat + dist.toNat := by
          rw [UInt64.toNat_add, Nat.mod_eq_of_lt hfits]
        have hih := ih (a := a + dist)
        rw [hadd] at hih
        rw [← Nat.add_assoc]
        exact hih
      · simp only [Option.bind_none, Option.isSome_none, Bool.false_eq_true, false_iff, not_and, not_lt]
        intro _
        omega

theorem tspTourLengthChecked_isSome :
    (tspTourLengthChecked tour cities distances).isSome ↔ LengthFits tour cities distances := by
  rw [tspTourLengthChecked, foldlM_checkedAddU64, LengthFits]
  simp

end Tours

/-! ### The nearest city -/

section Nearest

def MAX_DISTANCE : UInt64 := 0xFFFFFFFFFFFFFFFF

variable {seen : ℕ → Bool} {dist : ℕ → Option UInt64} {n : ℕ}

/-- A step of the loop over the cities. -/
def scanStep (seen : ℕ → Bool) (dist : ℕ → Option UInt64) (best : Option Usize × UInt64) (i : ℕ) :
    Option (Option Usize × UInt64) :=
  if seen i then pure best
  else do
    let d ← dist i
    pure (if d < best.2 then (some (UInt64.ofNat i), d) else best)

/-- What the loop has found among the first `n` cities. -/
def Best (seen : ℕ → Bool) (dist : ℕ → Option UInt64) (n : ℕ) : Option Usize × UInt64 → Prop
  | (none, d) => d = MAX_DISTANCE ∧ ∀ i < n, seen i = false → dist i = some MAX_DISTANCE
  | (some b, d) => b.toNat < n ∧ seen b.toNat = false ∧ dist b.toNat = some d ∧ d < MAX_DISTANCE ∧
      ∀ i < n, seen i = false → ∀ d', dist i = some d' → d ≤ d' ∧ (i < b.toNat → d < d')

/-- A city with a given distance is looked at. -/
theorem Best.step {best : Option Usize × UInt64} {d : UInt64} (h : Best seen dist n best) (hn : n < 2 ^ 64)
    (hunseen : seen n = false) (hdist : dist n = some d) :
    Best seen dist (n + 1) (if d < best.2 then (some (UInt64.ofNat n), d) else best) := by
  have hofNat : (UInt64.ofNat n).toNat = n := UInt64.toNat_ofNat_of_lt' hn
  obtain ⟨b, bd⟩ := best
  simp only
  split_ifs with hless
  · have hmax : bd ≤ MAX_DISTANCE := by
      cases b with
      | none => exact UInt64.le_of_eq h.1
      | some b => exact UInt64.le_of_lt h.2.2.2.1
    refine ⟨by omega, by rwa [hofNat], by rwa [hofNat], UInt64.lt_of_lt_of_le hless hmax, fun i hi hseen d' hd' => ?_⟩
    rw [hofNat]
    rcases Nat.lt_succ_iff_lt_or_eq.mp hi with hlt | rfl
    · have hbetter : d < d' := by
        cases b with
        | none =>
          obtain ⟨rfl, hall⟩ := h
          rw [hall i hlt hseen] at hd'
          obtain rfl := Option.some.inj hd'
          exact hless
        | some b => exact UInt64.lt_of_lt_of_le hless (h.2.2.2.2 i hlt hseen d' hd').1
      exact ⟨UInt64.le_of_lt hbetter, fun _ => hbetter⟩
    · rw [hdist] at hd'
      obtain rfl := Option.some.inj hd'
      exact ⟨UInt64.le_refl d, fun habsurd => absurd habsurd (lt_irrefl i)⟩
  · have hle : bd ≤ d := UInt64.not_lt.mp hless
    cases b with
    | none =>
      obtain ⟨rfl, hall⟩ := h
      refine ⟨rfl, fun i hi hseen => ?_⟩
      rcases Nat.lt_succ_iff_lt_or_eq.mp hi with hlt | rfl
      · exact hall i hlt hseen
      · have hbound : d ≤ MAX_DISTANCE := by
          rw [UInt64.le_iff_toNat_le]
          have hlt := d.toNat_lt
          have hmax : MAX_DISTANCE.toNat = 2 ^ 64 - 1 := rfl
          omega
        rw [hdist, UInt64.le_antisymm hbound hle]
    | some b =>
      obtain ⟨hb, hseenb, hdistb, hfinite, hall⟩ := h
      refine ⟨by omega, hseenb, hdistb, hfinite, fun i hi hseen d' hd' => ?_⟩
      rcases Nat.lt_succ_iff_lt_or_eq.mp hi with hlt | rfl
      · exact hall i hlt hseen d' hd'
      · rw [hdist] at hd'
        obtain rfl := Option.some.inj hd'
        exact ⟨hle, fun habsurd => absurd habsurd (by omega)⟩

theorem Best.skip {best : Option Usize × UInt64} (h : Best seen dist n best) (hseen : seen n = true) :
    Best seen dist (n + 1) best := by
  obtain ⟨b, bd⟩ := best
  have hne : ∀ i < n + 1, seen i = false → i < n := by
    intro i hi hunseen
    rcases Nat.lt_succ_iff_lt_or_eq.mp hi with hlt | rfl
    · exact hlt
    · rw [hseen] at hunseen
      cases hunseen
  cases b with
  | none => exact ⟨h.1, fun i hi hunseen => h.2 i (hne i hi hunseen) hunseen⟩
  | some b =>
    obtain ⟨hb, hseenb, hdistb, hfinite, hall⟩ := h
    exact ⟨by omega, hseenb, hdistb, hfinite, fun i hi hunseen => hall i (hne i hi hunseen) hunseen⟩

/-- The loop panics if a distance to a city that is left is missing, and finds the best one otherwise. -/
def Scanned (seen : ℕ → Bool) (dist : ℕ → Option UInt64) (n : ℕ) : Option (Option Usize × UInt64) → Prop
  | none => ∃ i < n, seen i = false ∧ dist i = none
  | some best => (∀ i < n, seen i = false → (dist i).isSome) ∧ Best seen dist n best

theorem scanned (hn : n ≤ 2 ^ 64) :
    Scanned seen dist n ((List.range n).foldlM (scanStep seen dist) (none, MAX_DISTANCE)) := by
  induction n with
  | zero => exact ⟨nofun, rfl, nofun⟩
  | succ n ih =>
    have hprevious := ih (by omega)
    rw [List.range_succ, List.foldlM_append]
    cases hscan : (List.range n).foldlM (scanStep seen dist) (none, MAX_DISTANCE) with
    | none =>
      rw [hscan] at hprevious
      obtain ⟨i, hi, hmissing⟩ := hprevious
      exact ⟨i, by omega, hmissing⟩
    | some best =>
      rw [hscan] at hprevious
      obtain ⟨hgiven, hbest⟩ := hprevious
      have hgiven' (h : seen n = false → (dist n).isSome) : ∀ i < n + 1, seen i = false → (dist i).isSome := by
        intro i hi
        rcases Nat.lt_succ_iff_lt_or_eq.mp hi with hlt | rfl
        · exact hgiven i hlt
        · exact h
      change Scanned seen dist (n + 1) ((scanStep seen dist best n).bind pure)
      rw [scanStep]
      cases hseen : seen n with
      | true => exact ⟨hgiven' (by rw [hseen]; nofun), hbest.skip hseen⟩
      | false =>
        cases hdist : dist n with
        | none => exact ⟨n, by omega, hseen, hdist⟩
        | some d => exact ⟨hgiven' fun _ => by rw [hdist]; rfl, hbest.step (by omega) hseen hdist⟩

variable {cities : Usize} {distances : List (List UInt64)} {near tour : List Usize} {current next : Usize}

def distanceTo (distances : List (List UInt64)) (current : Usize) (i : ℕ) : Option UInt64 := do
  let row ← distances[current.toNat]?
  row[i]?

/-- All distances to cities that are left are given, and of the cities at the least one this is the first; it is
below `u64::MAX`. -/
structure IsNearest (cities : Usize) (distances : List (List UInt64)) (near : List Usize) (current next : Usize) :
    Prop where
  given : ∀ city < cities, city ∉ near → (distanceTo distances current city.toNat).isSome
  range : next < cities
  fresh : next ∉ near
  nearest : ∃ d, distanceTo distances current next.toNat = some d ∧ d < MAX_DISTANCE ∧
    ∀ city < cities, city ∉ near → ∀ d', distanceTo distances current city.toNat = some d' →
      d ≤ d' ∧ (city < next → d < d')

/-- From `current` on, with these cities visited, the nearest cities one after the other. -/
inductive NearestFrom (cities : Usize) (distances : List (List UInt64)) : List Usize → Usize → List Usize → Prop where
  | done (near : List Usize) (current : Usize) : NearestFrom cities distances near current []
  | step {near : List Usize} {current next : Usize} {rest : List Usize}
      (hnearest : IsNearest cities distances near current next)
      (hrest : NearestFrom cities distances (near ++ [next]) next rest) :
      NearestFrom cities distances near current (next :: rest)

/-- The flags are those of the cities in the list. -/
structure Reflects (cities : Usize) (visited : List Bool) (near : List Usize) : Prop where
  length : visited.length = cities.toNat
  flag : ∀ city < cities, visited[city.toNat]? = some (decide (city ∈ near))

theorem Reflects.add {visited : List Bool} (h : Reflects cities visited near) (hrange : next < cities) :
    Reflects cities (visited.set next.toNat true) (near ++ [next]) := by
  refine ⟨by rw [List.length_set, h.length], fun city hcity => ?_⟩
  by_cases heq : city = next
  · subst heq
    rw [List.getElem?_set_self (by rw [h.length]; exact UInt64.lt_iff_toNat_lt.mp hrange)]
    simp
  · rw [List.getElem?_set_ne fun hnat => heq (UInt64.toNat_inj.mp hnat).symm, h.flag city hcity]
    simp [heq]

theorem IsNearest.unique {other : Usize} (h : IsNearest cities distances near current next)
    (h' : IsNearest cities distances near current other) : next = other := by
  obtain ⟨d, hd, -, hall⟩ := h.nearest
  obtain ⟨d', hd', -, hall'⟩ := h'.nearest
  obtain ⟨hle, hbefore⟩ := hall other h'.range h'.fresh d' hd'
  obtain ⟨hle', hbefore'⟩ := hall' next h.range h.fresh d hd
  by_contra hne
  rcases UInt64.lt_or_lt_of_ne hne with hlt | hlt
  · exact absurd (hbefore' hlt) (UInt64.not_lt.mpr hle)
  · exact absurd (hbefore hlt) (UInt64.not_lt.mpr hle')

theorem nearestUnvisited_eq_scan (visited : List Bool) : nearestUnvisited cities distances visited current =
    (fun best => best.1) <$> (List.range cities.toNat).foldlM
      (scanStep (fun i => (visited[i]?).getD false) (distanceTo distances current)) (none, MAX_DISTANCE) := by
  have hstep (best : Option Usize × UInt64) (i : ℕ) :
      scanStep (fun i => (visited[i]?).getD false) (distanceTo distances current) best i =
        if (visited[i]?).getD false then pure best
        else distances[current.toNat]? >>= fun row => row[i]? >>= fun dist =>
          pure (if dist < best.2 then (some (UInt64.ofNat i), dist) else best) := by
    simp only [scanStep, distanceTo, bind_assoc]
  rw [nearestUnvisited]
  congr 2
  funext best i
  exact (hstep best i).symm

/-- The city that is found is the nearest one, and where there is a nearest one it is found. -/
theorem nearestUnvisited_iff {visited : List Bool} (h : Reflects cities visited near) :
    nearestUnvisited cities distances visited current = some (some next) ↔
      IsNearest cities distances near current next := by
  have hseen {city : Usize} (hcity : city < cities) :
      (visited[city.toNat]?).getD false = false ↔ city ∉ near := by
    rw [h.flag city hcity, Option.getD_some, decide_eq_false_iff_not]
  have hcity {i : ℕ} (hi : i < cities.toNat) :
      (UInt64.ofNat i).toNat = i ∧ UInt64.ofNat i < cities := by
    have hofNat : (UInt64.ofNat i).toNat = i := UInt64.toNat_ofNat_of_lt' (hi.trans cities.toNat_lt)
    exact ⟨hofNat, UInt64.lt_iff_toNat_lt.mpr (by rw [hofNat]; exact hi)⟩
  have hspec : Scanned (fun i => (visited[i]?).getD false) (distanceTo distances current) cities.toNat _ :=
    scanned cities.toNat_lt.le
  rw [nearestUnvisited_eq_scan]
  cases hscan : (List.range cities.toNat).foldlM
      (scanStep (fun i => (visited[i]?).getD false) (distanceTo distances current)) (none, MAX_DISTANCE) with
  | none =>
    rw [hscan] at hspec
    obtain ⟨i, hi, hunseen, hmissing⟩ := hspec
    obtain ⟨hofNat, hrange⟩ := hcity hi
    simp only [Option.map_eq_map, Option.map_none, reduceCtorEq, false_iff]
    intro hnearest
    have hgiven := hnearest.given _ hrange ((hseen hrange).mp (by rwa [hofNat]))
    rw [hofNat, hmissing] at hgiven
    cases hgiven
  | some best =>
    rw [hscan] at hspec
    obtain ⟨hgiven, hbest⟩ := hspec
    have hgiven' : ∀ city < cities, city ∉ near → (distanceTo distances current city.toNat).isSome :=
      fun city hrange hfresh => hgiven _ (UInt64.lt_iff_toNat_lt.mp hrange) ((hseen hrange).mpr hfresh)
    obtain ⟨b, d⟩ := best
    simp only [Option.map_eq_map, Option.map_some, Option.some.injEq]
    cases b with
    | none =>
      obtain ⟨rfl, hall⟩ := hbest
      simp only [reduceCtorEq, false_iff]
      intro hnearest
      obtain ⟨d, hd, hfinite, -⟩ := hnearest.nearest
      rw [hall _ (UInt64.lt_iff_toNat_lt.mp hnearest.range) ((hseen hnearest.range).mpr hnearest.fresh)] at hd
      obtain rfl := Option.some.inj hd
      exact absurd hfinite (UInt64.lt_irrefl _)
    | some b =>
      obtain ⟨hb, hunseen, hd, hfinite, hall⟩ := hbest
      have hrange : b < cities := UInt64.lt_iff_toNat_lt.mpr hb
      have hfound : IsNearest cities distances near current b := by
        refine ⟨hgiven', hrange, (hseen hrange).mp hunseen, d, hd, hfinite, fun city hcity hfresh d' hd' => ?_⟩
        obtain ⟨hle, hbefore⟩ := hall _ (UInt64.lt_iff_toNat_lt.mp hcity) ((hseen hcity).mpr hfresh) d' hd'
        exact ⟨hle, fun hlt => hbefore (UInt64.lt_iff_toNat_lt.mp hlt)⟩
      refine ⟨fun heq => Option.some.inj heq ▸ hfound, fun hnearest => ?_⟩
      rw [hfound.unique hnearest]

/-- The loop goes all the way exactly along the nearest cities. -/
theorem nearestNeighborTour_iff {visited : List Bool} {result : List Usize} (rounds : ℕ)
    (h : Reflects cities visited tour) :
    (nearestNeighborTour cities distances rounds current tour visited = some result ∧
      result.length = tour.length + rounds) ↔
    ∃ rest, rest.length = rounds ∧ NearestFrom cities distances tour current rest ∧ result = tour ++ rest := by
  induction rounds generalizing current tour visited with
  | zero =>
    rw [nearestNeighborTour]
    constructor
    · rintro ⟨heq, -⟩
      exact ⟨[], rfl, .done .., by rw [List.append_nil, Option.some.inj heq]⟩
    · rintro ⟨rest, hlength, -, rfl⟩
      rw [List.length_eq_zero_iff.mp hlength, List.append_nil]
      exact ⟨rfl, rfl⟩
  | succ rounds ih =>
    rw [nearestNeighborTour]
    constructor
    · rintro ⟨heq, hlength⟩
      obtain ⟨found, hfound, hloop⟩ := Option.bind_eq_some_iff.mp heq
      cases found with
      | none =>
        obtain rfl := Option.some.inj hloop
        omega
      | some next =>
        have hnearest := (nearestUnvisited_iff h).mp hfound
        obtain ⟨rest, hrest, hfrom, rfl⟩ := (ih (h.add hnearest.range)).mp
          ⟨hloop, by rw [hlength, List.length_append, List.length_singleton]; omega⟩
        exact ⟨next :: rest, by rw [List.length_cons, hrest], .step hnearest hfrom, by simp⟩
    · rintro ⟨rest, hlength, hfrom, rfl⟩
      cases hfrom with
      | done => cases hlength
      | step hnearest hfrom =>
        rename_i next rest
        have hloop := (ih (h.add hnearest.range)).mpr ⟨rest, Nat.succ.inj hlength, hfrom, List.append_cons ..⟩
        rw [(nearestUnvisited_iff h).mpr hnearest]
        refine ⟨?_, by rw [List.length_append, hlength]⟩
        exact hloop.1

theorem length_nearestNeighborTour {visited : List Bool} {result : List Usize} (rounds : ℕ)
    (h : nearestNeighborTour cities distances rounds current tour visited = some result) :
    result.length ≤ tour.length + rounds := by
  induction rounds generalizing current tour visited with
  | zero =>
    rw [← Option.some.inj h]
    exact le_rfl
  | succ rounds ih =>
    rw [nearestNeighborTour] at h
    obtain ⟨found, -, hloop⟩ := Option.bind_eq_some_iff.mp h
    cases found with
    | none =>
      rw [← Option.some.inj hloop]
      exact Nat.le_add_right ..
    | some next =>
      have hle := ih hloop
      rw [List.length_append, List.length_singleton] at hle
      omega

/-- A tour whose length can be computed has a city for every position. -/
theorem LengthFits.length_le (h : LengthFits tour cities distances) (hpositive : 0 < cities.toNat) :
    cities.toNat ≤ tour.length := by
  by_contra hshort
  have hedge := h.1 (cities.toNat - 1) (by omega)
  have hnone : tour[cities.toNat - 1]? = none := List.getElem?_eq_none (by omega)
  rw [edge, hnone] at hedge
  cases hedge

end Nearest

/-! ### Both functions -/

/-- Both functions return, and what is accepted has a quality between zero and one. -/
def Total (s : Solution) (problem : ProblemType) : Prop :=
  (verifyChecked s problem).isSome ∧ ∃ q, qualityChecked s problem = some q ∧
    (s.verify problem = true → F64.zero.le q = true ∧ q.le F64.one = true)

/-- There is a way through all cities along the nearest ones, and the lengths of this way and of the tour can
be computed. -/
def TourSafe (cities : Usize) (distances : List (List UInt64)) (tour : List Usize) : Prop :=
  cities ≠ 0 ∧ LengthFits tour cities distances ∧ ∃ rest, rest.length + 1 = cities.toNat ∧
    NearestFrom cities distances [0] 0 rest ∧ LengthFits (0 :: rest) cities distances

/-- The sums of a subset fit, no zero literal is looked at, and a tour of all cities is safe. -/
def Safe : Solution → ProblemType → Prop
  | .SubsetSum indices, .SubsetSum numbers _ => PartialSumsFit (selected numbers indices)
  | .SAT assignment, .SAT vars clauses => assignment.length ≠ vars.toNat ∨ ZeroUnreached assignment clauses
  | .TSP tour, .TSP cities distances => IsTour cities tour → TourSafe cities distances tour
  | _, _ => True

section Both

variable {cities : Usize} {distances : List (List UInt64)} {tour : List Usize}

theorem reflects_start :
    Reflects cities ((List.replicate cities.toNat false).set 0 true) [0] := by
  refine ⟨by simp, fun city hcity => ?_⟩
  have hlt := UInt64.lt_iff_toNat_lt.mp hcity
  by_cases hzero : city = 0
  · subst hzero
    rw [UInt64.toNat_zero] at hlt ⊢
    rw [List.getElem?_set_self (by simpa using hlt)]
    simp
  · rw [List.getElem?_set_ne fun heq => hzero (UInt64.toNat_inj.mp (by simpa using heq.symm)),
      List.getElem?_replicate, if_pos hlt]
    simp [hzero]

theorem tspNearestNeighborLengthChecked_isSome :
    (tspNearestNeighborLengthChecked cities distances).isSome ↔ cities ≠ 0 ∧ ∃ rest, rest.length + 1 = cities.toNat ∧
      NearestFrom cities distances [0] 0 rest ∧ LengthFits (0 :: rest) cities distances := by
  by_cases hcities : cities = 0
  · simp [tspNearestNeighborLengthChecked, hcities]
  have hpositive : 0 < cities.toNat := Nat.pos_of_ne_zero fun h => hcities (UInt64.toNat_inj.mp h)
  have hvalue : tspNearestNeighborLengthChecked cities distances =
      (nearestNeighborTour cities distances (cities.toNat - 1) 0 [0]
        ((List.replicate cities.toNat false).set 0 true)).bind
          fun result => tspTourLengthChecked result cities distances := by
    rw [tspNearestNeighborLengthChecked, if_neg hcities]
    rfl
  rw [hvalue]
  constructor
  · intro h
    obtain ⟨length, hlength⟩ := Option.isSome_iff_exists.mp h
    obtain ⟨result, hloop, hlength⟩ := Option.bind_eq_some_iff.mp hlength
    have hfits : LengthFits result cities distances :=
      tspTourLengthChecked_isSome.mp (Option.isSome_of_eq_some hlength)
    have hlong := hfits.length_le hpositive
    have hshort := length_nearestNeighborTour _ hloop
    rw [List.length_singleton] at hshort
    obtain ⟨rest, hrest, hfrom, rfl⟩ := (nearestNeighborTour_iff _ reflects_start).mp
      ⟨hloop, by rw [List.length_singleton]; omega⟩
    exact ⟨hcities, rest, by omega, hfrom, hfits⟩
  · rintro ⟨-, rest, hrest, hfrom, hfits⟩
    have hloop := (nearestNeighborTour_iff (cities.toNat - 1) reflects_start).mpr
      ⟨rest, by omega, hfrom, rfl⟩
    rw [hloop.1]
    exact tspTourLengthChecked_isSome.mpr hfits

theorem le_max (a b : UInt64) : b ≤ max a b := by
  simp only [max]
  split_ifs with h
  · exact UInt64.le_refl b
  · exact (UInt64.le_total a b).resolve_left h

/-- The quality of a tour, if it is computed. -/
theorem qualityChecked_tsp_range {q : F64} (h : qualityChecked (.TSP tour) (.TSP cities distances) = some q) :
    F64.zero.le q = true ∧ q.le F64.one = true := by
  rw [qualityChecked] at h
  split_ifs at h
  · rw [← Option.some.inj h]
    exact ⟨by decide, by decide⟩
  · obtain ⟨length, -, h⟩ := Option.bind_eq_some_iff.mp h
    obtain ⟨baseline, -, h⟩ := Option.bind_eq_some_iff.mp h
    rw [← Option.some.inj h]
    have hlarge : 0 < (max length (max baseline 1)).toNat :=
      UInt64.le_iff_toNat_le.mp (UInt64.le_trans (le_max baseline 1) (le_max length (max baseline 1)))
    obtain ⟨hinf, hzero⟩ := ofNat_normal hlarge (UInt64.toNat_lt _)
    exact clamp_range (isNaN_div (isNaN_round ..) (isNaN_round ..) hinf hzero)

theorem qualityChecked_tsp : (qualityChecked (.TSP tour) (.TSP cities distances)).isSome ↔
    (IsTour cities tour → TourSafe cities distances tour) := by
  rw [qualityChecked, ← @verify_tsp cities distances tour]
  cases hverify : (Solution.TSP tour).verify (.TSP cities distances) with
  | false => simp
  | true =>
    rw [Bool.not_true, if_neg Bool.false_ne_true, imp_iff_right rfl, TourSafe, and_left_comm,
      ← tspNearestNeighborLengthChecked_isSome, ← tspTourLengthChecked_isSome]
    cases tspTourLengthChecked tour cities distances with
    | none => simp
    | some length =>
      cases tspNearestNeighborLengthChecked cities distances with
      | none => simp
      | some baseline => simp

/-- Where the checked verification returns, it returns the verdict. -/
theorem verify_of_checked {s : Solution} {problem : ProblemType} {verified : Bool}
    (h : verifyChecked s problem = some verified) : s.verify problem = verified := by
  unfold verifyChecked at h
  split at h
  · obtain ⟨sum, hsum, rfl⟩ := Option.map_eq_some_iff.mp h
    rw [(foldlM_checkedAdd hsum).2]
    rfl
  · rw [Solution.verify]
    split_ifs at h ⊢ with hlength
    · exact Option.some.inj h
    · rw [allM_eq (allM_isSome.mp (Option.isSome_of_eq_some h))] at h
      exact Option.some.inj h
  · exact Option.some.inj h

theorem tspTourLength_of_checked {length : UInt64} (h : tspTourLengthChecked tour cities distances = some length) :
    tspTourLength tour cities distances = some length := by
  rw [tspTourLengthChecked] at h
  rw [tspTourLength]
  generalize List.range cities.toNat = is at h ⊢
  generalize (0 : UInt64) = sum at h ⊢
  induction is generalizing sum with
  | nil => exact h
  | cons i is ih =>
    rw [List.foldlM_cons] at h ⊢
    obtain ⟨next, hnext, hrest⟩ := Option.bind_eq_some_iff.mp h
    obtain ⟨dist, hdist, hadd⟩ := Option.bind_eq_some_iff.mp hnext
    obtain ⟨src, hsrc, hdist⟩ := Option.bind_eq_some_iff.mp hdist
    obtain ⟨dst, hdst, hdist⟩ := Option.bind_eq_some_iff.mp hdist
    obtain ⟨row, hrow, hdist⟩ := Option.bind_eq_some_iff.mp hdist
    unfold checkedAddU64 at hadd
    split_ifs at hadd
    obtain rfl := Option.some.inj hadd
    simp only [hsrc, hdst, hrow, hdist, Option.bind_eq_bind, Option.bind_some, Option.pure_def]
    exact ih _ hrest

theorem tspNearestNeighborLength_of_checked {length : UInt64}
    (h : tspNearestNeighborLengthChecked cities distances = some length) :
    tspNearestNeighborLength cities distances = some length := by
  rw [tspNearestNeighborLengthChecked] at h
  rw [tspNearestNeighborLength]
  by_cases hcities : cities = 0
  · rw [if_pos hcities] at h
    cases h
  · rw [if_neg hcities] at h ⊢
    obtain ⟨result, hresult, h⟩ := Option.bind_eq_some_iff.mp h
    exact Option.bind_eq_some_iff.mpr ⟨result, hresult, tspTourLength_of_checked h⟩

/-- Where the checked quality returns, it returns the quality. -/
theorem quality_of_checked {s : Solution} {problem : ProblemType} {q : F64}
    (h : qualityChecked s problem = some q) : s.quality problem = some q := by
  unfold qualityChecked at h
  split at h
  · obtain ⟨verified, hverified, rfl⟩ := Option.map_eq_some_iff.mp h
    rw [Solution.quality, verify_of_checked hverified]
  · obtain ⟨verified, hverified, rfl⟩ := Option.map_eq_some_iff.mp h
    rw [Solution.quality, verify_of_checked hverified]
  · rw [Solution.quality]
    split_ifs at h ⊢
    · exact h
    · obtain ⟨length, hlength, h⟩ := Option.bind_eq_some_iff.mp h
      obtain ⟨baseline, hbaseline, h⟩ := Option.bind_eq_some_iff.mp h
      rw [tspTourLength_of_checked hlength, tspNearestNeighborLength_of_checked hbaseline]
      exact h
  · rw [← h, Solution.quality]
    all_goals assumption

/-- Both functions return, with a quality between zero and one for what is accepted, exactly if the sums of a
subset fit, no zero literal is looked at and the tour is safe. -/
theorem total_iff (s : Solution) (problem : ProblemType) : Total s problem ↔ Safe s problem := by
  have hbinary (o : Option Bool) :
      (o.isSome ∧ ∃ q, (o.map fun verified => if verified then F64.one else F64.zero) = some q ∧
        (s.verify problem = true → F64.zero.le q = true ∧ q.le F64.one = true)) ↔ o.isSome := by
    refine and_iff_left_of_imp fun hsome => ?_
    obtain ⟨verified, rfl⟩ := Option.isSome_iff_exists.mp hsome
    refine ⟨_, rfl, fun _ => ?_⟩
    cases verified with
    | false => exact ⟨by decide, by decide⟩
    | true => exact ⟨by decide, by decide⟩
  have hother (h : verifyChecked s problem = some (s.verify problem))
      (hquality : qualityChecked s problem = some F64.zero) : Total s problem ↔ True :=
    iff_of_true ⟨by rw [h]; rfl, _, hquality, fun _ => ⟨by decide, by decide⟩⟩ trivial
  cases s with
  | SubsetSum indices =>
    cases problem with
    | SubsetSum numbers target => exact (hbinary _).trans verifyChecked_subsetSum
    | SAT vars clauses => exact hother rfl rfl
    | TSP cities distances => exact hother rfl rfl
    | Custom problemId data => exact hother rfl rfl
  | SAT assignment =>
    cases problem with
    | SubsetSum numbers target => exact hother rfl rfl
    | SAT vars clauses => exact (hbinary _).trans verifyChecked_sat
    | TSP cities distances => exact hother rfl rfl
    | Custom problemId data => exact hother rfl rfl
  | TSP tour =>
    cases problem with
    | SubsetSum numbers target => exact hother rfl rfl
    | SAT vars clauses => exact hother rfl rfl
    | TSP cities distances =>
      rw [Safe, ← qualityChecked_tsp]
      constructor
      · rintro ⟨-, q, hq, -⟩
        exact Option.isSome_of_eq_some hq
      · intro hsome
        obtain ⟨q, hq⟩ := Option.isSome_iff_exists.mp hsome
        exact ⟨rfl, q, hq, fun _ => qualityChecked_tsp_range hq⟩
    | Custom problemId data => exact hother rfl rfl
  | Custom bytes =>
    cases problem with
    | SubsetSum numbers target => exact hother rfl rfl
    | SAT vars clauses => exact hother rfl rfl
    | TSP cities distances => exact hother rfl rfl
    | Custom problemId data => exact hother rfl rfl

/-- A problem with no cities, one with a row missing, one with the largest distance, and a sum that overflows. -/
theorem not_total :
    ¬Total (.TSP []) (.TSP 0 []) ∧ ¬Total (.TSP [0, 1]) (.TSP 2 [[0, 1]]) ∧
    ¬Total (.TSP [0, 1]) (.TSP 2 [[0, MAX_DISTANCE], [MAX_DISTANCE, 0]]) ∧
    ¬Total (.SubsetSum [0, 1]) (.SubsetSum [Int64.maxValue, 1] 0) ∧ ¬Total (.SAT []) (.SAT 0 [⟨[0]⟩]) := by
  refine ⟨fun h => ?_, fun h => ?_, fun h => ?_, fun h => ?_, fun h => ?_⟩
  · obtain ⟨-, q, hq, -⟩ := h
    have hnone : qualityChecked (.TSP []) (.TSP 0 []) = none := by decide +kernel
    cases hnone.symm.trans hq
  · obtain ⟨-, q, hq, -⟩ := h
    have hnone : qualityChecked (.TSP [0, 1]) (.TSP 2 [[0, 1]]) = none := by decide +kernel
    cases hnone.symm.trans hq
  · obtain ⟨-, q, hq, -⟩ := h
    have hnone : qualityChecked (.TSP [0, 1]) (.TSP 2 [[0, MAX_DISTANCE], [MAX_DISTANCE, 0]]) = none := by decide +kernel
    cases hnone.symm.trans hq
  · exact absurd h.1 (by decide)
  · exact absurd h.1 (by decide)

end Both

end Coinjecture.Core.TourSafety
