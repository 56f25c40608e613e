import Coinjecture.Core.TourSafety
import Coinjecture.Lib.Tours

/-! # The TSP solver of the miner

The solver goes from city 0 to the nearest city each time, and then turns segments of this tour round as long as
that makes it shorter (2-opt). A distance of `u64::MAX` is not taken by the first part, which then ends early.

`none` is a panic (a missing distance, or a sum above `u64::MAX`), or the rounds have run out; the clock is asked
before each round and each pair, and `expired k` says whether the deadline is over when it is asked for the `k`-th
time. -/

namespace Coinjecture.Consensus.TspSolver

open Core.Types Core.Problem Core.ProblemChecks Core.TourSafety
open Lib.Tours

/-! ### The solver -/

section Solver

variable (cities : Usize) (distances : List (List UInt64))

/-- `tsp_nearest_neighbor`: the loop is that of `tsp_nearest_neighbor_length`. Without cities `visited[0]` panics. -/
def tspNearestNeighbor : Option (List Usize) :=
  if cities = 0 then none
  else nearestNeighborTour cities distances (cities.toNat - 1) 0 [0]
    ((List.replicate cities.toNat false).set 0 true)

/-- `tour[i + 1..=j].reverse()`. -/
def turn (tour : List Usize) (i j : ℕ) : List Usize :=
  tour.take (i + 1) ++ ((tour.take (j + 1)).drop (i + 1)).reverse ++ tour.drop (j + 1)

/-- The tour with the segment turned round, if that is shorter. -/
def tryTurn (tour : List Usize) (i j : ℕ) : Option (Option (List Usize)) := do
  let a ← tour[i]?
  let b ← tour[i + 1]?
  let c ← tour[j]?
  let d ← tour[(j + 1) % cities.toNat]?
  let before ← checkedAddU64 (← distanceTo distances a b.toNat) (← distanceTo distances c d.toNat)
  let after ← checkedAddU64 (← distanceTo distances a c.toNat) (← distanceTo distances b d.toNat)
  return if after < before then some (turn tour i j) else none

/-- The pairs `i`, `j` in the order of the two loops. -/
def pairs : List (ℕ × ℕ) :=
  (List.range (cities.toNat - 1)).flatMap fun i =>
    (List.range' (i + 2) (cities.toNat - (i + 2))).map fun j => (i, j)

structure Search where
  tour : List Usize
  improved : Bool
  /-- How often the clock was asked. -/
  checks : ℕ

variable (expired : ℕ → Bool)

/-- The two loops, and whether the deadline was over within them. -/
def tryPairs : List (ℕ × ℕ) → Search → Option (Search × Bool)
  | [], search => some (search, false)
  | pair :: pairs, search =>
    if expired search.checks then some (search, true)
    else do
      let search := { search with checks := search.checks + 1 }
      match ← tryTurn cities distances search.tour pair.1 pair.2 with
      | some tour => tryPairs pairs { search with tour, improved := true }
      | none => tryPairs pairs search

/-- `tsp_two_opt`, for at most so many rounds. -/
def tspTwoOpt : (rounds : ℕ) → (tour : List Usize) → (checks : ℕ) → Option (List Usize)
  | 0, _, _ => none
  | rounds + 1, tour, checks =>
    if expired checks then some tour
    else do
      let (search, stopped) ← tryPairs cities distances expired (pairs cities) ⟨tour, false, checks + 1⟩
      if stopped || !search.improved then some search.tour
      else tspTwoOpt rounds search.tour search.checks

/-- `solve_tsp_blocking`. -/
def solveTsp (rounds : ℕ) : Option (Option Solution) :=
  if cities = 0 then some none
  else do
    let tour ← tspNearestNeighbor cities distances
    if tour.length ≠ cities.toNat then some none
    else do
      let tour ← tspTwoOpt cities distances expired rounds tour 0
      return some (.TSP tour)

end Solver

/-! ### Distances -/

section Distances

variable {cities : Usize} {distances : List (List UInt64)} {tour : List Usize}

/-- A symmetric matrix of the distances between the cities. -/
structure IsSymmetric (cities : Usize) (distances : List (List UInt64)) : Prop where
  rows : distances.length = cities.toNat
  columns : ∀ row ∈ distances, row.length = cities.toNat
  symm : ∀ a < cities, ∀ b < cities, distanceTo distances a b.toNat = distanceTo distances b a.toNat

/-- The lengths of all tours fit in `u64`. -/
def ToursFit (cities : Usize) (distances : List (List UInt64)) : Prop :=
  ∀ tour, IsTour cities tour → LengthFits tour cities distances

/-- The distance between two cities, and zero where there is none. -/
def dist (cities : Usize) (distances : List (List UInt64)) (a b : Usize) : ℕ :=
  if a < cities ∧ b < cities then ((distanceTo distances a b.toNat).getD 0).toNat else 0

theorem IsSymmetric.dist_comm (h : IsSymmetric cities distances) (a b : Usize) :
    dist cities distances a b = dist cities distances b a := by
  rw [dist, dist]
  split_ifs with hab hba hba
  · rw [h.symm a hab.1 b hab.2]
  · exact absurd hab.symm hba
  · exact absurd hba.symm hab
  · rfl

theorem IsSymmetric.distanceTo_eq (h : IsSymmetric cities distances) {a b : Usize} (ha : a < cities)
    (hb : b < cities) : ∃ x, distanceTo distances a b.toNat = some x ∧ x.toNat = dist cities distances a b := by
  have hrow : a.toNat < distances.length := by rw [h.rows]; exact UInt64.lt_iff_toNat_lt.mp ha
  have hcol : b.toNat < distances[a.toNat].length := by
    rw [h.columns _ (List.getElem_mem hrow)]
    exact UInt64.lt_iff_toNat_lt.mp hb
  have hget : distanceTo distances a b.toNat = some distances[a.toNat][b.toNat] := by
    rw [distanceTo, List.getElem?_eq_getElem hrow]
    exact List.getElem?_eq_getElem hcol
  exact ⟨_, hget, by rw [dist, if_pos ⟨ha, hb⟩, hget]; rfl⟩

/-- The sum of the distances along a tour is its length. -/
theorem sum_edges (htour : IsTour cities tour) :
    ((List.range cities.toNat).map fun i => ((edge tour cities distances i).getD 0).toNat).sum =
      tourLength (dist cities distances) tour := by
  obtain ⟨hlen, -, hrange⟩ := htour
  rw [tourLength_eq_sum tour 0, hlen]
  refine congrArg List.sum (List.map_congr_left fun i hi => ?_)
  have hi := List.mem_range.mp hi
  have hnext : (i + 1) % cities.toNat < tour.length := by
    rw [hlen]
    exact Nat.mod_lt _ (by omega)
  rw [← hlen] at hi
  rw [edge, List.getElem?_eq_getElem hi, List.getElem?_eq_getElem hnext, List.getD_eq_getElem _ _ hi,
    List.getD_eq_getElem _ _ hnext, dist,
    if_pos ⟨hrange _ (List.getElem_mem hi), hrange _ (List.getElem_mem hnext)⟩]
  rfl

theorem ToursFit.length_lt (hfit : ToursFit cities distances) (htour : IsTour cities tour) :
    tourLength (dist cities distances) tour < 2 ^ 64 := by
  rw [← sum_edges htour]
  exact (hfit tour htour).2

end Distances

/-! ### Turning a segment round -/

section Turn

variable {cities : Usize} {distances : List (List UInt64)} {tour : List Usize} {i j : ℕ}

/-- The tour around the segment from `b` to `c`. -/
structure Around (tour : List Usize) (i j : ℕ) (p m q : List Usize) (a b c : Usize) : Prop where
  tour : tour = p ++ a :: b :: (m ++ c :: q)
  first : p.length = i
  last : p.length + m.length + 2 = j

theorem exists_around (hij : i + 2 ≤ j) (hj : j < tour.length) : ∃ p m q a b c, Around tour i j p m q a b c := by
  have htail := List.take_append_drop (j - (i + 2)) (tour.drop (i + 2))
  have hrest : (tour.drop (i + 2)).drop (j - (i + 2)) = tour[j] :: tour.drop (j + 1) := by
    rw [List.drop_drop, Nat.add_sub_cancel' hij, List.drop_eq_getElem_cons hj]
  refine ⟨tour.take i, (tour.drop (i + 2)).take (j - (i + 2)), tour.drop (j + 1), tour[i], tour[i + 1], tour[j],
    ?_, ?_, ?_⟩
  · rw [← hrest, htail, ← List.drop_eq_getElem_cons, ← List.drop_eq_getElem_cons, List.take_append_drop]
  · rw [List.length_take]
    omega
  · rw [List.length_take, List.length_take, List.length_drop]
    omega

variable {p m q : List Usize} {a b c : Usize}

theorem Around.turn (h : Around tour i j p m q a b c) :
    turn tour i j = p ++ a :: c :: (m.reverse ++ b :: q) := by
  have hparts : tour = (p ++ [a]) ++ (b :: (m ++ [c])) ++ q := by rw [h.tour]; simp
  have hfirst : (p ++ [a]).length = i + 1 := by rw [List.length_append, h.first]; rfl
  have hlast : ((p ++ [a]) ++ (b :: (m ++ [c]))).length = j + 1 := by
    have := h.last
    simp
    omega
  have htake : ((p ++ [a]) ++ (b :: (m ++ [c])) ++ q).take (i + 1) = p ++ [a] := by
    rw [List.append_assoc (p ++ [a]), List.take_left' hfirst]
  rw [TspSolver.turn, hparts, List.take_left' hlast, List.drop_left' hlast, List.drop_left' hfirst, htake]
  simp

theorem Around.length (h : Around tour i j p m q a b c) : tour.length = j + 1 + q.length := by
  have := h.last
  rw [h.tour]
  simp
  omega

/-- The cities at the four ends. -/
theorem Around.ends (h : Around tour i j p m q a b c) : tour[i]? = some a ∧ tour[i + 1]? = some b ∧
    tour[j]? = some c ∧ ∃ e, tour[(j + 1) % tour.length]? = some e ∧ (q ++ (p ++ [a])).head? = some e := by
  have hfirst := h.first
  have hlast := h.last
  have hlen := h.length
  have hc : tour[j]? = some c := by
    rw [h.tour, List.getElem?_append_right (by omega), show j - p.length = m.length + 2 by omega]
    simp
  refine ⟨?_, ?_, hc, ?_⟩
  · rw [h.tour, List.getElem?_append_right (by omega), hfirst, Nat.sub_self]
    rfl
  · rw [h.tour, List.getElem?_append_right (by omega), hfirst, Nat.add_sub_cancel_left]
    rfl
  · cases q with
    | nil =>
      obtain ⟨e, r, hstart⟩ := List.exists_cons_of_ne_nil (show p ++ [a] ≠ [] by simp)
      refine ⟨e, ?_, by rw [hstart]; rfl⟩
      have hcons : tour = e :: (r ++ b :: (m ++ [c])) := by
        rw [h.tour, List.append_cons, hstart]
        rfl
      rw [hlen, List.length_nil, Nat.add_zero, Nat.mod_self, hcons]
      rfl
    | cons z q =>
      refine ⟨z, ?_, rfl⟩
      rw [Nat.mod_eq_of_lt (by rw [hlen, List.length_cons]; omega), h.tour,
        List.getElem?_append_right (by omega), show j + 1 - p.length = m.length + 3 by omega]
      simp

theorem Around.perm (h : Around tour i j p m q a b c) : (TspSolver.turn tour i j).Perm tour := by
  rw [h.turn, h.tour]
  refine List.Perm.append_left p (List.Perm.cons a ?_)
  have hparts : c :: (m.reverse ++ b :: q) = (b :: (m ++ [c])).reverse ++ q := by simp
  have hparts' : b :: (m ++ c :: q) = b :: (m ++ [c]) ++ q := by simp
  rw [hparts, hparts']
  exact (List.reverse_perm _).append_right q

theorem isTour_perm {tour' : List Usize} (h : IsTour cities tour) (hperm : tour'.Perm tour) :
    IsTour cities tour' :=
  ⟨hperm.length_eq.trans h.1, hperm.nodup_iff.mpr h.2.1, fun city hcity => h.2.2 city (hperm.mem_iff.mp hcity)⟩

theorem checkedAddU64_of_lt {x y : UInt64} (h : x.toNat + y.toNat < 2 ^ 64) :
    ∃ z, checkedAddU64 x y = some z ∧ z.toNat = x.toNat + y.toNat := by
  refine ⟨x + y, if_pos h, ?_⟩
  rw [UInt64.toNat_add, Nat.mod_eq_of_lt h]

/-- No distance is missing and no sum overflows, and a segment is turned round only if the tour gets shorter. -/
theorem tryTurn_spec (hsymm : IsSymmetric cities distances) (hfit : ToursFit cities distances)
    (htour : IsTour cities tour) (hij : i + 2 ≤ j) (hj : j < cities.toNat) :
    ∃ result, tryTurn cities distances tour i j = some result ∧ ∀ tour', result = some tour' →
      IsTour cities tour' ∧ tourLength (dist cities distances) tour' < tourLength (dist cities distances) tour := by
  obtain ⟨p, m, q, a, b, c, haround⟩ := exists_around hij (show j < tour.length by rw [htour.1]; exact hj)
  obtain ⟨ha, hb, hc, e, he, hhead⟩ := haround.ends
  have hrange : ∀ {k : ℕ} {x : Usize}, tour[k]? = some x → x < cities := fun h =>
    htour.2.2 _ (List.mem_of_getElem? h)
  obtain ⟨xab, hab, hxab⟩ := hsymm.distanceTo_eq (hrange ha) (hrange hb)
  obtain ⟨xce, hce, hxce⟩ := hsymm.distanceTo_eq (hrange hc) (hrange he)
  obtain ⟨xac, hac, hxac⟩ := hsymm.distanceTo_eq (hrange ha) (hrange hc)
  obtain ⟨xbe, hbe, hxbe⟩ := hsymm.distanceTo_eq (hrange hb) (hrange he)
  have hturned : IsTour cities (turn tour i j) := isTour_perm htour haround.perm
  have hchange := tourLength_turn hsymm.dist_comm p m q a b c e hhead
  have hbefore := le_tourLength (d := dist cities distances) p m q a b c e hhead
  have hafter := le_tourLength (d := dist cities distances) p m.reverse q a c b e hhead
  rw [← haround.turn] at hchange hafter
  rw [← haround.tour] at hchange hbefore
  have hold := hfit.length_lt htour
  have hnew := hfit.length_lt hturned
  obtain ⟨before, hsum, hbeforeVal⟩ := checkedAddU64_of_lt (x := xab) (y := xce) (by omega)
  obtain ⟨after, hsum', hafterVal⟩ := checkedAddU64_of_lt (x := xac) (y := xbe) (by omega)
  refine ⟨if after < before then some (turn tour i j) else none, ?_, fun tour' htour' => ?_⟩
  · rw [htour.1] at he
    simp [tryTurn, ha, hb, hc, he, hab, hce, hac, hbe, hsum, hsum']
  · split_ifs at htour' with hshorter
    obtain rfl := Option.some.inj htour'
    have hlt := UInt64.lt_iff_toNat_lt.mp hshorter
    exact ⟨hturned, by omega⟩

end Turn

/-! ### The loop -/

section Loop

variable {cities : Usize} {distances : List (List UInt64)} {expired : ℕ → Bool} {tour : List Usize}

theorem mem_pairs {pair : ℕ × ℕ} (h : pair ∈ pairs cities) : pair.1 + 2 ≤ pair.2 ∧ pair.2 < cities.toNat := by
  obtain ⟨i, -, hi⟩ := List.mem_flatMap.mp h
  obtain ⟨j, hj, rfl⟩ := List.mem_map.mp hi
  obtain ⟨hle, hlt⟩ := List.mem_range'_1.mp hj
  exact ⟨hle, by dsimp only; omega⟩

/-- What the two loops leave behind: a tour, and one that is shorter if anything was turned round. -/
structure Shortens (cities : Usize) (distances : List (List UInt64)) (before after : Search) : Prop where
  isTour : IsTour cities after.tour
  le : tourLength (dist cities distances) after.tour ≤ tourLength (dist cities distances) before.tour
  lt : after.improved = true → before.improved = true ∨
    tourLength (dist cities distances) after.tour < tourLength (dist cities distances) before.tour

/-- The two loops come to their end or to the deadline. -/
theorem tryPairs_spec (hsymm : IsSymmetric cities distances) (hfit : ToursFit cities distances)
    (left : List (ℕ × ℕ)) (hleft : ∀ pair ∈ left, pair.1 + 2 ≤ pair.2 ∧ pair.2 < cities.toNat) (search : Search)
    (htour : IsTour cities search.tour) :
    ∃ after stopped, tryPairs cities distances expired left search = some (after, stopped) ∧
      Shortens cities distances search after := by
  induction left generalizing search with
  | nil => exact ⟨search, false, rfl, ⟨htour, le_rfl, .inl⟩⟩
  | cons pair left ih =>
    have hrest : ∀ pair ∈ left, pair.1 + 2 ≤ pair.2 ∧ pair.2 < cities.toNat := fun pair hpair =>
      hleft pair (List.mem_cons_of_mem _ hpair)
    rw [tryPairs]
    split_ifs with hexp
    · exact ⟨search, true, rfl, ⟨htour, le_rfl, .inl⟩⟩
    · obtain ⟨hij, hj⟩ := hleft pair List.mem_cons_self
      obtain ⟨result, hresult, hturn⟩ := tryTurn_spec hsymm hfit htour hij hj
      dsimp only
      rw [hresult]
      cases result with
      | none =>
        obtain ⟨after, stopped, hloop, hshortens⟩ := ih hrest { search with checks := search.checks + 1 } htour
        exact ⟨after, stopped, hloop, ⟨hshortens.isTour, hshortens.le, hshortens.lt⟩⟩
      | some tour' =>
        obtain ⟨htour', hlt⟩ := hturn tour' rfl
        obtain ⟨after, stopped, hloop, hshortens⟩ := ih hrest
          { search with tour := tour', improved := true, checks := search.checks + 1 } htour'
        exact ⟨after, stopped, hloop, ⟨hshortens.isTour, hshortens.le.trans hlt.le,
          fun _ => .inr (hshortens.le.trans_lt hlt)⟩⟩

/-- Each round but the last makes the tour shorter, so that as many rounds as the tour is long and one more are
enough, whatever the clock says. -/
theorem tspTwoOpt_spec (hsymm : IsSymmetric cities distances) (hfit : ToursFit cities distances) (rounds : ℕ)
    (tour : List Usize) (checks : ℕ) (htour : IsTour cities tour)
    (hrounds : tourLength (dist cities distances) tour < rounds) :
    ∃ result, tspTwoOpt cities distances expired rounds tour checks = some result ∧ IsTour cities result ∧
      tourLength (dist cities distances) result ≤ tourLength (dist cities distances) tour := by
  induction rounds generalizing tour checks with
  | zero => omega
  | succ rounds ih =>
    rw [tspTwoOpt]
    split_ifs with hexp
    · exact ⟨tour, rfl, htour, le_rfl⟩
    · obtain ⟨after, stopped, hloop, hshortens⟩ := tryPairs_spec hsymm hfit (pairs cities)
        (fun pair hpair => mem_pairs hpair) ⟨tour, false, checks + 1⟩ htour
      rw [hloop]
      change ∃ result, (if (stopped || !after.improved) = true then some after.tour
        else tspTwoOpt cities distances expired rounds after.tour after.checks) = some result ∧ _
      split_ifs with hend
      · exact ⟨after.tour, rfl, hshortens.isTour, hshortens.le⟩
      · rw [Bool.or_eq_true, not_or, Bool.not_eq_true', Bool.not_eq_false] at hend
        have hlt := (hshortens.lt hend.2).resolve_left Bool.false_ne_true
        obtain ⟨result, hresult, hresultTour, hle⟩ := ih after.tour after.checks hshortens.isTour (by
          have : tourLength (dist cities distances) after.tour < tourLength (dist cities distances) tour := hlt
          omega)
        exact ⟨result, hresult, hresultTour, hle.trans hshortens.le⟩

end Loop

/-! ### The largest distance -/

section Largest

variable {cities : Usize} {distances : List (List UInt64)} {a b x y : Usize}

/-- The cities in order. -/
def allCities (cities : Usize) : List Usize := (List.range cities.toNat).map UInt64.ofNat

theorem mem_allCities {city : Usize} : city ∈ allCities cities ↔ city < cities := by
  rw [allCities, List.mem_map, UInt64.lt_iff_toNat_lt]
  constructor
  · rintro ⟨i, hi, rfl⟩
    have hi := List.mem_range.mp hi
    rwa [UInt64.toNat_ofNat_of_lt' (hi.trans cities.toNat_lt)]
  · exact fun h => ⟨city.toNat, List.mem_range.mpr h, UInt64.ofNat_toNat⟩

theorem nodup_allCities : (allCities cities).Nodup := by
  refine List.nodup_range.map_on fun i hi j hj hij => ?_
  have hij := congrArg UInt64.toNat hij
  rwa [UInt64.toNat_ofNat_of_lt' ((List.mem_range.mp hi).trans cities.toNat_lt),
    UInt64.toNat_ofNat_of_lt' ((List.mem_range.mp hj).trans cities.toNat_lt)] at hij

theorem isTour_allCities : IsTour cities (allCities cities) :=
  ⟨by rw [allCities, List.length_map, List.length_range], nodup_allCities, fun _ => mem_allCities.mp⟩

/-- Every way through different cities goes on to a tour. -/
theorem exists_isTour {way : List Usize} (hnodup : way.Nodup) (hrange : ∀ city ∈ way, city < cities) :
    ∃ rest, IsTour cities (way ++ rest) := by
  refine ⟨(allCities cities).filter (· ∉ way), ?_⟩
  refine isTour_perm isTour_allCities ((List.perm_ext_iff_of_nodup ?_ nodup_allCities).mpr fun city => ?_)
  · refine List.nodup_append'.mpr ⟨hnodup, nodup_allCities.filter _, fun city hway hrest => ?_⟩
    exact of_decide_eq_true (List.mem_filter.mp hrest).2 hway
  · rw [List.mem_append, List.mem_filter, mem_allCities, decide_eq_true_iff]
    refine ⟨fun h => h.elim (hrange city) And.left, fun h => ?_⟩
    by_cases hway : city ∈ way
    · exact .inl hway
    · exact .inr ⟨h, hway⟩

/-- The step before and the one behind the largest distance are of no length. -/
theorem zero_of_max_next (hfit : ToursFit cities distances) (hrange : a < cities ∧ b < cities ∧ x < cities)
    (hab : a ≠ b) (hax : a ≠ x) (hbx : b ≠ x) (hmax : dist cities distances a b = 2 ^ 64 - 1) :
    dist cities distances b x = 0 := by
  obtain ⟨rest, htour⟩ := @exists_isTour cities [a, b, x] (by simp [hab, hax, hbx])
    (by simpa using hrange)
  have hlt := hfit.length_lt htour
  have hlength : tourLength (dist cities distances) ([a, b, x] ++ rest) = dist cities distances a b +
    (dist cities distances b x + pathLength (dist cities distances) (x :: (rest ++ [a]))) := rfl
  omega

theorem zero_of_max_apart (hfit : ToursFit cities distances)
    (hrange : a < cities ∧ b < cities ∧ x < cities ∧ y < cities) (hnodup : [a, b, x, y].Nodup)
    (hmax : dist cities distances a b = 2 ^ 64 - 1) : dist cities distances x y = 0 := by
  obtain ⟨rest, htour⟩ := exists_isTour hnodup (by simpa using hrange)
  have hlt := hfit.length_lt htour
  have hlength : tourLength (dist cities distances) ([a, b, x, y] ++ rest) = dist cities distances a b +
    (dist cities distances b x + (dist cities distances x y +
      pathLength (dist cities distances) (y :: (rest ++ [a])))) := rfl
  omega

/-- If one distance is the largest, all others are zero, as every two steps are in a tour together. -/
theorem zero_of_max (hsymm : IsSymmetric cities distances) (hfit : ToursFit cities distances)
    (ha : a < cities) (hb : b < cities) (hab : a ≠ b) (hmax : dist cities distances a b = 2 ^ 64 - 1)
    (hx : x < cities) (hy : y < cities) (hxy : x ≠ y) (hother : ¬ (x = a ∧ y = b))
    (hother' : ¬ (x = b ∧ y = a)) : dist cities distances x y = 0 := by
  have hmax' : dist cities distances b a = 2 ^ 64 - 1 := by rw [hsymm.dist_comm, hmax]
  by_cases hxa : x = a
  · subst hxa
    exact zero_of_max_next hfit ⟨hb, hx, hy⟩ hab.symm (fun h => hother ⟨rfl, h.symm⟩) hxy hmax'
  by_cases hxb : x = b
  · subst hxb
    exact zero_of_max_next hfit ⟨ha, hx, hy⟩ hab (fun h => hother' ⟨rfl, h.symm⟩) hxy hmax
  rw [hsymm.dist_comm]
  by_cases hya : y = a
  · subst hya
    exact zero_of_max_next hfit ⟨hb, hy, hx⟩ hab.symm (Ne.symm hxb) hxy.symm hmax'
  by_cases hyb : y = b
  · subst hyb
    exact zero_of_max_next hfit ⟨ha, hy, hx⟩ hab (Ne.symm hxa) hxy.symm hmax
  refine zero_of_max_apart hfit ⟨ha, hb, hy, hx⟩ ?_ hmax
  simp [hab, Ne.symm hya, Ne.symm hyb, Ne.symm hxa, Ne.symm hxb, hxy.symm]

/-- Two cities are not at the largest distance if they are all. -/
theorem two_lt_of_max (hsymm : IsSymmetric cities distances) (hfit : ToursFit cities distances) (ha : a < cities)
    (hb : b < cities) (hab : a ≠ b) (hmax : dist cities distances a b = 2 ^ 64 - 1) : 2 < cities.toNat := by
  obtain ⟨rest, htour⟩ := @exists_isTour cities [a, b] (by simp [hab]) (by simp [ha, hb])
  have hlt := hfit.length_lt htour
  have hlen := htour.1
  cases rest with
  | nil =>
    have hlength : tourLength (dist cities distances) ([a, b] ++ []) = dist cities distances a b +
      (dist cities distances b a + 0) := rfl
    rw [hsymm.dist_comm b a] at hlength
    omega
  | cons x rest =>
    rw [List.length_append, List.length_cons, List.length_cons, List.length_cons] at hlen
    omega

end Largest

/-! ### The nearest cities -/

section Nearest

variable {cities : Usize} {distances : List (List UInt64)} {near : List Usize} {current next : Usize}

theorem IsSymmetric.isNearest_dist (hsymm : IsSymmetric cities distances) (hcurrent : current < cities)
    (h : IsNearest cities distances near current next) {city : Usize} (hcity : city < cities) (hfresh : city ∉ near) :
    dist cities distances current next ≤ dist cities distances current city ∧
      (city < next → dist cities distances current next < dist cities distances current city) := by
  obtain ⟨d, hd, -, hall⟩ := h.nearest
  obtain ⟨x, hx, hxval⟩ := hsymm.distanceTo_eq hcurrent h.range
  obtain ⟨x', hx', hxval'⟩ := hsymm.distanceTo_eq hcurrent hcity
  obtain rfl : d = x := Option.some.inj (hd.symm.trans hx)
  obtain ⟨hle, hlt⟩ := hall city hcity hfresh x' hx'
  rw [← hxval, ← hxval']
  exact ⟨UInt64.le_iff_toNat_le.mp hle, fun h => UInt64.lt_iff_toNat_lt.mp (hlt h)⟩

/-- Where there is no nearest city, all that are left are at the largest distance. -/
theorem exists_nearest (hsymm : IsSymmetric cities distances) (hcurrent : current < cities) :
    (∃ next, IsNearest cities distances near current next) ∨
      ∀ city < cities, city ∉ near → dist cities distances current city = 2 ^ 64 - 1 := by
  -- the first of the nearest cities is the least by distance and then by number
  let key (city : Usize) : ℕ := dist cities distances current city * 2 ^ 64 + city.toNat
  rcases Finset.eq_empty_or_nonempty ((allCities cities).toFinset.filter (· ∉ near)) with hnone | hsome
  · refine .inr fun city hcity hfresh => ?_
    have hmem : city ∈ (allCities cities).toFinset.filter (· ∉ near) := by
      rw [Finset.mem_filter, List.mem_toFinset, mem_allCities]
      exact ⟨hcity, hfresh⟩
    rw [hnone] at hmem
    exact absurd hmem (Finset.notMem_empty city)
  obtain ⟨next, hnext, hmin⟩ := Finset.exists_min_image _ key hsome
  rw [Finset.mem_filter, List.mem_toFinset, mem_allCities] at hnext
  obtain ⟨hrange, hfresh⟩ := hnext
  have hmin' : ∀ city < cities, city ∉ near → key next ≤ key city := fun city hcity hnew =>
    hmin city (by rw [Finset.mem_filter, List.mem_toFinset, mem_allCities]; exact ⟨hcity, hnew⟩)
  obtain ⟨d, hd, hdval⟩ := hsymm.distanceTo_eq hcurrent hrange
  have hnextlt := next.toNat_lt
  by_cases hmax : d.toNat = 2 ^ 64 - 1
  · refine .inr fun city hcity hnew => ?_
    obtain ⟨d', -, hdval'⟩ := hsymm.distanceTo_eq hcurrent hcity
    have hle := hmin' city hcity hnew
    have hcitylt := city.toNat_lt
    have hd'lt := d'.toNat_lt
    dsimp only [key] at hle
    omega
  · have hdlt := d.toNat_lt
    refine .inl ⟨next, fun city hcity _ => ?_, hrange, hfresh, d, hd, ?_, fun city hcity hnew d' hd' => ?_⟩
    · obtain ⟨d', hd', -⟩ := hsymm.distanceTo_eq hcurrent hcity
      rw [hd']
      rfl
    · rw [UInt64.lt_iff_toNat_lt]
      change d.toNat < 2 ^ 64 - 1
      omega
    · obtain ⟨x, hx, hxval⟩ := hsymm.distanceTo_eq hcurrent hcity
      obtain rfl : d' = x := Option.some.inj (hd'.symm.trans hx)
      have hle := hmin' city hcity hnew
      have hcitylt := city.toNat_lt
      rw [UInt64.le_iff_toNat_le, UInt64.lt_iff_toNat_lt, UInt64.lt_iff_toNat_lt]
      dsimp only [key] at hle
      omega

/-- What holds of the cities visited with regard to two cities at the largest distance: as all other distances are
zero, the cities before them come first, and the lower of the two before the higher one. -/
structure InOrder (near : List Usize) (current a b : Usize) : Prop where
  before : a ∉ near → b ∉ near → ∀ city ∈ near, city < a
  lower : b ∈ near → a ∈ near
  last : current = a → b ∉ near → ∀ city ∈ near, city ≤ a

/-- The way through the nearest cities so far. -/
structure OnTheWay (cities : Usize) (distances : List (List UInt64)) (near : List Usize) (current : Usize) :
    Prop where
  nodup : near.Nodup
  range : ∀ city ∈ near, city < cities
  visited : current ∈ near
  inOrder : ∀ a b, a < b → b < cities → dist cities distances a b = 2 ^ 64 - 1 → InOrder near current a b

theorem onTheWay_start (hcities : cities ≠ 0) : OnTheWay cities distances [0] 0 where
  nodup := List.nodup_singleton 0
  range city hcity := by
    rw [List.mem_singleton.mp hcity]
    exact UInt64.pos_iff_ne_zero.mpr hcities
  visited := List.mem_singleton_self 0
  inOrder a b hab _ _ := by
    refine ⟨fun ha _ city hcity => ?_, fun hb => ?_, fun ha _ city hcity => ?_⟩
    · rw [List.mem_singleton.mp hcity]
      exact UInt64.pos_iff_ne_zero.mpr fun h => ha (by rw [h]; exact List.mem_singleton_self 0)
    · rw [List.mem_singleton.mp hb] at hab
      exact absurd hab (UInt64.not_lt_zero)
    · rw [List.mem_singleton.mp hcity, ← ha]
      exact UInt64.le_refl 0

theorem OnTheWay.step (hsymm : IsSymmetric cities distances) (hfit : ToursFit cities distances)
    (h : OnTheWay cities distances near current) (hnext : IsNearest cities distances near current next) :
    OnTheWay cities distances (near ++ [next]) next := by
  have hcurrent := h.range current h.visited
  refine ⟨?_, fun city hcity => ?_, List.mem_append_right _ (List.mem_singleton_self next), fun a b hab hb hmax => ?_⟩
  · exact List.nodup_append'.mpr ⟨h.nodup, List.nodup_singleton next, by simpa using hnext.fresh⟩
  · rcases List.mem_append.mp hcity with hcity | hcity
    · exact h.range city hcity
    · rw [List.mem_singleton.mp hcity]
      exact hnext.range
  have ha : a < cities := UInt64.lt_trans hab hb
  have hne : a ≠ b := UInt64.ne_of_lt hab
  obtain ⟨hbefore, hlower, -⟩ := h.inOrder a b hab hb hmax
  -- while both are left, the lower of the two is no further away than any city
  have hzero : a ∉ near → b ∉ near → dist cities distances current a = 0 := fun hanew hbnew =>
    zero_of_max hsymm hfit ha hb hne hmax hcurrent ha (fun heq => hanew (heq ▸ h.visited))
      (fun heq => hanew (heq.1 ▸ h.visited)) fun heq => hbnew (heq.1 ▸ h.visited)
  have hle : a ∉ near → b ∉ near → next ≤ a := fun hanew hbnew => by
    by_contra hgt
    have hlt := (hsymm.isNearest_dist hcurrent hnext ha hanew).2 (UInt64.not_le.mp hgt)
    rw [hzero hanew hbnew] at hlt
    exact absurd hlt (Nat.not_lt_zero _)
  constructor
  · intro hanew hbnew city hcity
    rw [List.mem_append, not_or, List.mem_singleton] at hanew hbnew
    rcases List.mem_append.mp hcity with hcity | hcity
    · exact hbefore hanew.1 hbnew.1 city hcity
    · rw [List.mem_singleton.mp hcity]
      exact UInt64.lt_of_le_of_ne (hle hanew.1 hbnew.1) (Ne.symm hanew.2)
  · intro hbmem
    rcases List.mem_append.mp hbmem with hbmem | hbmem
    · exact List.mem_append_left _ (hlower hbmem)
    · by_contra hanew
      rw [List.mem_append, not_or] at hanew
      obtain rfl := List.mem_singleton.mp hbmem
      exact absurd hab (UInt64.not_lt.mpr (hle hanew.1 hnext.fresh))
  · rintro rfl hbnew city hcity
    rw [List.mem_append, not_or] at hbnew
    rcases List.mem_append.mp hcity with hcity | hcity
    · exact UInt64.le_of_lt (hbefore hnext.fresh hbnew.1 city hcity)
    · rw [List.mem_singleton.mp hcity]
      exact UInt64.le_refl next

/-- The last two of three cities or more are not at the largest distance. -/
def LastTwoNear (cities : Usize) (distances : List (List UInt64)) : Prop :=
  cities < 3 ∨ distanceTo distances (cities - 2) (cities - 1).toNat ≠ some MAX_DISTANCE

theorem exists_fresh (hleft : near.length < cities.toNat) : ∃ u < cities, u ∉ near := by
  by_contra hno
  have hsub : allCities cities ⊆ near := fun city hcity => by
    by_contra hnew
    exact hno ⟨city, mem_allCities.mp hcity, hnew⟩
  have hle := (nodup_allCities.subperm hsub).length_le
  rw [allCities, List.length_map, List.length_range] at hle
  omega

/-- A city above which there is only one is the last but one. -/
theorem last_two_eq {u : Usize} (hlt : current < u) (hu : u < cities) (htwo : 2 < cities.toNat)
    (honly : ∀ v < cities, v ≠ u → v ≤ current) : cities - 1 = u ∧ cities - 2 = current := by
  have hn := cities.toNat_lt
  have hlt := UInt64.lt_iff_toNat_lt.mp hlt
  have hu' := UInt64.lt_iff_toNat_lt.mp hu
  have hone : (cities - 1).toNat = cities.toNat - 1 :=
    UInt64.toNat_sub_of_le _ _ (UInt64.le_iff_toNat_le.mpr (by change 1 ≤ _; omega))
  have hsub : (cities - 2).toNat = cities.toNat - 2 :=
    UInt64.toNat_sub_of_le _ _ (UInt64.le_iff_toNat_le.mpr (by change 2 ≤ _; omega))
  have hlastCity : cities - 1 = u := by
    by_contra hother
    have := UInt64.le_iff_toNat_le.mp (honly (cities - 1) (UInt64.lt_iff_toNat_lt.mpr (by omega)) hother)
    omega
  refine ⟨hlastCity, ?_⟩
  have hother : cities - 2 ≠ u := fun heq => by
    rw [← hlastCity] at heq
    have := congrArg UInt64.toNat heq
    omega
  have hle := UInt64.le_iff_toNat_le.mp (honly (cities - 2) (UInt64.lt_iff_toNat_lt.mpr (by omega)) hother)
  rw [← hlastCity, hone] at hlt
  exact UInt64.toNat_inj.mp (by omega)

/-- There is a nearest city until all are visited. -/
theorem OnTheWay.exists_nearest (hsymm : IsSymmetric cities distances) (hfit : ToursFit cities distances)
    (hlast : LastTwoNear cities distances) (h : OnTheWay cities distances near current)
    (hleft : near.length < cities.toNat) : ∃ next, IsNearest cities distances near current next := by
  have hcurrent := h.range current h.visited
  refine (TspSolver.exists_nearest hsymm hcurrent).resolve_right fun hall => ?_
  obtain ⟨u, hu, hunew⟩ := exists_fresh hleft
  have hmax := hall u hu hunew
  have hne : current ≠ u := fun heq => hunew (heq ▸ h.visited)
  -- no other city is left, as its distance would be zero
  have honly : ∀ v < cities, v ≠ u → v ∈ near := fun v hv hvu => by
    by_contra hvnew
    have hzero := zero_of_max hsymm hfit hcurrent hu hne hmax hcurrent hv
      (fun heq => hvnew (heq ▸ h.visited)) (fun heq => hvu heq.2) fun heq => hne heq.1
    have := hall v hv hvnew
    omega
  rcases UInt64.lt_or_lt_of_ne hne with hlt | hlt
  · have hle := (h.inOrder current u hlt hu hmax).last rfl hunew
    have htwo := two_lt_of_max hsymm hfit hcurrent hu hne hmax
    obtain ⟨hlastCity, hbeforeLast⟩ :=
      last_two_eq hlt hu htwo fun v hv hvu => hle v (honly v hv hvu)
    rcases hlast with hfew | hnear
    · have hfew : cities.toNat < 3 := UInt64.lt_iff_toNat_lt.mp hfew
      omega
    · refine hnear ?_
      obtain ⟨d, hd, hdval⟩ := hsymm.distanceTo_eq hcurrent hu
      rw [hbeforeLast, hlastCity, hd]
      exact congrArg some (UInt64.toNat_inj.mp (hdval.trans hmax))
  · have hmax' : dist cities distances u current = 2 ^ 64 - 1 := by rw [hsymm.dist_comm, hmax]
    exact hunew ((h.inOrder u current hlt hcurrent hmax').lower h.visited)

/-- From any point on the way the nearest cities lead through all that are left. -/
theorem OnTheWay.exists_rest (hsymm : IsSymmetric cities distances) (hfit : ToursFit cities distances)
    (hlast : LastTwoNear cities distances) (k : ℕ) (h : OnTheWay cities distances near current)
    (hleft : near.length + k = cities.toNat) :
    ∃ rest, rest.length = k ∧ NearestFrom cities distances near current rest ∧ IsTour cities (near ++ rest) := by
  induction k generalizing near current with
  | zero => exact ⟨[], rfl, .done near current, by rw [List.append_nil]; exact ⟨hleft, h.nodup, h.range⟩⟩
  | succ k ih =>
    obtain ⟨next, hnext⟩ := h.exists_nearest hsymm hfit hlast (by omega)
    obtain ⟨rest, hlength, hfrom, htour⟩ := ih (h.step hsymm hfit hnext) (by
      rw [List.length_append, List.length_singleton]
      omega)
    rw [List.append_assoc] at htour
    exact ⟨next :: rest, congrArg (· + 1) hlength, .step hnext hfrom, htour⟩

/-- The first part of the solver finds a tour. -/
theorem exists_tspNearestNeighbor (hsymm : IsSymmetric cities distances) (hfit : ToursFit cities distances)
    (hcities : cities ≠ 0) (hlast : LastTwoNear cities distances) :
    ∃ start, tspNearestNeighbor cities distances = some start ∧ IsTour cities start := by
  have hpos : 0 < cities.toNat := UInt64.lt_iff_toNat_lt.mp (UInt64.pos_iff_ne_zero.mpr hcities)
  obtain ⟨rest, hlength, hfrom, htour⟩ := (onTheWay_start hcities).exists_rest hsymm hfit hlast
    (cities.toNat - 1) (by rw [List.length_singleton]; omega)
  refine ⟨[0] ++ rest, ?_, htour⟩
  rw [tspNearestNeighbor, if_neg hcities]
  exact ((nearestNeighborTour_iff _ reflects_start).mpr ⟨rest, hlength, hfrom, rfl⟩).1

end Nearest

/-! ### The solver as a whole -/

section Solve

variable {cities : Usize} {distances : List (List UInt64)}

/-- For every symmetric matrix whose tours fit, with at least one city and with the last two of three cities or
more below `u64::MAX` apart: the nearest cities make a tour; every segment that is turned round makes a tour
shorter; and whatever the clock says, as many rounds as the first tour is long and one more are enough for a tour
that the verifier accepts and that is no longer than the first. -/
theorem tsp_search (cities : Usize) (distances : List (List UInt64)) (hsymm : IsSymmetric cities distances)
    (hfit : ToursFit cities distances) (hcities : cities ≠ 0) (hlast : LastTwoNear cities distances) :
    ∃ start, tspNearestNeighbor cities distances = some start ∧ IsTour cities start ∧
      (∀ tour tour' i j, IsTour cities tour → (i, j) ∈ pairs cities →
        tryTurn cities distances tour i j = some (some tour') → IsTour cities tour' ∧
          tourLength (dist cities distances) tour' < tourLength (dist cities distances) tour) ∧
      ∀ expired rounds, tourLength (dist cities distances) start < rounds →
        ∃ tour, solveTsp cities distances expired rounds = some (some (.TSP tour)) ∧
          (Solution.TSP tour).verify (.TSP cities distances) = true ∧
          tourLength (dist cities distances) tour ≤ tourLength (dist cities distances) start := by
  obtain ⟨start, hstart, htour⟩ := exists_tspNearestNeighbor hsymm hfit hcities hlast
  refine ⟨start, hstart, htour, fun tour tour' i j htour hpair hturn => ?_, fun expired rounds hrounds => ?_⟩
  · obtain ⟨hij, hj⟩ := mem_pairs hpair
    obtain ⟨result, hresult, hshorter⟩ := tryTurn_spec hsymm hfit htour hij hj
    rw [hturn] at hresult
    exact hshorter tour' (Option.some.inj hresult).symm
  · obtain ⟨tour, hloop, hresult, hle⟩ :=
      @tspTwoOpt_spec _ _ expired hsymm hfit rounds start 0 htour hrounds
    refine ⟨tour, ?_, verify_tsp.mpr hresult, hle⟩
    rw [solveTsp, if_neg hcities, hstart]
    change (if start.length ≠ cities.toNat then some none
      else (tspTwoOpt cities distances expired rounds start 0).bind fun tour => some (some (Solution.TSP tour))) = _
    rw [if_neg (not_not.mpr htour.1), hloop]
    rfl

theorem isSymmetric_of_entries (rows : distances.length = cities.toNat)
    (columns : ∀ row ∈ distances, row.length = cities.toNat)
    (h : ∀ i < cities.toNat, ∀ j < cities.toNat,
      (distances[i]?.bind fun row => row[j]?) = distances[j]?.bind fun row => row[i]?) :
    IsSymmetric cities distances where
  rows := rows
  columns := columns
  symm a ha b hb := h a.toNat (UInt64.lt_iff_toNat_lt.mp ha) b.toNat (UInt64.lt_iff_toNat_lt.mp hb)

/-- Small distances between not too many cities. -/
theorem toursFit_of_small (hsymm : IsSymmetric cities distances) (hcities : cities.toNat < 2 ^ 32)
    (hsmall : ∀ row ∈ distances, ∀ x ∈ row, x < 4294967296) : ToursFit cities distances := by
  intro tour htour
  have hedge : ∀ i < cities.toNat, ∃ x, edge tour cities distances i = some x ∧ x.toNat ≤ 2 ^ 32 := by
    intro i hi
    have hnext : (i + 1) % cities.toNat < tour.length := by
      rw [htour.1]
      exact Nat.mod_lt _ (by omega)
    have hi : i < tour.length := by rw [htour.1]; exact hi
    obtain ⟨x, hx, -⟩ := hsymm.distanceTo_eq (htour.2.2 _ (List.getElem_mem hi))
      (htour.2.2 _ (List.getElem_mem hnext))
    have hget : edge tour cities distances i = distanceTo distances tour[i] (tour[(i + 1) % cities.toNat]).toNat := by
      rw [edge, List.getElem?_eq_getElem hi, List.getElem?_eq_getElem hnext]
      rfl
    obtain ⟨row, hrow, hcol⟩ := Option.bind_eq_some_iff.mp hx
    have hlt := UInt64.lt_iff_toNat_lt.mp
      (hsmall row (List.mem_of_getElem? hrow) x (List.mem_of_getElem? hcol))
    exact ⟨x, hget.trans hx, hlt.le⟩
  refine ⟨fun i hi => ?_, ?_⟩
  · obtain ⟨x, hx, -⟩ := hedge i hi
    rw [hx]
    rfl
  · have hsum := List.sum_le_card_nsmul
      ((List.range cities.toNat).map fun i => ((edge tour cities distances i).getD 0).toNat) (2 ^ 32) (by
        intro y hy
        obtain ⟨i, hi, rfl⟩ := List.mem_map.mp hy
        obtain ⟨x, hx, hle⟩ := hedge i (List.mem_range.mp hi)
        rw [hx]
        exact hle)
    rw [List.length_map, List.length_range, smul_eq_mul] at hsum
    omega

/-- The corners of a square, in the order of a tour that crosses itself. -/
def crossing : List (List UInt64) := [[0, 14, 10, 10], [14, 0, 10, 10], [10, 10, 0, 14], [10, 10, 14, 0]]

theorem tsp_search_crossing : ∃ start, tspNearestNeighbor 4 crossing = some start ∧ IsTour 4 start := by
  have hsymm : IsSymmetric 4 crossing := isSymmetric_of_entries rfl (by decide) (by decide)
  obtain ⟨start, hstart, htour, -⟩ := tsp_search 4 crossing hsymm
    (toursFit_of_small hsymm (by decide) (by simp [crossing])) (by decide) (.inr (by decide))
  exact ⟨start, hstart, htour⟩

end Solve

/-! ### No tour -/

section NoTour

/-- The last two of three cities are at the largest distance, and the others at none. -/
def farApart : List (List UInt64) := [[0, 0, 0], [0, 0, 0xFFFFFFFFFFFFFFFF], [0, 0xFFFFFFFFFFFFFFFF, 0]]

theorem eq_of_lt_three {city : Usize} (h : city < 3) : city = 0 ∨ city = 1 ∨ city = 2 := by
  have h : city.toNat < 3 := UInt64.lt_iff_toNat_lt.mp h
  have hcases : city.toNat = 0 ∨ city.toNat = 1 ∨ city.toNat = 2 := by omega
  exact hcases.imp UInt64.toNat_inj.mp (Or.imp UInt64.toNat_inj.mp UInt64.toNat_inj.mp)

theorem toursFit_farApart : ToursFit 3 farApart := by
  rintro tour ⟨hlen, hnodup, hrange⟩
  obtain ⟨a, b, c, rfl⟩ := List.length_eq_three.mp hlen
  have ha := eq_of_lt_three (hrange a (by simp))
  have hb := eq_of_lt_three (hrange b (by simp))
  have hc := eq_of_lt_three (hrange c (by simp))
  unfold LengthFits
  rcases ha with rfl | rfl | rfl <;> rcases hb with rfl | rfl | rfl <;> rcases hc with rfl | rfl | rfl <;>
    revert hnodup <;> decide

/-- Without cities there is no tour, by a check of its own; and three cities whose tours fit get none either, as
the nearest cities end before the last one. -/
theorem no_tour : solveTsp 0 [] (fun _ => false) 1 = some none ∧ IsSymmetric 3 farApart ∧ ToursFit 3 farApart ∧
    tspNearestNeighbor 3 farApart = some [0, 1] ∧ solveTsp 3 farApart (fun _ => false) 1 = some none :=
  ⟨by decide, isSymmetric_of_entries rfl (by decide) (by decide), toursFit_farApart, by decide, by decide⟩

end NoTour

end Coinjecture.Consensus.TspSolver
