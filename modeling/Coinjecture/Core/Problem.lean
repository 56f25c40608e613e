import Coinjecture.Core.Types

/-! # Problems and solutions

The problem kinds a block or a marketplace listing may pose, `Solution.verify`, which the block
validator and the marketplace both call, and `Solution.quality`. `verify` is total. `quality` is not:
for a tour the distance matrix is indexed without a check, so a matrix that is too small, or a
problem with no cities, is a panic (`none`). -/

namespace Coinjecture.Core.Problem

open Lib.Bincode Lib.Float64
open Core.Types

structure Clause where
  literals : List Int32
  deriving DecidableEq

inductive ProblemType where
  | SubsetSum (numbers : List Int64) (target : Int64)
  | SAT (vars : Usize) (clauses : List Clause)
  | TSP (cities : Usize) (distances : List (List UInt64))
  | Custom (problemId : Hash) (data : Bytes)
  deriving DecidableEq

inductive Solution where
  | SubsetSum (indices : List Usize)
  | SAT (assignment : List Bool)
  | TSP (tour : List Usize)
  | Custom (data : Bytes)
  deriving DecidableEq

instance : Encode Clause := ⟨fun c => encode c.literals⟩

instance : Encode ProblemType := ⟨fun
  | .SubsetSum numbers target => variant 0 ++ encode numbers ++ encode target
  | .SAT vars clauses => variant 1 ++ encode vars ++ encode clauses
  | .TSP cities distances => variant 2 ++ encode cities ++ encode distances
  | .Custom problemId data => variant 3 ++ encode problemId ++ encode data⟩

instance : Encode Solution := ⟨fun
  | .SubsetSum indices => variant 0 ++ encode indices
  | .SAT assignment => variant 1 ++ encode assignment
  | .TSP tour => variant 2 ++ encode tour
  | .Custom data => variant 3 ++ encode data⟩

/-! ### Verification -/

/-- The literal holds under the assignment. The index of the variable is `|lit| - 1` in `usize`, so
a zero literal asks for a variable that does not exist, which reads as false. -/
def literalHolds (assignment : List Bool) (lit : Int32) : Bool :=
  let varIdx := (lit.toInt.natAbs + 2 ^ 64 - 1) % 2 ^ 64
  let value := (assignment[varIdx]?).getD false
  if 0 < lit then value else !value

/-- Every city is in range and new. -/
def tourVisits (cities : Usize) : List Usize → List Bool → Bool
  | [], _ => true
  | city :: tour, visited =>
    if cities ≤ city || (visited[city.toNat]?).getD false then false
    else tourVisits cities tour (visited.set city.toNat true)

/-- `Solution::verify`. -/
def Solution.verify : Solution → ProblemType → Bool
  | .SubsetSum indices, .SubsetSum numbers target =>
    (indices.map fun i => (numbers[i.toNat]?).getD 0).foldl (· + ·) 0 == target
  | .SAT assignment, .SAT vars clauses =>
    if assignment.length ≠ vars.toNat then false
    else clauses.all fun clause => clause.literals.any (literalHolds assignment)
  | .TSP tour, .TSP cities _ =>
    tour.length == cities.toNat && tourVisits cities tour (List.replicate cities.toNat false)
  | _, _ => false

/-! ### Quality -/

/-- `tsp_tour_length`. -/
def tspTourLength (tour : List Usize) (cities : Usize) (distances : List (List UInt64)) :
    Option UInt64 :=
  (List.range cities.toNat).foldlM (fun sum i => do
    let src ← tour[i]?
    let dst ← tour[(i + 1) % cities.toNat]?
    let row ← distances[src.toNat]?
    let dist ← row[dst.toNat]?
    pure (sum + dist)) 0

/-- The unvisited city nearest to `current`; none if there is none at a distance below `u64::MAX`. -/
def nearestUnvisited (cities : Usize) (distances : List (List UInt64)) (visited : List Bool)
    (current : Usize) : Option (Option Usize) :=
  (fun best => best.1) <$> (List.range cities.toNat).foldlM (fun (best : Option Usize × UInt64) i =>
    if (visited[i]?).getD false then pure best
    else do
      let row ← distances[current.toNat]?
      let dist ← row[i]?
      pure (if dist < best.2 then (some (UInt64.ofNat i), dist) else best)) (none, 0xFFFFFFFFFFFFFFFF)

/-- The loop of `tsp_nearest_neighbor_length`: the tour grows by one city a round, or stops. -/
def nearestNeighborTour (cities : Usize) (distances : List (List UInt64)) :
    ℕ → Usize → List Usize → List Bool → Option (List Usize)
  | 0, _, tour, _ => some tour
  | rounds + 1, current, tour, visited => do
    match ← nearestUnvisited cities distances visited current with
    | some next =>
      nearestNeighborTour cities distances rounds next (tour ++ [next])
        (visited.set next.toNat true)
    | none => some tour

/-- `tsp_nearest_neighbor_length`. -/
def tspNearestNeighborLength (cities : Usize) (distances : List (List UInt64)) : Option UInt64 := do
  if cities = 0 then none
  let visited := (List.replicate cities.toNat false).set 0 true
  let tour ← nearestNeighborTour cities distances (cities.toNat - 1) 0 [0] visited
  tspTourLength tour cities distances

/-- `Solution::quality`. -/
def Solution.quality (s : Solution) (problem : ProblemType) : Option F64 :=
  match s, problem with
  | .SubsetSum _, .SubsetSum .. => some (if s.verify problem then F64.one else F64.zero)
  | .TSP tour, .TSP cities distances =>
    if !s.verify problem then some F64.zero
    else do
      let length ← tspTourLength tour cities distances
      let baseline := max (← tspNearestNeighborLength cities distances) 1
      some (((F64.ofNat baseline.toNat).div (F64.ofNat (max length baseline).toNat)).clamp
        F64.zero F64.one)
  | .SAT _, .SAT .. => some (if s.verify problem then F64.one else F64.zero)
  | _, _ => some F64.zero

/-- A tour over the distances 1, 2, 3 and the same tour with a missing row. -/
example : (Solution.TSP [0, 1, 2]).quality (.TSP 3 [[0, 1, 3], [1, 0, 2], [3, 2, 0]]) = some F64.one ∧
    (Solution.TSP [0, 1, 2]).quality (.TSP 3 [[0, 1, 3], [1, 0, 2]]) = none := by
  decide +kernel

end Coinjecture.Core.Problem
