import Coinjecture.Consensus.SubsetSumSolver
import Coinjecture.Consensus.TspSolver

/-! # Solutions of generated problems

A subset sum is drawn with its solution, and every order of the cities is a solution of a TSP. The literals of a
SAT problem are drawn one by one: each keeps the value of a hidden assignment or takes the opposite one, and nothing
sees to it that a clause keeps one. Whether the formula is satisfiable then hangs on what was drawn. -/

namespace Coinjecture.Consensus.Solvability

open Core.Types Core.Problem Core.TourSafety
open Lib.Float64
open Consensus.Miner Consensus.Difficulty Consensus.Difficulty.DifficultyAdjuster

/-- The verifier accepts some solution. -/
def Solvable (problem : ProblemType) : Prop := ∃ s : Solution, s.verify problem = true

/-! ### What is drawn for a SAT problem -/

/-- The hidden assignment, and for each clause the variables with whether their literals keep its values. -/
structure SatDraws where
  satisfyingAssignment : List Bool
  clauses : List (List (ℕ × Bool))

/-- The literal of a variable that keeps its value or takes the opposite one. -/
def literalOf (satisfyingAssignment : List Bool) (drawn : ℕ × Bool) : Int32 :=
  let var := Int32.ofNat drawn.1 + 1
  let assignmentValue := satisfyingAssignment.getD drawn.1 false
  if drawn.2 then if assignmentValue then var else -var
    else if assignmentValue then -var else var

/-- The clauses that come from it. -/
def SatDraws.formula (draws : SatDraws) : List Clause :=
  draws.clauses.map fun drawn => ⟨drawn.map (literalOf draws.satisfyingAssignment)⟩

/-- There are variables in which to deviate from the hidden assignment, such that each clause has a literal that
keeps its value at another variable or takes the opposite one at one of these. From `2 ^ 31` variables on, where
their numbers wrap in `i32`: the literals drawn are true together. -/
def Allows (vars : Usize) (draws : SatDraws) : Prop :=
  if vars.toNat < 2 ^ 31 then
    ∃ deviates : ℕ → Bool, ∀ clause ∈ draws.clauses, ∃ drawn ∈ clause, drawn.2 = !deviates drawn.1
  else
    ∃ value : List Bool, value.length = vars.toNat ∧ ∀ clause ∈ draws.clauses, ∃ drawn ∈ clause,
      literalHolds value (literalOf draws.satisfyingAssignment drawn) = true

section Draws

variable (R : StdRng)

def drawLiteral (varIdx : ℕ) : Draw R (ℕ × Bool) := do
  let keeps ← randomBool R ⟨0x3FE6666666666666⟩
  pure (varIdx, keeps)

def drawClause (vars : Usize) : Draw R (List (ℕ × Bool)) := do
  let selectedVars ← shuffle R (List.range vars.toNat)
  (selectedVars.take 3).mapM (drawLiteral R)

def satDraws (vars : Usize) : Draw R SatDraws := do
  let satisfyingAssignment ← (List.range vars.toNat).mapM fun _ => randomBool R ⟨0x3FE0000000000000⟩
  let clauses ← (List.range (vars * 3).toNat).mapM fun _ => drawClause R vars
  pure ⟨satisfyingAssignment, clauses⟩

variable {R}

theorem mapM_map_result {α β γ : Type} (f : α → Draw R β) (g : β → γ) (xs : List α) :
    xs.mapM (fun x => g <$> f x) = List.map g <$> xs.mapM f := by
  induction xs with
  | nil => rfl
  | cons x xs ih =>
    rw [List.mapM_cons, List.mapM_cons, ih]
    rfl

/-- A clause is made of what was drawn for it. -/
theorem clause_eq (vars : Usize) (satisfyingAssignment : List Bool) : clause R vars satisfyingAssignment =
    (fun drawn => (⟨drawn.map (literalOf satisfyingAssignment)⟩ : Clause)) <$> drawClause R vars := by
  have hliteral : literal R satisfyingAssignment = fun varIdx =>
      literalOf satisfyingAssignment <$> drawLiteral R varIdx := rfl
  unfold clause drawClause
  rw [hliteral]
  simp only [mapM_map_result]
  rfl

/-- The problem is made of what was drawn for it. -/
theorem sat_eq (vars : Usize) (rng : R.State) :
    (sat R vars rng).1 = .SAT vars (satDraws R vars rng).1.formula := by
  unfold sat satDraws
  simp only [clause_eq, mapM_map_result]
  rfl

theorem exists_of_mem_mapM {α β : Type} {f : α → Draw R β} {xs : List α} {rng : R.State} {y : β}
    (h : y ∈ (xs.mapM f rng).1) : ∃ x ∈ xs, ∃ rng', y = (f x rng').1 := by
  induction xs generalizing rng with
  | nil => cases h
  | cons x xs ih =>
    rw [List.mapM_cons] at h
    change y ∈ (f x rng).1 :: (xs.mapM f (f x rng).2).1 at h
    rcases List.mem_cons.mp h with rfl | h
    · exact ⟨x, List.mem_cons_self, rng, rfl⟩
    · obtain ⟨x', hx', rng', hy⟩ := ih h
      exact ⟨x', List.mem_cons_of_mem _ hx', rng', hy⟩

theorem clauses_satDraws (vars : Usize) (rng : R.State) : (satDraws R vars rng).1.clauses =
    (((List.range (vars * 3).toNat).mapM fun _ => drawClause R vars)
      ((List.range vars.toNat).mapM (fun _ => randomBool R ⟨0x3FE0000000000000⟩) rng).2).1 := rfl

/-- Drawing the same again and again, from a state to the next one in a row. -/
theorem getElem?_mapM_const {α : Type} {f : Draw R α} {states : ℕ → R.State}
    (hf : ∀ k, (f (states k)).2 = states (k + 1)) (xs : List ℕ) (start k : ℕ) (hk : k < xs.length) :
    ((xs.mapM fun _ => f) (states start)).1[k]? = some (f (states (start + k))).1 := by
  induction xs generalizing start k with
  | nil => cases hk
  | cons x xs ih =>
    rw [List.mapM_cons]
    change ((f (states start)).1 :: ((xs.mapM fun _ => f) (f (states start)).2).1)[k]? = _
    cases k with
    | zero => rfl
    | succ k =>
      rw [List.getElem?_cons_succ, hf, ih (start + 1) k (Nat.lt_of_succ_lt_succ hk), Nat.add_right_comm]
      rfl

theorem snd_mapM_of_kept {α β : Type} {f : α → Draw R β} (hf : ∀ x rng, (f x rng).2 = rng) (xs : List α)
    (rng : R.State) : (xs.mapM f rng).2 = rng := by
  induction xs generalizing rng with
  | nil => rfl
  | cons x xs ih =>
    rw [List.mapM_cons]
    change (xs.mapM f (f x rng).2).2 = rng
    rw [ih, hf]

/-- The variables drawn are those of the problem. -/
theorem lt_of_mem_satDraws (hshuffle : Shuffles R) {vars : Usize} {rng : R.State} {clause : List (ℕ × Bool)}
    (hclause : clause ∈ (satDraws R vars rng).1.clauses) {drawn : ℕ × Bool} (hdrawn : drawn ∈ clause) :
    drawn.1 < vars.toNat := by
  obtain ⟨_, -, rng', rfl⟩ := exists_of_mem_mapM hclause
  obtain ⟨v, hv, rng'', rfl⟩ := exists_of_mem_mapM hdrawn
  exact List.mem_range.mp ((hshuffle _ _).mem_iff.mp (List.mem_of_mem_take hv))

end Draws

/-! ### Literals -/

section Literals

variable {satisfyingAssignment value : List Bool} {drawn : ℕ × Bool}

theorem literalOf_eq : literalOf satisfyingAssignment drawn =
    if drawn.2 == satisfyingAssignment.getD drawn.1 false then Int32.ofNat drawn.1 + 1
    else -(Int32.ofNat drawn.1 + 1) := by
  rw [literalOf]
  cases drawn.2 <;> cases satisfyingAssignment.getD drawn.1 false <;> rfl

theorem toInt_var {v : ℕ} (h : v + 1 < 2 ^ 31) : (Int32.ofNat v + 1).toInt = (v : ℤ) + 1 := by
  have hone : (1 : Int32).toInt = 1 := rfl
  rw [Int32.toInt_add, Int32.toInt_ofNat_of_lt (by omega), hone, Int.bmod_eq_of_le (by omega) (by omega)]

/-- The verifier reads the literal as what was drawn. -/
theorem literalHolds_literalOf (h : drawn.1 + 1 < 2 ^ 31) : literalHolds value (literalOf satisfyingAssignment drawn) =
    ((value[drawn.1]?).getD false == (drawn.2 == satisfyingAssignment.getD drawn.1 false)) := by
  have hvar := toInt_var h
  have hneg : (-(Int32.ofNat drawn.1 + 1)).toInt = -((drawn.1 : ℤ) + 1) := by
    rw [Int32.toInt_neg, hvar, Int.bmod_eq_of_le (by omega) (by omega)]
  have hzero : (0 : Int32).toInt = 0 := rfl
  rw [literalOf_eq]
  split_ifs with hsign
  · rw [literalHolds, hvar, hsign]
    have hidx : (((drawn.1 : ℤ) + 1).natAbs + 2 ^ 64 - 1) % 2 ^ 64 = drawn.1 := by omega
    rw [hidx, if_pos (Int32.lt_iff_toInt_lt.mpr (by rw [hvar, hzero]; omega)), beq_true]
  · rw [literalHolds, hneg, Bool.eq_false_iff.mpr hsign]
    have hidx : ((-((drawn.1 : ℤ) + 1)).natAbs + 2 ^ 64 - 1) % 2 ^ 64 = drawn.1 := by omega
    rw [hidx, if_neg (by rw [Int32.lt_iff_toInt_lt, hneg, hzero]; omega), beq_false]

end Literals

/-! ### The kinds of problems -/

section Kinds

variable {R : StdRng}

/-- The indices that make up the target are a solution. -/
theorem solvable_of_selected (numbers indices : List ℕ) (hindices : ∀ i ∈ indices, i < 2 ^ 64) :
    Solvable (.SubsetSum (numbers.map Int64.ofNat) (indices.map fun i => Int64.ofNat (numbers.getD i 0)).sum) := by
  refine ⟨.SubsetSum (indices.map UInt64.ofNat), ?_⟩
  have hentries : ((indices.map UInt64.ofNat).map fun i => ((numbers.map Int64.ofNat)[i.toNat]?).getD 0) =
      indices.map fun i => Int64.ofNat (numbers.getD i 0) := by
    rw [List.map_map]
    refine List.map_congr_left fun i hi => ?_
    change ((numbers.map Int64.ofNat)[(UInt64.ofNat i).toNat]?).getD 0 = _
    rw [UInt64.toNat_ofNat', Nat.mod_eq_of_lt (hindices i hi), List.getElem?_map, List.getD_eq_getElem?_getD]
    cases numbers[i]? with
    | none => rfl
    | some x => rfl
  rw [Solution.verify, hentries, ← List.sum_eq_foldl]
  exact beq_self_eq_true _

/-- A subset sum has the numbers that were selected as a solution. -/
theorem solvable_subsetSum (hshuffle : Shuffles R) (size : Usize) (rng : R.State) :
    Solvable (subsetSum R size rng).1 := by
  refine solvable_of_selected _ _ fun i hi => ?_
  have hlt := List.mem_range.mp ((hshuffle _ _).mem_iff.mp (List.mem_of_mem_take hi))
  exact hlt.trans size.toNat_lt

/-- A TSP has the cities in order as a solution. -/
theorem solvable_tsp (cities : Usize) (rng : R.State) : Solvable (tsp R cities rng).1 :=
  ⟨.TSP (TspSolver.allCities cities), verify_tsp.mpr TspSolver.isTour_allCities⟩

/-- Where the variables are `i32` numbers, the assignment is the hidden one up to where it deviates. -/
theorem exists_assignment_iff {vars : Usize} (hvars : vars.toNat < 2 ^ 31) {draws : SatDraws}
    (hrange : ∀ clause ∈ draws.clauses, ∀ drawn ∈ clause, drawn.1 < vars.toNat) :
    (∃ value : List Bool, value.length = vars.toNat ∧ ∀ clause ∈ draws.clauses, ∃ drawn ∈ clause,
      literalHolds value (literalOf draws.satisfyingAssignment drawn) = true) ↔
    ∃ deviates : ℕ → Bool, ∀ clause ∈ draws.clauses, ∃ drawn ∈ clause, drawn.2 = !deviates drawn.1 := by
  have hsame : ∀ x y z : Bool, (x == (z == y)) = true ↔ z = !(x != y) := by decide
  have hback : ∀ x y : Bool, (!x) = !((x != y) != y) := by decide
  constructor
  · rintro ⟨value, -, hall⟩
    refine ⟨fun v => (value[v]?).getD false != draws.satisfyingAssignment.getD v false, fun clause hclause => ?_⟩
    obtain ⟨drawn, hdrawn, hholds⟩ := hall clause hclause
    have hlt := hrange clause hclause drawn hdrawn
    rw [literalHolds_literalOf (by omega)] at hholds
    exact ⟨drawn, hdrawn, (hsame _ _ _).mp hholds⟩
  · rintro ⟨deviates, hall⟩
    refine ⟨(List.range vars.toNat).map fun v => deviates v != draws.satisfyingAssignment.getD v false,
      by rw [List.length_map, List.length_range], fun clause hclause => ?_⟩
    obtain ⟨drawn, hdrawn, hkeeps⟩ := hall clause hclause
    have hlt := hrange clause hclause drawn hdrawn
    refine ⟨drawn, hdrawn, ?_⟩
    rw [literalHolds_literalOf (by omega), List.getElem?_map, List.getElem?_range hlt, Option.map_some,
      Option.getD_some, hsame, hkeeps]
    exact hback _ _

/-- A SAT problem has a solution exactly if what was drawn allows it. -/
theorem solvable_sat_iff (hshuffle : Shuffles R) (vars : Usize) (rng : R.State) :
    Solvable (sat R vars rng).1 ↔ Allows vars (satDraws R vars rng).1 := by
  have hverify : Solvable (sat R vars rng).1 ↔ ∃ value : List Bool, value.length = vars.toNat ∧
      ∀ clause ∈ (satDraws R vars rng).1.clauses, ∃ drawn ∈ clause,
        literalHolds value (literalOf (satDraws R vars rng).1.satisfyingAssignment drawn) = true := by
    rw [sat_eq, Solvable]
    constructor
    · rintro ⟨s, hs⟩
      cases s with
      | SAT value =>
        rw [Solution.verify] at hs
        split_ifs at hs with hlen
        refine ⟨value, not_not.mp hlen, fun clause hclause => ?_⟩
        have hclauses := List.all_eq_true.mp hs _ (List.mem_map_of_mem hclause)
        rwa [List.any_map, List.any_eq_true] at hclauses
      | SubsetSum => cases hs
      | TSP => cases hs
      | Custom => cases hs
    · rintro ⟨value, hlen, hall⟩
      refine ⟨.SAT value, ?_⟩
      rw [Solution.verify, if_neg (not_not.mpr hlen), SatDraws.formula, List.all_map]
      refine List.all_eq_true.mpr fun clause hclause => ?_
      obtain ⟨drawn, hdrawn, hholds⟩ := hall clause hclause
      exact List.any_eq_true.mpr ⟨_, List.mem_map_of_mem hdrawn, hholds⟩
  rw [hverify, Allows]
  split_ifs with hvars
  · exact exists_assignment_iff hvars fun clause hclause drawn hdrawn =>
      lt_of_mem_satDraws hshuffle hclause hdrawn
  · exact Iff.rfl

end Kinds

/-! ### What the miner generates -/

section NoModel

/-- A generator that draws a SAT problem with a hidden assignment of `false`, does not shuffle, and then counts: the
coins of clause `k` are the bits of `k`. -/
def countingRng : StdRng where
  State := ℕ
  seedFromU64 _ := 0
  randomRange _ _ _ rng := (1, rng)
  shuffle xs rng := (xs, rng)
  randomBool p rng := if p = ⟨0x3FE0000000000000⟩ then (false, rng) else ((rng / 3).testBit (rng % 3), rng + 1)

/-- The state after so many clauses. -/
def afterClauses (k : ℕ) : countingRng.State := (3 * k : ℕ)

theorem drawClause_counting (k : ℕ) : drawClause countingRng 110 (afterClauses k) =
    ([(0, (3 * k / 3).testBit (3 * k % 3)), (1, ((3 * k + 1) / 3).testBit ((3 * k + 1) % 3)),
      (2, ((3 * k + 2) / 3).testBit ((3 * k + 2) % 3))], afterClauses (k + 1)) := rfl

/-- The size of a SAT problem at the start. -/
theorem sizeFor_sat : (DifficultyAdjuster.new none none).sizeFor (fun x _ => x) .SAT = 110 := by decide +kernel

/-- Clause `k` is about the first three variables, with the bits of `k` for its coins. -/
theorem getElem?_satDraws_counting {k : ℕ} (hk : k < 330) :
    (satDraws countingRng 110 (afterClauses 0)).1.clauses[k]? =
      some [(0, k.testBit 0), (1, k.testBit 1), (2, k.testBit 2)] := by
  have hlen : k < (List.range ((110 : Usize) * 3).toNat).length := by
    rw [List.length_range]
    exact hk
  have hdiv (j : ℕ) (hj : j < 3) : (3 * k + j) / 3 = k ∧ (3 * k + j) % 3 = j := by omega
  have hzero := hdiv 0 (by decide)
  rw [Nat.add_zero] at hzero
  rw [clauses_satDraws, snd_mapM_of_kept fun _ _ => rfl,
    getElem?_mapM_const (fun k => congrArg Prod.snd (drawClause_counting k)) _ 0 k hlen,
    Nat.zero_add, drawClause_counting, hzero.1, hzero.2, (hdiv 1 (by decide)).1, (hdiv 1 (by decide)).2,
    (hdiv 2 (by decide)).1, (hdiv 2 (by decide)).2]

/-- Whatever the deviations, the clause with the same bits has no true literal. -/
theorem not_allows_counting : ¬ Allows 110 (satDraws countingRng 110 (afterClauses 0)).1 := by
  rw [Allows, if_pos (by decide)]
  rintro ⟨deviates, hall⟩
  have hbits : ∀ x y z : Bool, ∃ k < 330, k.testBit 0 = x ∧ k.testBit 1 = y ∧ k.testBit 2 = z := by
    intro x y z
    refine ⟨x.toNat + 2 * y.toNat + 4 * z.toNat, ?_⟩
    revert x y z
    decide
  have hnot : ∀ x : Bool, x ≠ !x := by decide
  obtain ⟨k, hk, h0, h1, h2⟩ := hbits (deviates 0) (deviates 1) (deviates 2)
  obtain ⟨drawn, hdrawn, hkeeps⟩ := hall _ (List.mem_of_getElem? (getElem?_satDraws_counting hk))
  rw [h0, h1, h2] at hdrawn
  simp only [List.mem_cons, List.not_mem_nil, or_false] at hdrawn
  rcases hdrawn with rfl | rfl | rfl
  · exact absurd hkeeps (hnot _)
  · exact absurd hkeeps (hnot _)
  · exact absurd hkeeps (hnot _)

end NoModel

end Coinjecture.Consensus.Solvability
