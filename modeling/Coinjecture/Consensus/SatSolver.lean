import Coinjecture.Core.Problem
import Mathlib.Data.Nat.Bitwise
import Mathlib.Data.Nat.Init

/-! # The SAT solver of the miner

Up to 32 variables every assignment is tried. Above that the variables are set one after another, true first,
and a branch is left where some clause is false in the variables that are set; a clause is checked for being
true in all of them, also those that an earlier branch left behind. There is no unit propagation.

Both look at the clock before each step: `expired` says whether the time is over at the step, which is named by
the assignment it looks at. -/

namespace Coinjecture.Consensus.SatSolver

open Core.Types Core.Problem

/-! ### Formulas -/

/-- The values satisfy the formula; the variables are numbered from 1. -/
def Models (value : ℕ → Bool) (clauses : List Clause) : Prop :=
  ∀ clause ∈ clauses, ∃ lit ∈ clause.literals, value lit.toInt.natAbs = decide (0 < lit)

def Satisfiable (clauses : List Clause) : Prop := ∃ value, Models value clauses

/-- The literals are non-zero and over so many variables. -/
def Declared (vars : ℕ) (clauses : List Clause) : Prop :=
  ∀ clause ∈ clauses, ∀ lit ∈ clause.literals, lit ≠ 0 ∧ lit.toInt.natAbs ≤ vars

/-! ### The solver -/

/-- `(literal.abs() - 1) as usize`. -/
def idx (literal : Int32) : ℕ := (UInt64.ofInt (literal.abs - 1).toInt).toNat

/-- The literal is true in the assignment. -/
def literalSatisfied (assignment : List Bool) (literal : Int32) : Bool :=
  match assignment[idx literal]? with
  | some value => decide (0 < literal) == value
  | none => false

/-- Every clause has a true literal. -/
def allSatisfied (clauses : List Clause) (assignment : List Bool) : Bool :=
  clauses.all fun clause => clause.literals.any (literalSatisfied assignment)

/-- The literal is false in the variables before `varIdx`. -/
def literalFalsified (assignment : List Bool) (varIdx : ℕ) (literal : Int32) : Bool :=
  if idx literal < varIdx then decide (0 < literal) != (assignment[idx literal]?).getD false else false

/-- Some clause is false in the variables that are set. -/
def anyUnsatisfiable (clauses : List Clause) (assignment : List Bool) (varIdx : ℕ) : Bool :=
  clauses.any fun clause => clause.literals.all (literalFalsified assignment varIdx)

section Solver

variable (expired : List Bool → Bool)

/-- The assignment number `bits`. -/
def assignmentOf (vars bits : ℕ) : List Bool :=
  (List.range vars).map fun j => if j < min vars 32 then bits.testBit j else false

/-- The loop of the brute force over the assignments that are left. -/
def tryAssignments (clauses : List Clause) : List (List Bool) → Option Solution
  | [] => none
  | assignment :: candidates =>
    if expired assignment then none
    else if allSatisfied clauses assignment then some (.SAT assignment)
    else tryAssignments clauses candidates

/-- `solve_sat_brute_force_blocking`. -/
def solveSatBruteForce (vars : ℕ) (clauses : List Clause) : Option Solution :=
  tryAssignments expired clauses ((List.range (2 ^ min vars 32)).map (assignmentOf vars))

/-- `dpll`, with the assignment that it leaves behind. The number `left` of variables from `varIdx` on is
`assignment.len() - var_idx`. -/
def dpll (clauses : List Clause) (left varIdx : ℕ) (assignment : List Bool) : Bool × List Bool :=
  if expired (assignment.take varIdx) then (false, assignment)
  else if allSatisfied clauses assignment then (true, assignment)
  else if anyUnsatisfiable clauses assignment varIdx then (false, assignment)
  else match left with
    | 0 => (false, assignment)
    | left + 1 =>
      match dpll clauses left (varIdx + 1) (assignment.set varIdx true) with
      | (true, assignment) => (true, assignment)
      | (false, assignment) => dpll clauses left (varIdx + 1) (assignment.set varIdx false)

/-- `solve_sat_with_timeout_blocking`. -/
def solveSatWithTimeout (vars : ℕ) (clauses : List Clause) : Option Solution :=
  match dpll expired clauses vars 0 (List.replicate vars false) with
  | (true, assignment) => some (.SAT assignment)
  | (false, _) => none

/-- The SAT case of `solve_problem_blocking`. -/
def solveSat (vars : Usize) (clauses : List Clause) : Option Solution :=
  if vars ≤ 32 then solveSatBruteForce expired vars.toNat clauses
  else solveSatWithTimeout expired vars.toNat clauses

end Solver

/-! ### Literals -/

/-- The index of a variable is its number less one, also for the smallest literal, whose absolute value wraps. -/
theorem idx_add_one {literal : Int32} (h : literal ≠ 0) : idx literal + 1 = literal.toInt.natAbs := by
  have habs : literal.abs.toInt =
      if literal.toBitVec = BitVec.intMin 32 then -2 ^ 31 else (literal.toInt.natAbs : ℤ) := by
    have habsv := @BitVec.toInt_abs_eq_natAbs 32 literal.toBitVec
    rw [← Int32.toBitVec_abs] at habsv
    exact habsv
  have hne : literal.toInt ≠ 0 := fun h0 => h (Int32.toInt_inj.mp h0)
  have hle := literal.le_toInt
  have hlt := literal.toInt_lt
  have hone : (1 : Int32).toInt = 1 := rfl
  rw [idx, Int32.toInt_sub, habs, hone]
  split
  case isTrue hmin =>
    have hval : literal.toInt = -2 ^ 31 := congrArg BitVec.toInt hmin
    rw [hval]
    decide
  case isFalse hmin =>
    have hmin' : literal.toInt ≠ -2 ^ 31 := fun hval =>
      hmin (BitVec.toInt_inj.mp (hval.trans (by decide)))
    rw [Int.bmod_eq_of_le (by omega) (by omega), UInt64.ofInt, UInt64.toNat_ofNat']
    omega

section Literals

variable {assignment : List Bool} {value : ℕ → Bool} {literal : Int32}

/-- The assignment gives every variable its value. -/
def Gives (assignment : List Bool) (value : ℕ → Bool) (k : ℕ) : Prop :=
  ∀ i < k, assignment[i]? = some (value (i + 1))

theorem literalSatisfied_of_gives {k : ℕ} (hgives : Gives assignment value k) (hne : literal ≠ 0)
    (hle : literal.toInt.natAbs ≤ k) (htrue : value literal.toInt.natAbs = decide (0 < literal)) :
    literalSatisfied assignment literal = true := by
  have hidx := idx_add_one hne
  rw [literalSatisfied, hgives (idx literal) (by omega), hidx, htrue]
  exact beq_self_eq_true _

/-- A literal that is true in a model is not found false in the variables set as in the model. -/
theorem not_literalFalsified_of_gives {varIdx : ℕ} (hgives : Gives assignment value varIdx) (hne : literal ≠ 0)
    (htrue : value literal.toInt.natAbs = decide (0 < literal)) :
    literalFalsified assignment varIdx literal = false := by
  rw [literalFalsified]
  split
  case isTrue hlt =>
    rw [hgives _ hlt, idx_add_one hne, htrue]
    exact bne_self_eq_false _
  case isFalse => rfl

/-- The value that an assignment gives to a variable. -/
def valueOf (assignment : List Bool) (v : ℕ) : Bool := (assignment[v - 1]?).getD false

theorem valueOf_of_satisfied (hne : literal ≠ 0) (h : literalSatisfied assignment literal = true) :
    valueOf assignment literal.toInt.natAbs = decide (0 < literal) := by
  have hidx := idx_add_one hne
  rw [literalSatisfied] at h
  split at h
  case h_1 value hget =>
    rw [valueOf, ← hidx, Nat.add_sub_cancel, hget]
    exact (beq_iff_eq.mp h).symm
  case h_2 => cases h

/-- The verifier reads a true literal as true. -/
theorem literalHolds_of_satisfied (hne : literal ≠ 0) (h : literalSatisfied assignment literal = true) :
    literalHolds assignment literal = true := by
  have hvalue := valueOf_of_satisfied hne h
  have hidx := idx_add_one hne
  have hle := literal.le_toInt
  have hlt := literal.toInt_lt
  have hvar : (literal.toInt.natAbs + 2 ^ 64 - 1) % 2 ^ 64 = literal.toInt.natAbs - 1 := by omega
  rw [literalHolds, hvar]
  change (if 0 < literal then valueOf assignment literal.toInt.natAbs
    else !valueOf assignment literal.toInt.natAbs) = true
  rw [hvalue]
  split
  case isTrue hpos => exact decide_eq_true hpos
  case isFalse hpos => rw [decide_eq_false hpos]; rfl

end Literals

/-! ### Clauses -/

section Clauses

variable {clauses : List Clause} {assignment : List Bool} {value : ℕ → Bool} {vars : ℕ}

theorem allSatisfied_of_gives (hdecl : Declared vars clauses) (hmodels : Models value clauses)
    (hgives : Gives assignment value vars) : allSatisfied clauses assignment = true := by
  refine List.all_eq_true.mpr fun clause hclause => ?_
  obtain ⟨lit, hlit, htrue⟩ := hmodels clause hclause
  obtain ⟨hne, hle⟩ := hdecl clause hclause lit hlit
  exact List.any_eq_true.mpr ⟨lit, hlit, literalSatisfied_of_gives hgives hne hle htrue⟩

theorem not_anyUnsatisfiable_of_gives {varIdx : ℕ} (hdecl : Declared vars clauses) (hmodels : Models value clauses)
    (hgives : Gives assignment value varIdx) : anyUnsatisfiable clauses assignment varIdx = false := by
  refine List.any_eq_false.mpr fun clause hclause hall => ?_
  obtain ⟨lit, hlit, htrue⟩ := hmodels clause hclause
  have hfalse := List.all_eq_true.mp hall lit hlit
  rw [not_literalFalsified_of_gives hgives (hdecl clause hclause lit hlit).1 htrue] at hfalse
  cases hfalse

theorem models_of_allSatisfied (hdecl : Declared vars clauses) (h : allSatisfied clauses assignment = true) :
    Models (valueOf assignment) clauses := by
  intro clause hclause
  obtain ⟨lit, hlit, hsat⟩ := List.any_eq_true.mp (List.all_eq_true.mp h clause hclause)
  exact ⟨lit, hlit, valueOf_of_satisfied (hdecl clause hclause lit hlit).1 hsat⟩

/-- What the solver takes for satisfied, the verifier accepts. -/
theorem verify_of_allSatisfied {vars : Usize} (hdecl : Declared vars.toNat clauses)
    (hlen : assignment.length = vars.toNat) (h : allSatisfied clauses assignment = true) :
    (Solution.SAT assignment).verify (.SAT vars clauses) = true := by
  rw [Solution.verify, if_neg (not_not.mpr hlen)]
  refine List.all_eq_true.mpr fun clause hclause => ?_
  obtain ⟨lit, hlit, hsat⟩ := List.any_eq_true.mp (List.all_eq_true.mp h clause hclause)
  exact List.any_eq_true.mpr ⟨lit, hlit, literalHolds_of_satisfied (hdecl clause hclause lit hlit).1 hsat⟩

end Clauses

/-! ### Brute force -/

section BruteForce

variable {expired : List Bool → Bool} {clauses : List Clause} {candidates : List (List Bool)}

theorem tryAssignments_sound {s : Solution} (h : tryAssignments expired clauses candidates = some s) :
    ∃ assignment ∈ candidates, allSatisfied clauses assignment = true ∧ s = .SAT assignment := by
  induction candidates with
  | nil => cases h
  | cons assignment candidates ih =>
    rw [tryAssignments] at h
    split_ifs at h with hexp hsat
    · exact ⟨assignment, List.mem_cons_self, hsat, (Option.some.inj h).symm⟩
    · obtain ⟨found, hmem, hfound⟩ := ih h
      exact ⟨found, List.mem_cons_of_mem _ hmem, hfound⟩

theorem tryAssignments_complete (hexp : ∀ a, expired a = false) {assignment : List Bool}
    (hmem : assignment ∈ candidates) (hsat : allSatisfied clauses assignment = true) :
    (tryAssignments expired clauses candidates).isSome := by
  induction candidates with
  | nil => cases hmem
  | cons first candidates ih =>
    rw [tryAssignments, if_neg (Bool.eq_false_iff.mp (hexp first))]
    split_ifs with hfirst
    · rfl
    · rcases List.mem_cons.mp hmem with rfl | hrest
      · exact absurd hsat hfirst
      · exact ih hrest

theorem length_assignmentOf (vars bits : ℕ) : (assignmentOf vars bits).length = vars := by
  rw [assignmentOf, List.length_map, List.length_range]

/-- Every choice of values is tried, if there are at most 32 variables. -/
theorem exists_assignmentOf_gives {vars : ℕ} (hvars : vars ≤ 32) (value : ℕ → Bool) :
    ∃ bits < 2 ^ min vars 32, Gives (assignmentOf vars bits) value vars := by
  refine ⟨Nat.ofBits fun i : Fin (min vars 32) => value (i + 1), Nat.ofBits_lt_two_pow _, fun i hi => ?_⟩
  have hmin : i < min vars 32 := by omega
  rw [assignmentOf, List.getElem?_map, List.getElem?_range hi, Option.map_some, if_pos hmin,
    Nat.testBit_ofBits_lt _ _ hmin]

end BruteForce

/-! ### DPLL -/

section Dpll

variable {expired : List Bool → Bool} {clauses : List Clause}

/-- What a call leaves behind: an assignment of the same length, the same in the variables before `varIdx`, and,
if the call says so, one that satisfies the formula. -/
structure Leaves (clauses : List Clause) (varIdx : ℕ) (assignment : List Bool) (found : Bool × List Bool) :
    Prop where
  length : found.2.length = assignment.length
  before : ∀ i < varIdx, found.2[i]? = assignment[i]?
  satisfied : found.1 = true → allSatisfied clauses found.2 = true

/-- From a call one variable further on. -/
theorem Leaves.of_set {varIdx : ℕ} {assignment after : List Bool} {b : Bool} {found : Bool × List Bool}
    (h : Leaves clauses (varIdx + 1) (after.set varIdx b) found) (hlen : after.length = assignment.length)
    (hbefore : ∀ i < varIdx, after[i]? = assignment[i]?) : Leaves clauses varIdx assignment found where
  length := by rw [h.length, List.length_set, hlen]
  before i hi := by
    rw [h.before i (by omega), List.getElem?_set_ne (by omega), hbefore i hi]
  satisfied := h.satisfied

/-- A call that says no before it has changed anything. -/
theorem Leaves.refl (clauses : List Clause) (varIdx : ℕ) (assignment : List Bool) :
    Leaves clauses varIdx assignment (false, assignment) where
  length := rfl
  before _ _ := rfl
  satisfied h := by cases h

theorem dpll_leaves (expired : List Bool → Bool) (clauses : List Clause) (left varIdx : ℕ)
    (assignment : List Bool) : Leaves clauses varIdx assignment (dpll expired clauses left varIdx assignment) := by
  induction left generalizing varIdx assignment with
  | zero =>
    rw [dpll]
    split_ifs with hexp hsat hunsat
    · exact .refl clauses varIdx assignment
    · exact { length := rfl, before := fun _ _ => rfl, satisfied := fun _ => hsat }
    · exact .refl clauses varIdx assignment
    · exact .refl clauses varIdx assignment
  | succ left ih =>
    rw [dpll]
    split_ifs with hexp hsat hunsat
    · exact .refl clauses varIdx assignment
    · exact { length := rfl, before := fun _ _ => rfl, satisfied := fun _ => hsat }
    · exact .refl clauses varIdx assignment
    · have hfirst : Leaves clauses varIdx assignment
          (dpll expired clauses left (varIdx + 1) (assignment.set varIdx true)) :=
        (ih (varIdx + 1) _).of_set rfl fun _ _ => rfl
      split
      case h_1 after heq =>
        rw [heq] at hfirst
        exact hfirst
      case h_2 after heq =>
        rw [heq] at hfirst
        exact (ih (varIdx + 1) _).of_set hfirst.length hfirst.before

theorem Gives.set {assignment : List Bool} {value : ℕ → Bool} {varIdx : ℕ}
    (h : Gives assignment value varIdx) (hlt : varIdx < assignment.length) :
    Gives (assignment.set varIdx (value (varIdx + 1))) value (varIdx + 1) := by
  intro i hi
  rcases Nat.lt_succ_iff_lt_or_eq.mp hi with hbefore | rfl
  · rw [List.getElem?_set_ne (by omega), h i hbefore]
  · rw [List.getElem?_set_self hlt]

/-- A model that has the values of the variables set so far is found, or another one. -/
theorem dpll_complete {value : ℕ → Bool} {vars : ℕ} (hexp : ∀ a, expired a = false)
    (hdecl : Declared vars clauses) (hmodels : Models value clauses) (left varIdx : ℕ)
    (assignment : List Bool) (hlen : assignment.length = vars) (hleft : varIdx + left = vars)
    (hgives : Gives assignment value varIdx) :
    (dpll expired clauses left varIdx assignment).1 = true := by
  induction left generalizing varIdx assignment with
  | zero =>
    obtain rfl : varIdx = vars := hleft
    rw [dpll, if_neg (Bool.eq_false_iff.mp (hexp _)), if_pos (allSatisfied_of_gives hdecl hmodels hgives)]
  | succ left ih =>
    rw [dpll, if_neg (Bool.eq_false_iff.mp (hexp _))]
    split_ifs with hsat hunsat
    · rfl
    · rw [not_anyUnsatisfiable_of_gives hdecl hmodels hgives] at hunsat
      cases hunsat
    · split
      case h_1 after heq => rfl
      case h_2 after heq =>
        have hfirst : Leaves clauses varIdx assignment
            (dpll expired clauses left (varIdx + 1) (assignment.set varIdx true)) :=
          (dpll_leaves expired clauses left (varIdx + 1) _).of_set rfl fun _ _ => rfl
        cases hvalue : value (varIdx + 1) with
        | true =>
          have hset := hgives.set (by omega)
          rw [hvalue] at hset
          have hfound := ih (varIdx + 1) _ (by rw [List.length_set, hlen]) (by omega) hset
          rw [heq] at hfound
          cases hfound
        | false =>
          rw [heq] at hfirst
          have hagrees : Gives after value varIdx := fun i hi => by rw [hfirst.before i hi, hgives i hi]
          have hset := hagrees.set (by rw [hfirst.length]; omega)
          rw [hvalue] at hset
          exact ih (varIdx + 1) _ (by rw [List.length_set, hfirst.length, hlen]) (by omega) hset

end Dpll

/-! ### The solver -/

section SolveSat

variable {expired : List Bool → Bool} {vars : Usize} {clauses : List Clause} {s : Solution}

/-- What is found satisfies the formula, also if the time runs out. -/
theorem solveSat_sound (h : solveSat expired vars clauses = some s) :
    ∃ assignment, s = .SAT assignment ∧ assignment.length = vars.toNat ∧
      allSatisfied clauses assignment = true := by
  rw [solveSat] at h
  split_ifs at h
  · obtain ⟨assignment, hmem, hsat, hs⟩ := tryAssignments_sound h
    obtain ⟨bits, -, rfl⟩ := List.mem_map.mp hmem
    exact ⟨_, hs, length_assignmentOf _ _, hsat⟩
  · have hleaves := dpll_leaves expired clauses vars.toNat 0 (List.replicate vars.toNat false)
    rw [solveSatWithTimeout] at h
    split at h
    case h_1 assignment heq =>
      rw [heq] at hleaves
      exact ⟨assignment, (Option.some.inj h).symm, hleaves.length.trans List.length_replicate,
        hleaves.satisfied rfl⟩
    case h_2 => cases h

/-- A model is found if the time does not run out. -/
theorem solveSat_complete (hexp : ∀ a, expired a = false) (hdecl : Declared vars.toNat clauses)
    (hsat : Satisfiable clauses) : (solveSat expired vars clauses).isSome := by
  obtain ⟨value, hmodels⟩ := hsat
  rw [solveSat]
  split_ifs with hle
  · obtain ⟨bits, hbits, hgives⟩ := exists_assignmentOf_gives (UInt64.le_iff_toNat_le.mp hle) value
    exact tryAssignments_complete hexp (List.mem_map.mpr ⟨bits, List.mem_range.mpr hbits, rfl⟩)
      (allSatisfied_of_gives hdecl hmodels hgives)
  · have hfound := dpll_complete hexp hdecl hmodels vars.toNat 0 (List.replicate vars.toNat false)
      List.length_replicate (Nat.zero_add _) fun i hi => absurd hi (Nat.not_lt_zero i)
    rw [solveSatWithTimeout]
    split
    case h_1 => rfl
    case h_2 heq => rw [heq] at hfound; cases hfound

end SolveSat

/-- For every formula over the declared variables and unless the time runs out, the solver finds an assignment
exactly if there is one; and whatever it finds the verifier accepts. -/
theorem solveSat_correct (vars : Usize) (clauses : List Clause) (hdecl : Declared vars.toNat clauses) :
    ((solveSat (fun _ => false) vars clauses).isSome ↔ Satisfiable clauses) ∧
      ∀ (expired : List Bool → Bool) (s : Solution), solveSat expired vars clauses = some s →
        s.verify (.SAT vars clauses) = true := by
  refine ⟨⟨fun hsome => ?_, solveSat_complete (fun _ => rfl) hdecl⟩, fun expired s h => ?_⟩
  · obtain ⟨s, hs⟩ := Option.isSome_iff_exists.mp hsome
    obtain ⟨assignment, -, -, hsat⟩ := solveSat_sound hs
    exact ⟨_, models_of_allSatisfied hdecl hsat⟩
  · obtain ⟨assignment, rfl, hlen, hsat⟩ := solveSat_sound h
    exact verify_of_allSatisfied hdecl hlen hsat

/-- Forty variables, of which two occur, one of them in a unit clause. -/
theorem solveSat_correct_forty : (solveSat (fun _ => false) 40 [⟨[1, -2]⟩, ⟨[2]⟩]).isSome = true :=
  (solveSat_correct 40 [⟨[1, -2]⟩, ⟨[2]⟩] (by simp [Declared])).1.mpr
    ⟨fun _ => true, by unfold Models; decide⟩

end Coinjecture.Consensus.SatSolver
