import Coinjecture.Core.Problem

/-! # Problems and solutions with checked arithmetic

`Solution.verify` and `Solution.quality` as they run where overflows are checked: a sum or a difference that
leaves its type is a panic (`none`) too. Where they return, the unchecked functions return the same. The
sum of a subset is checked number by number, so it matters in which order the numbers are selected.

* `subsetSum_correct_iff` : for which subsets the verdict is right and no sum overflows;
* `sat_correct_iff` : for which assignments. -/

namespace Coinjecture.Core.ProblemChecks

open Lib.Float64
open Core.Types Core.Problem

/-! ### Checked functions -/

/-- The integer is an `i64`. -/
def Fits (x : ℤ) : Prop := -2 ^ 63 ≤ x ∧ x < 2 ^ 63

instance (x : ℤ) : Decidable (Fits x) := inferInstanceAs (Decidable (_ ∧ _))

def checkedAdd (a b : Int64) : Option Int64 := if Fits (a.toInt + b.toInt) then some (a + b) else none

def checkedAddU64 (a b : UInt64) : Option UInt64 := if a.toNat + b.toNat < 2 ^ 64 then some (a + b) else none

/-- The numbers at the indices, zero where there is none. -/
def selected (numbers : List Int64) (indices : List Usize) : List Int64 :=
  indices.map fun i => (numbers[i.toNat]?).getD 0

/-- `|lit| - 1` overflows at zero. -/
def literalHoldsChecked (assignment : List Bool) (lit : Int32) : Option Bool :=
  if lit = 0 then none else some (literalHolds assignment lit)

def verifyChecked : Solution → ProblemType → Option Bool
  | .SubsetSum indices, .SubsetSum numbers target =>
    ((selected numbers indices).foldlM checkedAdd 0).map fun sum => sum == target
  | .SAT assignment, .SAT vars clauses =>
    if assignment.length ≠ vars.toNat then some false
    else clauses.allM fun clause => clause.literals.anyM (literalHoldsChecked assignment)
  | s, problem => some (s.verify problem)

/-- The distance from the city at position `i` of the tour to the next one. -/
def edge (tour : List Usize) (cities : Usize) (distances : List (List UInt64)) (i : ℕ) : Option UInt64 := do
  let src ← tour[i]?
  let dst ← tour[(i + 1) % cities.toNat]?
  let row ← distances[src.toNat]?
  row[dst.toNat]?

def tspTourLengthChecked (tour : List Usize) (cities : Usize) (distances : List (List UInt64)) : Option UInt64 :=
  (List.range cities.toNat).foldlM (fun sum i => do
    let dist ← edge tour cities distances i
    checkedAddU64 sum dist) 0

def tspNearestNeighborLengthChecked (cities : Usize) (distances : List (List UInt64)) : Option UInt64 := do
  if cities = 0 then none
  let visited := (List.replicate cities.toNat false).set 0 true
  let tour ← nearestNeighborTour cities distances (cities.toNat - 1) 0 [0] visited
  tspTourLengthChecked tour cities distances

def qualityChecked (s : Solution) (problem : ProblemType) : Option F64 :=
  match s, problem with
  | .SubsetSum _, .SubsetSum .. | .SAT _, .SAT .. =>
    (verifyChecked s problem).map fun verified => if verified then F64.one else F64.zero
  | .TSP tour, .TSP cities distances =>
    if !s.verify problem then some F64.zero
    else do
      let length ← tspTourLengthChecked tour cities distances
      let baseline := max (← tspNearestNeighborLengthChecked cities distances) 1
      some (((F64.ofNat baseline.toNat).div (F64.ofNat (max length baseline).toNat)).clamp
        F64.zero F64.one)
  | _, _ => some F64.zero

/-! ### Subsets -/

section SubsetSum

def exactSum (values : List Int64) : ℤ := (values.map Int64.toInt).sum

/-- No sum of the first values overflows. -/
def PartialSumsFit (values : List Int64) : Prop := ∀ k ≤ values.length, Fits (exactSum (values.take k))

instance (values : List Int64) : Decidable (PartialSumsFit values) :=
  inferInstanceAs (Decidable (∀ k ≤ values.length, _))

/-- The indices name numbers, each once. -/
def IsSelection (numbers : List Int64) (indices : List Usize) : Prop :=
  indices.Nodup ∧ ∀ i ∈ indices, i.toNat < numbers.length

instance (numbers : List Int64) (indices : List Usize) : Decidable (IsSelection numbers indices) :=
  inferInstanceAs (Decidable (_ ∧ _))

/-- The indices name numbers, each once, that add up to the target. -/
def IsSolution (numbers : List Int64) (target : Int64) (indices : List Usize) : Prop :=
  IsSelection numbers indices ∧ exactSum (selected numbers indices) = target.toInt

theorem checkedAdd_eq_some {a b c : Int64} (h : checkedAdd a b = some c) : c = a + b ∧ c.toInt = a.toInt + b.toInt := by
  unfold checkedAdd at h
  split_ifs at h with hfits
  obtain rfl := Option.some.inj h
  refine ⟨rfl, ?_⟩
  obtain ⟨hlow, hhigh⟩ := hfits
  rw [Int64.toInt_add]
  exact Int.bmod_eq_of_le (by omega) (by omega)

theorem checkedAdd_isSome {a b : Int64} : (checkedAdd a b).isSome ↔ Fits (a.toInt + b.toInt) := by
  unfold checkedAdd
  split_ifs with hfits
  · simp [hfits]
  · simp [hfits]

/-- The checked sum is the exact one, and the unchecked one. -/
theorem foldlM_checkedAdd {values : List Int64} {a sum : Int64} (h : values.foldlM checkedAdd a = some sum) :
    sum.toInt = a.toInt + exactSum values ∧ sum = values.foldl (· + ·) a := by
  induction values generalizing a with
  | nil =>
    obtain rfl := Option.some.inj h
    exact ⟨by simp [exactSum], rfl⟩
  | cons v values ih =>
    rw [List.foldlM_cons] at h
    obtain ⟨b, hb, hrest⟩ := Option.bind_eq_some_iff.mp h
    obtain ⟨rfl, hexact⟩ := checkedAdd_eq_some hb
    obtain ⟨hsum, hfold⟩ := ih hrest
    refine ⟨?_, hfold⟩
    rw [hsum, hexact, exactSum, exactSum, List.map_cons, List.sum_cons, add_assoc]

/-- The checked sum is there if no sum on the way overflows. -/
theorem foldlM_checkedAdd_isSome {values : List Int64} {a : Int64} :
    (values.foldlM checkedAdd a).isSome ↔ ∀ k ≤ values.length, Fits (a.toInt + exactSum (values.take k)) := by
  induction values generalizing a with
  | nil =>
    have ha : Fits a.toInt := ⟨a.le_toInt, a.toInt_lt⟩
    simp [exactSum, ha]
  | cons v values ih =>
    have hcons (k : ℕ) : exactSum ((v :: values).take (k + 1)) = v.toInt + exactSum (values.take k) := by
      rw [List.take_succ_cons, exactSum, exactSum, List.map_cons, List.sum_cons]
    rw [List.foldlM_cons]
    constructor
    · intro h k hk
      obtain ⟨sum, hsum⟩ := Option.isSome_iff_exists.mp h
      obtain ⟨b, hb, hrest⟩ := Option.bind_eq_some_iff.mp hsum
      have hexact := (checkedAdd_eq_some hb).2
      cases k with
      | zero =>
        have ha : Fits a.toInt := ⟨a.le_toInt, a.toInt_lt⟩
        simpa [exactSum] using ha
      | succ k =>
        rw [hcons, ← add_assoc, ← hexact]
        exact ih.mp (Option.isSome_of_eq_some hrest) k (Nat.le_of_succ_le_succ hk)
    · intro h
      have hone : Fits (a.toInt + v.toInt) := by
        have hfirst := h 1 (by simp)
        rw [hcons] at hfirst
        simpa [exactSum] using hfirst
      obtain ⟨b, hb⟩ := Option.isSome_iff_exists.mp (checkedAdd_isSome.mpr hone)
      have hexact := (checkedAdd_eq_some hb).2
      change ((checkedAdd a v).bind _).isSome
      rw [hb]
      refine ih.mpr fun k hk => ?_
      rw [hexact, add_assoc, ← hcons]
      exact h (k + 1) (Nat.succ_le_succ hk)

variable {numbers : List Int64} {target : Int64} {indices : List Usize}

theorem verifyChecked_subsetSum :
    (verifyChecked (.SubsetSum indices) (.SubsetSum numbers target)).isSome ↔
      PartialSumsFit (selected numbers indices) := by
  rw [verifyChecked, Option.isSome_map, foldlM_checkedAdd_isSome]
  simp [PartialSumsFit]

/-- Without an overflow the verdict is about the exact sum. -/
theorem verify_subsetSum (h : PartialSumsFit (selected numbers indices)) :
    (Solution.SubsetSum indices).verify (.SubsetSum numbers target) = true ↔
      exactSum (selected numbers indices) = target.toInt := by
  obtain ⟨sum, hsum⟩ := Option.isSome_iff_exists.mp
    ((foldlM_checkedAdd_isSome (a := 0)).mpr (by simpa [PartialSumsFit] using h))
  obtain ⟨hexact, hfold⟩ := foldlM_checkedAdd hsum
  have hverify : (Solution.SubsetSum indices).verify (.SubsetSum numbers target) = (sum == target) := by
    rw [hfold]
    rfl
  rw [hverify, beq_iff_eq, ← Int64.toInt_inj, hexact]
  simp

/-- The verdict is right and no sum overflows exactly if no sum overflows and the indices name numbers, each once,
or what they select does not add up to the target. -/
theorem subsetSum_correct_iff (numbers : List Int64) (target : Int64) (indices : List Usize) :
    ((verifyChecked (.SubsetSum indices) (.SubsetSum numbers target)).isSome ∧
      ((Solution.SubsetSum indices).verify (.SubsetSum numbers target) = true ↔ IsSolution numbers target indices)) ↔
    PartialSumsFit (selected numbers indices) ∧
      (IsSelection numbers indices ∨ exactSum (selected numbers indices) ≠ target.toInt) := by
  rw [verifyChecked_subsetSum]
  refine and_congr_right fun hfits => ?_
  rw [verify_subsetSum hfits, IsSolution]
  tauto

/-- The number 1 taken twice, a number that is not there, and a sum that wraps. -/
theorem subsetSum_false_solutions :
    (Solution.SubsetSum [0, 0]).verify (.SubsetSum [1] 2) = true ∧ ¬IsSolution [1] 2 [0, 0] ∧
    (Solution.SubsetSum [7]).verify (.SubsetSum [5] 0) = true ∧ ¬IsSolution [5] 0 [7] ∧
    (Solution.SubsetSum [0, 1]).verify (.SubsetSum [Int64.maxValue, 1] Int64.minValue) = true ∧
    ¬IsSolution [Int64.maxValue, 1] Int64.minValue [0, 1] := by
  refine ⟨by decide, fun h => absurd h.1.1 (by decide), by decide +kernel, fun h => ?_, by decide,
    fun h => absurd h.2 (by decide)⟩
  have hrange := h.1.2 7 List.mem_cons_self
  rw [List.length_singleton] at hrange
  exact absurd hrange (by decide)

end SubsetSum

/-! ### Assignments -/

section SAT

/-- The literal is not zero, names a variable and holds for its value. -/
def IsTrue (assignment : List Bool) (lit : Int32) : Prop :=
  lit ≠ 0 ∧ assignment[lit.toInt.natAbs - 1]? = some (decide (0 < lit))

/-- Every variable has a value, and every clause a literal that is true. -/
def Satisfies (assignment : List Bool) (vars : Usize) (clauses : List Clause) : Prop :=
  assignment.length = vars.toNat ∧ ∀ clause ∈ clauses, ∃ lit ∈ clause.literals, IsTrue assignment lit

/-- No variable and negated, which is read as a variable that is false. -/
def Phantom (assignment : List Bool) (lit : Int32) : Prop :=
  ¬0 < lit ∧ (lit = 0 ∨ assignment.length < lit.toInt.natAbs)

/-- No zero comes before a literal that holds. -/
def ZeroFree (assignment : List Bool) : List Int32 → Prop
  | [] => True
  | lit :: lits => lit ≠ 0 ∧ (literalHolds assignment lit = false → ZeroFree assignment lits)

/-- No zero is looked at, up to the first clause in which nothing holds. -/
def ZeroUnreached (assignment : List Bool) : List Clause → Prop
  | [] => True
  | clause :: clauses => ZeroFree assignment clause.literals ∧
      (clause.literals.any (literalHolds assignment) = true → ZeroUnreached assignment clauses)

variable {assignment : List Bool} {vars : Usize} {clauses : List Clause} {lit : Int32} {lits : List Int32}

/-- A literal holds if it is true, and if it only seems so. -/
theorem literalHolds_iff (hlength : assignment.length < 2 ^ 64) :
    literalHolds assignment lit = true ↔ IsTrue assignment lit ∨ Phantom assignment lit := by
  by_cases hzero : lit = 0
  · subst hzero
    have hnone : assignment[2 ^ 64 - 1]? = none := List.getElem?_eq_none (by omega)
    have hholds : literalHolds assignment 0 = true := by
      have hindex : ((0 : Int32).toInt.natAbs + 2 ^ 64 - 1) % 2 ^ 64 = 2 ^ 64 - 1 := by decide
      simp only [literalHolds, hindex, hnone]
      decide
    simp [hholds, Phantom]
  · have hpositive : 0 < lit.toInt.natAbs := by
      rw [Int.natAbs_pos]
      exact fun heq => hzero (Int32.toInt_inj.mp heq)
    have hsmall : lit.toInt.natAbs ≤ 2 ^ 31 := by
      have hlow := lit.le_toInt
      have hhigh := lit.toInt_lt
      omega
    have hindex : (lit.toInt.natAbs + 2 ^ 64 - 1) % 2 ^ 64 = lit.toInt.natAbs - 1 := by omega
    simp only [literalHolds, hindex, IsTrue, Phantom]
    by_cases hsign : 0 < lit
    · rw [if_pos hsign]
      cases hget : assignment[lit.toInt.natAbs - 1]? with
      | none => simp [hsign]
      | some value => simp [hsign, hzero]
    · rw [if_neg hsign]
      cases hget : assignment[lit.toInt.natAbs - 1]? with
      | none =>
        have hbeyond := List.getElem?_eq_none_iff.mp hget
        simp only [Option.getD_none, Bool.not_false, true_iff]
        exact .inr ⟨hsign, .inr (by omega)⟩
      | some value =>
        have hwithin := (List.getElem?_eq_some_iff.mp hget).1
        have hnot : ¬assignment.length < lit.toInt.natAbs := by omega
        simp [hsign, hzero, hnot]

theorem anyM_isSome : (lits.anyM (literalHoldsChecked assignment)).isSome ↔ ZeroFree assignment lits := by
  induction lits with
  | nil => simp [ZeroFree]
  | cons lit lits ih =>
    rw [List.anyM_cons, literalHoldsChecked, ZeroFree]
    by_cases hzero : lit = 0
    · simp [hzero]
    · rw [if_neg hzero]
      cases hholds : literalHolds assignment lit with
      | false => simpa [hzero] using ih
      | true => simp [hzero]

/-- Where the checked search returns, it says whether a literal holds. -/
theorem anyM_eq (h : (lits.anyM (literalHoldsChecked assignment)).isSome) :
    lits.anyM (literalHoldsChecked assignment) = some (lits.any (literalHolds assignment)) := by
  induction lits with
  | nil => rfl
  | cons lit lits ih =>
    rw [anyM_isSome, ZeroFree] at h
    rw [List.anyM_cons, literalHoldsChecked, if_neg h.1, List.any_cons]
    cases hholds : literalHolds assignment lit with
    | false => simpa using ih (anyM_isSome.mpr (h.2 hholds))
    | true => simp

theorem allM_isSome :
    (clauses.allM fun clause : Clause => clause.literals.anyM (literalHoldsChecked assignment)).isSome ↔
      ZeroUnreached assignment clauses := by
  induction clauses with
  | nil => simp [ZeroUnreached]
  | cons clause clauses ih =>
    rw [List.allM_cons, ZeroUnreached, ← anyM_isSome]
    by_cases hsome : (clause.literals.anyM (literalHoldsChecked assignment)).isSome
    · rw [anyM_eq hsome]
      cases hany : clause.literals.any (literalHolds assignment) with
      | false => simp
      | true => simpa using ih
    · rw [Option.not_isSome_iff_eq_none.mp hsome]
      simp

theorem allM_eq (h : ZeroUnreached assignment clauses) :
    (clauses.allM fun clause : Clause => clause.literals.anyM (literalHoldsChecked assignment)) =
      some (clauses.all fun clause => clause.literals.any (literalHolds assignment)) := by
  induction clauses with
  | nil => rfl
  | cons clause clauses ih =>
    rw [ZeroUnreached, ← anyM_isSome] at h
    rw [List.allM_cons, anyM_eq h.1, List.all_cons]
    cases hany : clause.literals.any (literalHolds assignment) with
    | false => simp
    | true => simpa using ih (h.2 hany)

theorem verifyChecked_sat : (verifyChecked (.SAT assignment) (.SAT vars clauses)).isSome ↔
    assignment.length ≠ vars.toNat ∨ ZeroUnreached assignment clauses := by
  rw [verifyChecked]
  split_ifs with hlength
  · simp [hlength]
  · rw [allM_isSome]
    exact (or_iff_right hlength).symm

theorem verify_sat : (Solution.SAT assignment).verify (.SAT vars clauses) = true ↔
    assignment.length = vars.toNat ∧
      ∀ clause ∈ clauses, ∃ lit ∈ clause.literals, IsTrue assignment lit ∨ Phantom assignment lit := by
  rw [Solution.verify]
  by_cases hlength : assignment.length = vars.toNat
  · rw [if_neg (not_not.mpr hlength), List.all_eq_true]
    simp only [List.any_eq_true, hlength, true_and,
      literalHolds_iff (hlength.trans_lt vars.toNat_lt)]
  · rw [if_pos hlength]
    simp [hlength]

/-- The verdict is right and no difference overflows exactly if the lengths differ, or no zero is looked at and
some clause has no literal that holds or seems to, or all clauses have one that is true. -/
theorem sat_correct_iff (assignment : List Bool) (vars : Usize) (clauses : List Clause) :
    ((verifyChecked (.SAT assignment) (.SAT vars clauses)).isSome ∧
      ((Solution.SAT assignment).verify (.SAT vars clauses) = true ↔ Satisfies assignment vars clauses)) ↔
    assignment.length ≠ vars.toNat ∨ ZeroUnreached assignment clauses ∧
      ((∃ clause ∈ clauses, ∀ lit ∈ clause.literals, ¬IsTrue assignment lit ∧ ¬Phantom assignment lit) ∨
        ∀ clause ∈ clauses, ∃ lit ∈ clause.literals, IsTrue assignment lit) := by
  rw [verifyChecked_sat, verify_sat, Satisfies]
  by_cases hlength : assignment.length = vars.toNat
  · simp only [hlength, ne_eq, not_true_eq_false, false_or, true_and]
    refine and_congr_right fun _ => ?_
    constructor
    · intro hiff
      by_cases hall : ∀ clause ∈ clauses, ∃ lit ∈ clause.literals, IsTrue assignment lit
      · exact .inr hall
      · refine .inl ?_
        by_contra hnone
        refine hall (hiff.mp fun clause hclause => ?_)
        by_contra hnot
        exact hnone ⟨clause, hclause, fun lit hlit => not_or.mp fun hholds => hnot ⟨lit, hlit, hholds⟩⟩
    · rintro (⟨clause, hclause, hnone⟩ | hall)
      · constructor
        · intro hholds
          obtain ⟨lit, hlit, hor⟩ := hholds clause hclause
          exact absurd hor (not_or.mpr (hnone lit hlit))
        · intro htrue
          obtain ⟨lit, hlit, histrue⟩ := htrue clause hclause
          exact absurd histrue (hnone lit hlit).1
      · exact ⟨fun _ => hall, fun h clause hclause =>
          (h clause hclause).imp fun lit hlit => ⟨hlit.1, .inl hlit.2⟩⟩
  · simp [hlength]

/-- No variables at all, and a clause with a zero or with a negated variable that is not declared. -/
theorem sat_false_solutions :
    (Solution.SAT []).verify (.SAT 0 [⟨[0]⟩]) = true ∧ ¬Satisfies [] 0 [⟨[0]⟩] ∧
    verifyChecked (.SAT []) (.SAT 0 [⟨[0]⟩]) = none ∧
    (Solution.SAT []).verify (.SAT 0 [⟨[-5]⟩]) = true ∧ ¬Satisfies [] 0 [⟨[-5]⟩] := by
  refine ⟨by decide, fun h => ?_, by decide, by decide, fun h => ?_⟩
  · obtain ⟨lit, hlit, -, hget⟩ := h.2 _ List.mem_cons_self
    cases hget
  · obtain ⟨lit, hlit, -, hget⟩ := h.2 _ List.mem_cons_self
    cases hget

end SAT

end Coinjecture.Core.ProblemChecks
