import Coinjecture.Core.Problem
import Coinjecture.Lib.SubsetSums

/-! # Subset sums by tables

Two of the miner's solvers keep a table of the sums that are reached. The first keeps a row for every prefix of
the numbers, shifted by `offset` so that negative sums have a place, and goes back through the rows. The second
keeps one row, filled from the right for each number, and for each sum that is reached the link to the sum
before and the number in between; a link is set once and leads to a smaller sum. -/

namespace Coinjecture.Consensus.SubsetSumDp

open Core.Types Core.Problem
open Lib.SubsetSums

/-! ### Numbers and answers -/

/-- The numbers as integers. -/
def values (numbers : List Int64) : List ℤ := numbers.map Int64.toInt

/-- `numbers.iter().sum()`. -/
def sumI64 (numbers : List Int64) : Int64 := numbers.foldl (· + ·) 0

/-- `Some(Solution::SubsetSum(indices))`. -/
def answer (indices : List ℕ) : Solution := .SubsetSum (indices.map UInt64.ofNat)

theorem foldl_add (numbers : List Int64) (a : Int64) :
    numbers.foldl (· + ·) a = a + Int64.ofInt (values numbers).sum := by
  induction numbers generalizing a with
  | nil => rw [List.foldl_nil]; exact (Int64.add_zero a).symm
  | cons x numbers ih =>
    have hvalues : (values (x :: numbers)).sum = x.toInt + (values numbers).sum := List.sum_cons
    rw [List.foldl_cons, ih, hvalues, Int64.ofInt_add, Int64.ofInt_toInt, Int64.add_assoc]

theorem sumI64_eq (numbers : List Int64) : sumI64 numbers = Int64.ofInt (values numbers).sum := by
  rw [sumI64, foldl_add, Int64.zero_add]

theorem length_values (numbers : List Int64) : (values numbers).length = numbers.length := List.length_map _

theorem getD_values (numbers : List Int64) (i : ℕ) : (values numbers).getD i 0 = (numbers.getD i 0).toInt := by
  rw [values, List.getD_eq_getElem?_getD, List.getD_eq_getElem?_getD, List.getElem?_map]
  cases numbers[i]? with
  | none => rfl
  | some x => rfl

/-- The indices are of the list and their numbers sum to the target. -/
structure Picks (numbers : List Int64) (target : Int64) (indices : List ℕ) : Prop where
  inRange : ∀ i ∈ indices, i < numbers.length
  sum : Int64.ofInt (sumAt (values numbers) indices) = target

/-- The verifier accepts them. -/
theorem Picks.verify {numbers : List Int64} {target : Int64} {indices : List ℕ} (h : Picks numbers target indices)
    (hlen : numbers.length < 2 ^ 64) : (answer indices).verify (.SubsetSum numbers target) = true := by
  have hentries : values ((indices.map UInt64.ofNat).map fun i => (numbers[i.toNat]?).getD 0) =
      indices.map fun i => (values numbers).getD i 0 := by
    rw [values, List.map_map, List.map_map]
    refine List.map_congr_left fun i hi => ?_
    have hlt := h.inRange i hi
    change (numbers[(UInt64.ofNat i).toNat]?.getD 0).toInt = _
    rw [UInt64.toNat_ofNat', Nat.mod_eq_of_lt (by omega), getD_values, List.getD_eq_getElem?_getD]
  change (sumI64 ((indices.map UInt64.ofNat).map fun i => (numbers[i.toNat]?).getD 0) == target) = true
  rw [sumI64_eq, hentries, ← sumAt, h.sum]
  exact beq_self_eq_true target

/-- An answer for exactly the targets that are reached, and one that the verifier accepts. -/
structure Solves (numbers : List Int64) (target : Int64) (o : Option Solution) : Prop where
  isSome_iff : o.isSome = true ↔ Reach (values numbers) target.toInt
  picks : ∀ s, o = some s → ∃ indices, s = answer indices ∧ Picks numbers target indices

/-! ### A row for every prefix -/

/-- The next row: a sum is reached without the number or with it. -/
def dpRow (range : ℕ) (prev : List Bool) (num : Int64) : List Bool :=
  (List.range range).map fun (j : ℕ) =>
    let prevIdx := (j : ℤ) - num.toInt
    prev.getD j false || (decide (0 ≤ prevIdx ∧ prevIdx < range) && prev.getD prevIdx.toNat false)

def dpTable (numbers : List Int64) (offset range : ℕ) : List (List Bool) :=
  numbers.scanl (dpRow range) ((List.replicate range false).set offset true)

/-- The loop back through the rows. The indices come out in increasing order. -/
def backtrack (dp : List (List Bool)) (numbers : List Int64) (offset range : ℕ) : ℕ → ℤ → List ℕ → List ℕ
  | 0, _, indices => indices
  | i + 1, currSum, indices =>
    if currSum = 0 then indices
    else
      let num := (numbers.getD i 0).toInt
      let prevIdx := (offset : ℤ) + currSum - num
      if num ≤ currSum ∧ (0 ≤ prevIdx ∧ prevIdx < range) ∧ (dp.getD i []).getD prevIdx.toNat false = true then
        backtrack dp numbers offset range i (currSum - num) (i :: indices)
      else backtrack dp numbers offset range i currSum indices

/-- `solve_subset_sum_dp_blocking`. -/
def solveSubsetSumDp (numbers : List Int64) (target : Int64) (offset range : ℕ) : Option Solution :=
  let dp := dpTable numbers offset range
  let targetIdx := ((offset : ℤ) + target.toInt).toNat
  if (dp.getD numbers.length []).getD targetIdx false then
    some (answer (backtrack dp numbers offset range numbers.length target.toInt []))
  else none

/-! ### One row -/

structure SumTable where
  dp : List Bool
  /-- For each sum that is reached, the sum before and the index of the number in between. -/
  prev : List (Option (ℕ × ℕ))

/-- The sum `s` is reached with the number from `s - v`, if it was not reached yet. -/
def SumTable.mark (i v : ℕ) (t : SumTable) (s : ℕ) : SumTable :=
  if !t.dp.getD s false && t.dp.getD (s - v) false then
    { dp := t.dp.set s true, prev := t.prev.set s (some (s - v, i)) }
  else t

/-- The loop over the sums for one number, from the largest down. -/
def SumTable.add (max : ℕ) (t : SumTable) (entry : Int64 × ℕ) : SumTable :=
  if entry.1 ≤ 0 then t
  else
    let v := entry.1.toInt.toNat
    if max < v then t
    else (List.range' v (max + 1 - v)).reverse.foldl (SumTable.mark entry.2 v) t

def SumTable.init (max : ℕ) : SumTable where
  dp := (List.replicate (max + 1) false).set 0 true
  prev := List.replicate (max + 1) none

def sumTable (numbers : List Int64) (max : ℕ) : SumTable := numbers.zipIdx.foldl (SumTable.add max) (.init max)

/-- The loop along the links from `s` to 0. -/
def follow (prev : List (Option (ℕ × ℕ))) : (fuel s : ℕ) → Option (List ℕ)
  | _, 0 => some []
  | 0, _ + 1 => none
  | fuel + 1, s + 1 => do
    let (prevS, idx) ← prev.getD (s + 1) none
    let indices ← follow prev fuel prevS
    return idx :: indices

/-- `solve_subset_sum_1d_dp_blocking`. -/
def solveSubsetSum1dDp (numbers : List Int64) (target : Int64) : Option Solution :=
  let total := sumI64 numbers
  if target < 0 ∨ total < target then none
  else if target = 0 then some (answer [])
  else
    let table := sumTable numbers total.toInt.toNat
    let t := target.toInt.toNat
    if table.dp.getD t false then do
      let indices ← follow table.prev t t
      return answer (indices.mergeSort (· ≤ ·))
    else none

/-! ### The rows -/

section Rows

variable {numbers : List Int64} {target : Int64} {offset range : ℕ} {row : List Bool} {pre : List ℤ}

/-- The row says which sums are reached. -/
def Marks (offset range : ℕ) (row : List Bool) (pre : List ℤ) : Prop :=
  ∀ j < range, row.getD j false = true ↔ Reach pre ((j : ℤ) - offset)

theorem marks_init (hoffset : offset < range) :
    Marks offset range ((List.replicate range false).set offset true) [] := by
  intro j hj
  rw [reach_nil, List.getD_eq_getElem?_getD, List.getElem?_set]
  split_ifs with heq hlen
  · subst heq
    simp
  · exact absurd (by rw [List.length_replicate]; exact hoffset) hlen
  · rw [List.getElem?_replicate, if_pos hj]
    exact iff_of_false (by decide) (by omega)

theorem Marks.dpRow (h : Marks offset range row pre) (hpre : ∀ a ∈ pre, 0 ≤ a) {num : Int64}
    (hnum : 0 ≤ num.toInt) : Marks offset range (dpRow range row num) (pre ++ [num.toInt]) := by
  intro j hj
  have hget : (SubsetSumDp.dpRow range row num).getD j false = (row.getD j false ||
      (decide (0 ≤ (j : ℤ) - num.toInt ∧ (j : ℤ) - num.toInt < range) &&
        row.getD ((j : ℤ) - num.toInt).toNat false)) := by
    rw [SubsetSumDp.dpRow, List.getD_eq_getElem?_getD, List.getElem?_map, List.getElem?_range hj]
    rfl
  rw [hget, Bool.or_eq_true, h j hj, reach_concat]
  refine or_congr Iff.rfl ?_
  rw [Bool.and_eq_true, decide_eq_true_iff]
  constructor
  · rintro ⟨⟨hle, hlt⟩, hmark⟩
    have hreach := (h _ (by omega)).mp hmark
    rwa [Int.toNat_of_nonneg hle, sub_right_comm] at hreach
  · intro hreach
    have hnonneg := hreach.nonneg hpre
    refine ⟨by omega, (h _ (by omega)).mpr ?_⟩
    rwa [Int.toNat_of_nonneg (by omega), sub_right_comm]

theorem values_take_succ {i : ℕ} (hi : i < numbers.length) :
    (values numbers).take (i + 1) = (values numbers).take i ++ [(numbers.getD i 0).toInt] := by
  have hlt : i < (values numbers).length := by rwa [length_values]
  rw [List.take_succ_eq_append_getElem hlt, ← getD_values, List.getD_eq_getElem _ _ hlt]

theorem nonneg_of_mem_take (hpos : ∀ x ∈ values numbers, 0 < x) (i : ℕ) :
    ∀ a ∈ (values numbers).take i, 0 ≤ a :=
  fun a ha => (hpos a (List.mem_of_mem_take ha)).le

/-- Row `i` is about the first `i` numbers. -/
theorem marks_dpTable (hoffset : offset < range) (hpos : ∀ x ∈ values numbers, 0 < x) {i : ℕ}
    (hi : i ≤ numbers.length) :
    Marks offset range ((dpTable numbers offset range).getD i []) ((values numbers).take i) := by
  rw [dpTable, List.getD_eq_getElem?_getD, List.getElem?_scanl, if_pos hi, Option.getD_some]
  induction i with
  | zero => exact marks_init hoffset
  | succ i ih =>
    have hlt : i < (values numbers).length := by rw [length_values]; omega
    have hnum := hpos _ (List.getElem_mem hlt)
    rw [← List.getD_eq_getElem _ 0 hlt, getD_values] at hnum
    have hget : numbers.take (i + 1) = numbers.take i ++ [numbers.getD i 0] := by
      rw [List.take_succ_eq_append_getElem hi, List.getD_eq_getElem _ _ hi]
    rw [hget, List.foldl_append, values_take_succ hi]
    exact (ih (by omega)).dpRow (nonneg_of_mem_take hpos i) hnum.le

/-- What the loop back through the rows collects sums to what it started from. -/
theorem sumAt_backtrack (hrange : range = 2 * offset + 1) (hpos : ∀ x ∈ values numbers, 0 < x)
    (hsum : (values numbers).sum = offset) (i : ℕ) (hi : i ≤ numbers.length) (currSum : ℤ)
    (indices : List ℕ) (hreach : Reach ((values numbers).take i) currSum) :
    sumAt (values numbers) (backtrack (dpTable numbers offset range) numbers offset range i currSum indices) =
      currSum + sumAt (values numbers) indices := by
  induction i generalizing currSum indices with
  | zero =>
    rw [reach_nil.mp hreach, zero_add]
    rfl
  | succ i ih =>
    have hmarks := marks_dpTable (show offset < range by omega) hpos (Nat.le_of_succ_le hi)
    rw [backtrack]
    split_ifs with hzero
    · rw [hzero, zero_add]
    dsimp only
    split_ifs with htake
    · obtain ⟨-, ⟨hnonneg, hlt⟩, hmark⟩ := htake
      have hbefore := (hmarks _ (by omega)).mp hmark
      rw [Int.toNat_of_nonneg hnonneg] at hbefore
      rw [ih (by omega) _ _ (by convert hbefore using 1; ring), sumAt_cons, getD_values]
      ring
    · refine ih (by omega) _ _ ?_
      rw [values_take_succ hi, reach_concat] at hreach
      rcases hreach with hwithout | hwith
      · exact hwithout
      · -- the sum before is in the table, so that the number would have been taken
        have hnonneg := hwith.nonneg (nonneg_of_mem_take hpos i)
        have hle := hwith.le_sum (nonneg_of_mem_take hpos i)
        have htotal : ((values numbers).take i).sum ≤ (values numbers).sum :=
          (List.take_sublist i _).sum_le_sum fun a ha => (hpos a ha).le
        refine absurd ⟨by omega, ⟨by omega, by omega⟩, (hmarks _ (by omega)).mpr ?_⟩ htake
        rw [Int.toNat_of_nonneg (by omega)]
        convert hwith using 1
        ring

theorem lt_of_mem_backtrack (dp : List (List Bool)) (i : ℕ) (currSum : ℤ) (indices : List ℕ) (k : ℕ)
    (hi : i ≤ k) (hindices : ∀ a ∈ indices, a < k) :
    ∀ a ∈ backtrack dp numbers offset range i currSum indices, a < k := by
  induction i generalizing currSum indices with
  | zero => exact hindices
  | succ i ih =>
    rw [backtrack]
    split_ifs
    · exact hindices
    dsimp only
    split_ifs
    · refine ih _ _ (by omega) fun a ha => ?_
      rcases List.mem_cons.mp ha with rfl | ha
      · omega
      · exact hindices a ha
    · exact ih _ _ (by omega) hindices

/-- The table with a row for every prefix. -/
theorem solves_dp (hrange : range = 2 * offset + 1) (hpos : ∀ x ∈ values numbers, 0 < x)
    (hsum : (values numbers).sum = offset) (htarget : 0 < target.toInt) (hle : target.toInt ≤ offset) :
    Solves numbers target (solveSubsetSumDp numbers target offset range) := by
  have hmark := marks_dpTable (show offset < range by omega) hpos le_rfl
    ((offset : ℤ) + target.toInt).toNat (by omega)
  rw [← length_values, List.take_length, length_values, Int.toNat_of_nonneg (by omega), add_sub_cancel_left]
    at hmark
  constructor
  · rw [← hmark, solveSubsetSumDp]
    split_ifs with h
    · exact iff_of_true rfl h
    · exact iff_of_false (by decide) h
  · intro s hs
    rw [solveSubsetSumDp] at hs
    split_ifs at hs with h
    refine ⟨_, (Option.some.inj hs).symm, ?_, ?_⟩
    · exact lt_of_mem_backtrack _ _ _ [] _ le_rfl fun a ha => by cases ha
    · have hreach := hmark.mp h
      rw [sumAt_backtrack hrange hpos hsum _ le_rfl _ [] (by
        rwa [← length_values, List.take_length]), sumAt_nil, add_zero, Int64.ofInt_toInt]

end Rows

/-! ### The links -/

namespace SumTable

/-- Every sum that is reached has a link to a smaller one, over a number. -/
def Linked (numbers : List Int64) (t : SumTable) : Prop :=
  ∀ s, 0 < s → t.dp.getD s false = true → ∃ p i, t.prev.getD s none = some (p, i) ∧ p < s ∧
    t.dp.getD p false = true ∧ i < numbers.length ∧ (values numbers).getD i 0 = (s : ℤ) - p

/-- The two columns are over the sums from 0 to `max`. -/
structure Sized (max : ℕ) (t : SumTable) : Prop where
  dp : t.dp.length = max + 1
  prev : t.prev.length = max + 1

section Mark

variable {numbers : List Int64} {max i v s : ℕ} {t : SumTable}

theorem Sized.mark (h : t.Sized max) : (t.mark i v s).Sized max := by
  rw [SumTable.mark]
  split_ifs
  · exact { dp := by rw [List.length_set, h.dp], prev := by rw [List.length_set, h.prev] }
  · exact h

/-- The column of the sums after one step. -/
theorem getD_mark (h : t.Sized max) (hs : s ≤ max) (j : ℕ) : (t.mark i v s).dp.getD j false =
    if j = s then t.dp.getD s false || t.dp.getD (s - v) false else t.dp.getD j false := by
  have hlen := h.dp
  rw [SumTable.mark]
  split_ifs with hset hj hj
  · subst hj
    rw [List.getD_eq_getElem?_getD, List.getElem?_set_self (by omega)]
    rw [Bool.and_eq_true, Bool.not_eq_true'] at hset
    rw [hset.1, hset.2]
    rfl
  · rw [List.getD_eq_getElem?_getD, List.getElem?_set_ne (Ne.symm hj), ← List.getD_eq_getElem?_getD]
  · subst hj
    cases hdp : t.dp.getD j false with
    | true => rfl
    | false =>
      rw [hdp, Bool.not_false, Bool.true_and] at hset
      rw [Bool.false_or]
      exact (Bool.eq_false_iff.mpr hset).symm
  · rfl

theorem Linked.mark (h : t.Linked numbers) (hsized : t.Sized max) (hs : s ≤ max) (hv : 0 < v) (hvs : v ≤ s)
    (hi : i < numbers.length) (hnum : (values numbers).getD i 0 = v) : (t.mark i v s).Linked numbers := by
  have hmono : ∀ j, t.dp.getD j false = true → (t.mark i v s).dp.getD j false = true := by
    intro j hj
    rw [getD_mark hsized hs]
    split_ifs with heq
    · rw [← heq, hj, Bool.true_or]
    · exact hj
  intro a ha hdp
  have hlen := hsized.prev
  by_cases hold : t.dp.getD a false = true
  · obtain ⟨p, k, hprev, hlt, hp, hk, hval⟩ := h a ha hold
    refine ⟨p, k, ?_, hlt, hmono p hp, hk, hval⟩
    rw [SumTable.mark]
    split_ifs with hset
    · have hne : s ≠ a := by
        rintro rfl
        rw [hold] at hset
        cases hset
      rw [List.getD_eq_getElem?_getD, List.getElem?_set_ne hne, ← List.getD_eq_getElem?_getD, hprev]
    · exact hprev
  · -- the sum is new
    have hset : (!t.dp.getD s false && t.dp.getD (s - v) false) = true := by
      by_contra hset
      rw [SumTable.mark, if_neg hset] at hdp
      exact hold hdp
    have heq : a = s := by
      by_contra hne
      rw [getD_mark hsized hs, if_neg hne] at hdp
      exact hold hdp
    subst heq
    refine ⟨a - v, i, ?_, by omega, hmono _ (Bool.and_eq_true_iff.mp hset).2, hi, by rw [hnum]; omega⟩
    rw [SumTable.mark, if_pos hset, List.getD_eq_getElem?_getD, List.getElem?_set_self (by omega)]
    rfl

/-- The loop for one number reads the sums below the one it sets as they were before. -/
theorem getD_foldl_mark (h : t.Sized max) (k : ℕ) (hk : v + k ≤ max + 1) :
    ((List.range' v k).reverse.foldl (SumTable.mark i v) t).Sized max ∧
      ∀ j, ((List.range' v k).reverse.foldl (SumTable.mark i v) t).dp.getD j false =
        if v ≤ j ∧ j < v + k then t.dp.getD j false || t.dp.getD (j - v) false else t.dp.getD j false := by
  induction k generalizing t with
  | zero =>
    refine ⟨h, fun j => ?_⟩
    rw [if_neg (by omega)]
    rfl
  | succ k ih =>
    rw [List.range'_1_concat, List.reverse_append]
    change ((List.range' v k).reverse.foldl (SumTable.mark i v) (t.mark i v (v + k))).Sized max ∧ _
    obtain ⟨hsized, hdp⟩ := ih (h.mark (i := i) (v := v) (s := v + k)) (by omega)
    refine ⟨hsized, fun j => (hdp j).trans ?_⟩
    have hget := getD_mark (i := i) (v := v) h (show v + k ≤ max by omega)
    rcases Nat.lt_trichotomy j (v + k) with hlt | rfl | hgt
    · have hj : (t.mark i v (v + k)).dp.getD j false = t.dp.getD j false := by
        rw [hget, if_neg (by omega)]
      have hjv : (t.mark i v (v + k)).dp.getD (j - v) false = t.dp.getD (j - v) false := by
        rw [hget, if_neg (by omega)]
      rw [hj, hjv]
      split_ifs with h1 h2 h2
      · rfl
      · omega
      · omega
      · rfl
    · rw [if_neg (by omega), hget, if_pos rfl, if_pos (by omega)]
    · rw [if_neg (by omega), hget, if_neg (by omega), if_neg (by omega)]

theorem Linked.foldl_mark (sums : List ℕ) (hsums : ∀ s ∈ sums, v ≤ s ∧ s ≤ max) (h : t.Linked numbers)
    (hsized : t.Sized max) (hv : 0 < v) (hi : i < numbers.length) (hnum : (values numbers).getD i 0 = v) :
    (sums.foldl (SumTable.mark i v) t).Linked numbers := by
  induction sums generalizing t with
  | nil => exact h
  | cons s sums ih =>
    obtain ⟨hvs, hs⟩ := hsums s List.mem_cons_self
    exact ih (fun a ha => hsums a (List.mem_cons_of_mem _ ha)) (h.mark hsized hs hv hvs hi hnum) hsized.mark

end Mark

/-- The table is about these numbers, the first of the list. -/
structure Reaches (numbers : List Int64) (max : ℕ) (pre : List ℤ) (t : SumTable) : Prop where
  sized : t.Sized max
  linked : t.Linked numbers
  reach : ∀ s ≤ max, t.dp.getD s false = true ↔ Reach pre s

section Add

variable {numbers : List Int64} {max : ℕ} {t : SumTable} {pre : List ℤ}

theorem reaches_init (numbers : List Int64) (max : ℕ) : (SumTable.init max).Reaches numbers max [] := by
  have hdp : ∀ s, (SumTable.init max).dp.getD s false = true ↔ s = 0 := by
    intro s
    rw [SumTable.init, List.getD_eq_getElem?_getD, List.getElem?_set]
    split_ifs with heq hlen
    · exact iff_of_true rfl heq.symm
    · exact absurd (by rw [List.length_replicate]; omega) hlen
    · rw [List.getElem?_replicate]
      split_ifs
      · exact iff_of_false (by decide) (Ne.symm heq)
      · exact iff_of_false (by decide) (Ne.symm heq)
  constructor
  · exact { dp := by rw [SumTable.init, List.length_set, List.length_replicate]
            prev := by rw [SumTable.init, List.length_replicate] }
  · intro s hs hmark
    have := (hdp s).mp hmark
    omega
  · intro s _
    rw [hdp, reach_nil, Int.natCast_eq_zero]

theorem Reaches.add (h : t.Reaches numbers max pre) (hpre : ∀ a ∈ pre, 0 ≤ a) {num : Int64} {i : ℕ}
    (hnum : 0 < num.toInt) (hget : numbers[i]? = some num) :
    (t.add max (num, i)).Reaches numbers max (pre ++ [num.toInt]) := by
  obtain ⟨hi, -⟩ := List.getElem?_eq_some_iff.mp hget
  have hv : (num.toInt.toNat : ℤ) = num.toInt := Int.toNat_of_nonneg hnum.le
  have hval : (values numbers).getD i 0 = (num.toInt.toNat : ℤ) := by
    rw [getD_values, List.getD_eq_getElem?_getD, hget, hv]
    rfl
  rw [SumTable.add, if_neg (by rw [Int64.le_iff_toInt_le]; exact not_le.mpr hnum)]
  dsimp only
  split_ifs with hlarge
  · refine { h with reach := fun s hs => ?_ }
    rw [h.reach s hs, reach_concat, or_iff_left]
    intro hreach
    have := hreach.nonneg hpre
    omega
  · obtain ⟨hsized, hdp⟩ := getD_foldl_mark (i := i) (v := num.toInt.toNat) h.sized
      (max + 1 - num.toInt.toNat) (by omega)
    refine { sized := hsized, linked := ?_, reach := fun s hs => ?_ }
    · refine h.linked.foldl_mark _ (fun s hs => ?_) h.sized (by omega) hi hval
      rw [List.mem_reverse, List.mem_range'_1] at hs
      omega
    · rw [hdp s, reach_concat]
      split_ifs with hin
      · rw [Bool.or_eq_true, h.reach s hs, h.reach _ (by omega), Int.ofNat_sub hin.1, hv]
      · rw [h.reach s hs, or_iff_left]
        intro hreach
        have := hreach.nonneg hpre
        omega

theorem Reaches.foldl_add (hpos : ∀ x ∈ values numbers, 0 < x) (done left : List Int64)
    (hsplit : numbers = done ++ left) (h : t.Reaches numbers max (values done)) :
    ((left.zipIdx done.length).foldl (SumTable.add max) t).Reaches numbers max (values numbers) := by
  induction left generalizing done t with
  | nil =>
    rw [List.append_nil] at hsplit
    rwa [← hsplit] at h
  | cons num left ih =>
    have hdone : ∀ a ∈ values done, 0 ≤ a := fun a ha =>
      (hpos a (by rw [hsplit, values, List.map_append]; exact List.mem_append_left _ ha)).le
    have hnum : 0 < num.toInt := hpos _ (by
      rw [hsplit, values, List.map_append]
      exact List.mem_append_right _ List.mem_cons_self)
    have hget : numbers[done.length]? = some num := by
      rw [hsplit, List.getElem?_append_right le_rfl, Nat.sub_self]
      rfl
    have hnext := h.add hdone hnum hget
    have hvalues : values (done ++ [num]) = values done ++ [num.toInt] := List.map_append
    rw [← hvalues] at hnext
    rw [List.zipIdx_cons, List.foldl_cons]
    have hrest := ih (done ++ [num]) (by rw [hsplit, List.append_assoc]; rfl) hnext
    rwa [List.length_append, List.length_singleton] at hrest

theorem reaches_sumTable (hpos : ∀ x ∈ values numbers, 0 < x) (max : ℕ) :
    (sumTable numbers max).Reaches numbers max (values numbers) :=
  (reaches_init numbers max).foldl_add hpos [] numbers rfl

end Add

/-- From a sum that is reached the links lead down to 0, over numbers that sum to it. -/
theorem Linked.follow {numbers : List Int64} {t : SumTable} (h : t.Linked numbers) (fuel s : ℕ) (hs : s ≤ fuel)
    (hdp : t.dp.getD s false = true) : ∃ indices, follow t.prev fuel s = some indices ∧
      (∀ i ∈ indices, i < numbers.length) ∧ sumAt (values numbers) indices = s := by
  induction fuel generalizing s with
  | zero =>
    obtain rfl : s = 0 := by omega
    exact ⟨[], rfl, fun i hi => absurd hi List.not_mem_nil, rfl⟩
  | succ fuel ih =>
    cases s with
    | zero => exact ⟨[], rfl, fun i hi => absurd hi List.not_mem_nil, rfl⟩
    | succ s =>
      obtain ⟨p, i, hprev, hlt, hp, hi, hval⟩ := h (s + 1) (Nat.succ_pos s) hdp
      obtain ⟨indices, hfollow, hrange, hsum⟩ := ih p (by omega) hp
      refine ⟨i :: indices, ?_, fun a ha => ?_, ?_⟩
      · rw [SubsetSumDp.follow, hprev]
        change (SubsetSumDp.follow t.prev fuel p).bind _ = _
        rw [hfollow]
        rfl
      · rcases List.mem_cons.mp ha with rfl | ha
        · exact hi
        · exact hrange a ha
      · rw [sumAt_cons, hsum, hval]
        omega

end SumTable

/-- The table of one row. -/
theorem solves_1dDp {numbers : List Int64} {target : Int64} (hpos : ∀ x ∈ values numbers, 0 < x)
    (htarget : 0 < target.toInt) (hle : target.toInt ≤ (sumI64 numbers).toInt) :
    Solves numbers target (solveSubsetSum1dDp numbers target) := by
  have htable := SumTable.reaches_sumTable hpos (sumI64 numbers).toInt.toNat
  have hmark := htable.reach target.toInt.toNat (by omega)
  rw [Int.toNat_of_nonneg htarget.le] at hmark
  have hne : ¬ target = 0 := by
    rintro rfl
    exact absurd htarget (by decide)
  have hin : ¬ (target < 0 ∨ sumI64 numbers < target) := by
    rw [Int64.lt_iff_toInt_lt, Int64.lt_iff_toInt_lt]
    have hzero : (0 : Int64).toInt = 0 := rfl
    omega
  rw [solveSubsetSum1dDp]
  dsimp only
  rw [if_neg hin, if_neg hne]
  split_ifs with h
  · obtain ⟨indices, hfollow, hrange, hsumAt⟩ := htable.linked.follow _ _ le_rfl h
    rw [hfollow]
    refine ⟨iff_of_true rfl (hmark.mp h), fun s hs => ⟨_, (Option.some.inj hs).symm, ?_, ?_⟩⟩
    · exact fun i hi => hrange i ((List.mergeSort_perm indices _).mem_iff.mp hi)
    · rw [sumAt_perm (List.mergeSort_perm indices _), hsumAt, Int.toNat_of_nonneg htarget.le,
        Int64.ofInt_toInt]
  · exact ⟨iff_of_false (by decide) fun hreach => h (hmark.mpr hreach), fun s hs => by cases hs⟩

end Coinjecture.Consensus.SubsetSumDp
