import Coinjecture.Consensus.Miner
import Coinjecture.Consensus.SubsetSumDp
import Coinjecture.Lib.BinarySearch

/-! # The subset sum solver of the miner

By the size of the tables it would need, the solver takes one of the two tables, or the two halves of the list
with all their sums, or at last a number of random tries. The first three find an answer whenever there is one.
The tries do not: there are many more sums than tries. -/

namespace Coinjecture.Consensus.SubsetSumSolver

open Core.Types Core.Problem
open Lib.SubsetSums Lib.BinarySearch
open Consensus.Miner Consensus.SubsetSumDp

/-! ### Two halves -/

/-- The sum of the numbers that the mask says, and the bits of their indices. -/
def maskSum (mask : ℕ) (part : List Int64) : Int64 × ℕ :=
  part.zipIdx.foldl (fun acc entry =>
    if mask.testBit entry.2 then (acc.1 + entry.1, acc.2 ||| 1 <<< entry.2) else acc) (0, 0)

/-- The sums of all parts, sorted by the sum. -/
def partSums (part : List Int64) : List (Int64 × ℕ) :=
  ((List.range (2 ^ part.length)).map (maskSum · part)).mergeSort fun a b => a.1.toInt ≤ b.1.toInt

/-- `solve_subset_sum_mitm_blocking`. -/
def solveSubsetSumMitm (numbers : List Int64) (target : Int64) : Option Solution :=
  let mid := numbers.length / 2
  let left := numbers.take mid
  let right := numbers.drop mid
  let leftSums := partSums left
  (List.range (2 ^ right.length)).findSome? fun mask =>
    let need := target - (maskSum mask right).1
    (binarySearch (leftSums.map fun entry => entry.1.toInt) need.toInt).map fun idx =>
      answer (ones (leftSums.getD idx (0, 0)).2 left.length ++
        (ones (maskSum mask right).2 right.length).map (mid + ·))

/-! ### Random tries -/

section Heuristic

variable (R : StdRng)

/-- The sum of the numbers at the indices. -/
def sumOf (numbers : List Int64) (indices : List ℕ) : Int64 := sumI64 (indices.map (numbers.getD · 0))

/-- A random part of the list. -/
def drawPart (numbers : List Int64) : Draw R (List ℕ) := do
  let k ← randomRange R .usize 1 (numbers.length + 1)
  let indices ← shuffle R (List.range numbers.length)
  return indices.take k

/-- The loop over the tries. -/
def tryParts (numbers : List Int64) (target : Int64) : ℕ → R.State → Option Solution
  | 0, _ => none
  | tries + 1, rng =>
    let indices := (drawPart R numbers rng).1
    if sumOf numbers indices = target then some (answer (indices.mergeSort (· ≤ ·)))
    else tryParts numbers target tries (drawPart R numbers rng).2

/-- `solve_subset_sum_heuristic_blocking`. -/
def solveSubsetSumHeuristic (numbers : List Int64) (target : Int64) : Option Solution :=
  tryParts R numbers target 50000
    (R.seedFromU64 (numbers.foldl (fun h x => h * 31 + UInt64.ofInt x.toInt) 0))

/-! ### The solver -/

def SUBSET_SUM_DP_MAX_CELLS : ℕ := 8000000
def SUBSET_SUM_1D_MAX_SUM : ℕ := 200000
def SUBSET_SUM_MITM_MAX_N : ℕ := 44

/-- `solve_subset_sum_blocking`. -/
def solveSubsetSum (numbers : List Int64) (target : Int64) : Option Solution :=
  let n := numbers.length
  let sum := sumI64 numbers
  if sum < target ∨ target < 0 then none
  else if target = 0 then some (answer [])
  else
    let offset := sum.toInt.natAbs
    let range := 2 * offset + 1
    let dpCells := min ((n + 1) * range) (2 ^ 64 - 1)
    if dpCells ≤ SUBSET_SUM_DP_MAX_CELLS then solveSubsetSumDp numbers target offset range
    else if sum.toInt.toNat ≤ SUBSET_SUM_1D_MAX_SUM then solveSubsetSum1dDp numbers target
    else if n ≤ SUBSET_SUM_MITM_MAX_N then solveSubsetSumMitm numbers target
    else solveSubsetSumHeuristic R numbers target

end Heuristic

/-! ### The sums of a part -/

section Masks

theorem maskSum_concat (mask : ℕ) (part : List Int64) (x : Int64) : maskSum mask (part ++ [x]) =
    if mask.testBit part.length then
      ((maskSum mask part).1 + x, (maskSum mask part).2 ||| 1 <<< part.length)
    else maskSum mask part := by
  rw [maskSum, List.zipIdx_append, List.foldl_append, Nat.zero_add]
  rfl

/-- The bits are those of the mask. -/
theorem testBit_maskSum (mask : ℕ) (part : List Int64) (i : ℕ) :
    (maskSum mask part).2.testBit i = (decide (i < part.length) && mask.testBit i) := by
  induction part using List.reverseRecOn generalizing i with
  | nil => exact Nat.zero_testBit i
  | append_singleton part x ih =>
    have hlast : decide (i < part.length + 1) = (decide (i < part.length) || decide (part.length = i)) := by
      rw [← Bool.decide_or]
      exact decide_eq_decide.mpr (by omega)
    rw [maskSum_concat, List.length_append, List.length_singleton, hlast, Bool.and_or_distrib_right]
    split_ifs with hbit
    · rw [Nat.testBit_or, Nat.one_shiftLeft, Nat.testBit_two_pow, ih]
      by_cases heq : part.length = i
      · rw [← heq, hbit, Bool.and_true, Bool.and_true]
      · rw [decide_eq_false heq, Bool.false_and]
    · rw [ih]
      by_cases heq : part.length = i
      · rw [← heq, Bool.eq_false_iff.mpr hbit, Bool.and_false, Bool.and_false, Bool.or_false]
      · rw [decide_eq_false heq, Bool.false_and, Bool.or_false]

theorem ones_maskSum (mask : ℕ) (part : List Int64) :
    ones (maskSum mask part).2 part.length = ones mask part.length :=
  ones_congr fun i hi => by rw [testBit_maskSum, decide_eq_true hi, Bool.true_and]

theorem fst_maskSum (mask : ℕ) (part : List Int64) :
    (maskSum mask part).1 = Int64.ofInt (sumAt (values part) (ones mask part.length)) := by
  induction part using List.reverseRecOn with
  | nil => rfl
  | append_singleton part x ih =>
    have hvalues : values (part ++ [x]) = values part ++ [x.toInt] := List.map_append
    rw [maskSum_concat, List.length_append, List.length_singleton, hvalues, ← length_values, sumAt_concat_ones,
      length_values]
    split_ifs
    · rw [Int64.ofInt_add, Int64.ofInt_toInt, ih]
    · rw [add_zero, ih]

end Masks

/-! ### The halves together -/

section Mitm

variable {numbers : List Int64} {target : Int64}

theorem mem_partSums {part : List Int64} {entry : Int64 × ℕ} (h : entry ∈ partSums part) :
    ∃ mask, entry = maskSum mask part := by
  obtain ⟨mask, -, rfl⟩ := List.mem_map.mp ((List.mergeSort_perm _ _).mem_iff.mp h)
  exact ⟨mask, rfl⟩

theorem maskSum_mem_partSums {part : List Int64} {mask : ℕ} (h : mask < 2 ^ part.length) :
    maskSum mask part ∈ partSums part :=
  (List.mergeSort_perm _ _).mem_iff.mpr (List.mem_map.mpr ⟨mask, List.mem_range.mpr h, rfl⟩)

theorem partSums_sorted (part : List Int64) :
    ((partSums part).map fun entry => entry.1.toInt).Pairwise (· ≤ ·) := by
  rw [List.pairwise_map]
  refine (List.pairwise_mergeSort ?_ ?_ _).imp of_decide_eq_true
  · intro a b c hab hbc
    exact decide_eq_true ((of_decide_eq_true hab).trans (of_decide_eq_true hbc))
  · intro a b
    rw [Bool.or_eq_true, decide_eq_true_iff, decide_eq_true_iff]
    exact le_total _ _

/-- The indices of a part of each half pick the two sums together. -/
theorem sumAt_halves (left right : List Int64) (indices js : List ℕ) (h : ∀ i ∈ indices, i < left.length) :
    sumAt (values (left ++ right)) (indices ++ js.map (left.length + ·)) =
      sumAt (values left) indices + sumAt (values right) js := by
  have hvalues : values (left ++ right) = values left ++ values right := List.map_append
  rw [hvalues, sumAt_append, sumAt_append_of_lt fun i hi => by rw [length_values]; exact h i hi,
    ← length_values left, sumAt_append_map_add]

/-- A hit of the search gives indices that pick the target. -/
theorem picks_of_found {left right : List Int64} {mask idx : ℕ}
    (h : binarySearch ((partSums left).map fun entry => entry.1.toInt)
      (target - (maskSum mask right).1).toInt = some idx) :
    (ones ((partSums left).getD idx (0, 0)).2 left.length ++
        (ones (maskSum mask right).2 right.length).map (left.length + ·)).Nodup ∧
      Picks (left ++ right) target (ones ((partSums left).getD idx (0, 0)).2 left.length ++
        (ones (maskSum mask right).2 right.length).map (left.length + ·)) := by
  have hkey := getElem?_of_binarySearch h
  rw [List.getElem?_map, Option.map_eq_some_iff] at hkey
  obtain ⟨entry, hget, hentry⟩ := hkey
  obtain ⟨mask', rfl⟩ := mem_partSums (List.mem_of_getElem? hget)
  rw [List.getD_eq_getElem?_getD, hget, Option.getD_some, ones_maskSum, ones_maskSum]
  refine ⟨?_, ?_, ?_⟩
  · refine List.nodup_append'.mpr ⟨nodup_ones _ _,
      (nodup_ones _ _).map fun a b hab => Nat.add_left_cancel hab, fun i hi hj => ?_⟩
    obtain ⟨j, -, rfl⟩ := List.mem_map.mp hj
    have := lt_of_mem_ones hi
    omega
  · intro i hi
    rw [List.length_append]
    rcases List.mem_append.mp hi with hi | hi
    · have := lt_of_mem_ones hi
      omega
    · obtain ⟨j, hj, rfl⟩ := List.mem_map.mp hi
      have := lt_of_mem_ones hj
      omega
  · rw [sumAt_halves _ _ _ _ fun i hi => lt_of_mem_ones hi, Int64.ofInt_add, ← fst_maskSum, ← fst_maskSum,
      Int64.toInt_inj.mp hentry, Int64.sub_add_cancel]

/-- The sums of the halves that make up the target are found. -/
theorem exists_found {left right : List Int64}
    (h : Reach (values (left ++ right)) target.toInt) :
    ∃ mask < 2 ^ right.length, ∃ idx, binarySearch ((partSums left).map fun entry => entry.1.toInt)
      (target - (maskSum mask right).1).toInt = some idx := by
  have hvalues : values (left ++ right) = values left ++ values right := List.map_append
  rw [hvalues, reach_append] at h
  obtain ⟨a, hleft, hright⟩ := h
  obtain ⟨maskL, hltL, hsumL⟩ := reach_iff_mask.mp hleft
  obtain ⟨maskR, hltR, hsumR⟩ := reach_iff_mask.mp hright
  rw [length_values] at hltL hltR hsumL hsumR
  have hneed : target - (maskSum maskR right).1 = (maskSum maskL left).1 := by
    calc target - (maskSum maskR right).1
        = Int64.ofInt target.toInt - Int64.ofInt (target.toInt - a) := by
          rw [fst_maskSum, hsumR, Int64.ofInt_toInt]
      _ = Int64.ofInt (target.toInt - (target.toInt - a)) := (Int64.ofInt_sub _ _).symm
      _ = (maskSum maskL left).1 := by rw [sub_sub_cancel, fst_maskSum, hsumL]
  refine ⟨maskR, hltR, exists_binarySearch (partSums_sorted left) ?_⟩
  rw [hneed]
  exact List.mem_map.mpr ⟨_, maskSum_mem_partSums hltL, rfl⟩

/-- Different indices that pick the target show that it is reached. -/
theorem reach_of_picks {indices : List ℕ} (hpos : ∀ x ∈ values numbers, 0 < x)
    (hsum : (values numbers).sum < 2 ^ 63) (hnodup : indices.Nodup) (h : Picks numbers target indices) :
    Reach (values numbers) target.toInt := by
  have hreach : Reach (values numbers) (sumAt (values numbers) indices) :=
    reach_sumAt hnodup fun i hi => by rw [length_values]; exact h.inRange i hi
  have hnonneg := hreach.nonneg fun x hx => (hpos x hx).le
  have hle := hreach.le_sum fun x hx => (hpos x hx).le
  rw [← h.sum, Int64.toInt_ofInt_of_le (by omega) (by omega)]
  exact hreach

/-- The two halves. -/
theorem solves_mitm (hpos : ∀ x ∈ values numbers, 0 < x) (hsum : (values numbers).sum < 2 ^ 63) :
    Solves numbers target (solveSubsetSumMitm numbers target) := by
  have hsplit : numbers.take (numbers.length / 2) ++ numbers.drop (numbers.length / 2) = numbers :=
    List.take_append_drop _ _
  have hmid : (numbers.take (numbers.length / 2)).length = numbers.length / 2 := by
    rw [List.length_take]
    omega
  have hpicks : ∀ s, solveSubsetSumMitm numbers target = some s →
      ∃ indices, s = answer indices ∧ indices.Nodup ∧ Picks numbers target indices := by
    intro s hs
    obtain ⟨mask, -, hmask⟩ := List.exists_of_findSome?_eq_some hs
    obtain ⟨idx, hidx, rfl⟩ := Option.map_eq_some_iff.mp hmask
    obtain ⟨hnodup, hpick⟩ := picks_of_found hidx
    rw [hsplit, hmid] at hpick
    rw [hmid] at hnodup
    exact ⟨_, by rw [hmid], hnodup, hpick⟩
  refine ⟨⟨fun h => ?_, fun h => ?_⟩, fun s hs => ?_⟩
  · obtain ⟨s, hs⟩ := Option.isSome_iff_exists.mp h
    obtain ⟨indices, -, hnodup, hpick⟩ := hpicks s hs
    exact reach_of_picks hpos hsum hnodup hpick
  · rw [← hsplit] at h
    obtain ⟨mask, hmask, idx, hidx⟩ := exists_found h
    refine List.findSome?_isSome_iff.mpr ⟨mask, List.mem_range.mpr hmask, ?_⟩
    dsimp only
    rw [hidx]
    rfl
  · obtain ⟨indices, hanswer, -, hpick⟩ := hpicks s hs
    exact ⟨indices, hanswer, hpick⟩

end Mitm

/-! ### The tries -/

section Tries

variable {R : StdRng} {numbers : List Int64} {target : Int64}

theorem sumOf_eq (indices : List ℕ) :
    sumOf numbers indices = Int64.ofInt (sumAt (values numbers) indices) := by
  have hentries : values (indices.map (numbers.getD · 0)) = indices.map fun i => (values numbers).getD i 0 := by
    rw [values, List.map_map]
    exact List.map_congr_left fun i _ => (getD_values numbers i).symm
  rw [sumOf, sumI64_eq, hentries, ← sumAt]

/-- A try that answers has picked the target. -/
theorem picks_of_tryParts (hshuffle : Shuffles R) (tries : ℕ) (rng : R.State) {s : Solution}
    (h : tryParts R numbers target tries rng = some s) :
    ∃ indices, s = answer indices ∧ indices.Nodup ∧ Picks numbers target indices := by
  induction tries generalizing rng with
  | zero => cases h
  | succ tries ih =>
    rw [tryParts] at h
    split_ifs at h with hsum
    · have hperm := hshuffle (List.range numbers.length)
        (R.randomRange .usize 1 (numbers.length + 1) rng).2
      have hsub : (drawPart R numbers rng).1.Sublist
          (R.shuffle (List.range numbers.length) (R.randomRange .usize 1 (numbers.length + 1) rng).2).1 :=
        List.take_sublist _ _
      have hsorted := List.mergeSort_perm (drawPart R numbers rng).1 (fun a b => decide (a ≤ b))
      refine ⟨_, (Option.some.inj h).symm, ?_, ?_, ?_⟩
      · exact hsorted.nodup_iff.mpr (hsub.nodup (hperm.nodup_iff.mpr List.nodup_range))
      · intro i hi
        exact List.mem_range.mp (hperm.mem_iff.mp (hsub.subset (hsorted.mem_iff.mp hi)))
      · rw [sumAt_perm hsorted, ← sumOf_eq, hsum]
    · exact ih _ h

/-- The sums of the parts that are tried, whatever the target. -/
def triedSums (R : StdRng) (numbers : List Int64) : ℕ → R.State → List Int64
  | 0, _ => []
  | tries + 1, rng =>
    sumOf numbers (drawPart R numbers rng).1 :: triedSums R numbers tries (drawPart R numbers rng).2

theorem length_triedSums (tries : ℕ) (rng : R.State) : (triedSums R numbers tries rng).length = tries := by
  induction tries generalizing rng with
  | zero => rfl
  | succ tries ih => exact congrArg (· + 1) (ih _)

theorem mem_triedSums (tries : ℕ) (rng : R.State) (h : (tryParts R numbers target tries rng).isSome = true) :
    target ∈ triedSums R numbers tries rng := by
  induction tries generalizing rng with
  | zero => cases h
  | succ tries ih =>
    rw [tryParts] at h
    split_ifs at h with hsum
    · exact List.mem_cons.mpr (.inl hsum.symm)
    · exact List.mem_cons_of_mem _ (ih _ h)

end Tries

/-! ### The solver -/

/-- One of the three exact solvers is taken. -/
def Exact (numbers : List Int64) : Prop :=
  ((numbers.length : ℤ) + 1) * (2 * (values numbers).sum + 1) ≤ 8000000 ∨ (values numbers).sum ≤ 200000 ∨
    numbers.length ≤ 44

theorem length_le_sum {numbers : List Int64} (hpos : ∀ x ∈ values numbers, 0 < x) :
    (numbers.length : ℤ) ≤ (values numbers).sum := by
  have hle := List.card_nsmul_le_sum (values numbers) 1 fun x hx => hpos x hx
  rwa [length_values, nsmul_one] at hle

section Solver

variable {R : StdRng} {numbers : List Int64} {target : Int64}

theorem toInt_sumI64 (hpos : ∀ x ∈ values numbers, 0 < x) (hsum : (values numbers).sum < 2 ^ 63) :
    (sumI64 numbers).toInt = (values numbers).sum := by
  have hnonneg : 0 ≤ (values numbers).sum := List.sum_nonneg fun x hx => (hpos x hx).le
  rw [sumI64_eq, Int64.toInt_ofInt_of_le (by omega) (by omega)]

/-- A target above all sums is refused. -/
theorem solveSubsetSum_of_lt (hlt : (sumI64 numbers).toInt < target.toInt) :
    solveSubsetSum R numbers target = none :=
  if_pos (.inl (Int64.lt_iff_toInt_lt.mpr hlt))

/-- The choice for a target in between. -/
theorem solveSubsetSum_eq (hpos : ∀ x ∈ values numbers, 0 < x) (hsum : (values numbers).sum < 2 ^ 63)
    (htarget : 0 < target.toInt) (hle : target.toInt ≤ (values numbers).sum) :
    solveSubsetSum R numbers target =
      if ((numbers.length : ℤ) + 1) * (2 * (values numbers).sum + 1) ≤ 8000000 then
        solveSubsetSumDp numbers target (values numbers).sum.toNat (2 * (values numbers).sum.toNat + 1)
      else if (values numbers).sum ≤ 200000 then solveSubsetSum1dDp numbers target
      else if numbers.length ≤ 44 then solveSubsetSumMitm numbers target
      else solveSubsetSumHeuristic R numbers target := by
  have htotal := toInt_sumI64 hpos hsum
  have hne : ¬ target = 0 := by
    rintro rfl
    exact absurd htarget (by decide)
  have hin : ¬ (sumI64 numbers < target ∨ target < 0) := by
    have hzero : (0 : Int64).toInt = 0 := rfl
    rw [Int64.lt_iff_toInt_lt, Int64.lt_iff_toInt_lt]
    omega
  have hnat : (values numbers).sum.natAbs = (values numbers).sum.toNat := by omega
  obtain ⟨total, hcast⟩ := Int.eq_ofNat_of_zero_le (show 0 ≤ (values numbers).sum by omega)
  have hcells : min ((numbers.length + 1) * (2 * total + 1)) (2 ^ 64 - 1) ≤ SUBSET_SUM_DP_MAX_CELLS ↔
      ((numbers.length : ℤ) + 1) * (2 * (total : ℤ) + 1) ≤ 8000000 := by
    rw [min_le_iff, or_iff_left (by decide), SUBSET_SUM_DP_MAX_CELLS]
    exact_mod_cast Iff.rfl
  have hline : total ≤ SUBSET_SUM_1D_MAX_SUM ↔ (total : ℤ) ≤ 200000 := by
    rw [SUBSET_SUM_1D_MAX_SUM]
    omega
  rw [solveSubsetSum]
  dsimp only
  rw [if_neg hin, if_neg hne, htotal, hnat, hcast, Int.toNat_natCast]
  simp only [hcells, hline]
  rfl

theorem solves_of_exact (hpos : ∀ x ∈ values numbers, 0 < x) (hsum : (values numbers).sum < 2 ^ 63)
    (htarget : 0 < target.toInt) (hexact : Exact numbers) :
    Solves numbers target (solveSubsetSum R numbers target) := by
  have htotal := toInt_sumI64 hpos hsum
  rcases lt_or_ge (values numbers).sum target.toInt with hlt | hle
  · rw [solveSubsetSum_of_lt (by omega)]
    refine ⟨iff_of_false (by decide) fun hreach => ?_, fun s hs => by cases hs⟩
    have := hreach.le_sum fun x hx => (hpos x hx).le
    omega
  · rw [solveSubsetSum_eq hpos hsum htarget hle]
    split_ifs with hcells hline hhalves
    · exact solves_dp rfl hpos (by omega) htarget (by omega)
    · exact solves_1dDp hpos htarget (by omega)
    · exact solves_mitm hpos hsum
    · rcases hexact with h | h | h
      · exact absurd h hcells
      · exact absurd h hline
      · exact absurd h hhalves

/-- Whichever solver is taken, what it answers picks the target. -/
theorem picks_of_solveSubsetSum (hshuffle : Shuffles R) (hpos : ∀ x ∈ values numbers, 0 < x)
    (hsum : (values numbers).sum < 2 ^ 63) (htarget : 0 < target.toInt) {s : Solution}
    (h : solveSubsetSum R numbers target = some s) :
    Reach (values numbers) target.toInt ∧ ∃ indices, s = answer indices ∧ Picks numbers target indices := by
  by_cases hexact : Exact numbers
  · have hsolves := solves_of_exact (R := R) hpos hsum htarget hexact
    exact ⟨hsolves.isSome_iff.mp (by rw [h]; rfl), hsolves.picks s h⟩
  · rw [Exact, not_or, not_or] at hexact
    obtain ⟨hcells, hline, hhalves⟩ := hexact
    rcases lt_or_ge (values numbers).sum target.toInt with hlt | hle
    · have htotal := toInt_sumI64 hpos hsum
      rw [solveSubsetSum_of_lt (by omega)] at h
      cases h
    · rw [solveSubsetSum_eq hpos hsum htarget hle, if_neg hcells, if_neg hline, if_neg hhalves] at h
      obtain ⟨indices, hanswer, hnodup, hpick⟩ := picks_of_tryParts hshuffle _ _ h
      exact ⟨reach_of_picks hpos hsum hnodup hpick, indices, hanswer, hpick⟩

end Solver

/-- For positive numbers whose sum is an `i64` and a positive target, whatever the solver returns the verifier
accepts and shows that a part of the numbers sums to the target; and where one of the three exact solvers is
taken, it returns something for each such target. -/
theorem solveSubsetSum_correct (R : StdRng) (hshuffle : Shuffles R) (numbers : List Int64) (target : Int64)
    (hpos : ∀ x ∈ numbers, 0 < x) (hsum : (values numbers).sum < 2 ^ 63) (htarget : 0 < target) :
    (Exact numbers →
      ((solveSubsetSum R numbers target).isSome = true ↔ Reach (values numbers) target.toInt)) ∧
    ∀ s, solveSubsetSum R numbers target = some s →
      Reach (values numbers) target.toInt ∧ s.verify (.SubsetSum numbers target) = true := by
  have hpos' : ∀ x ∈ values numbers, 0 < x := by
    intro x hx
    obtain ⟨num, hnum, rfl⟩ := List.mem_map.mp hx
    exact Int64.lt_iff_toInt_lt.mp (hpos num hnum)
  have htarget' : 0 < target.toInt := Int64.lt_iff_toInt_lt.mp htarget
  refine ⟨fun hexact => (solves_of_exact hpos' hsum htarget' hexact).isSome_iff, fun s hs => ?_⟩
  obtain ⟨hreach, indices, rfl, hpick⟩ := picks_of_solveSubsetSum hshuffle hpos' hsum htarget' hs
  have hlen := length_le_sum hpos'
  exact ⟨hreach, hpick.verify (by omega)⟩

/-- A generator that leaves lists as they are. -/
def lazyRng : StdRng where
  State := UInt64
  seedFromU64 seed := seed
  randomRange _ lo _ rng := (lo, rng)
  shuffle xs rng := (xs, rng)
  randomBool _ rng := (false, rng)

/-- Three numbers, for which the first table is taken. -/
theorem solveSubsetSum_correct_three : (solveSubsetSum lazyRng [3, 5, 8] 13).isSome = true :=
  ((solveSubsetSum_correct lazyRng (fun xs _ => List.Perm.refl xs) [3, 5, 8] 13 (by simp) (by decide)
    (by decide)).1 (.inl (by decide))).mpr ⟨[5, 8], by decide, by decide⟩

/-! ### More sums than tries -/

section Powers

/-- `1, 2, 4, …, 2 ^ 44`. -/
def powers : List Int64 := (List.range 45).map fun i => Int64.ofNat (2 ^ i)

theorem reach_powers (n t : ℕ) (h : t < 2 ^ n) : Reach ((List.range n).map fun i => (2 ^ i : ℤ)) t := by
  induction n generalizing t with
  | zero =>
    obtain rfl : t = 0 := by omega
    exact Reach.zero _
  | succ n ih =>
    rw [List.range_succ, List.map_append]
    refine reach_concat.mpr ?_
    rcases Nat.lt_or_ge t (2 ^ n) with hlt | hge
    · exact .inl (ih t hlt)
    · right
      have hrest := ih (t - 2 ^ n) (by rw [Nat.pow_succ] at h; omega)
      rwa [Nat.cast_sub hge, Nat.cast_pow] at hrest

theorem values_powers : values powers = (List.range 45).map fun i => (2 ^ i : ℤ) := by decide

/-- For the powers the solver tries parts at random. -/
theorem solveSubsetSum_powers (R : StdRng) {target : Int64} (htarget : 0 < target.toInt)
    (hle : target.toInt ≤ 2 ^ 45 - 1) :
    solveSubsetSum R powers target = solveSubsetSumHeuristic R powers target := by
  have hsum : (values powers).sum = 2 ^ 45 - 1 := by decide
  rw [solveSubsetSum_eq (by decide) (by decide) htarget (by rw [hsum]; exact hle), hsum, if_neg (by decide),
    if_neg (by decide), if_neg (by decide)]

/-- `1, 2, …, n` as targets. -/
def firstTargets (n : ℕ) : List Int64 := (List.range n).map fun (t : ℕ) => Int64.ofInt (t + 1)

theorem toInt_firstTarget {n t : ℕ} (hn : n < 2 ^ 45) (ht : t ∈ List.range n) :
    (Int64.ofInt ((t : ℤ) + 1)).toInt = (t : ℤ) + 1 := by
  have hlt := List.mem_range.mp ht
  exact Int64.toInt_ofInt_of_le (by omega) (by omega)

theorem nodup_firstTargets {n : ℕ} (hn : n < 2 ^ 45) : (firstTargets n).Nodup := by
  refine List.nodup_range.map_on fun a ha b hb hab => ?_
  have hab := congrArg Int64.toInt hab
  rw [toInt_firstTarget hn ha, toInt_firstTarget hn hb] at hab
  omega

/-- With no generator does the solver find an answer for each target that is reached: of 45 powers of two the
parts have more sums than are tried. -/
theorem no_generator_finds_all : ¬ ∃ R : StdRng, ∀ (numbers : List Int64) (target : Int64),
    (∀ x ∈ numbers, 0 < x) → (values numbers).sum < 2 ^ 63 → 0 < target →
      ((solveSubsetSum R numbers target).isSome = true ↔ Reach (values numbers) target.toInt) := by
  rintro ⟨R, hall⟩
  have htried : firstTargets 50001 ⊆ triedSums R powers 50000
      (R.seedFromU64 (powers.foldl (fun h x => h * 31 + UInt64.ofInt x.toInt) 0)) := by
    intro target htarget
    obtain ⟨t, ht, rfl⟩ := List.mem_map.mp htarget
    have hlt := List.mem_range.mp ht
    have hvalue := toInt_firstTarget (by decide) ht
    have hreach : Reach (values powers) (Int64.ofInt ((t : ℤ) + 1)).toInt := by
      rw [values_powers, hvalue]
      exact_mod_cast reach_powers 45 (t + 1) (by omega)
    have hsome := (hall powers _ (List.forall_mem_map.mpr (by decide)) (by decide)
      (Int64.lt_iff_toInt_lt.mpr (by rw [hvalue]; exact Int.natCast_succ_pos t))).mpr hreach
    rw [solveSubsetSum_powers R (by omega) (by omega)] at hsome
    exact mem_triedSums _ _ hsome
  have hlength := ((nodup_firstTargets (by decide)).subperm htried).length_le
  rw [firstTargets, List.length_map, List.length_range, length_triedSums] at hlength
  omega

end Powers

end Coinjecture.Consensus.SubsetSumSolver
