import Coinjecture.Consensus.Difficulty

/-! # The problem of a block

`generate_problem` seeds a generator with the parent's hash and the height and draws a problem from
it. How large the problem is says the miner's own difficulty adjuster (`sizeFor`). -/

namespace Coinjecture.Consensus.Miner

open Lib.Bincode Lib.Float64
open Core.Types Core.Problem
open Consensus.Difficulty Consensus.Difficulty.DifficultyAdjuster

/-- The integer types that numbers are drawn in. -/
inductive IntTy where
  | i32
  | i64
  | u64
  | usize

/-- `StdRng`. -/
structure StdRng where
  State : Type
  seedFromU64 : UInt64 → State
  /-- `random_range(lo..hi)`. -/
  randomRange : IntTy → ℕ → ℕ → State → ℕ × State
  shuffle : List ℕ → State → List ℕ × State
  /-- `random_bool(p)`. -/
  randomBool : F64 → State → Bool × State

/-- `SliceRandom::shuffle` permutes. -/
def Shuffles (R : StdRng) : Prop := ∀ xs rng, (R.shuffle xs rng).1.Perm xs

/-- `u64::from_le_bytes`. -/
def fromLeBytes (bytes : Bytes) : UInt64 :=
  UInt64.ofNat (bytes.foldr (fun b acc => b.toNat + 256 * acc) 0)

/-- The seed: of the parent's hash only the first eight bytes count. -/
def seed (blockHeight : UInt64) (prevHash : Hash) : UInt64 :=
  let heightBytes := (List.range 8).map fun i =>
    ((blockHeight >>> UInt64.ofNat (i * 8)) &&& 0xFF).toUInt8
  let seedBytes := (prevHash.asBytes.take 8).zipWith (· ^^^ ·) heightBytes ++
    prevHash.asBytes.drop 8
  fromLeBytes (seedBytes.take 8)

section Draw

variable (R : StdRng)

abbrev Draw (α : Type) := StateM R.State α

def randomRange (ty : IntTy) (lo hi : ℕ) : Draw R ℕ := R.randomRange ty lo hi

def shuffle (xs : List ℕ) : Draw R (List ℕ) := R.shuffle xs

def randomBool (p : F64) : Draw R Bool := R.randomBool p

/-- A subset sum with a solution: the target is the sum of some of the numbers. -/
def subsetSum (problemSize : Usize) : Draw R ProblemType := do
  let numbers ← (List.range problemSize.toNat).mapM fun _ => randomRange R .i64 1 1000
  let subsetSize ← randomRange R .usize 1 (max (min problemSize.toNat (problemSize - 1).toNat) 1 + 1)
  let selectedIndices ← shuffle R (List.range problemSize.toNat)
  let target := ((selectedIndices.take subsetSize).map fun i =>
    Int64.ofNat (numbers.getD i 0)).sum
  pure (.SubsetSum (numbers.map Int64.ofNat) target)

/-- A literal: with 70 % as the assignment has it. -/
def literal (satisfyingAssignment : List Bool) (varIdx : ℕ) : Draw R Int32 := do
  let var := Int32.ofNat varIdx + 1
  let assignmentValue := satisfyingAssignment.getD varIdx false
  let keeps ← randomBool R ⟨0x3FE6666666666666⟩
  pure (if keeps then if assignmentValue then var else -var
    else if assignmentValue then -var else var)

def clause (vars : Usize) (satisfyingAssignment : List Bool) : Draw R Clause := do
  let selectedVars ← shuffle R (List.range vars.toNat)
  let literals ← (selectedVars.take 3).mapM (literal R satisfyingAssignment)
  pure ⟨literals⟩

def sat (vars : Usize) : Draw R ProblemType := do
  let satisfyingAssignment ← (List.range vars.toNat).mapM fun _ => randomBool R ⟨0x3FE0000000000000⟩
  let clauses ← (List.range (vars * 3).toNat).mapM fun _ => clause R vars satisfyingAssignment
  pure (.SAT vars clauses)

/-- Distances above the diagonal are drawn row by row, and the others mirror them. -/
def tsp (cities : Usize) : Draw R ProblemType := do
  let upper ← (List.range cities.toNat).mapM fun i =>
    (List.range' (i + 1) (cities.toNat - (i + 1))).mapM fun _ => randomRange R .u64 1 100
  let dist (i j : ℕ) : UInt64 := UInt64.ofNat ((upper.getD i []).getD (j - (i + 1)) 0)
  pure (.TSP cities ((List.range cities.toNat).map fun i =>
    (List.range cities.toNat).map fun j =>
      if i < j then dist i j else if j < i then dist j i else 0))

/-- The kind that is drawn first. -/
def drawnName (n : ℕ) : ProblemName :=
  match n with
  | 0 => .SubsetSum
  | 1 => .SAT
  | _ => .TSP

/-- A problem of the kind and of the size. -/
def drawProblem (name : ProblemName) (size : Usize) : Draw R ProblemType :=
  match name with
  | .SubsetSum => subsetSum R size
  | .SAT => sat R size
  | .TSP => tsp R size

variable (powf : F64 → F64 → F64)

/-- `Miner::generate_problem`. -/
def generateProblem (adjuster : DifficultyAdjuster) (blockHeight : UInt64) (prevHash : Hash) :
    ProblemType :=
  let rng := R.seedFromU64 (seed blockHeight prevHash)
  let (n, rng) := randomRange R .i32 0 3 rng
  let name := drawnName n
  (drawProblem R name (adjuster.sizeFor powf name) rng).1

/-- The kind that is drawn for a height and a parent. -/
def kindAt (blockHeight : UInt64) (prevHash : Hash) : ProblemName :=
  drawnName (R.randomRange .i32 0 3 (R.seedFromU64 (seed blockHeight prevHash))).1

/-- The size of a problem. -/
def problemSize : ProblemType → ℕ
  | .SubsetSum numbers _ => numbers.length
  | .SAT vars _ => vars.toNat
  | .TSP cities _ => cities.toNat
  | .Custom .. => 0

variable {R powf}

theorem length_mapM {α β : Type} (f : α → Draw R β) (xs : List α) (rng : R.State) :
    (xs.mapM f rng).1.length = xs.length := by
  induction xs generalizing rng with
  | nil => rfl
  | cons x xs ih =>
    rw [List.mapM_cons]
    change (List.mapM f xs (f x rng).2).1.length + 1 = xs.length + 1
    rw [ih]

/-- A drawn problem has the size that was asked for. -/
theorem problemSize_drawProblem (name : ProblemName) (size : Usize) (rng : R.State) :
    problemSize (drawProblem R name size rng).1 = size.toNat := by
  cases name with
  | SubsetSum =>
    change (((List.range size.toNat).mapM (fun _ => randomRange R .i64 1 1000) rng).1.map
      Int64.ofNat).length = size.toNat
    rw [List.length_map, length_mapM, List.length_range]
  | SAT => rfl
  | TSP => rfl

theorem generateProblem_eq (a : DifficultyAdjuster) (blockHeight : UInt64) (prevHash : Hash) :
    generateProblem R powf a blockHeight prevHash =
      (drawProblem R (kindAt R blockHeight prevHash) (a.sizeFor powf (kindAt R blockHeight prevHash))
        (R.randomRange .i32 0 3 (R.seedFromU64 (seed blockHeight prevHash))).2).1 := rfl

/-- Two miners derive the same problem exactly if they ask for the same size of the kind drawn. -/
theorem generateProblem_eq_iff (a b : DifficultyAdjuster) (blockHeight : UInt64) (prevHash : Hash) :
    generateProblem R powf a blockHeight prevHash = generateProblem R powf b blockHeight prevHash ↔
      a.sizeFor powf (kindAt R blockHeight prevHash) =
        b.sizeFor powf (kindAt R blockHeight prevHash) := by
  rw [generateProblem_eq, generateProblem_eq]
  constructor
  · intro h
    have hsize := congrArg problemSize h
    rw [problemSize_drawProblem, problemSize_drawProblem] at hsize
    exact UInt64.toNat_inj.mp hsize
  · intro h
    rw [h]

end Draw

end Coinjecture.Consensus.Miner
