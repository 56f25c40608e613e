import Coinjecture.Core.Privacy
import Coinjecture.Lib.Effect
import Coinjecture.Lib.Table

/-! # The problem marketplace

Listings with a bounty, the index by submitter, and the table of escrowed bounties. A listing is
submitted once, then solved, expired or cancelled; its bounty leaves the escrow table when it is
claimed or the listing is cancelled. An expired listing is marked as such by the failing
`submitSolution` that finds it expired: that call changes the store and reports an error. -/

namespace Coinjecture.State.Marketplace

open Lib.Effect Lib.Table Lib.Float64 Lib.Bincode
open Core.Types Core.Problem Core.Extern
open Core.Crypto Core.Privacy

inductive ProblemStatus where
  | Open | Solved | Expired | Cancelled
  deriving DecidableEq

structure ProblemSubmission where
  problemId : Hash
  submissionMode : SubmissionMode
  problemReveal : Option ProblemReveal
  submitter : Address
  bounty : Balance
  minWorkScore : F64
  submittedAt : Int64
  expiresAt : Int64
  status : ProblemStatus
  solution : Option Solution
  solver : Option Address
  title : Option String
  briefing : Option String
  deriving DecidableEq

/-- `MarketplaceState`: problems, index by submitter, escrowed bounties. -/
@[ext] structure MarketplaceState where
  problems : Keyed ProblemSubmission.problemId
  index : Bytes32 → Option Hash
  escrow : Hash → Option Balance

/-- The problem a solution is checked against, if it is public or revealed. -/
def ProblemSubmission.knownProblem (p : ProblemSubmission) : Option ProblemType :=
  match p.submissionMode with
  | .Public problem => some problem
  | .Private .. => p.problemReveal.map ProblemReveal.problem

namespace MarketplaceState

variable (ext : Ext)

abbrev getProblem (problemId : Hash) (s : MarketplaceState) : Option ProblemSubmission :=
  s.problems.get problemId

/-- `MarketplaceState::update_problem`. -/
def updateProblem (submission : ProblemSubmission) (s : MarketplaceState) : MarketplaceState :=
  { s with problems := s.problems.insert submission }

/-- `make_index_key`: the first 16 bytes of the address, then the first 16 of the problem id. -/
def makeIndexKey (address : Address) (problemId : Hash) : Bytes32 :=
  address.bytes.extractLsb' 128 128 ++ problemId.bytes.extractLsb' 128 128

/-- The checks of `submit_problem` that depend on the mode. -/
def checkMode (mode : SubmissionMode) (minWorkScore : F64) : Exec Failure MarketplaceState Unit :=
  match mode with
  | .Public _ => pure ()
  | .Private problemCommitment zkWellformedProof publicParams => do
    rejectIf (!WellformednessProof.verify ext zkWellformedProof problemCommitment publicParams)
      "Invalid proof"
    rejectIf (publicParams.complexityEstimate.lt minWorkScore) "Invalid parameters"

/-- The id `submit_problem` gives a listing. -/
def problemIdOf : SubmissionMode → Hash
  | .Public problem => ProblemType.hash ext problem
  | .Private problemCommitment _ _ => problemCommitment

/-- The record `submit_problem` stores. -/
def newSubmission (now : Int64) (mode : SubmissionMode) (submitter : Address) (bounty : Balance)
    (minWorkScore : F64) (expirationDays : UInt64) (title briefing : Option String) :
    ProblemSubmission where
  problemId := problemIdOf ext mode
  submissionMode := mode
  problemReveal := none
  submitter := submitter
  bounty := bounty
  minWorkScore := minWorkScore
  submittedAt := now
  expiresAt := now + expirationDays.toInt64 * 86400
  status := .Open
  solution := none
  solver := none
  title := title
  briefing := briefing

/-- The writes of `submit_problem`: one database transaction. -/
def storeSubmission (submission : ProblemSubmission) (s : MarketplaceState) : MarketplaceState where
  problems := s.problems.insert submission
  index := Function.update s.index (makeIndexKey submission.submitter submission.problemId)
    (some submission.problemId)
  escrow := Function.update s.escrow submission.problemId (some submission.bounty)

/-- `MarketplaceState::submit_problem`. -/
def submitProblem (now : Int64) (mode : SubmissionMode) (submitter : Address) (bounty : Balance)
    (minWorkScore : F64) (expirationDays : UInt64) (title briefing : Option String) :
    Exec Failure MarketplaceState Hash := do
  checkMode ext mode minWorkScore
  rejectIf (← gets (getProblem (problemIdOf ext mode))).isSome "Duplicate problem"
  modify (storeSubmission
    (newSubmission ext now mode submitter bounty minWorkScore expirationDays title briefing))
  pure (problemIdOf ext mode)

/-- `MarketplaceState::submit_solution`. A panic is one of `Solution.quality`. -/
def submitSolution (now : Int64) (problemId : Hash) (solver : Address) (solution : Solution) :
    Exec Failure MarketplaceState Unit := do
  let submission ← okOr (.err "Problem not found") (← gets (getProblem problemId))
  rejectIf (submission.status ≠ .Open) "Problem is not open"
  if submission.expiresAt < now then
    modify (updateProblem { submission with status := .Expired })
    bail "Problem expired"
  else
    let problem ← okOr (.err "Problem not revealed yet") submission.knownProblem
    rejectIf (!solution.verify problem) "Invalid solution"
    let quality ← okOr .panic (solution.quality problem)
    let workScoreEstimate := quality.mul ⟨0x4059000000000000⟩
    rejectIf (workScoreEstimate.lt submission.minWorkScore) "Insufficient work score"
    modify (updateProblem { submission with
      solution := some solution
      solver := some solver
      status := .Solved })

/-- `MarketplaceState::reveal_problem`. -/
def revealProblem (problemId : Hash) (reveal : ProblemReveal) :
    Exec Failure MarketplaceState Unit := do
  let submission ← okOr (.err "Problem not found") (← gets (getProblem problemId))
  match submission.submissionMode with
  | .Public _ => bail "Not a private submission"
  | .Private problemCommitment _ _ => do
    rejectIf (!reveal.verify ext problemCommitment) "Reveal does not match commitment"
    modify (updateProblem { submission with problemReveal := some reveal })

/-- Remove an escrowed bounty. -/
def removeEscrow (problemId : Hash) (s : MarketplaceState) : MarketplaceState :=
  { s with escrow := Function.update s.escrow problemId none }

/-- `MarketplaceState::claim_bounty`. Without a bounty the write transaction is dropped. -/
def claimBounty (problemId : Hash) : Exec Failure MarketplaceState (Address × Balance) := do
  let submission ← okOr (.err "Problem not found") (← gets (getProblem problemId))
  rejectIf (submission.status ≠ .Solved) "Problem not solved"
  let solver ← okOr (.err "No solver assigned") submission.solver
  let bounty ← okOr (.err "Bounty not found") (← gets fun s => s.escrow problemId)
  modify (removeEscrow problemId)
  pure (solver, bounty)

/-- `MarketplaceState::cancel_problem`. -/
def cancelProblem (problemId : Hash) (requester : Address) :
    Exec Failure MarketplaceState Balance := do
  let submission ← okOr (.err "Problem not found") (← gets (getProblem problemId))
  rejectIf (submission.submitter ≠ requester) "Unauthorized"
  rejectIf (submission.status ≠ .Open) "Cannot cancel problem"
  let bounty ← okOr (.err "Bounty not found") (← gets fun s => s.escrow problemId)
  modify (removeEscrow problemId)
  modify (updateProblem { submission with status := .Cancelled })
  pure bounty

/-! ### What the operations do -/

theorem submitProblem_guarded (now : Int64) (problem : ProblemType) (submitter : Address)
    (bounty : Balance) (minWorkScore : F64) (expirationDays : UInt64)
    (title briefing : Option String) (s : MarketplaceState) :
    Guarded (submitProblem ext now (.Public problem) submitter bounty minWorkScore expirationDays
        title briefing) s
      (s.problems.get (ProblemType.hash ext problem) = none)
      (ProblemType.hash ext problem, storeSubmission (newSubmission ext now (.Public problem)
        submitter bounty minWorkScore expirationDays title briefing) s) := by
  constructor <;> intro h
  · simp [submitProblem, checkMode, problemIdOf, getProblem, h]
  · rw [← ne_eq, Option.ne_none_iff_isSome] at h
    simp [submitProblem, checkMode, problemIdOf, getProblem, h]

/-- What `submit_problem` asks of a mode. -/
def modeAdmitted (mode : SubmissionMode) (minWorkScore : F64) : Bool :=
  match mode with
  | .Public _ => true
  | .Private problemCommitment zkWellformedProof publicParams =>
    WellformednessProof.verify ext zkWellformedProof problemCommitment publicParams &&
      !publicParams.complexityEstimate.lt minWorkScore

theorem submitProblem_guarded_mode (now : Int64) (mode : SubmissionMode) (submitter : Address)
    (bounty : Balance) (minWorkScore : F64) (expirationDays : UInt64)
    (title briefing : Option String) (s : MarketplaceState) :
    Guarded (submitProblem ext now mode submitter bounty minWorkScore expirationDays title briefing) s
      (modeAdmitted ext mode minWorkScore = true ∧ s.problems.get (problemIdOf ext mode) = none)
      (problemIdOf ext mode, storeSubmission (newSubmission ext now mode submitter bounty minWorkScore
        expirationDays title briefing) s) := by
  cases mode with
  | Public problem =>
    have hpublic := submitProblem_guarded ext now problem submitter bounty minWorkScore
      expirationDays title briefing s
    exact ⟨fun h => hpublic.ok h.2, fun h => hpublic.refused fun hget => h ⟨rfl, hget⟩⟩
  | Private problemCommitment zkWellformedProof publicParams =>
    by_cases hverify : zkWellformedProof.verify ext problemCommitment publicParams = true
    swap
    · constructor <;> intro h
      · simp only [modeAdmitted, hverify, Bool.false_and, Bool.false_eq_true, false_and] at h
      · simp [submitProblem, checkMode, hverify]
    by_cases hscore : publicParams.complexityEstimate.lt minWorkScore = true
    · constructor <;> intro h
      · simp only [modeAdmitted, hscore, Bool.not_true, Bool.and_false, Bool.false_eq_true,
          false_and] at h
      · simp [submitProblem, checkMode, hverify, hscore]
    · constructor <;> intro h
      · simp [submitProblem, checkMode, hverify, hscore, getProblem, h.2]
      · have hget : s.problems.get problemCommitment ≠ none := fun hget =>
          h ⟨by simp only [modeAdmitted, hverify, hscore, Bool.not_false, Bool.and_self], hget⟩
        rw [Option.ne_none_iff_isSome] at hget
        simp [submitProblem, checkMode, hverify, hscore, getProblem, problemIdOf, hget]

/-- The listing a reveal is written to. -/
def revealable (problemId : Hash) (reveal : ProblemReveal) (s : MarketplaceState) :
    Option ProblemSubmission :=
  (s.problems.get problemId).filter fun submission =>
    match submission.submissionMode with
    | .Public _ => false
    | .Private problemCommitment _ _ => reveal.verify ext problemCommitment

theorem run_revealProblem (problemId : Hash) (reveal : ProblemReveal) (s : MarketplaceState) :
    match revealable ext problemId reveal s with
    | none => ∃ m, run (revealProblem ext problemId reveal) s = (.error (.err m), s)
    | some submission => run (revealProblem ext problemId reveal) s =
        (.ok (), s.updateProblem { submission with problemReveal := some reveal }) := by
  simp only [revealProblem, getProblem, run_gets_bind, revealable]
  rcases s.problems.get problemId with _ | submission
  · exact ⟨_, run_okOr_none_bind ..⟩
  simp only [run_okOr_some_bind]
  rcases hmode : submission.submissionMode with problem | ⟨problemCommitment, proof, params⟩
  · rw [Option.filter_some_neg (by rw [hmode])]
    exact ⟨_, rfl⟩
  simp only [run_rejectIf_bind]
  by_cases hverify : reveal.verify ext problemCommitment = true
  · rw [Option.filter_some_pos (by rw [hmode]; exact hverify)]
    simp only [hverify, hmode, Bool.not_true, Bool.false_eq_true, if_false, run_modify]
  · rw [Option.filter_some_neg (by rw [hmode]; exact Bool.eq_false_iff.mpr hverify)]
    simp only [hverify, Bool.not_false, if_true]
    exact ⟨_, rfl⟩

/-- How `submitSolution` ends. -/
inductive SolutionVerdict where
  | refused
  | expired (submission : ProblemSubmission)
  | panics
  | solved (submission : ProblemSubmission)

/-- The checks of `submitSolution`, in order. -/
def solutionVerdict (now : Int64) (problemId : Hash) (solution : Solution) (s : MarketplaceState) :
    SolutionVerdict :=
  match s.problems.get problemId with
  | none => .refused
  | some submission =>
    if submission.status ≠ .Open then .refused
    else if submission.expiresAt < now then .expired submission
    else match submission.knownProblem with
      | none => .refused
      | some problem =>
        if !solution.verify problem then .refused
        else match solution.quality problem with
          | none => .panics
          | some quality =>
            if (quality.mul ⟨0x4059000000000000⟩).lt submission.minWorkScore then .refused
            else .solved submission

/-- The listing after it was solved. -/
def solvedBy (solver : Address) (solution : Solution) (submission : ProblemSubmission) :
    ProblemSubmission :=
  { submission with solution := some solution, solver := some solver, status := .Solved }

theorem run_submitSolution (now : Int64) (problemId : Hash) (solver : Address)
    (solution : Solution) (s : MarketplaceState) :
    match solutionVerdict now problemId solution s with
    | .refused => ∃ m, run (submitSolution now problemId solver solution) s = (.error (.err m), s)
    | .expired submission => run (submitSolution now problemId solver solution) s =
        (.error (.err "Problem expired"), s.updateProblem { submission with status := .Expired })
    | .panics => run (submitSolution now problemId solver solution) s = (.error .panic, s)
    | .solved submission => run (submitSolution now problemId solver solution) s =
        (.ok (), s.updateProblem (solvedBy solver solution submission)) := by
  simp only [submitSolution, getProblem, run_gets_bind, solutionVerdict]
  rcases s.problems.get problemId with _ | submission
  · exact ⟨_, run_okOr_none_bind ..⟩
  simp only [run_okOr_some_bind, run_rejectIf_bind, run_ite, run_modify_bind, run_bail]
  by_cases h1 : submission.status = .Open
  swap
  · simp only [ne_eq, h1, not_false_eq_true, if_true]
    exact ⟨_, rfl⟩
  simp only [ne_eq, h1, not_true_eq_false, if_false]
  by_cases h2 : submission.expiresAt < now
  · simp only [h2, if_true]
  simp only [h2, if_false]
  rcases submission.knownProblem with _ | problem
  · exact ⟨_, run_okOr_none_bind ..⟩
  simp only [run_okOr_some_bind, run_rejectIf_bind]
  by_cases h3 : solution.verify problem = true
  swap
  · simp only [h3, Bool.not_false, if_true]
    exact ⟨_, rfl⟩
  simp only [h3, Bool.not_true, Bool.false_eq_true, if_false]
  rcases solution.quality problem with _ | quality
  · exact run_okOr_none_bind ..
  simp only [run_okOr_some_bind, run_rejectIf_bind, run_modify]
  by_cases h4 : (quality.mul ⟨0x4059000000000000⟩).lt submission.minWorkScore = true
  · simp only [h4, if_true]
    exact ⟨_, rfl⟩
  · simp only [h4, Bool.false_eq_true, if_false, solvedBy]

/-- The solver and the bounty `claimBounty` returns, if it does. -/
def claimable (problemId : Hash) (s : MarketplaceState) : Option (Address × Balance) :=
  match s.problems.get problemId with
  | none => none
  | some submission =>
    if submission.status ≠ .Solved then none
    else match submission.solver, s.escrow problemId with
      | some solver, some bounty => some (solver, bounty)
      | _, _ => none

theorem escrow_of_claimable {problemId : Hash} {s : MarketplaceState} {solver : Address}
    {bounty : Balance} (h : claimable problemId s = some (solver, bounty)) :
    s.escrow problemId = some bounty := by
  unfold claimable at h
  split at h
  · cases h
  split_ifs at h
  split at h
  · rename_i b hb
    cases h
    exact hb
  · cases h

theorem run_claimBounty (problemId : Hash) (s : MarketplaceState) :
    match claimable problemId s with
    | none => ∃ m, run (claimBounty problemId) s = (.error (.err m), s)
    | some r => run (claimBounty problemId) s = (.ok r, s.removeEscrow problemId) := by
  simp only [claimBounty, getProblem, run_gets_bind, claimable]
  rcases s.problems.get problemId with _ | submission
  · exact ⟨_, run_okOr_none_bind ..⟩
  simp only [run_okOr_some_bind, run_rejectIf_bind]
  by_cases h1 : submission.status = .Solved
  swap
  · simp only [ne_eq, h1, not_false_eq_true, if_true]
    exact ⟨_, rfl⟩
  simp only [ne_eq, h1, not_true_eq_false, if_false]
  rcases submission.solver with _ | solver
  · exact ⟨_, run_okOr_none_bind ..⟩
  simp only [run_okOr_some_bind, run_gets_bind]
  rcases s.escrow problemId with _ | bounty
  · exact ⟨_, run_okOr_none_bind ..⟩
  · rfl

/-- A listing that is solved or found expired is stored and open. -/
theorem open_of_verdict {now : Int64} {problemId : Hash} {solution : Solution} {s : MarketplaceState}
    {submission : ProblemSubmission}
    (h : solutionVerdict now problemId solution s = .solved submission ∨
      solutionVerdict now problemId solution s = .expired submission) :
    s.problems.get problemId = some submission ∧ submission.status = .Open := by
  unfold solutionVerdict at h
  split at h
  · simp at h
  · rename_i stored hget
    suffices stored = submission ∧ stored.status = .Open by
      rw [hget, this.1]
      exact ⟨rfl, this.1 ▸ this.2⟩
    split_ifs at h with hopen hexpired
    · simp at h
    · simp only [SolutionVerdict.expired.injEq, false_or] at h
      exact ⟨h, not_not.mp hopen⟩
    · split at h
      · simp at h
      split_ifs at h
      · simp at h
      split at h
      · simp at h
      split_ifs at h
      · simp at h
      · simp only [SolutionVerdict.solved.injEq, or_false] at h
        exact ⟨h, not_not.mp hopen⟩

/-- Writing a listing with another status changes the store. -/
theorem updateProblem_ne_self {problemId : Hash} {s : MarketplaceState}
    {stored : ProblemSubmission} (submission : ProblemSubmission)
    (hget : s.problems.get problemId = some stored)
    (hid : submission.problemId = stored.problemId) (hstatus : submission.status ≠ stored.status) :
    s.updateProblem submission ≠ s := by
  intro h
  have hins : s.problems.insert submission = s.problems := congrArg MarketplaceState.problems h
  rw [Keyed.insert_eq_self, hid, s.problems.keyed hget, hget] at hins
  cases hins
  exact hstatus rfl

/-- Whoever solved a listing may claim what is escrowed for it. -/
theorem claimable_solvedBy {problemId : Hash} {solver : Address} {solution : Solution}
    {s : MarketplaceState} {submission : ProblemSubmission}
    (h : s.problems.get problemId = some submission) :
    claimable problemId (s.updateProblem (solvedBy solver solution submission)) =
      (s.escrow problemId).map fun bounty => (solver, bounty) := by
  have hget : (s.updateProblem (solvedBy solver solution submission)).problems.get problemId =
      some (solvedBy solver solution submission) := Keyed.get_insert_of_get h rfl
  simp only [claimable, hget]
  simp only [solvedBy, updateProblem, ne_eq, not_true_eq_false, if_false]
  rcases s.escrow problemId with _ | bounty
  · rfl
  · rfl

/-- The listing and the bounty of a successful `cancelProblem`. -/
def cancellable (problemId : Hash) (requester : Address) (s : MarketplaceState) :
    Option (ProblemSubmission × Balance) :=
  match s.problems.get problemId with
  | none => none
  | some submission =>
    if submission.submitter ≠ requester then none
    else if submission.status ≠ .Open then none
    else (s.escrow problemId).map fun bounty => (submission, bounty)

theorem escrow_of_cancellable {problemId : Hash} {requester : Address} {s : MarketplaceState}
    {submission : ProblemSubmission} {bounty : Balance}
    (h : cancellable problemId requester s = some (submission, bounty)) :
    s.escrow problemId = some bounty := by
  unfold cancellable at h
  split at h
  · cases h
  split_ifs at h
  obtain ⟨b, hb, heq⟩ := Option.map_eq_some_iff.mp h
  cases heq
  exact hb

theorem run_cancelProblem (problemId : Hash) (requester : Address) (s : MarketplaceState) :
    match cancellable problemId requester s with
    | none => ∃ m, run (cancelProblem problemId requester) s = (.error (.err m), s)
    | some r => run (cancelProblem problemId requester) s =
        (.ok r.2, (s.removeEscrow problemId).updateProblem { r.1 with status := .Cancelled }) := by
  simp only [cancelProblem, getProblem, run_gets_bind, cancellable]
  rcases s.problems.get problemId with _ | submission
  · exact ⟨_, run_okOr_none_bind ..⟩
  simp only [run_okOr_some_bind, run_rejectIf_bind]
  by_cases h1 : submission.submitter = requester
  swap
  · simp only [ne_eq, h1, not_false_eq_true, if_true]
    exact ⟨_, rfl⟩
  by_cases h2 : submission.status = .Open
  swap
  · simp only [ne_eq, h1, h2, not_true_eq_false, not_false_eq_true, if_true, if_false]
    exact ⟨_, rfl⟩
  simp only [ne_eq, h1, h2, not_true_eq_false, if_false, run_gets_bind]
  rcases s.escrow problemId with _ | bounty
  · exact ⟨_, run_okOr_none_bind ..⟩
  · simp only [run_okOr_some_bind, run_modify_bind, run_pure, Option.map_some, h1]

end MarketplaceState

end Coinjecture.State.Marketplace
