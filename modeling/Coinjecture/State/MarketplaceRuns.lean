import Coinjecture.Lib.Trace
import Coinjecture.State.Marketplace

/-! # Runs of marketplace operations

The marketplace under any sequence of calls, with a record of the bounties it took in and of those it
released. In every state the escrow table holds exactly the bounties taken in and not released. A
listing whose bounty is escrowed can be cancelled while it is open and claimed once it is solved; once
it is marked as expired there is no way left to release its bounty. -/

namespace Coinjecture.State.MarketplaceRuns

open Lib.Effect Lib.Table Lib.Trace Lib.Float64
open Lib.Bincode
open Core.Types Core.Problem Core.Extern Core.Privacy
open State.Marketplace State.Marketplace.MarketplaceState

/-- A call of an operation, with what the clock says where it is read. -/
inductive MarketOp where
  | submitProblem (now : Int64) (mode : SubmissionMode) (submitter : Address) (bounty : Balance)
      (minWorkScore : F64) (expirationDays : UInt64) (title briefing : Option String)
  | submitSolution (now : Int64) (problemId : Hash) (solver : Address) (solution : Solution)
  | revealProblem (problemId : Hash) (reveal : ProblemReveal)
  | claimBounty (problemId : Hash)
  | cancelProblem (problemId : Hash) (requester : Address)

/-- The marketplace, the bounties it took in and the bounties it paid or refunded. -/
structure Books where
  market : MarketplaceState
  taken : List (Hash × Balance)
  released : List (Hash × Balance)

def Books.empty : Books := ⟨⟨.empty, fun _ => none, fun _ => none⟩, [], []⟩

/-- A result as an entry of the books, if the call succeeded. -/
def entry {α : Type} (f : α → Hash × Balance) : Except Failure α → List (Hash × Balance)
  | .ok a => [f a]
  | .error _ => []

variable (ext : Ext)

def call (op : MarketOp) (b : Books) : Books :=
  match op with
  | .submitProblem now mode submitter bounty minWorkScore expirationDays title briefing =>
    let r := run (submitProblem ext now mode submitter bounty minWorkScore expirationDays title
      briefing) b.market
    ⟨r.2, b.taken ++ entry (fun problemId => (problemId, bounty)) r.1, b.released⟩
  | .submitSolution now problemId solver solution =>
    ⟨(run (submitSolution now problemId solver solution) b.market).2, b.taken, b.released⟩
  | .revealProblem problemId reveal =>
    ⟨(run (revealProblem ext problemId reveal) b.market).2, b.taken, b.released⟩
  | .claimBounty problemId =>
    let r := run (claimBounty problemId) b.market
    ⟨r.2, b.taken, b.released ++ entry (fun paid => (problemId, paid.2)) r.1⟩
  | .cancelProblem problemId requester =>
    let r := run (cancelProblem problemId requester) b.market
    ⟨r.2, b.taken, b.released ++ entry (fun bounty => (problemId, bounty)) r.1⟩

def market : Machine MarketOp Books where
  next := call ext
  halts _ _ := false

/-! ### What a call does -/

/-- The call is a solution for an open listing after its deadline. -/
def Expires (op : MarketOp) (b : Books) : Prop :=
  match op with
  | .submitSolution now problemId _ _ => ∃ p, b.market.problems.get problemId = some p ∧
      p.status = .Open ∧ p.expiresAt < now
  | _ => False

/-- How a listing may be rewritten: revealed, solved, or, if the call expires it, as expired. -/
inductive Rewritten (expires : Prop) (p : ProblemSubmission) : ProblemSubmission → Prop
  | revealed (reveal : ProblemReveal) : Rewritten expires p { p with problemReveal := some reveal }
  | expired (hexpires : expires) (hopen : p.status = .Open) :
      Rewritten expires p { p with status := .Expired }
  | solved (hopen : p.status = .Open) (solver : Address) (solution : Solution) :
      Rewritten expires p (solvedBy solver solution p)

/-- What a call does to the books. -/
inductive Does (expires : Prop) (b : Books) : Books → Prop
  | nothing : Does expires b b
  | submitted (p : ProblemSubmission) (hnew : b.market.problems.get p.problemId = none)
      (hopen : p.status = .Open) : Does expires b
        ⟨storeSubmission p b.market, b.taken ++ [(p.problemId, p.bounty)], b.released⟩
  | rewritten {p p' : ProblemSubmission} (hget : b.market.problems.get p.problemId = some p)
      (hp : Rewritten expires p p') : Does expires b ⟨b.market.updateProblem p', b.taken, b.released⟩
  | paid {p : ProblemSubmission} {bounty : Balance}
      (hget : b.market.problems.get p.problemId = some p) (hsolved : p.status = .Solved)
      (hescrow : b.market.escrow p.problemId = some bounty) : Does expires b
        ⟨b.market.removeEscrow p.problemId, b.taken, b.released ++ [(p.problemId, bounty)]⟩
  | refunded {p : ProblemSubmission} {bounty : Balance}
      (hget : b.market.problems.get p.problemId = some p) (hopen : p.status = .Open)
      (hescrow : b.market.escrow p.problemId = some bounty) : Does expires b
        ⟨(b.market.removeEscrow p.problemId).updateProblem { p with status := .Cancelled }, b.taken,
          b.released ++ [(p.problemId, bounty)]⟩

variable {ext} {expires : Prop}

theorem does_submitProblem (now : Int64) (mode : SubmissionMode) (submitter : Address)
    (bounty : Balance) (minWorkScore : F64) (expirationDays : UInt64)
    (title briefing : Option String) (b : Books) :
    Does expires b (call ext (.submitProblem now mode submitter bounty minWorkScore expirationDays
      title briefing) b) := by
  have hguarded := submitProblem_guarded_mode ext now mode submitter bounty minWorkScore
    expirationDays title briefing b.market
  by_cases h : modeAdmitted ext mode minWorkScore = true ∧
      b.market.problems.get (problemIdOf ext mode) = none
  · have hrun := hguarded.ok h
    simp only [call, hrun, entry]
    exact .submitted (newSubmission ext now mode submitter bounty minWorkScore expirationDays title
      briefing) h.2 rfl
  · obtain ⟨m, hrun⟩ := hguarded.refused h
    simp only [call, hrun, entry, List.append_nil]
    exact .nothing

theorem does_submitSolution (now : Int64) (problemId : Hash) (solver : Address)
    (solution : Solution) (b : Books) :
    Does (Expires (.submitSolution now problemId solver solution) b) b
      (call ext (.submitSolution now problemId solver solution) b) := by
  have hrun := run_submitSolution now problemId solver solution b.market
  rcases hverdict : solutionVerdict now problemId solution b.market with _ | p | _ | p
  · rw [hverdict] at hrun
    obtain ⟨m, hrun⟩ := hrun
    simp only [call, hrun]
    exact .nothing
  · rw [hverdict] at hrun
    obtain ⟨hget, hopen⟩ := open_of_verdict (.inr hverdict)
    have hdeadline : p.expiresAt < now := by
      simp only [solutionVerdict, hget, hopen, ne_eq, not_true_eq_false, if_false] at hverdict
      by_contra hnot
      rw [if_neg hnot] at hverdict
      split at hverdict
      · cases hverdict
      split_ifs at hverdict
      split at hverdict
      · cases hverdict
      split_ifs at hverdict
    simp only [call, hrun]
    refine .rewritten (p := p) ?_ (.expired ⟨p, hget, hopen, hdeadline⟩ hopen)
    rwa [b.market.problems.keyed hget]
  · rw [hverdict] at hrun
    simp only [call, hrun]
    exact .nothing
  · rw [hverdict] at hrun
    obtain ⟨hget, hopen⟩ := open_of_verdict (.inl hverdict)
    simp only [call, hrun]
    refine .rewritten (p := p) ?_ (.solved hopen solver solution)
    rwa [b.market.problems.keyed hget]

theorem does_revealProblem (problemId : Hash) (reveal : ProblemReveal) (b : Books) :
    Does expires b (call ext (.revealProblem problemId reveal) b) := by
  have hrun := run_revealProblem ext problemId reveal b.market
  rcases hrevealable : revealable ext problemId reveal b.market with _ | p
  · rw [hrevealable] at hrun
    obtain ⟨m, hrun⟩ := hrun
    simp only [call, hrun]
    exact .nothing
  · rw [hrevealable] at hrun
    have hget := (Option.filter_eq_some_iff.mp hrevealable).1
    simp only [call, hrun]
    refine .rewritten (p := p) ?_ (.revealed reveal)
    rwa [b.market.problems.keyed hget]

theorem does_claimBounty (problemId : Hash) (b : Books) :
    Does expires b (call ext (.claimBounty problemId) b) := by
  have hrun := run_claimBounty problemId b.market
  rcases hclaimable : claimable problemId b.market with _ | ⟨solver, bounty⟩
  · rw [hclaimable] at hrun
    obtain ⟨m, hrun⟩ := hrun
    simp only [call, hrun, entry, List.append_nil]
    exact .nothing
  · rw [hclaimable] at hrun
    have hescrow := escrow_of_claimable hclaimable
    unfold claimable at hclaimable
    rcases hget : b.market.problems.get problemId with _ | p
    · rw [hget] at hclaimable
      cases hclaimable
    rw [hget] at hclaimable
    simp only at hclaimable
    split_ifs at hclaimable with hsolved
    have hid := b.market.problems.keyed hget
    subst hid
    simp only [call, hrun, entry]
    exact .paid hget (not_not.mp hsolved) hescrow

theorem does_cancelProblem (problemId : Hash) (requester : Address) (b : Books) :
    Does expires b (call ext (.cancelProblem problemId requester) b) := by
  have hrun := run_cancelProblem problemId requester b.market
  rcases hcancellable : cancellable problemId requester b.market with _ | ⟨p, bounty⟩
  · rw [hcancellable] at hrun
    obtain ⟨m, hrun⟩ := hrun
    simp only [call, hrun, entry, List.append_nil]
    exact .nothing
  · rw [hcancellable] at hrun
    have hescrow := escrow_of_cancellable hcancellable
    unfold cancellable at hcancellable
    rcases hget : b.market.problems.get problemId with _ | q
    · rw [hget] at hcancellable
      cases hcancellable
    rw [hget] at hcancellable
    simp only at hcancellable
    split_ifs at hcancellable with hsubmitter hopen
    rw [hescrow, Option.map_some] at hcancellable
    cases hcancellable
    have hid := b.market.problems.keyed hget
    subst hid
    simp only [call, hrun, entry]
    exact .refunded hget (not_not.mp hopen) hescrow

theorem does_call (ext : Ext) (op : MarketOp) (b : Books) : Does (Expires op b) b (call ext op b) := by
  cases op with
  | submitProblem => exact does_submitProblem ..
  | submitSolution => exact does_submitSolution ..
  | revealProblem => exact does_revealProblem ..
  | claimBounty => exact does_claimBounty ..
  | cancelProblem => exact does_cancelProblem ..

/-! ### What the books say -/

def Books.settled (b : Books) : List Hash := b.released.map Prod.fst

def total (entries : List (Hash × Balance)) : ℕ := (entries.map fun e => e.2.toNat).sum

theorem total_append (entries : List (Hash × Balance)) (e : Hash × Balance) :
    total (entries ++ [e]) = total entries + e.2.toNat := by
  simp [total]

/-- The escrow table holds exactly the bounties that were taken in and not released. -/
structure Accounted (b : Books) : Prop where
  escrowed_iff : ∀ problemId, (b.market.escrow problemId).isSome ↔
    (b.market.problems.get problemId).isSome ∧ problemId ∉ b.settled
  amount : ∀ problemId p bounty, b.market.problems.get problemId = some p →
    b.market.escrow problemId = some bounty → bounty = p.bounty
  total : weighMap BitVec.toNat b.market.escrow + total b.released = total b.taken

/-- What the status of a listing says about its bounty. -/
structure StatusSays (settled : List Hash) (p : ProblemSubmission) : Prop where
  unsettled_of_open : p.status = .Open → p.problemId ∉ settled
  unsettled_of_expired : p.status = .Expired → p.problemId ∉ settled
  solver_of_solved : p.status = .Solved → p.solver.isSome
  settled_of_cancelled : p.status = .Cancelled → p.problemId ∈ settled

structure Consistent (b : Books) : Prop extends Accounted b where
  settled_listed : ∀ problemId ∈ b.settled, (b.market.problems.get problemId).isSome
  status : ∀ problemId p, b.market.problems.get problemId = some p → StatusSays b.settled p

theorem consistent_empty : Consistent .empty where
  escrowed_iff _ := by simp [Books.empty]
  amount _ _ _ hget := by cases hget
  total := by simp [Books.empty, weighMap, MarketplaceRuns.total]
  settled_listed _ h := by cases h
  status _ _ hget := by cases hget

variable {b b' : Books} {p p' : ProblemSubmission} {problemId : Hash} {bounty : Balance}

theorem Rewritten.problemId_eq (h : Rewritten expires p p') : p'.problemId = p.problemId := by
  cases h with
  | revealed => rfl
  | expired => rfl
  | solved => rfl

theorem Rewritten.bounty_eq (h : Rewritten expires p p') : p'.bounty = p.bounty := by
  cases h with
  | revealed => rfl
  | expired => rfl
  | solved => rfl

theorem get_updateProblem {s : MarketplaceState} (hid : p'.problemId = p.problemId) (problemId : Hash) :
    (s.updateProblem p').problems.get problemId =
      if problemId = p.problemId then some p' else s.problems.get problemId := by
  rw [updateProblem, Keyed.get_insert, hid]

theorem isSome_get_updateProblem {s : MarketplaceState} (hget : s.problems.get p.problemId = some p)
    (hid : p'.problemId = p.problemId) (problemId : Hash) :
    ((s.updateProblem p').problems.get problemId).isSome = (s.problems.get problemId).isSome := by
  rw [get_updateProblem hid]
  split_ifs with h
  · rw [h, hget]; rfl
  · rfl

variable {settled : List Hash}

theorem statusSays_open (hstatus : p.status = .Open) (h : p.problemId ∉ settled) :
    StatusSays settled p :=
  ⟨fun _ => h, by simp [hstatus], by simp [hstatus], by simp [hstatus]⟩

theorem statusSays_expired (hstatus : p.status = .Expired) (h : p.problemId ∉ settled) :
    StatusSays settled p :=
  ⟨by simp [hstatus], fun _ => h, by simp [hstatus], by simp [hstatus]⟩

theorem statusSays_solved (hstatus : p.status = .Solved) (h : p.solver.isSome) :
    StatusSays settled p :=
  ⟨by simp [hstatus], by simp [hstatus], fun _ => h, by simp [hstatus]⟩

theorem statusSays_cancelled (hstatus : p.status = .Cancelled) (h : p.problemId ∈ settled) :
    StatusSays settled p :=
  ⟨by simp [hstatus], by simp [hstatus], by simp [hstatus], fun _ => h⟩

theorem statusSays_rewritten (hp : Rewritten expires p p') (h : StatusSays settled p) :
    StatusSays settled p' := by
  cases hp with
  | revealed reveal =>
    exact ⟨h.unsettled_of_open, h.unsettled_of_expired, h.solver_of_solved, h.settled_of_cancelled⟩
  | expired _ hopen => exact statusSays_expired rfl (h.unsettled_of_open hopen)
  | solved hopen solver solution => exact statusSays_solved rfl rfl

theorem consistent_rewritten (h : Consistent b) (hget : b.market.problems.get p.problemId = some p)
    (hp : Rewritten expires p p') : Consistent ⟨b.market.updateProblem p', b.taken, b.released⟩ where
  escrowed_iff problemId := by
    rw [isSome_get_updateProblem hget hp.problemId_eq]
    exact h.escrowed_iff problemId
  amount problemId q bounty hget' hescrow := by
    rw [get_updateProblem hp.problemId_eq] at hget'
    split_ifs at hget' with hid
    · cases hget'
      subst hid
      rw [hp.bounty_eq]
      exact h.amount _ p bounty hget hescrow
    · exact h.amount problemId q bounty hget' hescrow
  total := h.total
  settled_listed problemId hsettled := by
    rw [isSome_get_updateProblem hget hp.problemId_eq]
    exact h.settled_listed problemId hsettled
  status problemId q hget' := by
    rw [get_updateProblem hp.problemId_eq] at hget'
    split_ifs at hget' with hid
    · cases hget'
      exact statusSays_rewritten hp (h.status _ p hget)
    · exact h.status problemId q hget'

theorem consistent_submitted (h : Consistent b) (hnew : b.market.problems.get p.problemId = none)
    (hopen : p.status = .Open) :
    Consistent ⟨storeSubmission p b.market, b.taken ++ [(p.problemId, p.bounty)], b.released⟩ := by
  have hfresh : p.problemId ∉ b.settled := fun hsettled => by
    have hlisted := h.settled_listed _ hsettled
    rw [hnew] at hlisted
    cases hlisted
  have hunescrowed : b.market.escrow p.problemId = none := by
    rcases hescrow : b.market.escrow p.problemId with _ | bounty
    · rfl
    · have hlisted := ((h.escrowed_iff p.problemId).mp (by rw [hescrow]; rfl)).1
      rw [hnew] at hlisted
      cases hlisted
  refine { escrowed_iff := fun problemId => ?_, amount := fun problemId q bounty hget hescrow => ?_,
           total := ?_, settled_listed := fun problemId hsettled => ?_,
           status := fun problemId q hget => ?_ }
  · simp only [storeSubmission, Keyed.get_insert, Function.update_apply]
    split_ifs with hid
    · subst hid
      exact ⟨fun _ => ⟨rfl, hfresh⟩, fun _ => rfl⟩
    · exact h.escrowed_iff problemId
  · simp only [storeSubmission, Keyed.get_insert, Function.update_apply] at hget hescrow
    split_ifs at hget hescrow with hid
    · cases hget
      cases hescrow
      rfl
    · exact h.amount problemId q bounty hget hescrow
  · have hupdate := weighMap_update BitVec.toNat b.market.escrow p.problemId (some p.bounty)
    have htotal := h.total
    rw [hunescrowed] at hupdate
    simp only [Option.elim_none, Option.elim_some] at hupdate
    simp only [storeSubmission, total_append]
    omega
  · simp only [storeSubmission, Keyed.get_insert]
    split_ifs
    · rfl
    · exact h.settled_listed problemId hsettled
  · simp only [storeSubmission, Keyed.get_insert] at hget
    split_ifs at hget with hid
    · cases hget
      exact statusSays_open hopen hfresh
    · exact h.status problemId q hget

/-- A bounty leaves the escrow table and enters the books; its listing is solved or cancelled. -/
theorem consistent_released {market : MarketplaceState} (p' : ProblemSubmission) (h : Consistent b)
    (hget : b.market.problems.get p.problemId = some p)
    (hescrow : b.market.escrow p.problemId = some bounty)
    (hmarket : market.escrow = Function.update b.market.escrow p.problemId none)
    (hproblems : ∀ problemId, market.problems.get problemId =
      if problemId = p.problemId then some p' else b.market.problems.get problemId)
    (hid' : p'.problemId = p.problemId)
    (hstatus : p'.status = .Solved ∧ p'.solver.isSome ∨ p'.status = .Cancelled) :
    Consistent ⟨market, b.taken, b.released ++ [(p.problemId, bounty)]⟩ := by
  have hsettled : ∀ problemId, problemId ∈ (b.released ++ [(p.problemId, bounty)]).map Prod.fst ↔
      problemId ∈ b.settled ∨ problemId = p.problemId := by
    intro problemId
    simp [Books.settled]
  have hisSome : ∀ problemId, (market.problems.get problemId).isSome =
      (b.market.problems.get problemId).isSome := by
    intro problemId
    rw [hproblems]
    split_ifs with hid
    · rw [hid, hget]; rfl
    · rfl
  refine { escrowed_iff := fun problemId => ?_, amount := fun problemId q bounty' hget' hescrow' => ?_,
           total := ?_, settled_listed := fun problemId hin => ?_,
           status := fun problemId q hget' => ?_ }
  · simp only [hisSome, Books.settled, hsettled, hmarket, Function.update_apply]
    by_cases hid : problemId = p.problemId
    · simp [hid]
    · simp only [hid, if_false, or_false]
      exact h.escrowed_iff problemId
  · simp only [hmarket, Function.update_apply] at hescrow'
    simp only [hproblems] at hget'
    split_ifs at hget' hescrow' with hid
    exact h.amount problemId q bounty' hget' hescrow'
  · have hupdate := weighMap_update BitVec.toNat b.market.escrow p.problemId none
    have htotal := h.total
    rw [hescrow] at hupdate
    simp only [Option.elim_none, Option.elim_some] at hupdate
    simp only [hmarket, total_append]
    omega
  · simp only [hisSome]
    rcases (hsettled problemId).mp hin with hin | rfl
    · exact h.settled_listed problemId hin
    · rw [hget]; rfl
  · simp only [hproblems] at hget'
    split_ifs at hget' with hid
    · cases hget'
      rcases hstatus with ⟨hsolved, hsolver⟩ | hcancelled
      · exact statusSays_solved hsolved hsolver
      · exact statusSays_cancelled hcancelled ((hsettled _).mpr (.inr hid'))
    · have hmeans := h.status problemId q hget'
      have hne : q.problemId ≠ p.problemId := by rwa [b.market.problems.keyed hget']
      refine ⟨fun h' hin => ?_, fun h' hin => ?_, hmeans.solver_of_solved, fun h' => ?_⟩
      · rcases (hsettled _).mp hin with hin | heq
        · exact hmeans.unsettled_of_open h' hin
        · exact hne heq
      · rcases (hsettled _).mp hin with hin | heq
        · exact hmeans.unsettled_of_expired h' hin
        · exact hne heq
      · exact (hsettled _).mpr (.inl (hmeans.settled_of_cancelled h'))

theorem Consistent.does (h : Consistent b) (hdoes : Does expires b b') : Consistent b' := by
  cases hdoes with
  | nothing => exact h
  | submitted p hnew hopen => exact consistent_submitted h hnew hopen
  | rewritten hget hp => exact consistent_rewritten h hget hp
  | @paid p bounty hget hsolved hescrow =>
    refine consistent_released p h hget hescrow rfl (fun problemId => ?_) rfl
      (.inl ⟨hsolved, (h.status _ _ hget).solver_of_solved hsolved⟩)
    split_ifs with hid
    · rw [hid]; exact hget
    · rfl
  | @refunded p bounty hget hopen hescrow =>
    refine consistent_released { p with status := .Cancelled } h hget hescrow rfl
      (fun problemId => ?_) rfl (.inr rfl)
    rw [updateProblem, Keyed.get_insert]
    rfl

/-! ### Ways out for a bounty -/

/-- Some calls release the bounty. -/
def Releasable (ext : Ext) (b : Books) (problemId : Hash) : Prop :=
  ∃ ops, problemId ∈ ((market ext).final ops b).settled

/-- Every bounty in the escrow table can be released. -/
def NoneStuck (ext : Ext) (b : Books) : Prop :=
  ∀ problemId, (b.market.escrow problemId).isSome → Releasable ext b problemId

def NoneExpired (b : Books) : Prop :=
  ∀ problemId p, b.market.problems.get problemId = some p → p.status ≠ .Expired

theorem releasable_of_open (ext : Ext) (hget : b.market.problems.get problemId = some p)
    (hopen : p.status = .Open) (hescrow : b.market.escrow problemId = some bounty) :
    Releasable ext b problemId := by
  refine ⟨[.cancelProblem problemId p.submitter], ?_⟩
  have hcancellable : cancellable problemId p.submitter b.market = some (p, bounty) := by
    simp [cancellable, hget, hopen, hescrow]
  have hrun := run_cancelProblem problemId p.submitter b.market
  rw [hcancellable] at hrun
  change problemId ∈ (call ext (.cancelProblem problemId p.submitter) b).settled
  simp [call, hrun, entry, Books.settled]

theorem releasable_of_solved (ext : Ext) (hget : b.market.problems.get problemId = some p)
    (hsolved : p.status = .Solved) (hsolver : p.solver.isSome)
    (hescrow : b.market.escrow problemId = some bounty) : Releasable ext b problemId := by
  obtain ⟨solver, hsolver⟩ := Option.isSome_iff_exists.mp hsolver
  refine ⟨[.claimBounty problemId], ?_⟩
  have hclaimable : claimable problemId b.market = some (solver, bounty) := by
    simp [claimable, hget, hsolved, hsolver, hescrow]
  have hrun := run_claimBounty problemId b.market
  rw [hclaimable] at hrun
  change problemId ∈ (call ext (.claimBounty problemId) b).settled
  simp [call, hrun, entry, Books.settled]

/-- While no listing is marked as expired, every escrowed bounty can be released. -/
theorem noneStuck_of_noneExpired (ext : Ext) (h : Consistent b) (hexpired : NoneExpired b) :
    NoneStuck ext b := by
  intro problemId hsome
  obtain ⟨hlisted, hunsettled⟩ := (h.escrowed_iff problemId).mp hsome
  obtain ⟨p, hget⟩ := Option.isSome_iff_exists.mp hlisted
  obtain ⟨bounty, hescrow⟩ := Option.isSome_iff_exists.mp hsome
  have hmeans := h.status problemId p hget
  rcases hstatus : p.status with _ | _ | _ | _
  · exact releasable_of_open ext hget hstatus hescrow
  · exact releasable_of_solved ext hget hstatus (hmeans.solver_of_solved hstatus) hescrow
  · exact absurd hstatus (hexpired problemId p hget)
  · have hin := hmeans.settled_of_cancelled hstatus
    rw [b.market.problems.keyed hget] at hin
    exact absurd hin hunsettled

/-- The listing is marked as expired, and its bounty was not released. -/
def Lapsed (problemId : Hash) (b : Books) : Prop :=
  (∃ p, b.market.problems.get problemId = some p ∧ p.status = .Expired) ∧ problemId ∉ b.settled

theorem Lapsed.does (h : Lapsed problemId b) (hdoes : Does expires b b') : Lapsed problemId b' := by
  obtain ⟨⟨q, hget, hexpired⟩, hunsettled⟩ := h
  have hid := b.market.problems.keyed hget
  -- a call for another listing, or for this one in another status
  have hother : ∀ p : ProblemSubmission, b.market.problems.get p.problemId = some p →
      p.status ≠ .Expired → problemId ≠ p.problemId := by
    rintro p hp hstatus rfl
    rw [hget] at hp
    cases hp
    exact hstatus hexpired
  cases hdoes with
  | nothing => exact ⟨⟨q, hget, hexpired⟩, hunsettled⟩
  | submitted p hnew hopen =>
    have hne : problemId ≠ p.problemId := by
      rintro rfl
      rw [hget] at hnew
      cases hnew
    exact ⟨⟨q, (Keyed.get_insert_ne _ hne).trans hget, hexpired⟩, hunsettled⟩
  | @rewritten p p' hget' hp =>
    by_cases hne : problemId = p.problemId
    · subst hne
      rw [hget] at hget'
      cases hget'
      refine ⟨⟨p', by rw [get_updateProblem hp.problemId_eq, if_pos rfl], ?_⟩, hunsettled⟩
      cases hp with
      | revealed => exact hexpired
      | expired => rfl
      | solved hopen => rw [hexpired] at hopen; cases hopen
    · refine ⟨⟨q, ?_, hexpired⟩, hunsettled⟩
      rw [get_updateProblem hp.problemId_eq, if_neg hne]
      exact hget
  | @paid p bounty hget' hsolved hescrow =>
    have hne := hother p hget' (by rw [hsolved]; decide)
    refine ⟨⟨q, hget, hexpired⟩, fun hin => ?_⟩
    rw [Books.settled, List.map_append, List.mem_append] at hin
    rcases hin with hin | hin
    · exact hunsettled hin
    · exact hne (List.mem_singleton.mp hin)
  | @refunded p bounty hget' hopen hescrow =>
    have hne := hother p hget' (by rw [hopen]; decide)
    refine ⟨⟨q, ?_, hexpired⟩, fun hin => ?_⟩
    · change ((b.market.removeEscrow p.problemId).updateProblem _).problems.get problemId = some q
      rw [updateProblem, Keyed.get_insert, if_neg hne]
      exact hget
    rw [Books.settled, List.map_append, List.mem_append] at hin
    rcases hin with hin | hin
    · exact hunsettled hin
    · exact hne (List.mem_singleton.mp hin)

/-- The bounty of a listing that is marked as expired is never released. -/
theorem not_releasable_of_lapsed (h : Lapsed problemId b) : ¬ Releasable ext b problemId := by
  rintro ⟨ops, hin⟩
  have hlapsed : Lapsed problemId ((market ext).final ops b) :=
    Machine.invariant (fun p _ hp => hp.does (does_call ext p.1 p.2)) h
  exact hlapsed.2 hin

theorem NoneExpired.does (h : NoneExpired b) (hnot : ¬ expires) (hdoes : Does expires b b') :
    NoneExpired b' := by
  intro problemId q hget
  cases hdoes with
  | nothing => exact h problemId q hget
  | submitted p hnew hopen =>
    simp only [storeSubmission, Keyed.get_insert] at hget
    split_ifs at hget
    · cases hget
      rw [hopen]
      decide
    · exact h problemId q hget
  | @rewritten p p' hget' hp =>
    simp only at hget
    rw [get_updateProblem hp.problemId_eq] at hget
    split_ifs at hget
    · cases hget
      cases hp with
      | revealed => exact h p.problemId p hget'
      | expired hexpires => exact (hnot hexpires).elim
      | solved => exact fun h' => by cases h'
    · exact h problemId q hget
  | paid hget' hsolved hescrow => exact h problemId q hget
  | @refunded p bounty hget' hopen hescrow =>
    simp only [updateProblem, Keyed.get_insert] at hget
    split_ifs at hget
    · cases hget
      exact fun h' => by cases h'
    · exact h problemId q hget

theorem lapsed_of_expires (ext : Ext) {op : MarketOp} (hexpires : Expires op b) (h : Consistent b) :
    ∃ problemId, Lapsed problemId (call ext op b) ∧
      ((call ext op b).market.escrow problemId).isSome := by
  cases op with
  | submitProblem => exact hexpires.elim
  | revealProblem => exact hexpires.elim
  | claimBounty => exact hexpires.elim
  | cancelProblem => exact hexpires.elim
  | submitSolution now problemId solver solution =>
    obtain ⟨p, hget, hopen, hdeadline⟩ := hexpires
    have hid := b.market.problems.keyed hget
    subst hid
    have hverdict : solutionVerdict now p.problemId solution b.market = .expired p := by
      simp only [solutionVerdict, hget, hopen, ne_eq, not_true_eq_false, if_false, if_pos hdeadline]
    have hrun := run_submitSolution now p.problemId solver solution b.market
    rw [hverdict] at hrun
    have hunsettled := (h.status _ p hget).unsettled_of_open hopen
    refine ⟨p.problemId, ⟨⟨{ p with status := .Expired }, ?_, rfl⟩, hunsettled⟩, ?_⟩
    · simp only [call, hrun]
      exact Keyed.get_insert_of_get hget rfl
    · simp only [call, hrun]
      exact (h.escrowed_iff _).mpr ⟨by rw [hget]; rfl, hunsettled⟩

/-- What holds of a run of marketplace operations: before and after every call the escrow table holds
exactly the bounties taken in and not released, and each of them can still be released. -/
def Safe (ext : Ext) (ops : List MarketOp) : Prop :=
  ∀ p ∈ (market ext).trace ops .empty, (Accounted p.2 ∧ NoneStuck ext p.2) ∧
    Accounted ((market ext).next p.1 p.2) ∧ NoneStuck ext ((market ext).next p.1 p.2)

/-- A run is safe exactly if no solution comes in for an open listing after its deadline. -/
theorem safe_iff_none_expires (ext : Ext) (ops : List MarketOp) :
    Safe ext ops ↔ ∀ p ∈ (market ext).trace ops .empty, ¬ Expires p.1 p.2 := by
  have hconsistent : ∀ p ∈ (market ext).trace ops .empty, Consistent p.2 :=
    Machine.invariant_trace (fun p _ hp => hp.does (does_call ext p.1 p.2)) consistent_empty
  constructor
  · intro hsafe p hp hexpires
    obtain ⟨problemId, hlapsed, hescrow⟩ := lapsed_of_expires ext hexpires (hconsistent p hp)
    exact not_releasable_of_lapsed hlapsed ((hsafe p hp).2.2 problemId hescrow)
  · intro hnone
    have hexpired : ∀ p ∈ (market ext).trace ops .empty, NoneExpired p.2 :=
      Machine.invariant_trace (fun p hp h => h.does (hnone p hp) (does_call ext p.1 p.2))
        (fun _ _ hget => by cases hget)
    intro p hp
    have hnext := (hconsistent p hp).does (does_call ext p.1 p.2)
    have hnext' := (hexpired p hp).does (hnone p hp) (does_call ext p.1 p.2)
    exact ⟨⟨(hconsistent p hp).toAccounted,
      noneStuck_of_noneExpired ext (hconsistent p hp) (hexpired p hp)⟩,
      hnext.toAccounted, noneStuck_of_noneExpired ext hnext hnext'⟩

/-! ### A bounty that is stuck -/

def listed : ProblemType := .SubsetSum [3, 5, 8] 11

def listedId : Hash := ⟨0x0345bb013818fe168fd389d48c0e559afc64e88690588d62a4aa0b6a095e58ac⟩

def listedExt : Ext := Ext.ofTables [(encode listed, listedId.bytes)] []

/-- A listing for one day with a bounty of 500. -/
def listing : MarketOp :=
  .submitProblem 1767225600 (.Public listed) ⟨1⟩ 500 F64.zero 1 none none

/-- A solution, two days later. -/
def lateSolution : MarketOp := .submitSolution 1767398400 listedId ⟨2⟩ (.SubsetSum [0, 2])

/-- The bounty of 500 is still escrowed after the late solution, and it stays so for ever. -/
theorem late_solution_sticks_bounty :
    ((market listedExt).final [listing, lateSolution] .empty).market.escrow listedId = some 500 ∧
      ¬ ∀ ops, Safe listedExt ops := by
  refine ⟨by decide, fun h => ?_⟩
  have hsafe := (h [listing, lateSolution]
    (lateSolution, (market listedExt).final [listing] .empty) (.tail _ (.head _))).2.2 listedId
    (by decide)
  refine not_releasable_of_lapsed ⟨?_, by decide⟩ hsafe
  have hstatus : (((market listedExt).final [listing, lateSolution] .empty).market.problems.get
      listedId).map ProblemSubmission.status = some .Expired := by decide
  obtain ⟨p, hget, hexpired⟩ := Option.map_eq_some_iff.mp hstatus
  exact ⟨p, hget, hexpired⟩

end Coinjecture.State.MarketplaceRuns
