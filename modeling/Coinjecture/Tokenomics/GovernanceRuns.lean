import Coinjecture.Lib.Float64Order
import Coinjecture.Lib.Saturating
import Coinjecture.Lib.Trace
import Coinjecture.Lib.Words
import Coinjecture.Tokenomics.Governance
import Mathlib.Logic.Relation

/-! # The life of a proposal

What governance is for: a proposal is pending, then active, then passed or failed, and a passed one is
executed once, after its time lock, if the votes that were cast reach the quorum and the majority of its type.
The thresholds are exact here; the manager compares quotients in `f64` with them, and its sums wrap.

* `change` : what a call does to one proposal.
* `lifeCycle_of_sane` : a run follows the life cycle if no call meets a sum that wraps, a number in use, or a
  quotient which rounding lifts over its threshold.
* `roundsTrue_of_le` : rounding lifts nothing up to `2 ^ 51`. -/

namespace Coinjecture.Tokenomics.GovernanceRuns

open Lib Lib.Float64 Lib.Saturating Lib.Table Lib.Trace
open Core.Types
open Tokenomics.Governance

/-! ### The calls -/

inductive Op where
  | create (proposalType : ProposalType) (title description : String) (proposer : Address)
      (action : Option ProposalAction)
  | vote (proposalId : UInt64) (voter : Address) (option : VoteOption)
  | updateStatuses
  | executeProposal (proposalId : UInt64)
  deriving DecidableEq

structure Call where
  height : UInt64
  op : Op
  deriving DecidableEq

/-- `GovernanceManager::new`, with the power and the positions that its owner has written to it. -/
def start (totalVotingPower : Balance) (voterPositions : Address → Option VoterPosition) :
    GovernanceManager :=
  ⟨Keyed.empty, 1, totalVotingPower, voterPositions⟩

variable (exp : F64 → F64)

def next (call : Call) (manager : GovernanceManager) : GovernanceManager :=
  match call.op with
  | .create proposalType title description proposer action =>
    match manager.createProposalWithAction exp proposalType title description proposer call.height action with
    | .ok (_, manager') => manager'
    | .error _ => manager
  | .vote proposalId voter option =>
    match manager.vote exp proposalId voter option call.height with
    | .ok manager' => manager'
    | .error _ => manager
  | .updateStatuses => manager.updateStatuses call.height
  | .executeProposal proposalId =>
    match manager.executeProposal proposalId call.height with
    | .ok (_, manager') => manager'
    | .error _ => manager

def governance : Machine Call GovernanceManager where
  next := next exp
  halts _ _ := false

/-! ### The life cycle -/

/-- The moves of a status. -/
inductive Moves : ProposalStatus → ProposalStatus → Prop where
  | start : Moves .pending .active
  | pass : Moves .active .passed
  | fail : Moves .active .failed
  | execute : Moves .passed .executed

/-- 10%, 15%, 20%, 30% and 5%. -/
def quorum : ProposalType → ℚ
  | .parameter => 1 / 10
  | .treasury => 3 / 20
  | .upgrade => 1 / 5
  | .constitutional => 3 / 10
  | .emergency => 1 / 20

/-- 50%, 50%, 80%, 80% and 90%. -/
def majority : ProposalType → ℚ
  | .parameter => 1 / 2
  | .treasury => 1 / 2
  | .upgrade => 4 / 5
  | .constitutional => 4 / 5
  | .emergency => 9 / 10

/-- `a` is at least the share `t` of `b`. -/
def Reaches (t : ℚ) (a b : ℕ) : Prop := t * b ≤ a

instance (t : ℚ) (a b : ℕ) : Decidable (Reaches t a b) := inferInstanceAs (Decidable (_ ≤ _))

/-- The power of the votes for one option. -/
def power (votes : Votes) (option : VoteOption) : ℕ :=
  ((votes.cast.filter fun v => v.option = option).map fun v => v.power.toNat).sum

/-- The votes that were cast reach the quorum and the majority. -/
def Met (totalVotingPower : ℕ) (p : Proposal) : Prop :=
  Reaches (quorum p.proposalType) (power p.votes .for + power p.votes .against + power p.votes .abstain)
      totalVotingPower ∧
    0 < power p.votes .for + power p.votes .against ∧
    Reaches (majority p.proposalType) (power p.votes .for) (power p.votes .for + power p.votes .against)

instance (totalVotingPower : ℕ) (p : Proposal) : Decidable (Met totalVotingPower p) :=
  inferInstanceAs (Decidable (_ ∧ _))

def tally (p : Proposal) : VoteOption → Balance
  | .for => p.votesFor
  | .against => p.votesAgainst
  | .abstain => p.votesAbstain

/-- The totals are the sums over the votes. -/
def Counted (p : Proposal) : Prop := ∀ option, (tally p option).toNat = power p.votes option

def AllCounted (manager : GovernanceManager) : Prop :=
  ∀ id p, manager.proposals.get id = some p → Counted p

/-- Where the voting on a proposal ends and its time lock opens. -/
def votingEnd (p : Proposal) : ℕ := p.createdAt.toNat + 1000 + 100000

def lockEnd (p : Proposal) : ℕ := votingEnd p + p.proposalType.timelockBlocks.toNat

def IsOpen (p : Proposal) : Prop := p.status = .pending ∨ p.status = .active

instance (p : Proposal) : Decidable (IsOpen p) := inferInstanceAs (Decidable (_ ∨ _))

/-- The call executes the proposal. -/
def Executes (step : Call × GovernanceManager) (id : UInt64) : Prop :=
  step.1.op = .executeProposal id ∧ ∃ receipt manager,
    step.2.executeProposal id step.1.height = .ok (receipt, manager)

/-- What the life cycle allows in one call. -/
structure Lawful (step : Call × GovernanceManager) : Prop where
  moves : ∀ id p, step.2.proposals.get id = some p → ∃ p', (next exp step.1 step.2).proposals.get id = some p' ∧
    Relation.ReflTransGen Moves p.status p'.status
  starts : ∀ id p', step.2.proposals.get id = none →
    (next exp step.1 step.2).proposals.get id = some p' → p'.status = .pending
  /-- The voting is closed after its end, and then the votes stay. -/
  closes : ∀ id p p', step.2.proposals.get id = some p →
    (next exp step.1 step.2).proposals.get id = some p' →
    (IsOpen p → ¬ IsOpen p' → votingEnd p < step.1.height.toNat) ∧ (¬ IsOpen p → p'.votes = p.votes)
  executes : ∀ id p, Executes step id → step.2.proposals.get id = some p →
    lockEnd p ≤ step.1.height.toNat ∧ Met step.2.totalVotingPower.toNat p

/-- The run follows the life cycle. -/
structure LifeCycle (calls : List Call) (manager : GovernanceManager) : Prop where
  counted : (∀ step ∈ (governance exp).trace calls manager, AllCounted step.2) ∧
    AllCounted ((governance exp).final calls manager)
  lawful : ∀ step ∈ (governance exp).trace calls manager, Lawful exp step
  once : ((governance exp).trace calls manager).Pairwise fun step later =>
    ∀ id, Executes step id → ¬ Executes later id

/-! ### What a call does to a proposal -/

/-- What a call does to the proposal under one number. -/
inductive Change (call : Call) (manager : GovernanceManager) (id : UInt64) :
    Option Proposal → Option Proposal → Prop where
  | same (o : Option Proposal) (h : ¬ Executes (call, manager) id) : Change call manager id o o
  | created {o : Option Proposal} {proposalType : ProposalType} {title description : String}
      {proposer : Address} {action : Option ProposalAction}
      (hop : call.op = .create proposalType title description proposer action)
      (hpower : ¬ manager.getVotingPower exp proposer call.height < manager.proposalThreshold)
      (hid : id = manager.nextId) :
      Change call manager id o (some (Proposal.newWithAction id proposalType title description proposer
        call.height action))
  | voted {p p' : Proposal} {voter : Address} {option : VoteOption} (hop : call.op = .vote id voter option)
      (h : p.castVote voter option (manager.getVotingPower exp voter call.height) call.height = .ok p') :
      Change call manager id (some p) (some p')
  | updated {p : Proposal} (hop : call.op = .updateStatuses) :
      Change call manager id (some p) (some (p.updateStatus call.height manager.totalVotingPower))
  | executed {p p' : Proposal} {message : String} {receipt : ExecutionReceipt}
      (hop : call.op = .executeProposal id)
      (h : p.execute call.height true message = .ok (receipt, p')) : Change call manager id (some p) (some p')

variable {exp} {call : Call} {manager : GovernanceManager} {id : UInt64} {p p' : Proposal}

theorem castVote_eq {voter : Address} {option : VoteOption} {votingPower : Balance} {height : UInt64}
    (h : p.castVote voter option votingPower height = .ok p') :
    p.status = .active ∧ ∃ hnew : ¬ p.votes.containsKey voter,
      p' = { p.addPower option votingPower with
        votes := p.votes.insert ⟨voter, option, votingPower, height⟩ hnew } := by
  unfold Proposal.castVote at h
  split_ifs at h with hstart hend hactive hvoted
  exact ⟨not_not.mp hactive, hvoted, (Except.ok.inj h).symm⟩

theorem status_castVote {voter : Address} {option : VoteOption} {votingPower : Balance} {height : UInt64}
    (h : p.castVote voter option votingPower height = .ok p') : p.status = .active ∧ p'.status = .active := by
  obtain ⟨hactive, hnew, rfl⟩ := castVote_eq h
  refine ⟨hactive, ?_⟩
  rw [← hactive]
  cases option <;> rfl

theorem execute_eq {height : UInt64} {message : String} {receipt : ExecutionReceipt}
    (h : p.execute height true message = .ok (receipt, p')) :
    p.status = .passed ∧ p.executionAt ≤ height ∧
      p' = { p with executionReceipt := some receipt, status := .executed } := by
  unfold Proposal.execute at h
  split_ifs at h with hexecuted hpassed hlock htrue
  · split at h
    · cases h
    · injection h with h
      injection h with hreceipt hp
      subst hreceipt
      exact ⟨not_not.mp hpassed, UInt64.not_lt.mp hlock, hp.symm⟩
  · exact absurd rfl htrue

theorem executeProposal_eq {height : UInt64} {receipt : ExecutionReceipt} {manager' : GovernanceManager}
    (h : manager.executeProposal id height = .ok (receipt, manager')) :
    ∃ p p' message, manager.proposals.get id = some p ∧ p.execute height true message = .ok (receipt, p') ∧
      manager' = { manager with proposals := manager.proposals.insert p' } := by
  unfold GovernanceManager.executeProposal at h
  split at h
  · cases h
  next p hp =>
    split at h
    · cases h
    split_ifs at h
    split at h
    · cases h
    next receipt' p' hexecute =>
      injection h with h
      injection h with hreceipt hmanager
      subst hreceipt
      exact ⟨p, p', _, hp, hexecute, hmanager.symm⟩

/-- A call does to the proposal under a number one of five things. -/
theorem change (exp : F64 → F64) (call : Call) (manager : GovernanceManager) (id : UInt64) :
    Change exp call manager id (manager.proposals.get id) ((next exp call manager).proposals.get id) := by
  obtain ⟨height, op⟩ := call
  have hsame (hop : op ≠ .executeProposal id) : Change exp ⟨height, op⟩ manager id
      (manager.proposals.get id) (manager.proposals.get id) := .same _ fun h => hop h.1
  cases op with
  | create proposalType title description proposer action =>
    simp only [next, GovernanceManager.createProposalWithAction]
    split_ifs with hpower
    · exact hsame (by simp)
    · simp only [Keyed.get_insert]
      split_ifs with hid
      · subst hid
        exact .created rfl hpower rfl
      · exact hsame (by simp)
  | vote proposalId voter option =>
    simp only [next, GovernanceManager.vote]
    split_ifs with hpower
    · exact hsame (by simp)
    rcases hget : manager.proposals.get proposalId with _ | p
    · exact hsame (by simp)
    rcases hcast : p.castVote voter option (manager.getVotingPower exp voter height) height with _ | p'
    · simp only [hcast]
      exact hsame (by simp)
    · simp only [hcast]
      obtain ⟨-, hnew, hp'⟩ := castVote_eq hcast
      have hkey : p'.id = proposalId := by
        rw [← manager.proposals.keyed hget, hp']
        cases option <;> rfl
      rw [Keyed.get_insert, hkey]
      split_ifs with hid
      · subst hid
        rw [hget]
        exact .voted rfl hcast
      · exact hsame (by simp)
  | updateStatuses =>
    change Change exp _ manager id _ ((manager.proposals.get id).map
      fun p => p.updateStatus height manager.totalVotingPower)
    rcases manager.proposals.get id with _ | p
    · exact .same _ fun h => by simpa using h.1
    · have hchange : Change exp ⟨height, .updateStatuses⟩ manager id (some p)
        (some (p.updateStatus height manager.totalVotingPower)) := .updated rfl
      exact hchange
  | executeProposal proposalId =>
    simp only [next]
    rcases hexecute : manager.executeProposal proposalId height with _ | ⟨receipt, manager'⟩
    · refine .same _ fun h => ?_
      obtain ⟨hop, receipt, manager', hok⟩ := h
      cases hop
      simp only [hexecute] at hok
      cases hok
    · obtain ⟨p, p', message, hget, hp, rfl⟩ := executeProposal_eq hexecute
      have hkey : p'.id = proposalId := by
        rw [← manager.proposals.keyed hget, (execute_eq hp).2.2]
      simp only
      rw [Keyed.get_insert, hkey]
      split_ifs with hid
      · subst hid
        rw [hget]
        exact .executed rfl hp
      · exact hsame fun h => hid (Op.executeProposal.inj h).symm

theorem totalVotingPower_next (exp : F64 → F64) (call : Call) (manager : GovernanceManager) :
    (next exp call manager).totalVotingPower = manager.totalVotingPower := by
  obtain ⟨height, op⟩ := call
  cases op with
  | create proposalType title description proposer action =>
    simp only [next, GovernanceManager.createProposalWithAction]
    split_ifs
    · rfl
    · rfl
  | vote proposalId voter option =>
    simp only [next, GovernanceManager.vote]
    split_ifs
    · rfl
    rcases manager.proposals.get proposalId with _ | p
    · rfl
    rcases hcast : p.castVote voter option (manager.getVotingPower exp voter height) height with _ | p'
    · simp only [hcast]
    · simp only [hcast]
  | updateStatuses => rfl
  | executeProposal proposalId =>
    simp only [next]
    rcases hexecute : manager.executeProposal proposalId height with _ | ⟨receipt, manager'⟩
    · rfl
    · obtain ⟨p, p', message, -, -, rfl⟩ := executeProposal_eq hexecute
      rfl

/-! ### Sane calls -/

/-- The voting on the proposal is over and will be closed. -/
def Due (height : UInt64) (p : Proposal) : Prop :=
  (p.status = .active ∨ p.status = .pending ∧ p.votingStarts ≤ height) ∧ p.votingEnds < height

instance (height : UInt64) (p : Proposal) : Decidable (Due height p) := inferInstanceAs (Decidable (_ ∧ _))

/-- The proposal takes a vote of the address. -/
def OpenTo (voter : Address) (height : UInt64) (p : Proposal) : Prop :=
  p.votingStarts ≤ height ∧ height ≤ p.votingEnds ∧ p.status = .active ∧ ¬ p.votes.containsKey voter

instance (voter : Address) (height : UInt64) (p : Proposal) : Decidable (OpenTo voter height p) :=
  inferInstanceAs (Decidable (_ ∧ _))

/-- The votes for and against do not wrap, and rounding lifts no quotient over its threshold. -/
structure RoundsTrue (totalVotingPower : Balance) (p : Proposal) : Prop where
  sum : NoCarry p.votesFor p.votesAgainst
  quorum : p.proposalType.participationThreshold.le (p.participation totalVotingPower) = true →
    Reaches (quorum p.proposalType) (p.votesFor + p.votesAgainst + p.votesAbstain).toNat totalVotingPower.toNat
  majority : p.proposalType.approvalThreshold.le p.approval = true →
    Reaches (majority p.proposalType) p.votesFor.toNat (p.votesFor + p.votesAgainst).toNat

variable (exp) in
/-- The call meets no sum that wraps, no number in use and no quotient that rounding lifts. -/
def Sane (step : Call × GovernanceManager) : Prop :=
  match step.1.op with
  | .create proposalType _ _ proposer _ =>
    ¬ step.2.getVotingPower exp proposer step.1.height < step.2.proposalThreshold →
      step.2.proposals.get step.2.nextId = none ∧
        step.1.height.toNat + 1000 + 100000 + proposalType.timelockBlocks.toNat < 2 ^ 64
  | .vote proposalId voter option =>
    ∀ p, step.2.proposals.get proposalId = some p → OpenTo voter step.1.height p →
      NoCarry (tally p option) (step.2.getVotingPower exp voter step.1.height)
  | .updateStatuses =>
    ∀ id p, step.2.proposals.get id = some p → Due step.1.height p → RoundsTrue step.2.totalVotingPower p
  | .executeProposal _ => True

/-- What the manager keeps of every proposal. -/
structure Sound (totalVotingPower : Balance) (p : Proposal) : Prop where
  counted : Counted p
  votingEnds : p.votingEnds.toNat = votingEnd p
  executionAt : p.executionAt.toNat = lockEnd p
  decided : p.status = .passed ∨ p.status = .executed → Met totalVotingPower.toNat p

section Steps

variable {height : UInt64} {totalVotingPower votingPower : Balance} {voter : Address} {option : VoteOption}

theorem sound_new {proposalType : ProposalType} {title description : String} {proposer : Address}
    {action : Option ProposalAction}
    (h : height.toNat + 1000 + 100000 + proposalType.timelockBlocks.toNat < 2 ^ 64) :
    Sound totalVotingPower
      (Proposal.newWithAction id proposalType title description proposer height action) := by
  have hstarts : (height + 1000).toNat = height.toNat + 1000 := Words.toNat_add_of_lt (by
    change height.toNat + 1000 < 2 ^ 64
    omega)
  have hends : (height + 1000 + VOTING_PERIOD_BLOCKS).toNat = height.toNat + 1000 + 100000 := by
    rw [Words.toNat_add_of_lt (by rw [hstarts]; change height.toNat + 1000 + 100000 < 2 ^ 64; omega), hstarts]
    rfl
  refine ⟨fun option => ?_, hends, ?_, fun hstatus => by simp [Proposal.newWithAction] at hstatus⟩
  · cases option <;> rfl
  · change (height + 1000 + VOTING_PERIOD_BLOCKS + proposalType.timelockBlocks).toNat = _
    rw [Words.toNat_add_of_lt (by rw [hends]; exact h), hends]
    rfl

theorem power_insert (votes : Votes) (vote : Vote) (h : ¬ votes.containsKey vote.voter) (option : VoteOption) :
    power (votes.insert vote h) option = power votes option + if vote.option = option then vote.power.toNat else 0 := by
  simp only [power, Votes.insert]
  split_ifs with hoption
  · rw [List.filter_cons_of_pos (by simpa using hoption), List.map_cons, List.sum_cons, Nat.add_comm]
  · rw [List.filter_cons_of_neg (by simpa using hoption), Nat.add_zero]

theorem tally_addPower (p : Proposal) (option option' : VoteOption) (votingPower : Balance) :
    tally (p.addPower option votingPower) option' =
      if option = option' then tally p option' + votingPower else tally p option' := by
  cases option <;> cases option' <;> rfl

theorem openTo_of_castVote (h : p.castVote voter option votingPower height = .ok p') :
    OpenTo voter height p := by
  unfold Proposal.castVote at h
  split_ifs at h with hstart hend hactive hvoted
  exact ⟨UInt64.not_lt.mp hstart, UInt64.not_lt.mp hend, not_not.mp hactive, hvoted⟩

theorem sound_castVote (hcast : p.castVote voter option votingPower height = .ok p')
    (hcarry : NoCarry (tally p option) votingPower) (h : Sound totalVotingPower p) :
    Sound totalVotingPower p' := by
  obtain ⟨hactive, hnew, hp'⟩ := castVote_eq hcast
  have hkept : p'.status = p.status ∧ p'.votingEnds = p.votingEnds ∧ p'.executionAt = p.executionAt ∧
      votingEnd p' = votingEnd p ∧ lockEnd p' = lockEnd p ∧
      p'.votes = p.votes.insert ⟨voter, option, votingPower, height⟩ hnew := by
    rw [hp']
    cases option <;> exact ⟨rfl, rfl, rfl, rfl, rfl, rfl⟩
  obtain ⟨hstatus, hends, hexecution, hvotingEnd, hlockEnd, hvotes⟩ := hkept
  refine ⟨fun option' => ?_, ?_, ?_, fun hdecided => ?_⟩
  · have htally : tally p' option' =
        if option = option' then tally p option' + votingPower else tally p option' := by
      rw [← tally_addPower, hp']
      cases option' <;> rfl
    rw [hvotes, power_insert, htally, ← h.counted option']
    simp only
    split_ifs with hoption
    · subst hoption
      rw [BitVec.toNat_add, Nat.mod_eq_of_lt hcarry]
    · rw [Nat.add_zero]
  · rw [hends, hvotingEnd, h.votingEnds]
  · rw [hexecution, hlockEnd, h.executionAt]
  · rw [hstatus, hactive] at hdecided
    simp at hdecided

theorem status_updateStatus (p : Proposal) : (p.updateStatus height totalVotingPower).status =
    if Due height p then
      if (p.proposalType.participationThreshold.le (p.participation totalVotingPower) &&
        p.proposalType.approvalThreshold.le p.approval) = true then .passed else .failed
    else if p.status = .pending ∧ p.votingStarts ≤ height then .active else p.status := by
  simp only [Proposal.updateStatus, Due]
  by_cases hpending : p.status = .pending ∧ p.votingStarts ≤ height
  · simp only [hpending, and_self, if_true, true_and, or_true]
  · simp only [hpending, if_false, or_false]

/-- A zero quotient reaches no majority. -/
theorem approvalThreshold_not_le_zero (proposalType : ProposalType) :
    proposalType.approvalThreshold.le F64.zero = false := by
  cases proposalType <;> decide

theorem met_of_roundsTrue (hcounted : Counted p) (h : RoundsTrue totalVotingPower p)
    (hquorum : p.proposalType.participationThreshold.le (p.participation totalVotingPower) = true)
    (happroval : p.proposalType.approvalThreshold.le p.approval = true) : Met totalVotingPower.toNat p := by
  have hfor : p.votesFor.toNat = power p.votes .for := hcounted .for
  have hagainst : p.votesAgainst.toNat = power p.votes .against := hcounted .against
  have habstain : p.votesAbstain.toNat = power p.votes .abstain := hcounted .abstain
  have hsum : (p.votesFor + p.votesAgainst).toNat = power p.votes .for + power p.votes .against := by
    rw [BitVec.toNat_add, Nat.mod_eq_of_lt h.sum, hfor, hagainst]
  have htotal : (p.votesFor + p.votesAgainst + p.votesAbstain).toNat ≤
      power p.votes .for + power p.votes .against + power p.votes .abstain := by
    rw [BitVec.toNat_add, hsum, habstain]
    exact Nat.mod_le _ _
  refine ⟨(h.quorum hquorum).trans (by exact_mod_cast htotal), ?_, ?_⟩
  · rw [← hsum]
    by_contra hzero
    have hnone : ¬ 0 < p.votesFor + p.votesAgainst := by
      rw [BitVec.lt_def, toNat_zero']
      exact hzero
    rw [Proposal.approval, if_neg hnone, approvalThreshold_not_le_zero] at happroval
    cases happroval
  · have hmajority := h.majority happroval
    rwa [hsum, hfor] at hmajority

theorem sound_updateStatus (hdue : Due height p → RoundsTrue totalVotingPower p)
    (h : Sound totalVotingPower p) : Sound totalVotingPower (p.updateStatus height totalVotingPower) := by
  refine ⟨h.counted, h.votingEnds, h.executionAt, fun hdecided => ?_⟩
  rw [status_updateStatus] at hdecided
  split_ifs at hdecided with hDue hpassed hpending
  · rw [Bool.and_eq_true] at hpassed
    have hmet : Met totalVotingPower.toNat p :=
      met_of_roundsTrue h.counted (hdue hDue) hpassed.1 hpassed.2
    exact hmet
  · simp at hdecided
  · simp at hdecided
  · exact h.decided hdecided

theorem sound_execute {message : String} {receipt : ExecutionReceipt}
    (hexecute : p.execute height true message = .ok (receipt, p')) (h : Sound totalVotingPower p) :
    Sound totalVotingPower p' := by
  obtain ⟨hpassed, -, rfl⟩ := execute_eq hexecute
  exact ⟨h.counted, h.votingEnds, h.executionAt, fun _ => h.decided (.inl hpassed)⟩

end Steps

/-- A sane call keeps what the manager keeps. -/
theorem sound_next (hsane : Sane exp (call, manager))
    (h : ∀ id p, manager.proposals.get id = some p → Sound manager.totalVotingPower p) (id : UInt64)
    (p' : Proposal) (hget : (next exp call manager).proposals.get id = some p') :
    Sound manager.totalVotingPower p' := by
  have hchange := change exp call manager id
  rw [hget] at hchange
  generalize hold : manager.proposals.get id = old at hchange
  cases hchange with
  | same => exact h id p' hold
  | created hop hpower hid =>
    simp only [Sane, hop] at hsane
    exact sound_new (hsane hpower).2
  | voted hop hcast =>
    simp only [Sane, hop] at hsane
    exact sound_castVote hcast (hsane _ hold (openTo_of_castVote hcast)) (h id _ hold)
  | updated hop =>
    simp only [Sane, hop] at hsane
    exact sound_updateStatus (hsane id _ hold) (h id _ hold)
  | executed hop hexecute => exact sound_execute hexecute (h id _ hold)

/-! ### Runs -/

theorem moves_updateStatus (p : Proposal) (height : UInt64) (totalVotingPower : Balance) :
    Relation.ReflTransGen Moves p.status (p.updateStatus height totalVotingPower).status := by
  rw [status_updateStatus]
  have hactive (h : Due height p) : Relation.ReflTransGen Moves p.status .active := by
    rcases h.1 with hactive | ⟨hpending, -⟩
    · rw [hactive]
    · rw [hpending]
      exact .single .start
  split_ifs with hdue hpassed hpending
  · exact (hactive hdue).tail .pass
  · exact (hactive hdue).tail .fail
  · rw [hpending.1]
    exact .single .start
  · exact .refl

/-- A sane call creates no proposal under a number that is taken. -/
theorem not_taken_of_sane (hsane : Sane exp (call, manager)) {proposalType : ProposalType}
    {title description : String} {proposer : Address} {action : Option ProposalAction}
    (hop : call.op = .create proposalType title description proposer action)
    (hpower : ¬ manager.getVotingPower exp proposer call.height < manager.proposalThreshold)
    (hid : id = manager.nextId) : manager.proposals.get id ≠ some p := by
  simp only [Sane, hop] at hsane
  rw [hid, (hsane hpower).1]
  exact Option.some_ne_none p |>.symm

theorem moves_of_sane (hsane : Sane exp (call, manager)) (hold : manager.proposals.get id = some p) :
    ∃ p', (next exp call manager).proposals.get id = some p' ∧
      Relation.ReflTransGen Moves p.status p'.status := by
  have hchange := change exp call manager id
  rw [hold] at hchange
  generalize hnew : (next exp call manager).proposals.get id = new at hchange
  cases hchange with
  | same => exact ⟨p, rfl, .refl⟩
  | created hop hpower hid => exact absurd hold (not_taken_of_sane hsane hop hpower hid)
  | voted hop hcast =>
    obtain ⟨hactive, hactive'⟩ := status_castVote hcast
    refine ⟨_, rfl, ?_⟩
    rw [hactive, hactive']
  | updated => exact ⟨_, rfl, moves_updateStatus ..⟩
  | executed hop hexecute =>
    obtain ⟨hpassed, -, rfl⟩ := execute_eq hexecute
    refine ⟨_, rfl, ?_⟩
    rw [hpassed]
    exact .single .execute

/-- An update closes the voting after its end only. -/
theorem end_of_updateStatus {height : UInt64} {totalVotingPower : Balance} (hopen : IsOpen p)
    (hclosed : ¬ IsOpen (p.updateStatus height totalVotingPower)) : p.votingEnds < height := by
  by_contra hend
  refine hclosed ?_
  rw [IsOpen, status_updateStatus, if_neg fun hdue : Due height p => hend hdue.2]
  split_ifs
  · exact .inr rfl
  · exact hopen

theorem closes_of_sane (hsane : Sane exp (call, manager)) (hsound : Sound manager.totalVotingPower p)
    (hold : manager.proposals.get id = some p) (hget : (next exp call manager).proposals.get id = some p') :
    (IsOpen p → ¬ IsOpen p' → votingEnd p < call.height.toNat) ∧ (¬ IsOpen p → p'.votes = p.votes) := by
  have hchange := change exp call manager id
  rw [hold, hget] at hchange
  cases hchange with
  | same => exact ⟨fun hopen hclosed => absurd hopen hclosed, fun _ => rfl⟩
  | created hop hpower hid => exact absurd hold (not_taken_of_sane hsane hop hpower hid)
  | voted hop hcast =>
    obtain ⟨hactive, hactive'⟩ := status_castVote hcast
    exact ⟨fun _ hclosed => absurd (.inr hactive') hclosed, fun hclosed => absurd (.inr hactive) hclosed⟩
  | updated =>
    refine ⟨fun hopen hclosed => ?_, fun _ => rfl⟩
    rw [← hsound.votingEnds]
    exact UInt64.lt_iff_toNat_lt.mp (end_of_updateStatus hopen hclosed)
  | executed hop hexecute =>
    obtain ⟨hpassed, -, rfl⟩ := execute_eq hexecute
    refine ⟨fun hopen _ => ?_, fun _ => rfl⟩
    rw [IsOpen, hpassed] at hopen
    simp at hopen

theorem lawful_of_sane (hsane : Sane exp (call, manager))
    (hsound : ∀ id p, manager.proposals.get id = some p → Sound manager.totalVotingPower p) :
    Lawful exp (call, manager) where
  moves _ _ hold := moves_of_sane hsane hold
  starts id p' hold hget := by
    have hchange := change exp call manager id
    simp only at hold hget
    rw [hold, hget] at hchange
    cases hchange with
    | created => rfl
  closes id p p' hold hget := closes_of_sane hsane (hsound id p hold) hold hget
  executes id p hexecutes hold := by
    obtain ⟨hop, receipt, manager', hok⟩ := hexecutes
    obtain ⟨q, q', message, hget, hexecute, -⟩ := executeProposal_eq hok
    simp only at hold hget
    rw [hold] at hget
    obtain rfl := Option.some.inj hget
    obtain ⟨hpassed, hlock, -⟩ := execute_eq hexecute
    have h := hsound id p hold
    exact ⟨h.executionAt ▸ UInt64.le_iff_toNat_le.mp hlock, h.decided (.inl hpassed)⟩

/-- A proposal that has been executed is not executed again. -/
def Done (id : UInt64) (manager : GovernanceManager) : Prop :=
  ∃ p, manager.proposals.get id = some p ∧ p.status = .executed

theorem done_of_executes (h : Executes (call, manager) id) : Done id (next exp call manager) := by
  have hchange := change exp call manager id
  generalize hold : manager.proposals.get id = old at hchange
  generalize hnew : (next exp call manager).proposals.get id = new at hchange
  cases hchange with
  | same _ hnot => exact absurd h hnot
  | created hop => rw [h.1] at hop; cases hop
  | voted hop => rw [h.1] at hop; cases hop
  | updated hop => rw [h.1] at hop; cases hop
  | executed hop hexecute =>
    obtain ⟨-, -, rfl⟩ := execute_eq hexecute
    exact ⟨_, hnew, rfl⟩

theorem not_executes_of_done (h : Done id manager) : ¬ Executes (call, manager) id := by
  rintro ⟨hop, receipt, manager', hok⟩
  obtain ⟨p, p', message, hget, hexecute, -⟩ := executeProposal_eq hok
  obtain ⟨q, hq, hstatus⟩ := h
  simp only at hget
  rw [hq] at hget
  obtain rfl := Option.some.inj hget
  rw [(execute_eq hexecute).1] at hstatus
  cases hstatus

theorem eq_executed_of_moves {status : ProposalStatus} (h : Relation.ReflTransGen Moves .executed status) :
    status = .executed := by
  induction h with
  | refl => rfl
  | tail _ hmove ih =>
    subst ih
    cases hmove

theorem done_next (hlawful : Lawful exp (call, manager)) (h : Done id manager) :
    Done id (next exp call manager) := by
  obtain ⟨p, hp, hstatus⟩ := h
  obtain ⟨p', hp', hmoves⟩ := hlawful.moves id p hp
  rw [hstatus] at hmoves
  exact ⟨p', hp', eq_executed_of_moves hmoves⟩

variable {calls : List Call}

theorem pairwise_executes (hlawful : ∀ step ∈ (governance exp).trace calls manager, Lawful exp step) :
    ((governance exp).trace calls manager).Pairwise fun step later =>
      ∀ id, Executes step id → ¬ Executes later id := by
  have hdone : ((governance exp).trace calls manager).Pairwise fun step later =>
      ∀ id, Done id (next exp step.1 step.2) → Done id later.2 :=
    Machine.pairwise_of_preorder (R := fun s t => ∀ id, Done id s → Done id t) (fun _ _ h => h)
      (fun hst htu id h => htu id (hst id h)) fun step hstep id h => done_next (hlawful step hstep) h
  refine hdone.imp fun {step later} h id hexecutes => ?_
  have hnot : ¬ Executes (later.1, later.2) id := not_executes_of_done (h id (done_of_executes hexecutes))
  exact hnot

def AllSound (manager : GovernanceManager) : Prop :=
  ∀ id p, manager.proposals.get id = some p → Sound manager.totalVotingPower p

/-- Runs of sane calls follow the life cycle. -/
theorem lifeCycle_of_sane (exp : F64 → F64) (totalVotingPower : Balance)
    (voterPositions : Address → Option VoterPosition) (calls : List Call)
    (hsane : ∀ step ∈ (governance exp).trace calls (start totalVotingPower voterPositions), Sane exp step) :
    LifeCycle exp calls (start totalVotingPower voterPositions) := by
  have hstep : ∀ step ∈ (governance exp).trace calls (start totalVotingPower voterPositions),
      AllSound step.2 → AllSound ((governance exp).next step.1 step.2) := by
    intro step hmem hsound id p hget
    change Sound (next exp step.1 step.2).totalVotingPower p
    rw [totalVotingPower_next]
    exact sound_next (hsane step hmem) hsound id p hget
  have hstart : AllSound (start totalVotingPower voterPositions) := fun id p h => by cases h
  have hsound := Machine.invariant_trace (P := AllSound) hstep hstart
  have hlawful := fun step hmem => lawful_of_sane (hsane step hmem) (hsound step hmem)
  refine ⟨⟨fun step hmem id p hget => (hsound step hmem id p hget).counted, ?_⟩, hlawful,
    pairwise_executes hlawful⟩
  exact fun id p hget => (Machine.invariant (P := AllSound) hstep hstart id p hget).counted

/-! ### Rounding -/

/-- Up to `2 ^ 51` a quotient that is rounded to `t` or above is at least `n / d`, if `t` is above what the
next smaller share rounds to. -/
theorem reaches_of_le {t : F64} {n d a b : ℕ} (hd : 0 < d)
    (ht : (F64.round false (n * 2 ^ 51 - 1) (d * 2 ^ 51)).key < t.key) (ha : a ≤ 2 ^ 51) (hb : b ≤ 2 ^ 51)
    (h : t.le ((F64.ofNat a).div (F64.ofNat b)) = true) : Reaches ((n : ℚ) / d) a b := by
  suffices hle : n * b ≤ d * a by
    have hd' : (0 : ℚ) < d := by exact_mod_cast hd
    rw [Reaches, div_mul_eq_mul_div, div_le_iff₀ hd', mul_comm (a : ℚ)]
    exact_mod_cast hle
  rcases Nat.eq_zero_or_pos b with rfl | hpos
  · rw [Nat.mul_zero]
    exact Nat.zero_le _
  by_contra hlt
  have hkey : t.key ≤ (F64.round false a b).key := by
    rw [← key_ofNat_div (by omega) (by omega) hpos]
    simp only [F64.le, Bool.and_eq_true, decide_eq_true_eq] at h
    exact h.2
  refine absurd (hkey.trans (round_mono hpos (by positivity) ?_)) (not_le.mpr ht)
  have hstep : d * a + 1 ≤ n * b := by omega
  calc a * (d * 2 ^ 51) = d * a * 2 ^ 51 := by ring
    _ ≤ (n * b - 1) * 2 ^ 51 := Nat.mul_le_mul_right _ (by omega)
    _ = n * b * 2 ^ 51 - 2 ^ 51 := by rw [Nat.sub_mul, Nat.one_mul]
    _ ≤ n * b * 2 ^ 51 - b := Nat.sub_le_sub_left hb _
    _ = (n * 2 ^ 51 - 1) * b := by rw [Nat.sub_mul, Nat.one_mul, Nat.mul_right_comm]

theorem reaches_quorum {proposalType : ProposalType} {a b : ℕ} (ha : a ≤ 2 ^ 51) (hb : b ≤ 2 ^ 51)
    (h : proposalType.participationThreshold.le ((F64.ofNat a).div (F64.ofNat b)) = true) :
    Reaches (quorum proposalType) a b := by
  cases proposalType with
  | parameter => simpa [quorum] using reaches_of_le (n := 1) (d := 10) (by omega) (by decide +kernel) ha hb h
  | treasury => simpa [quorum] using reaches_of_le (n := 3) (d := 20) (by omega) (by decide +kernel) ha hb h
  | upgrade => simpa [quorum] using reaches_of_le (n := 1) (d := 5) (by omega) (by decide +kernel) ha hb h
  | constitutional =>
    simpa [quorum] using reaches_of_le (n := 3) (d := 10) (by omega) (by decide +kernel) ha hb h
  | emergency => simpa [quorum] using reaches_of_le (n := 1) (d := 20) (by omega) (by decide +kernel) ha hb h

theorem reaches_majority {proposalType : ProposalType} {a b : ℕ} (ha : a ≤ 2 ^ 51) (hb : b ≤ 2 ^ 51)
    (h : proposalType.approvalThreshold.le ((F64.ofNat a).div (F64.ofNat b)) = true) :
    Reaches (majority proposalType) a b := by
  cases proposalType with
  | parameter => simpa [majority] using reaches_of_le (n := 1) (d := 2) (by omega) (by decide +kernel) ha hb h
  | treasury => simpa [majority] using reaches_of_le (n := 1) (d := 2) (by omega) (by decide +kernel) ha hb h
  | upgrade => simpa [majority] using reaches_of_le (n := 4) (d := 5) (by omega) (by decide +kernel) ha hb h
  | constitutional =>
    simpa [majority] using reaches_of_le (n := 4) (d := 5) (by omega) (by decide +kernel) ha hb h
  | emergency => simpa [majority] using reaches_of_le (n := 9) (d := 10) (by omega) (by decide +kernel) ha hb h

/-- Rounding lifts nothing where the votes and the power of the network are at most `2 ^ 51`. -/
theorem roundsTrue_of_le {totalVotingPower : Balance}
    (hvotes : p.votesFor.toNat + p.votesAgainst.toNat + p.votesAbstain.toNat ≤ 2 ^ 51)
    (htotal : totalVotingPower.toNat ≤ 2 ^ 51) : RoundsTrue totalVotingPower p := by
  have hsum : NoCarry p.votesFor p.votesAgainst := by
    change p.votesFor.toNat + p.votesAgainst.toNat < 2 ^ 128
    omega
  have hagainst : (p.votesFor + p.votesAgainst).toNat = p.votesFor.toNat + p.votesAgainst.toNat := by
    rw [BitVec.toNat_add, Nat.mod_eq_of_lt hsum]
  have habstain : (p.votesFor + p.votesAgainst + p.votesAbstain).toNat ≤ 2 ^ 51 := by
    rw [BitVec.toNat_add, hagainst]
    exact (Nat.mod_le _ _).trans hvotes
  refine ⟨hsum, fun h => reaches_quorum habstain htotal h, fun h => ?_⟩
  rw [Proposal.approval] at h
  split_ifs at h with hpositive
  · exact reaches_majority (by omega) (by omega) h
  · rw [approvalThreshold_not_le_zero] at h
    cases h

/-! ### Three voters -/

/-- The exponential on the numbers that occur below: zero, and numbers below -1000. -/
def farExp (x : F64) : F64 := if x.isZero then F64.one else F64.zero

/-- A position of long standing in the genesis pool. -/
def holding (balance : Balance) : VoterPosition := ⟨[(.genesis, balance)], [(.genesis, 0)]⟩

def holders (first second third : Balance) (address : Address) : Option VoterPosition :=
  if address = ⟨1⟩ then some (holding first)
  else if address = ⟨2⟩ then some (holding second)
  else if address = ⟨3⟩ then some (holding third)
  else none

def opening : Call :=
  ⟨200000000, .create .parameter "" "" ⟨1⟩ (some (.changeParameter "" "" ""))⟩

/-- The first holder, who has proposed, votes for, the other two vote against. -/
def ballot : List Call :=
  [⟨200001000, .updateStatuses⟩,
    ⟨200001000, .vote 1 ⟨1⟩ .for⟩,
    ⟨200001000, .vote 1 ⟨2⟩ .against⟩,
    ⟨200001000, .vote 1 ⟨3⟩ .against⟩,
    ⟨200101001, .updateStatuses⟩]

def execution : Call := ⟨200111000, .executeProposal 1⟩

/-- `2 ^ 53` for and `2 ^ 53 + 1` against: the proposal is executed. -/
theorem minority_executes : ¬ LifeCycle farExp (opening :: ballot ++ [execution])
    (start (2 ^ 54 + 1) (holders (2 ^ 53) (2 ^ 53) 1)) := by
  intro h
  generalize hstart : start (2 ^ 54 + 1) (holders (2 ^ 53) (2 ^ 53) 1) = manager at h
  have hmem : (execution, (governance farExp).final (opening :: ballot) manager) ∈
      (governance farExp).trace (opening :: ballot ++ [execution]) manager := by
    rw [Machine.trace_append]
    exact List.mem_append_right _ List.mem_cons_self
  have hlawful := h.lawful _ hmem
  generalize hbefore : (governance farExp).final (opening :: ballot) manager = before at hlawful
  have hok : (before.executeProposal 1 200111000).isOk = true := by
    rw [← hbefore, ← hstart]
    decide +kernel
  have hunmet : ∀ p ∈ before.proposals.get 1, ¬ Met before.totalVotingPower.toNat p := by
    rw [← hbefore, ← hstart]
    decide +kernel
  rcases hexecute : before.executeProposal 1 200111000 with e | ⟨receipt, after⟩
  · rw [hexecute] at hok
    cases hok
  obtain ⟨p, p', message, hget, -, -⟩ := executeProposal_eq hexecute
  exact hunmet p hget (hlawful.executes 1 p ⟨rfl, receipt, after, hexecute⟩ hget).2

/-- The power of the address that votes. -/
def voterPower (step : Call × GovernanceManager) : Balance :=
  match step.1.op with
  | .vote _ voter _ => step.2.getVotingPower farExp voter step.1.height
  | _ => 0

/-- All that is counted or will be counted for the proposal under 1 is small. -/
def Small (step : Call × GovernanceManager) : Prop :=
  step.2.totalVotingPower.toNat ≤ 2 ^ 51 ∧ (voterPower step).toNat ≤ 2 ^ 51 ∧
    ∀ p ∈ step.2.proposals.get 1, p.votesFor.toNat + p.votesAgainst.toNat + p.votesAbstain.toNat ≤ 2 ^ 51

instance (step : Call × GovernanceManager) : Decidable (Small step) := inferInstanceAs (Decidable (_ ∧ _))

def creates : Op → Bool
  | .create .. => true
  | _ => false

def OnlyFirst (manager : GovernanceManager) : Prop := ∀ id, id ≠ 1 → manager.proposals.get id = none

theorem onlyFirst_next (hop : creates call.op = false) (h : OnlyFirst manager) :
    OnlyFirst (next exp call manager) := by
  intro id hid
  have hchange := change exp call manager id
  rw [h id hid] at hchange
  generalize (next exp call manager).proposals.get id = new at hchange
  cases hchange with
  | same => rfl
  | created hcreate =>
    rw [hcreate] at hop
    cases hop

theorem sane_of_small (hop : creates call.op = false) (honly : OnlyFirst manager)
    (hsmall : Small (call, manager)) : Sane farExp (call, manager) := by
  obtain ⟨height, op⟩ := call
  obtain ⟨htotal, hpower, hvotes⟩ := hsmall
  have hfirst {id : UInt64} {p : Proposal} (hget : manager.proposals.get id = some p) :
      p.votesFor.toNat + p.votesAgainst.toNat + p.votesAbstain.toNat ≤ 2 ^ 51 := by
    refine hvotes p ?_
    by_cases hid : id = 1
    · rw [← hid]
      exact hget
    · rw [honly id hid] at hget
      cases hget
  cases op with
  | create => cases hop
  | vote proposalId voter option =>
    intro p hget _
    have hsum := hfirst hget
    simp only [voterPower] at hpower
    simp only [NoCarry]
    cases option with
    | «for» => simp only [tally]; omega
    | against => simp only [tally]; omega
    | abstain => simp only [tally]; omega
  | updateStatuses => exact fun id p hget _ => roundsTrue_of_le (hfirst hget) htotal
  | executeProposal => trivial

/-- Two for and one against: the life of a proposal that is executed. -/
theorem lifeCycle_majority :
    LifeCycle farExp (opening :: (ballot ++ [execution])) (start 4 (holders 2 1 0)) := by
  refine lifeCycle_of_sane farExp 4 (holders 2 1 0) (opening :: (ballot ++ [execution])) fun step hmem => ?_
  rw [Machine.trace_cons rfl, List.mem_cons] at hmem
  rcases hmem with rfl | hmem
  · exact fun _ => ⟨rfl, by decide⟩
  have hrest : ∀ call ∈ ballot ++ [execution], creates call.op = false := by decide
  have hnone : OnlyFirst (next farExp opening (start 4 (holders 2 1 0))) := by
    intro id hid
    have hchange := change farExp opening (start 4 (holders 2 1 0)) id
    generalize hnew : (next farExp opening (start 4 (holders 2 1 0))).proposals.get id = new at hchange ⊢
    cases hchange with
    | same => rfl
    | created _ _ hid' => exact absurd hid' hid
  have honly := Machine.invariant_trace (P := OnlyFirst)
    (fun step hmem => onlyFirst_next (hrest _ (Machine.mem_of_mem_trace hmem))) hnone step hmem
  have hsmall : ∀ step ∈ (governance farExp).trace (ballot ++ [execution])
      (next farExp opening (start 4 (holders 2 1 0))), Small step := by decide +kernel
  exact sane_of_small (hrest _ (Machine.mem_of_mem_trace hmem)) honly (hsmall step hmem)

end Coinjecture.Tokenomics.GovernanceRuns
