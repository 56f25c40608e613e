import Coinjecture.Core.Types
import Coinjecture.Lib.Table
import Coinjecture.Tokenomics.Pools

/-! # Governance

Proposals, the votes on them and the manager that keeps them. The voting power of an address is computed
from its position in the pools, with the platform's `exp`. The totals of a proposal and its block numbers
are unchecked sums: they wrap in the release build. -/

namespace Coinjecture.Tokenomics.Governance

open Lib.Float64 Lib.Table
open Core.Types
open Tokenomics.Pools

/-! ### Proposals -/

inductive EmergencyActionType where
  | pauseNetwork
  | resumeNetwork
  | freezeAccount
  | slashValidator
  deriving DecidableEq

inductive ProposalAction where
  | changeParameter (key oldValue newValue : String)
  | protocolUpgrade (targetVersion : UInt8) (activationHeight : UInt64) (description : String)
  | treasuryTransfer (recipient : Address) (amount : Balance) (purpose : String)
  | constitutionalAmendment (amendmentText : String)
      (newQuorumThreshold newSupermajorityThreshold : Option F64) (newVotingPeriodBlocks : Option UInt64)
  | emergencyAction (actionType : EmergencyActionType) (reason : String)
  deriving DecidableEq

structure ExecutionReceipt where
  proposalId : UInt64
  action : ProposalAction
  executedAt : UInt64
  success : Bool
  message : String
  deriving DecidableEq

inductive ExecutionError where
  | notPassed
  | timelockNotExpired
  | noAction
  | actionFailed (reason : String)
  | alreadyExecuted
  deriving DecidableEq

def VOTING_PERIOD_BLOCKS : UInt64 := 100000

inductive ProposalType where
  | parameter
  | treasury
  | upgrade
  | constitutional
  | emergency
  deriving DecidableEq

namespace ProposalType

/-- 0.50, 0.50, 0.80, 0.80 and 0.90. -/
def approvalThreshold : ProposalType → F64
  | parameter => ⟨0x3FE0000000000000⟩
  | treasury => ⟨0x3FE0000000000000⟩
  | upgrade => ⟨0x3FE999999999999A⟩
  | constitutional => ⟨0x3FE999999999999A⟩
  | emergency => ⟨0x3FECCCCCCCCCCCCD⟩

/-- 0.10, 0.15, 0.20, 0.30 and 0.05. -/
def participationThreshold : ProposalType → F64
  | parameter => ⟨0x3FB999999999999A⟩
  | treasury => ⟨0x3FC3333333333333⟩
  | upgrade => ⟨0x3FC999999999999A⟩
  | constitutional => ⟨0x3FD3333333333333⟩
  | emergency => ⟨0x3FA999999999999A⟩

def timelockBlocks : ProposalType → UInt64
  | parameter => 10000
  | treasury => 20000
  | upgrade => 50000
  | constitutional => 100000
  | emergency => 0

end ProposalType

inductive VoteOption where
  | «for»
  | against
  | abstain
  deriving DecidableEq

structure Vote where
  voter : Address
  option : VoteOption
  power : Balance
  castAt : UInt64
  deriving DecidableEq

/-- `HashMap<Address, Vote>`: no address votes twice. -/
structure Votes where
  cast : List Vote
  nodup : (cast.map Vote.voter).Nodup
  deriving DecidableEq

namespace Votes

def empty : Votes := ⟨[], List.nodup_nil⟩

def containsKey (votes : Votes) (voter : Address) : Prop := voter ∈ votes.cast.map Vote.voter

instance (votes : Votes) (voter : Address) : Decidable (votes.containsKey voter) :=
  inferInstanceAs (Decidable (_ ∈ _))

def insert (votes : Votes) (vote : Vote) (h : ¬ votes.containsKey vote.voter) : Votes where
  cast := vote :: votes.cast
  nodup := List.nodup_cons.mpr ⟨h, votes.nodup⟩

end Votes

inductive ProposalStatus where
  | pending
  | active
  | passed
  | failed
  | executed
  | cancelled
  deriving DecidableEq

structure Proposal where
  id : UInt64
  proposalType : ProposalType
  title : String
  description : String
  proposer : Address
  createdAt : UInt64
  votingStarts : UInt64
  votingEnds : UInt64
  executionAt : UInt64
  status : ProposalStatus
  votesFor : Balance
  votesAgainst : Balance
  votesAbstain : Balance
  votes : Votes
  action : Option ProposalAction
  executionReceipt : Option ExecutionReceipt
  deriving DecidableEq

inductive GovernanceError where
  | votingNotStarted
  | votingEnded
  | notActive
  | alreadyVoted
  | insufficientPower
  | proposalNotFound
  deriving DecidableEq

namespace Proposal

def newWithAction (id : UInt64) (proposalType : ProposalType) (title description : String)
    (proposer : Address) (currentBlock : UInt64) (action : Option ProposalAction) : Proposal :=
  let votingStarts := currentBlock + 1000
  let votingEnds := votingStarts + VOTING_PERIOD_BLOCKS
  let executionAt := votingEnds + proposalType.timelockBlocks
  { id := id
    proposalType := proposalType
    title := title
    description := description
    proposer := proposer
    createdAt := currentBlock
    votingStarts := votingStarts
    votingEnds := votingEnds
    executionAt := executionAt
    status := .pending
    votesFor := 0
    votesAgainst := 0
    votesAbstain := 0
    votes := Votes.empty
    action := action
    executionReceipt := none }

def execute (p : Proposal) (currentBlock : UInt64) (success : Bool) (message : String) :
    Except ExecutionError (ExecutionReceipt × Proposal) :=
  if p.status = .executed then .error .alreadyExecuted
  else if p.status ≠ .passed then .error .notPassed
  else if currentBlock < p.executionAt then .error .timelockNotExpired
  else
    match p.action with
    | none => .error .noAction
    | some action =>
      let receipt : ExecutionReceipt := ⟨p.id, action, currentBlock, success, message⟩
      .ok (receipt, { p with
        executionReceipt := some receipt
        status := if success then .executed else p.status })

/-- The `match` on the option in `cast_vote`. -/
def addPower (p : Proposal) (option : VoteOption) (power : Balance) : Proposal :=
  match option with
  | .for => { p with votesFor := p.votesFor + power }
  | .against => { p with votesAgainst := p.votesAgainst + power }
  | .abstain => { p with votesAbstain := p.votesAbstain + power }

def castVote (p : Proposal) (voter : Address) (option : VoteOption) (power : Balance)
    (currentBlock : UInt64) : Except GovernanceError Proposal :=
  if currentBlock < p.votingStarts then .error .votingNotStarted
  else if p.votingEnds < currentBlock then .error .votingEnded
  else if p.status ≠ .active then .error .notActive
  else if h : p.votes.containsKey voter then .error .alreadyVoted
  else .ok { p.addPower option power with votes := p.votes.insert ⟨voter, option, power, currentBlock⟩ h }

def participation (p : Proposal) (totalVotingPower : Balance) : F64 :=
  (F64.ofNat (p.votesFor + p.votesAgainst + p.votesAbstain).toNat).div (F64.ofNat totalVotingPower.toNat)

def approval (p : Proposal) : F64 :=
  if 0 < p.votesFor + p.votesAgainst then
    (F64.ofNat p.votesFor.toNat).div (F64.ofNat (p.votesFor + p.votesAgainst).toNat)
  else F64.zero

def updateStatus (p : Proposal) (currentBlock : UInt64) (totalVotingPower : Balance) : Proposal :=
  let status := if p.status = .pending ∧ p.votingStarts ≤ currentBlock then .active else p.status
  let status :=
    if status = .active ∧ p.votingEnds < currentBlock then
      let passed := p.proposalType.participationThreshold.le (p.participation totalVotingPower) &&
        p.proposalType.approvalThreshold.le p.approval
      if passed then .passed else .failed
    else status
  { p with status := status }

end Proposal

/-! ### The manager -/

/-- The maps of a position in the order in which they are iterated. -/
structure VoterPosition where
  balances : List (PoolType × Balance)
  stakeStarts : List (PoolType × UInt64)
  deriving DecidableEq

namespace VoterPosition

variable (exp : F64 → F64)

/-- 100000.0 -/
def blocksPerTau : F64 := ⟨0x40F86A0000000000⟩

def unlockFactor (position : VoterPosition) (poolType : PoolType) (currentBlock : UInt64) : F64 :=
  let start := (position.stakeStarts.lookup poolType).getD currentBlock
  let blocksStaked := currentBlock.toNat - start.toNat
  let tau := (F64.ofNat blocksStaked).div blocksPerTau
  F64.one.sub (exp (ETA.neg.mul tau))

def calculateVotingPower (position : VoterPosition) (currentBlock : UInt64) : Balance :=
  let power := (position.balances.map fun e =>
    ((F64.ofNat e.2.toNat).mul (e.1.scale exp)).mul (position.unlockFactor exp e.1 currentBlock)).foldl
      F64.add F64.zero
  power.toUnsigned 128

end VoterPosition

structure GovernanceManager where
  proposals : Keyed Proposal.id
  nextId : UInt64
  totalVotingPower : Balance
  voterPositions : Address → Option VoterPosition

namespace GovernanceManager

variable (exp : F64 → F64)

def proposalThreshold (manager : GovernanceManager) : Balance :=
  ((F64.ofNat manager.totalVotingPower.toNat).mul deltaCritical).toUnsigned 128

def getVotingPower (manager : GovernanceManager) (voter : Address) (currentBlock : UInt64) : Balance :=
  ((manager.voterPositions voter).map (·.calculateVotingPower exp currentBlock)).getD 0

/-- `create_proposal` is the same with no action. -/
def createProposalWithAction (manager : GovernanceManager) (proposalType : ProposalType)
    (title description : String) (proposer : Address) (currentBlock : UInt64)
    (action : Option ProposalAction) : Except GovernanceError (UInt64 × GovernanceManager) :=
  if manager.getVotingPower exp proposer currentBlock < manager.proposalThreshold then
    .error .insufficientPower
  else
    let id := manager.nextId
    let proposal := Proposal.newWithAction id proposalType title description proposer currentBlock action
    .ok (id, { manager with
      proposals := manager.proposals.insert proposal
      nextId := manager.nextId + 1 })

/-- `execute_proposal`; the upgrade's own height comes before the checks of the proposal. -/
def executeProposal (manager : GovernanceManager) (proposalId currentBlock : UInt64) :
    Except ExecutionError (ExecutionReceipt × GovernanceManager) :=
  match manager.proposals.get proposalId with
  | none => .error (.actionFailed "proposal not found")
  | some proposal =>
    match proposal.action with
    | none => .error .noAction
    | some action =>
      if (match action with
          | .protocolUpgrade _ activationHeight _ => decide (currentBlock < activationHeight)
          | _ => false) then .error .timelockNotExpired
      else
        match proposal.execute currentBlock true
          s!"Proposal {proposalId.toNat} executed at block {currentBlock.toNat} by governance" with
        | .error e => .error e
        | .ok (receipt, proposal) =>
          .ok (receipt, { manager with proposals := manager.proposals.insert proposal })

/-- `GovernanceManager::vote`. -/
def vote (manager : GovernanceManager) (proposalId : UInt64) (voter : Address) (option : VoteOption)
    (currentBlock : UInt64) : Except GovernanceError GovernanceManager :=
  let power := manager.getVotingPower exp voter currentBlock
  if power = 0 then .error .insufficientPower
  else
    match manager.proposals.get proposalId with
    | none => .error .proposalNotFound
    | some proposal =>
      match proposal.castVote voter option power currentBlock with
      | .error e => .error e
      | .ok proposal => .ok { manager with proposals := manager.proposals.insert proposal }

def updateStatuses (manager : GovernanceManager) (currentBlock : UInt64) : GovernanceManager :=
  let update (p : Proposal) := p.updateStatus currentBlock manager.totalVotingPower
  { manager with proposals := manager.proposals.map update fun _ => rfl }

end GovernanceManager

end Coinjecture.Tokenomics.Governance
