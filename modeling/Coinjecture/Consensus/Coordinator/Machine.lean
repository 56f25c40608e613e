import Coinjecture.Consensus.BlockBuilder
import Coinjecture.Consensus.Coordinator.Epoch
import Coinjecture.Lib.Trace

/-! # The epoch coordinator

One task takes phase timer expiries and commands in any order. A handler gives the new coordinator and
what it puts out: the events it sends, and the lines it logs when an epoch starts, a salt is set, a
phase is entered and a commit is counted. The outputs are collected in one `EpochRecord` for each epoch started.

Every input carries the readings of the clocks while it is handled: `clock i` for the `i`-th reading of
the monotonic clock, and the wall clock. Timers may expire at any time. A panic while a block is built
ends the task. -/

namespace Coinjecture.Consensus.Coordinator.Machine

open Lib.Bincode Lib.Effect Lib.Float64 Lib.Trace
open Core.Types Core.Problem Core.Blocks Core.Extern
open Core.Crypto
open Consensus.BlockBuilder Consensus.Coordinator.Commit
open Consensus.Coordinator.Commit.CommitCollector
open Consensus.Coordinator.Epoch Tokenomics.Rewards

inductive CoordinatorEvent where
  | EpochStarted (epoch : UInt64) (salt : Bytes32) (leader : NodeId)
  | MinePhaseStarted (epoch : UInt64) (salt : Bytes32)
  | CommitPhaseStarted (epoch : UInt64)
  | EpochSealed (epoch : UInt64) (winner : NodeId) (workScore : F64) (commitCount : ℕ)
  | EpochStalled (epoch : UInt64) (phase : EpochPhase) (reason : String)
  | BroadcastSalt (epoch : UInt64) (salt : Bytes32)
  | BroadcastCommit (epoch : UInt64) (solutionHash : Hash) (workScore : F64)
  | BlockProduced (block : Block) (epoch : UInt64)
  deriving DecidableEq

inductive CoordinatorCommand where
  | SaltReceived (epoch : UInt64) (salt : Bytes32) («from» : NodeId)
  | LocalSolutionReady (epoch : UInt64) (solutionHash : Hash) (workScore : F64)
      (problem : ProblemType) (solution : Solution) (solveTime : ℕ)
  | CommitReceived (epoch : UInt64) (commit : SolutionCommit)
  | PeerJoined (nodeId : NodeId)
  | PeerLeft (nodeId : NodeId)
  | ChainTipUpdated (height : UInt64) (hash : Hash) (bestCumulativeWork : BitVec 128)
  deriving DecidableEq

structure LocalSolution where
  problem : ProblemType
  solution : Solution
  workScore : F64
  solveTime : ℕ
  deriving DecidableEq

/-- A signing key: its verifying key and what it signs. -/
structure SigningKey where
  verifyingKey : PublicKey
  sign : Bytes → Bytes

structure EpochCoordinator where
  ourId : NodeId
  config : CoordinatorConfig
  peers : PeerSet
  epochState : EpochState
  collector : CommitCollector
  chainHeight : UInt64
  chainHash : Hash
  tipCumulativeWork : BitVec 128
  minerAddress : Address
  localSolution : Option LocalSolution
  consecutiveStalls : UInt32
  signingKey : Option SigningKey

/-- What a handler puts out. -/
inductive Output where
  | sent (event : CoordinatorEvent)
  | epochStarted (epoch : UInt64) (chainHash : Hash) (salt : Bytes32)
  | saltSet (salt : Bytes32)
  | phaseEntered (phase : EpochPhase)
  | commitCounted (epoch : UInt64) (commit : SolutionCommit)
  deriving DecidableEq

/-- What the code takes from elsewhere. -/
structure Env where
  ext : Ext
  log2 : F64 → F64
  allowUnsigned : Bool
  values : ValueOrder

/-- The clocks while an input is handled. -/
structure Clocks where
  clock : ℕ → ℕ
  unixNowSecs : UInt64

inductive Input where
  | phaseExpiry (clocks : Clocks)
  | command (cmd : CoordinatorCommand)

namespace EpochCoordinator

variable (env : Env)

/-- `start_epoch`. -/
def startEpoch (now : ℕ) (epoch : UInt64) (s : EpochCoordinator) : EpochCoordinator × List Output :=
  let salt := deriveSalt env.ext epoch s.chainHash
  let s' := { s with
    epochState := (EpochState.new now epoch).setSalt salt
    collector := .new epoch
    localSolution := none
    consecutiveStalls := 0 }
  let started := [.epochStarted epoch s.chainHash salt, .phaseEntered .Salt]
  match electLeader env.ext epoch s.chainHash s.peers with
  | some leader => (s', started ++ .sent (.EpochStarted epoch salt leader) ::
      if leader = s.ourId then [.sent (.BroadcastSalt epoch salt)] else [])
  | none => (s', started)

/-- The block of `handle_seal`, if we won: built from the cached solution, it becomes the tip. -/
def buildWon (unixNowSecs : UInt64) (s : EpochCoordinator) :
    Except Failure (EpochCoordinator × List Output) :=
  match s.localSolution with
  | none => .ok (s, [])
  | some solved =>
    let height := s.chainHeight + 1
    match buildBlockFromSolution env.ext env.log2 unixNowSecs s.chainHash height s.minerAddress
      solved.problem solved.solution solved.solveTime solved.workScore s.tipCumulativeWork 1 [] with
    | .error e => .error e
    | .ok none => .ok ({ s with localSolution := none }, [])
    | .ok (some block) => .ok ({ s with
        localSolution := none
        chainHeight := height
        chainHash := Block.hash env.ext block
        tipCumulativeWork := BitVec.ofNat 128 (min (2 ^ 128 - 1) (s.tipCumulativeWork.toNat +
          ((block.header.workScore.max F64.zero).toUnsigned 64).toNat)) },
        [.sent (.BlockProduced block s.epochState.epoch)])

/-- `handle_seal`. -/
def handleSeal (unixNowSecs : UInt64) (s : EpochCoordinator) :
    Except Failure (EpochCoordinator × List Output) :=
  if s.collector.hasQuorum s.peers.len s.config.quorumThreshold then
    match s.collector.selectWinner env.values with
    | none => .ok (s, [])
    | some winner =>
      let sealed := Output.sent (.EpochSealed s.epochState.epoch winner.nodeId winner.workScore
        s.collector.commitCount)
      if winner.nodeId = s.ourId then
        match s.buildWon env unixNowSecs with
        | .ok (s', outputs) => .ok (s', sealed :: outputs)
        | .error e => .error e
      else .ok (s, [sealed])
  else .ok (s, [])

/-- `handle_stall`. The stall count that it reaches is reset by the epoch it starts. -/
def handleStall (now : ℕ) (s : EpochCoordinator) : EpochCoordinator × List Output :=
  let stalls := s.consecutiveStalls + 1
  let stalled := Output.sent (.EpochStalled s.epochState.epoch s.epochState.phase
    s!"phase {s.epochState.phase.display} exceeded timeout (stall #{stalls})")
  let s' := { s with consecutiveStalls := if s.config.maxConsecutiveStalls ≤ stalls then 0 else stalls }
  let (s', outputs) := s'.startEpoch env now (s.epochState.epoch + 1)
  (s', stalled :: outputs)

/-- What the entry into a phase triggers. -/
def enterPhase (unixNowSecs : UInt64) (phase : EpochPhase) (s : EpochCoordinator) :
    Except Failure (EpochCoordinator × List Output) :=
  match phase with
  | .Mine =>
    match s.epochState.salt with
    | some salt => .ok (s, [.sent (.MinePhaseStarted s.epochState.epoch salt)])
    | none => .ok (s, [])
  | .Commit => .ok (s, [.sent (.CommitPhaseStarted s.epochState.epoch)])
  | .Seal => s.handleSeal env unixNowSecs
  | .Salt => .ok (s, [])

/-- `handle_phase_expiry`. -/
def handlePhaseExpiry (clocks : Clocks) (s : EpochCoordinator) :
    Except Failure (EpochCoordinator × List Output) :=
  let currentPhase := s.epochState.phase
  let epoch := s.epochState.epoch
  if s.epochState.hasExceededHardDeadline s.config (clocks.clock 0) then
    let stalled := Output.sent (.EpochStalled epoch currentPhase
      s!"hard deadline exceeded after {s.epochState.epochElapsed (clocks.clock 1) / 1000000}ms")
    let (s', outputs) := startEpoch env (clocks.clock 2) (epoch + 1)
      { s with consecutiveStalls := s.consecutiveStalls + 1 }
    .ok (s', stalled :: outputs)
  else if s.epochState.isStalled s.config (clocks.clock 1) then
    .ok (s.handleStall env (clocks.clock 2))
  else
    match s.epochState.tryAdvance s.config (clocks.clock 2) (clocks.clock 3) with
    | (epochState, some newPhase) =>
      if newPhase ≠ currentPhase then
        match enterPhase env clocks.unixNowSecs newPhase { s with epochState := epochState } with
        | .ok (s', outputs) => .ok (s', .phaseEntered newPhase :: outputs)
        | .error e => .error e
      else .ok ({ s with epochState := epochState }, [])
    | (epochState, none) =>
      .ok (startEpoch env (clocks.clock 3) (epoch + 1) { s with epochState := epochState })

/-- Hand a commit to the collector. -/
def countCommit (epoch : UInt64) (commit : SolutionCommit) (s : EpochCoordinator) :
    EpochCoordinator × List Output :=
  ({ s with collector := s.collector.addCommit env.ext env.allowUnsigned commit },
    if s.collector.accepts env.ext env.allowUnsigned commit then [.commitCounted epoch commit] else [])

/-- The commit a node makes of its own solution. -/
def ownCommit (epoch : UInt64) (solutionHash : Hash) (workScore : F64) (s : EpochCoordinator) :
    SolutionCommit :=
  match s.signingKey with
  | some sk => ⟨s.ourId, sk.verifyingKey, solutionHash, workScore,
      sk.sign (commitSigningMessage epoch solutionHash workScore)⟩
  | none => ⟨s.ourId, ⟨0⟩, solutionHash, workScore, []⟩

/-- The salt is of the current epoch and comes from its leader; without a leader, from anyone. -/
def acceptsSalt (epoch : UInt64) («from» : NodeId) (s : EpochCoordinator) : Bool :=
  epoch = s.epochState.epoch &&
    match electLeader env.ext epoch s.chainHash s.peers with
    | some expectedLeader => «from» = expectedLeader
    | none => true

/-- `handle_command`. -/
def handleCommand (command : CoordinatorCommand) (s : EpochCoordinator) :
    EpochCoordinator × List Output :=
  match command with
  | .SaltReceived epoch salt src =>
    if s.acceptsSalt env epoch src then
      ({ s with epochState := s.epochState.setSalt salt }, [.saltSet salt])
    else (s, [])
  | .LocalSolutionReady epoch solutionHash workScore problem solution solveTime =>
    if epoch ≠ s.epochState.epoch then (s, [])
    else
      let s' := { s with localSolution := some ⟨problem, solution, workScore, solveTime⟩ }
      let (s', outputs) := s'.countCommit env epoch (s.ownCommit epoch solutionHash workScore)
      (s', outputs ++ [.sent (.BroadcastCommit epoch solutionHash workScore)])
  | .CommitReceived epoch commit =>
    if epoch ≠ s.epochState.epoch then (s, []) else s.countCommit env epoch commit
  | .PeerJoined nodeId => ({ s with peers := s.peers.insert nodeId }, [])
  | .PeerLeft nodeId => ({ s with peers := s.peers.remove nodeId }, [])
  | .ChainTipUpdated height hash bestCumulativeWork =>
    ({ s with chainHeight := height, chainHash := hash, tipCumulativeWork := bestCumulativeWork }, [])

def handle (input : Input) (s : EpochCoordinator) : Except Failure (EpochCoordinator × List Output) :=
  match input with
  | .phaseExpiry clocks => s.handlePhaseExpiry env clocks
  | .command cmd => .ok (s.handleCommand env cmd)

/-- `with_signing_key`. -/
def withSigningKey (now : ℕ) (ourId : NodeId) (config : CoordinatorConfig) (chainHeight : UInt64)
    (chainHash : Hash) (tipCumulativeWork : BitVec 128) (minerAddress : Address)
    (signingKey : Option SigningKey) : EpochCoordinator where
  ourId := ourId
  config := config
  peers := .empty
  epochState := .new now 0
  collector := .new 0
  chainHeight := chainHeight
  chainHash := chainHash
  tipCumulativeWork := tipCumulativeWork
  minerAddress := minerAddress
  localSolution := none
  consecutiveStalls := 0
  signingKey := signingKey

/-- What `run` does before its loop. -/
def begin (now : ℕ) (s : EpochCoordinator) : EpochCoordinator × List Output :=
  startEpoch env now 1 { s with peers := s.peers.insert s.ourId }

end EpochCoordinator

/-! ### Runs -/

/-- What happened in an epoch: the tip it started on, the salt, the salts that were in force since the
Mine phase, the phases entered, the commits counted with the epoch they were announced for, and the
blocks produced with the salt of the time. -/
structure EpochRecord where
  epoch : UInt64
  tip : Hash
  salt : Bytes32
  used : List Bytes32
  phases : List EpochPhase
  counted : List (UInt64 × SolutionCommit)
  blocks : List (Block × Bytes32)
  deriving DecidableEq

namespace EpochRecord

/-- An epoch that has just started. -/
def started (epoch : UInt64) (tip : Hash) (salt : Bytes32) : EpochRecord :=
  ⟨epoch, tip, salt, [], [.Salt], [], []⟩

def setSalt (salt : Bytes32) (r : EpochRecord) : EpochRecord :=
  { r with salt := salt, used := if .Mine ∈ r.phases then r.used ++ [salt] else r.used }

def enter (phase : EpochPhase) (r : EpochRecord) : EpochRecord :=
  { r with
    phases := r.phases ++ [phase]
    used := if phase = .Mine then r.used ++ [r.salt] else r.used }

def count (epoch : UInt64) (commit : SolutionCommit) (r : EpochRecord) : EpochRecord :=
  { r with counted := r.counted ++ [(epoch, commit)] }

def produce (block : Block) (r : EpochRecord) : EpochRecord :=
  { r with blocks := r.blocks ++ [(block, r.salt)] }

end EpochRecord

/-- The first record is that of the current epoch. -/
def updateCurrent (f : EpochRecord → EpochRecord) : List EpochRecord → List EpochRecord
  | [] => []
  | r :: rs => f r :: rs

theorem updateCurrent_updateCurrent (f g : EpochRecord → EpochRecord) (records : List EpochRecord) :
    updateCurrent g (updateCurrent f records) = updateCurrent (fun r => g (f r)) records := by
  cases records with
  | nil => rfl
  | cons r rs => rfl

/-- Write an output down. -/
def noteOutput (records : List EpochRecord) : Output → List EpochRecord
  | .epochStarted epoch chainHash salt => ⟨epoch, chainHash, salt, [], [], [], []⟩ :: records
  | .saltSet salt => updateCurrent (·.setSalt salt) records
  | .phaseEntered phase => updateCurrent (·.enter phase) records
  | .commitCounted epoch commit => updateCurrent (·.count epoch commit) records
  | .sent (.BlockProduced block _) => updateCurrent (·.produce block) records
  | .sent _ => records

/-- A coordinator with the records of its epochs. -/
structure Node where
  coordinator : EpochCoordinator
  records : List EpochRecord

/-- The task on a coordinator. -/
def machine (env : Env) : Machine Input Node where
  next input n :=
    match n.coordinator.handle env input with
    | .ok (s, outputs) => ⟨s, outputs.foldl noteOutput n.records⟩
    | .error _ => n
  halts input n :=
    match n.coordinator.handle env input with
    | .ok _ => false
    | .error _ => true

/-- The task has started its first epoch. -/
def start (env : Env) (now : ℕ) (s : EpochCoordinator) : Node :=
  let (s', outputs) := s.begin env now
  ⟨s', outputs.foldl noteOutput []⟩

namespace Sample

def environment : Env := ⟨.ofTables [] [], fun _ => F64.zero, true, .id⟩

/-- The node 2 on tip 5, alone. -/
def node : EpochCoordinator := .withSigningKey 0 2 .default 6 ⟨5⟩ 100 ⟨2⟩ none

/-- A timer that expires after so many seconds. -/
def expiry (seconds : ℕ) : Input := .phaseExpiry ⟨fun _ => seconds * 1000000000, 1767225600⟩

/-- The node has solved the problem of the first epoch. -/
def solved : Input :=
  .command (.LocalSolutionReady 1 ⟨3⟩ F64.one (.SubsetSum [1] 1) (.SubsetSum [0]) 1000000)

end Sample

/-! ### What a step can do -/

section Steps

variable (env : Env)

/-- `s'` is `s` at the start of the epoch `epoch`. -/
structure Restarted (epoch : UInt64) (s s' : EpochCoordinator) : Prop where
  epoch_eq : s'.epochState.epoch = epoch
  phase_eq : s'.epochState.phase = .Salt
  salt_eq : s'.epochState.salt = some (deriveSalt env.ext epoch s.chainHash)
  collector_eq : s'.collector = .new epoch
  localSolution_eq : s'.localSolution = none
  chainHash_eq : s'.chainHash = s.chainHash
  peers_eq : s'.peers = s.peers
  config_eq : s'.config = s.config
  ourId_eq : s'.ourId = s.ourId
  signingKey_eq : s'.signingKey = s.signingKey

/-- The coordinator in another phase, with a cached solution or without. -/
def EpochCoordinator.inPhase (phase : EpochPhase) (phaseStart : ℕ) (localSolution : Option LocalSolution)
    (s : EpochCoordinator) : EpochCoordinator :=
  { s with
    epochState := { s.epochState with phase := phase, phaseStart := phaseStart }
    localSolution := localSolution }

/-- The command brings the commit for the current epoch: one that was received, or the node's own. -/
def Brings (s : EpochCoordinator) (cmd : CoordinatorCommand) (commit : SolutionCommit) : Prop :=
  cmd = .CommitReceived s.epochState.epoch commit ∨
    ∃ solutionHash workScore problem solution solveTime,
      cmd = .LocalSolutionReady s.epochState.epoch solutionHash workScore problem solution solveTime ∧
      commit = s.ownCommit s.epochState.epoch solutionHash workScore

/-- The steps of the task. -/
inductive Step : Input → Node → Node → Prop
  | restarted {clocks : Clocks} {n : Node} {s' : EpochCoordinator}
      (hs : Restarted env (n.coordinator.epochState.epoch + 1) n.coordinator s') :
      Step (.phaseExpiry clocks) n ⟨s', .started (n.coordinator.epochState.epoch + 1)
        n.coordinator.chainHash (deriveSalt env.ext (n.coordinator.epochState.epoch + 1)
          n.coordinator.chainHash) :: n.records⟩
  | advanced {clocks : Clocks} {n : Node} {phase : EpochPhase} {phaseStart : ℕ}
      (hnext : n.coordinator.epochState.phase.next = some phase) (hseal : phase ≠ .Seal) :
      Step (.phaseExpiry clocks) n ⟨n.coordinator.inPhase phase phaseStart n.coordinator.localSolution,
        updateCurrent (·.enter phase) n.records⟩
  | sealed {clocks : Clocks} {n : Node} {phaseStart : ℕ} {localSolution : Option LocalSolution}
      (hphase : n.coordinator.epochState.phase = .Commit) :
      Step (.phaseExpiry clocks) n ⟨n.coordinator.inPhase .Seal phaseStart localSolution,
        updateCurrent (·.enter .Seal) n.records⟩
  | produced {clocks : Clocks} {n : Node} {phaseStart : ℕ} {block : Block} {chainHeight : UInt64}
      {tipCumulativeWork : BitVec 128} (hphase : n.coordinator.epochState.phase = .Commit)
      (hquorum : n.coordinator.collector.hasQuorum n.coordinator.peers.len
        n.coordinator.config.quorumThreshold = true)
      (hprev : block.header.prevHash = n.coordinator.chainHash) :
      Step (.phaseExpiry clocks) n ⟨{ n.coordinator.inPhase .Seal phaseStart none with
          chainHeight := chainHeight
          chainHash := Block.hash env.ext block
          tipCumulativeWork := tipCumulativeWork },
        updateCurrent (·.produce block) (updateCurrent (·.enter .Seal) n.records)⟩
  | saltSet {n : Node} {epoch : UInt64} {salt : Bytes32} {src : NodeId}
      (haccepts : n.coordinator.acceptsSalt env epoch src = true) :
      Step (.command (.SaltReceived epoch salt src)) n
        ⟨{ n.coordinator with epochState := n.coordinator.epochState.setSalt salt },
          updateCurrent (·.setSalt salt) n.records⟩
  | committed {cmd : CoordinatorCommand} {n : Node} {commit : SolutionCommit}
      {localSolution : Option LocalSolution} (hbrings : Brings n.coordinator cmd commit) :
      Step (.command cmd) n ⟨{ n.coordinator with
          collector := n.coordinator.collector.addCommit env.ext env.allowUnsigned commit
          localSolution := localSolution },
        if n.coordinator.collector.accepts env.ext env.allowUnsigned commit
        then updateCurrent (·.count n.coordinator.epochState.epoch commit) n.records else n.records⟩
  | peerJoined {n : Node} (nodeId : NodeId) :
      Step (.command (.PeerJoined nodeId)) n
        { n with coordinator := { n.coordinator with peers := n.coordinator.peers.insert nodeId } }
  | peerLeft {n : Node} (nodeId : NodeId) :
      Step (.command (.PeerLeft nodeId)) n
        { n with coordinator := { n.coordinator with peers := n.coordinator.peers.remove nodeId } }
  | tipUpdated {n : Node} (height : UInt64) (hash : Hash) (bestCumulativeWork : BitVec 128) :
      Step (.command (.ChainTipUpdated height hash bestCumulativeWork)) n
        { n with coordinator := { n.coordinator with
            chainHeight := height
            chainHash := hash
            tipCumulativeWork := bestCumulativeWork } }
  | idle {input : Input} {n : Node} : Step input n n

variable {env}

theorem restarted_startEpoch (now : ℕ) (epoch : UInt64) (s : EpochCoordinator) :
    Restarted env epoch s (s.startEpoch env now epoch).1 := by
  unfold EpochCoordinator.startEpoch
  rcases electLeader env.ext epoch s.chainHash s.peers with _ | leader
  · constructor <;> rfl
  · constructor <;> rfl

theorem note_startEpoch (now : ℕ) (epoch : UInt64) (s : EpochCoordinator) (records : List EpochRecord) :
    (s.startEpoch env now epoch).2.foldl noteOutput records =
      .started epoch s.chainHash (deriveSalt env.ext epoch s.chainHash) :: records := by
  unfold EpochCoordinator.startEpoch
  rcases electLeader env.ext epoch s.chainHash s.peers with _ | leader
  · rfl
  · simp only
    split_ifs
    · rfl
    · rfl

/-- An epoch that is started from a state that differs in the stall count and the phase only. -/
theorem step_startEpoch {clocks : Clocks} {n : Node} {s : EpochCoordinator} (now : ℕ)
    (outputs : List Output) (hnote : ∀ records, outputs.foldl noteOutput records = records)
    (hrest : ∀ s' epoch, Restarted env epoch s s' → Restarted env epoch n.coordinator s')
    (hchain : s.chainHash = n.coordinator.chainHash) :
    Step env (.phaseExpiry clocks) n
      ⟨(s.startEpoch env now (n.coordinator.epochState.epoch + 1)).1,
        (outputs ++ (s.startEpoch env now (n.coordinator.epochState.epoch + 1)).2).foldl noteOutput
          n.records⟩ := by
  rw [List.foldl_append, hnote, note_startEpoch, hchain]
  exact .restarted (hrest _ _ (restarted_startEpoch ..))

theorem prevHash_of_build {env : Env} {unixNowSecs height : UInt64} {prevHash : Hash}
    {minerAddress : Address} {problem : ProblemType} {solution : Solution} {solveTime : ℕ}
    {workScore : F64} {parentCumulativeWork : BitVec 128} {difficulty : UInt32} {block : Block}
    (h : buildBlockFromSolution env.ext env.log2 unixNowSecs prevHash height minerAddress problem solution
      solveTime workScore parentCumulativeWork difficulty [] = .ok (some block)) :
    block.header.prevHash = prevHash := by
  unfold buildBlockFromSolution at h
  split_ifs at h
  · cases h
  · obtain ⟨quality, nonce, -, hheader, -⟩ := assembleBlock_spec h
    rw [hheader]
    rfl

/-- Entering the Seal phase. -/
theorem step_seal {clocks : Clocks} {n : Node} {phaseStart : ℕ} {s' : EpochCoordinator}
    {outputs : List Output} (hphase : n.coordinator.epochState.phase = .Commit)
    (h : (n.coordinator.inPhase .Seal phaseStart n.coordinator.localSolution).handleSeal env
      clocks.unixNowSecs = .ok (s', outputs)) :
    Step env (.phaseExpiry clocks) n
      ⟨s', (Output.phaseEntered .Seal :: outputs).foldl noteOutput n.records⟩ := by
  unfold EpochCoordinator.handleSeal at h
  split_ifs at h with hquorum
  · rcases hw : (n.coordinator.inPhase .Seal phaseStart
      n.coordinator.localSolution).collector.selectWinner env.values with _ | winner
    · rw [hw] at h
      cases h
      exact .sealed hphase
    · rw [hw] at h
      simp only at h
      split_ifs at h with hours
      · unfold EpochCoordinator.buildWon at h
        rcases hl : (n.coordinator.inPhase .Seal phaseStart
          n.coordinator.localSolution).localSolution with _ | solved
        · rw [hl] at h
          cases h
          exact .sealed hphase
        · rw [hl] at h
          simp only at h
          rcases hb : buildBlockFromSolution env.ext env.log2 clocks.unixNowSecs
            (n.coordinator.inPhase .Seal phaseStart n.coordinator.localSolution).chainHash
            ((n.coordinator.inPhase .Seal phaseStart n.coordinator.localSolution).chainHeight + 1)
            (n.coordinator.inPhase .Seal phaseStart n.coordinator.localSolution).minerAddress
            solved.problem solved.solution solved.solveTime solved.workScore
            (n.coordinator.inPhase .Seal phaseStart n.coordinator.localSolution).tipCumulativeWork
            1 [] with e | _ | block
          · rw [hb] at h
            cases h
          · rw [hb] at h
            cases h
            exact .sealed hphase
          · rw [hb] at h
            cases h
            exact .produced hphase hquorum (prevHash_of_build hb)
      · cases h
        exact .sealed hphase
  · cases h
    exact .sealed hphase

theorem step_phaseExpiry {clocks : Clocks} {n : Node} {s' : EpochCoordinator} {outputs : List Output}
    (h : n.coordinator.handlePhaseExpiry env clocks = .ok (s', outputs)) :
    Step env (.phaseExpiry clocks) n ⟨s', outputs.foldl noteOutput n.records⟩ := by
  unfold EpochCoordinator.handlePhaseExpiry at h
  simp only at h
  split_ifs at h with hdeadline hstalled
  · cases h
    exact step_startEpoch _ [_] (fun _ => rfl)
      (fun s' epoch hs => ⟨hs.1, hs.2, hs.3, hs.4, hs.5, hs.6, hs.7, hs.8, hs.9, hs.10⟩) rfl
  · cases h
    exact step_startEpoch _ [_] (fun _ => rfl)
      (fun s' epoch hs => ⟨hs.1, hs.2, hs.3, hs.4, hs.5, hs.6, hs.7, hs.8, hs.9, hs.10⟩) rfl
  · unfold EpochState.tryAdvance at h
    by_cases hexpired : n.coordinator.epochState.phaseExpired n.coordinator.config (clocks.clock 2) = true
    · rw [hexpired, Bool.not_true, if_neg Bool.false_ne_true] at h
      rcases hphase : n.coordinator.epochState.phase with _ | _ | _ | _
      · simp only [hphase, EpochPhase.next, EpochCoordinator.enterPhase, ne_eq, reduceCtorEq,
          not_false_eq_true, if_true] at h
        split at h
        · cases h
          rename_i heq
          split at heq
          · cases heq
            exact .advanced (by rw [hphase]; rfl) nofun
          · cases heq
            exact .advanced (by rw [hphase]; rfl) nofun
        · cases h
      · simp only [hphase, EpochPhase.next, EpochCoordinator.enterPhase, ne_eq, reduceCtorEq,
          not_false_eq_true, if_true] at h
        cases h
        exact .advanced (by rw [hphase]; rfl) nofun
      · simp only [hphase, EpochPhase.next, EpochCoordinator.enterPhase, ne_eq, reduceCtorEq,
          not_false_eq_true, if_true] at h
        split at h
        · cases h
          rename_i heq
          exact step_seal hphase heq
        · cases h
      · simp only [hphase, EpochPhase.next] at h
        have hpair := Except.ok.inj h
        rw [show s' = _ from (congrArg Prod.fst hpair).symm,
          show outputs = _ from (congrArg Prod.snd hpair).symm]
        exact step_startEpoch _ [] (fun _ => rfl) (fun _ _ => id) rfl
    · rw [Bool.not_eq_true] at hexpired
      rw [hexpired, Bool.not_false, if_pos rfl] at h
      simp only [ne_eq, not_true_eq_false, if_false] at h
      cases h
      exact .idle

theorem step_countCommit {cmd : CoordinatorCommand} {n : Node} {commit : SolutionCommit}
    {localSolution : Option LocalSolution} {outputs : List Output}
    (hnote : ∀ records, outputs.foldl noteOutput records = records)
    (hbrings : Brings n.coordinator cmd commit) :
    let counted := ({ n.coordinator with localSolution := localSolution } : EpochCoordinator).countCommit
      env n.coordinator.epochState.epoch commit
    Step env (.command cmd) n ⟨counted.1, (counted.2 ++ outputs).foldl noteOutput n.records⟩ := by
  intro counted
  have hstep := @Step.committed env cmd n commit localSolution hbrings
  rw [List.foldl_append, hnote]
  simp only [counted, EpochCoordinator.countCommit]
  by_cases haccepts : n.coordinator.collector.accepts env.ext env.allowUnsigned commit = true
  · rw [if_pos haccepts] at hstep ⊢
    exact hstep
  · rw [if_neg haccepts] at hstep ⊢
    exact hstep

theorem step_command (cmd : CoordinatorCommand) (n : Node) :
    Step env (.command cmd) n ⟨(n.coordinator.handleCommand env cmd).1,
      (n.coordinator.handleCommand env cmd).2.foldl noteOutput n.records⟩ := by
  cases cmd with
  | SaltReceived epoch salt src =>
    rw [EpochCoordinator.handleCommand]
    split_ifs with haccepts
    · exact .saltSet haccepts
    · exact .idle
  | LocalSolutionReady epoch solutionHash workScore problem solution solveTime =>
    rw [EpochCoordinator.handleCommand]
    split_ifs with hepoch
    · exact .idle
    · rw [ne_eq, not_not] at hepoch
      subst hepoch
      exact step_countCommit (fun _ => rfl)
        (.inr ⟨solutionHash, workScore, problem, solution, solveTime, rfl, rfl⟩)
  | CommitReceived epoch commit =>
    rw [EpochCoordinator.handleCommand]
    split_ifs with hepoch
    · exact .idle
    · rw [ne_eq, not_not] at hepoch
      subst hepoch
      have hbrings : Brings n.coordinator (.CommitReceived n.coordinator.epochState.epoch commit) commit :=
        .inl rfl
      have hstep := @step_countCommit env _ n commit n.coordinator.localSolution [] (fun _ => rfl) hbrings
      simp only [List.append_nil] at hstep
      exact hstep
  | PeerJoined nodeId => exact .peerJoined nodeId
  | PeerLeft nodeId => exact .peerLeft nodeId
  | ChainTipUpdated height hash bestCumulativeWork => exact .tipUpdated height hash bestCumulativeWork

/-- Every step of the task is one of these. -/
theorem step_next (input : Input) (n : Node) : Step env input n ((machine env).next input n) := by
  change Step env input n (match n.coordinator.handle env input with
    | .ok (s, outputs) => ⟨s, outputs.foldl noteOutput n.records⟩
    | .error _ => n)
  cases input with
  | phaseExpiry clocks =>
    rcases h : n.coordinator.handle env (.phaseExpiry clocks) with e | ⟨s', outputs⟩
    · exact .idle
    · exact step_phaseExpiry h
  | command cmd => exact step_command cmd n

theorem start_coordinator (now : ℕ) (s : EpochCoordinator) :
    Restarted env 1 { s with peers := s.peers.insert s.ourId } (start env now s).coordinator :=
  restarted_startEpoch ..

theorem start_records (now : ℕ) (s : EpochCoordinator) :
    (start env now s).records = [.started 1 s.chainHash (deriveSalt env.ext 1 s.chainHash)] :=
  @note_startEpoch env now 1 { s with peers := s.peers.insert s.ourId } []

end Steps

end Coinjecture.Consensus.Coordinator.Machine
