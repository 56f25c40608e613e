import Coinjecture.Consensus.Coordinator.Machine
import Coinjecture.Network.Mesh.Protocol

/-! # Commits on the mesh

A commit goes from the coordinator of its node to the bridge, over the mesh as a payload, and from the bridge
of another node to its coordinator, in a form of its own each time. The event of the coordinator has neither
the signature nor the key, the handler of the service fills in an empty signature, and the other end a key of
zeros (`broadcast_arrives`), so that what is left is an unsigned commit.

* `Foreign`, `foreign_run` : whatever comes over the mesh, a collector holds unsigned commits, and its node's own.
* `never_survives` : so no commit of another node is there as it was made and signed. -/

namespace Coinjecture.Network.Mesh.CommitDelivery

open Lib.Bincode Lib.Float64 Lib.Trace
open Core.Types Core.Problem Core.Extern
open Consensus.Coordinator.Commit Consensus.Coordinator.Commit.CommitCollector
open Consensus.Coordinator.Epoch Consensus.Coordinator.Machine
open Network.Mesh.Protocol (Payload NodeCommit)

/-! ### The five forms of a commit -/

/-- The commands of the bridge that the coordinator's events become. A produced block has one, too, which is
not considered here. -/
inductive BridgeCommand where
  | BroadcastConsensusSalt (epoch : UInt64) (salt : Bytes32)
  | BroadcastCommit (epoch : UInt64) (solutionHash nodeId : Bytes32) (workScore : F64) (signature : Bytes)
  deriving DecidableEq

/-- The event handler of the coordinator. -/
def forwardEvent (coordNodeId : Bytes32) : CoordinatorEvent → Option BridgeCommand
  | .BroadcastSalt epoch salt => some (.BroadcastConsensusSalt epoch salt)
  | .BroadcastCommit epoch solutionHash workScore =>
    some (.BroadcastCommit epoch solutionHash.bytes coordNodeId workScore [])
  | _ => none

/-- What `run_bridge` broadcasts. -/
def runBridgeCommand : BridgeCommand → Payload
  | .BroadcastConsensusSalt epoch salt => .ConsensusSalt epoch salt
  | .BroadcastCommit epoch solutionHash nodeId workScore signature =>
    .Commit epoch solutionHash [⟨⟨nodeId⟩, solutionHash, workScore, signature⟩]

/-- The events of the bridge that are for the coordinator. -/
inductive BridgeEvent where
  | ConsensusSaltReceived (epoch : UInt64) (salt : Bytes32) («from» : Protocol.NodeId)
  | ConsensusCommitReceived (epoch : UInt64) (blockHash : Bytes32) (commits : List NodeCommit)
      («from» : Protocol.NodeId)
  deriving DecidableEq

/-- What `run_bridge` reports of a message. -/
def runBridgeEvent (src : Protocol.NodeId) : Payload → Option BridgeEvent
  | .ConsensusSalt epoch salt => some (.ConsensusSaltReceived epoch salt src)
  | .Commit epoch blockHash commits => some (.ConsensusCommitReceived epoch blockHash commits src)
  | _ => none

/-- The commit that is made of one from the network. -/
def receivedCommit (commit : NodeCommit) : SolutionCommit where
  nodeId := commit.nodeId.bytes
  solutionHash := ⟨commit.solutionHash⟩
  workScore := commit.workScore
  signature := commit.signature
  -- the default of the migration, for every peer
  publicKey := ⟨0⟩

/-- The event handler of the bridge. -/
def handleBridgeEvent : BridgeEvent → List CoordinatorCommand
  | .ConsensusSaltReceived epoch salt src => [.SaltReceived epoch salt src.bytes]
  | .ConsensusCommitReceived epoch _ commits _ =>
    commits.map fun commit => .CommitReceived epoch (receivedCommit commit)

/-! ### A node on the mesh -/

/-- What happens at a node: the timers and commands of its own, and a message of the mesh. -/
inductive NodeInput where
  | phaseExpiry (clocks : Clocks)
  | localSolutionReady (epoch : UInt64) (solutionHash : Hash) (workScore : F64) (problem : ProblemType)
      (solution : Solution) (solveTime : ℕ)
  | peerJoined (nodeId : NodeId)
  | peerLeft (nodeId : NodeId)
  | chainTipUpdated (height : UInt64) (hash : Hash) (bestCumulativeWork : BitVec 128)
  | message («from» : Protocol.NodeId) (payload : Payload)

/-- The inputs of the coordinator. -/
def NodeInput.inputs : NodeInput → List Input
  | .phaseExpiry clocks => [.phaseExpiry clocks]
  | .localSolutionReady epoch solutionHash workScore problem solution solveTime =>
    [.command (.LocalSolutionReady epoch solutionHash workScore problem solution solveTime)]
  | .peerJoined nodeId => [.command (.PeerJoined nodeId)]
  | .peerLeft nodeId => [.command (.PeerLeft nodeId)]
  | .chainTipUpdated height hash work => [.command (.ChainTipUpdated height hash work)]
  | .message src payload => ((runBridgeEvent src payload).elim [] handleBridgeEvent).map .command

variable (env : Env)

/-- The node after these inputs. -/
def after (inputs : List NodeInput) (n : Node) : Node :=
  (machine env).final (inputs.flatMap NodeInput.inputs) n

/-- What a node broadcasts when it handles a command. -/
def broadcasts (cmd : CoordinatorCommand) (s : EpochCoordinator) : List Payload :=
  (s.handleCommand env cmd).2.filterMap fun output =>
    match output with
    | .sent event => (forwardEvent s.ourId event).map runBridgeCommand
    | _ => none

/-- The collector of the node holds the commit with all its fields as they were, and would without the bypass
for unsigned ones. -/
structure Holds (commit : SolutionCommit) (n : Node) : Prop where
  unchanged : commit ∈ n.coordinator.collector.commits
  signed : verifyCommitSignature env.ext false n.coordinator.collector.epoch commit = true

/-- The node `n` gets what `s` has broadcast of its solution, among other inputs in any order, and has the
commit. -/
def Survives (s : EpochCoordinator) (epoch : UInt64) (solutionHash : Hash) (workScore : F64)
    (problem : ProblemType) (solution : Solution) (solveTime : ℕ) (inputs : List NodeInput) (n : Node) : Prop :=
  (∃ payload ∈ broadcasts env (.LocalSolutionReady epoch solutionHash workScore problem solution solveTime) s,
    .message ⟨s.ourId⟩ payload ∈ inputs) ∧
  Holds env (s.ownCommit epoch solutionHash workScore) (after env inputs n)

variable {env}

/-! ### What arrives -/

/-- The commit of a solution arrives without its signature and key. -/
theorem broadcast_arrives {s : EpochCoordinator} {epoch : UInt64} (hepoch : epoch = s.epochState.epoch)
    (solutionHash : Hash) (workScore : F64) (problem : ProblemType) (solution : Solution) (solveTime : ℕ) :
    (broadcasts env (.LocalSolutionReady epoch solutionHash workScore problem solution solveTime) s).flatMap
        (fun payload => (NodeInput.message ⟨s.ourId⟩ payload).inputs) =
      [.command (.CommitReceived epoch ⟨s.ourId, ⟨0⟩, solutionHash, workScore, []⟩)] := by
  subst hepoch
  simp only [broadcasts, EpochCoordinator.handleCommand, ne_eq, not_true_eq_false, if_false,
    EpochCoordinator.countCommit]
  split_ifs
  · rfl
  · rfl

/-- An unsigned commit is let in by the bypass or not at all. -/
theorem admissible_unsigned {ext : Ext} {allowUnsigned : Bool} {epoch : UInt64} {commit : SolutionCommit}
    (hkey : commit.publicKey = ⟨0⟩) (hfinite : commit.workScore.isFinite = true)
    (hpositive : commit.workScore.le F64.zero = false) :
    admissible ext allowUnsigned epoch commit = allowUnsigned := by
  rw [admissible, hfinite, hpositive, verifyCommitSignature, if_pos (.inl hkey)]
  rfl

/-! ### What a collector holds -/

/-- The node has kept its id, and its collector holds unsigned commits and its own. -/
structure Foreign (ourId : NodeId) (n : Node) : Prop where
  id_eq : n.coordinator.ourId = ourId
  commits : ∀ c ∈ n.coordinator.collector.commits, c.publicKey = ⟨0⟩ ∨ c.nodeId = ourId

/-- The commits that come over the mesh have no key. -/
theorem publicKey_of_mem_inputs {inputs : List NodeInput} {epoch : UInt64} {commit : SolutionCommit}
    (h : .command (.CommitReceived epoch commit) ∈ inputs.flatMap NodeInput.inputs) : commit.publicKey = ⟨0⟩ := by
  obtain ⟨input, -, hmem⟩ := List.mem_flatMap.mp h
  cases input with
  | message src payload =>
    obtain ⟨cmd, hcmd, heq⟩ := List.mem_map.mp hmem
    obtain rfl := Input.command.inj heq
    rcases hevent : runBridgeEvent src payload with _ | event
    · rw [hevent] at hcmd
      cases hcmd
    · rw [hevent, Option.elim_some] at hcmd
      cases event with
      | ConsensusSaltReceived epoch' salt src' => cases List.mem_singleton.mp hcmd
      | ConsensusCommitReceived epoch' blockHash commits src' =>
        obtain ⟨c, -, hc⟩ := List.mem_map.mp hcmd
        rw [← (CoordinatorCommand.CommitReceived.inj hc).2]
        rfl
  | _ => cases List.mem_singleton.mp hmem

theorem foreign_step {ourId : NodeId} {input : Input} {n n' : Node} (hstep : Step env input n n')
    (hkeys : ∀ epoch commit, input = .command (.CommitReceived epoch commit) → commit.publicKey = ⟨0⟩)
    (h : Foreign ourId n) : Foreign ourId n' := by
  cases hstep with
  | restarted hs =>
    refine ⟨hs.ourId_eq.trans h.id_eq, fun c hc => ?_⟩
    rw [hs.collector_eq] at hc
    cases hc
  | committed hbrings =>
    refine ⟨h.id_eq, fun c hc => ?_⟩
    rcases mem_addCommit.mp hc with hc | ⟨rfl, -⟩
    · exact h.commits c hc
    · rcases hbrings with rfl | ⟨solutionHash, workScore, problem, solution, solveTime, -, rfl⟩
      · exact .inl (hkeys _ _ rfl)
      · refine .inr (Eq.trans ?_ h.id_eq)
        unfold EpochCoordinator.ownCommit
        split
        · rfl
        · rfl
  | _ => exact ⟨h.id_eq, h.commits⟩

theorem foreign_start (env : Env) (now : ℕ) (r : EpochCoordinator) : Foreign r.ourId (start env now r) := by
  have hs := @restarted_startEpoch env now 1 { r with peers := r.peers.insert r.ourId }
  refine ⟨hs.ourId_eq, fun c hc => ?_⟩
  have hcollector : (start env now r).coordinator.collector = .new 1 := hs.collector_eq
  rw [hcollector] at hc
  cases hc

/-- Whatever comes over the mesh. -/
theorem foreign_run (env : Env) (now : ℕ) (r : EpochCoordinator) (inputs : List NodeInput) :
    Foreign r.ourId (after env inputs (start env now r)) := by
  refine Machine.invariant (fun p hp h => ?_) (foreign_start env now r)
  refine foreign_step (step_next p.1 p.2) (fun epoch commit heq => ?_) h
  have hmem := Machine.mem_of_mem_trace hp
  rw [heq] at hmem
  exact publicKey_of_mem_inputs hmem

theorem nodeId_ownCommit (s : EpochCoordinator) (epoch : UInt64) (solutionHash : Hash) (workScore : F64) :
    (s.ownCommit epoch solutionHash workScore).nodeId = s.ourId := by
  unfold EpochCoordinator.ownCommit
  split
  · rfl
  · rfl

/-- No collector holds a commit of another node as it was made and signed. -/
theorem not_holds {now : ℕ} {r s : EpochCoordinator} (hother : r.ourId ≠ s.ourId) (epoch : UInt64)
    (solutionHash : Hash) (workScore : F64) (inputs : List NodeInput) :
    ¬ Holds env (s.ownCommit epoch solutionHash workScore) (after env inputs (start env now r)) := by
  rintro ⟨hmem, hsigned⟩
  rcases (foreign_run env now r inputs).commits _ hmem with hkey | hid
  · rw [verifyCommitSignature, if_pos (.inl hkey)] at hsigned
    cases hsigned
  · rw [nodeId_ownCommit] at hid
    exact hother hid.symm

/-- A commit never survives the way to another node. -/
theorem never_survives (env : Env) (s : EpochCoordinator) (epoch : UInt64) (solutionHash : Hash)
    (workScore : F64) (problem : ProblemType) (solution : Solution) (solveTime : ℕ) (now : ℕ)
    (r : EpochCoordinator) (hother : r.ourId ≠ s.ourId) (inputs : List NodeInput) :
    ¬ Survives env s epoch solutionHash workScore problem solution solveTime inputs (start env now r) :=
  fun h => not_holds hother epoch solutionHash workScore inputs h.2

/-! ### A signed commit -/

namespace Sample

/-- The key of node 1 signs everything with 64 ones. -/
def key : SigningKey := ⟨⟨1⟩, fun _ => List.replicate 64 1⟩

def environment : Env :=
  { ext := { Ext.ofTables [] [] with ed25519Verify := fun publicKey _ signature =>
      publicKey = ⟨1⟩ ∧ signature = signatureFromBytes (List.replicate 64 1) }
    log2 := fun _ => F64.zero
    allowUnsigned := true
    values := .id }

/-- A node with this id on tip 5. -/
def coordinator (ourId : NodeId) (signingKey : Option SigningKey) : EpochCoordinator :=
  .withSigningKey 0 ourId .default 6 ⟨5⟩ 100 ⟨ourId⟩ signingKey

/-- Node 1 in its first epoch. -/
def alice : EpochCoordinator := (start environment 0 (coordinator 1 (some key))).coordinator

theorem alice_signs : verifyCommitSignature environment.ext false 1 (alice.ownCommit 1 ⟨3⟩ F64.one) = true := by
  decide +kernel

end Sample

/-- A commit of node 1 that is signed and of score 1 does not come to node 2 as it is. -/
theorem signature_is_dropped : ¬ ∀ (env : Env) (s r : EpochCoordinator) (sk : SigningKey) (epoch : UInt64)
    (solutionHash : Hash) (workScore : F64) (problem : ProblemType) (solution : Solution) (solveTime now : ℕ)
    (inputs : List NodeInput) (payload : Payload), s.signingKey = some sk → epoch = s.epochState.epoch →
    verifyCommitSignature env.ext false epoch (s.ownCommit epoch solutionHash workScore) = true →
    workScore.isFinite = true → workScore.le F64.zero = false → r.ourId ≠ s.ourId →
    payload ∈ broadcasts env (.LocalSolutionReady epoch solutionHash workScore problem solution solveTime) s →
    (after env inputs (start env now r)).coordinator.epochState.epoch = epoch →
    Holds env (s.ownCommit epoch solutionHash workScore)
      (after env (inputs ++ [.message ⟨s.ourId⟩ payload]) (start env now r)) := by
  intro h
  have hother : (Sample.coordinator 2 none).ourId ≠ Sample.alice.ourId := by decide +kernel
  have harrives := h Sample.environment Sample.alice (Sample.coordinator 2 none) Sample.key 1 ⟨3⟩ F64.one
    (.SubsetSum [1] 1) (.SubsetSum [0]) 1000000 0 [] (.Commit 1 3 [⟨⟨1⟩, 3, F64.one, []⟩]) rfl (by decide +kernel)
    Sample.alice_signs (by decide) (by decide) hother (by decide +kernel) (by decide +kernel)
  exact not_holds hother 1 ⟨3⟩ F64.one _ harrives

theorem aliceCommit_lost : ¬ Survives Sample.environment Sample.alice 1 ⟨3⟩ F64.one (.SubsetSum [1] 1)
    (.SubsetSum [0]) 1000000 [.message ⟨1⟩ (.Commit 1 3 [⟨⟨1⟩, 3, F64.one, []⟩])]
    (start Sample.environment 0 (Sample.coordinator 2 none)) :=
  never_survives Sample.environment Sample.alice 1 ⟨3⟩ F64.one (.SubsetSum [1] 1) (.SubsetSum [0]) 1000000 0
    (Sample.coordinator 2 none) (by decide +kernel) _

end Coinjecture.Network.Mesh.CommitDelivery
