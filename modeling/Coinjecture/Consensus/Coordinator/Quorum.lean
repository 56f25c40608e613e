import Coinjecture.Consensus.Coordinator.Machine

/-! # The quorum behind a block

The collector counts commits, not members: it looks neither at the peer set nor at whose id a key belongs
to, and lets unsigned commits pass. A sealed epoch is backed by a quorum of members if only genuine commits
of members are counted and no member leaves whose commit is. -/

namespace Coinjecture.Consensus.Coordinator.Quorum

open Lib.Bincode Lib.Float64 Lib.Trace
open Core.Types Core.Extern
open Consensus.Coordinator.Commit Consensus.Coordinator.Commit.CommitCollector
open Consensus.Coordinator.Epoch Consensus.Coordinator.Machine

variable (env : Env)

/-- `NodeId::from_public_key`. -/
def nodeIdOf (key : PublicKey) : NodeId := env.ext.sha256 key.asBytes

/-- The commit is signed for the epoch with the key that belongs to its node id. -/
def Genuine (epoch : UInt64) (c : SolutionCommit) : Prop :=
  nodeIdOf env c.publicKey = c.nodeId ∧ env.ext.ed25519Verify c.publicKey
    (commitSigningMessage epoch c.solutionHash c.workScore) (signatureFromBytes c.signature) = true

instance (epoch : UInt64) (c : SolutionCommit) : Decidable (Genuine env epoch c) :=
  inferInstanceAs (Decidable (_ ∧ _))

/-- The members of the peer set with a genuine commit among those counted. -/
def committedMembers (s : EpochCoordinator) : List NodeId :=
  s.peers.ids.filter fun id => s.collector.commits.any fun c =>
    c.nodeId = id ∧ Genuine env s.epochState.epoch c

/-- At least `ceil(threshold · peers)` members have a genuine commit. -/
def Backed (s : EpochCoordinator) : Prop :=
  required s.peers.len s.config.quorumThreshold ≤ (committedMembers env s).length

instance (s : EpochCoordinator) : Decidable (Backed env s) := inferInstanceAs (Decidable (_ ≤ _))

def blockCount (n : Node) : ℕ := (n.records.flatMap EpochRecord.blocks).length

/-- The step produces a block. -/
def Produces (p : Input × Node) : Prop := blockCount p.2 < blockCount ((machine env).next p.1 p.2)

instance (p : Input × Node) : Decidable (Produces env p) := inferInstanceAs (Decidable (_ < _))

/-- A commit that is counted is a genuine one of a member. -/
def CountsMember (epoch : UInt64) (commit : SolutionCommit) (s : EpochCoordinator) : Prop :=
  epoch = s.epochState.epoch → s.collector.accepts env.ext env.allowUnsigned commit = true →
    commit.nodeId ∈ s.peers.ids ∧ Genuine env epoch commit

instance (epoch : UInt64) (commit : SolutionCommit) (s : EpochCoordinator) :
    Decidable (CountsMember env epoch commit s) := inferInstanceAs (Decidable (_ → _ → _ ∧ _))

/-- The step counts only genuine commits of members, the node's own included, and no member leaves whose
commit is counted. -/
def MembersOnly (p : Input × Node) : Prop :=
  let s := p.2.coordinator
  match p.1 with
  | .command (.CommitReceived epoch commit) => CountsMember env epoch commit s
  | .command (.LocalSolutionReady epoch solutionHash workScore ..) =>
    CountsMember env epoch (s.ownCommit epoch solutionHash workScore) s
  | .command (.PeerLeft id) => ∀ c ∈ s.collector.commits, c.nodeId ≠ id
  | _ => True

instance : DecidablePred (MembersOnly env) := fun p =>
  match p with
  | (.command (.CommitReceived epoch commit), n) =>
    inferInstanceAs (Decidable (CountsMember env epoch commit n.coordinator))
  | (.command (.LocalSolutionReady epoch solutionHash workScore ..), n) => inferInstanceAs (Decidable
    (CountsMember env epoch (n.coordinator.ownCommit epoch solutionHash workScore) n.coordinator))
  | (.command (.PeerLeft id), n) =>
    inferInstanceAs (Decidable (∀ c ∈ n.coordinator.collector.commits, c.nodeId ≠ id))
  | (.phaseExpiry _, _) => isTrue trivial
  | (.command (.SaltReceived ..), _) => isTrue trivial
  | (.command (.ChainTipUpdated ..), _) => isTrue trivial
  | (.command (.PeerJoined _), _) => isTrue trivial

/-! ### What a step preserves -/

/-- The collected commits are genuine ones of members, one of each. -/
structure Inv (s : EpochCoordinator) : Prop where
  epoch_eq : s.collector.epoch = s.epochState.epoch
  wellFormed : WellFormed env.ext env.allowUnsigned s.collector
  members : ∀ c ∈ s.collector.commits, c.nodeId ∈ s.peers.ids ∧ Genuine env s.epochState.epoch c

variable {env}

theorem inv_restarted {s s' : EpochCoordinator} {epoch : UInt64} (h : Restarted env epoch s s') :
    Inv env s' := by
  refine ⟨?_, ?_, fun c hc => ?_⟩
  · rw [h.collector_eq, h.epoch_eq]
    rfl
  · rw [h.collector_eq]
    exact wellFormed_new
  · rw [h.collector_eq] at hc
    cases hc

theorem countsMember_of_brings {n : Node} {cmd : CoordinatorCommand} {commit : SolutionCommit}
    (hmembers : MembersOnly env (.command cmd, n)) (hbrings : Brings n.coordinator cmd commit) :
    CountsMember env n.coordinator.epochState.epoch commit n.coordinator := by
  rcases hbrings with rfl | ⟨solutionHash, workScore, problem, solution, solveTime, rfl, rfl⟩
  · exact hmembers
  · exact hmembers

/-- Every step keeps the invariant. -/
theorem inv_step {input : Input} {n n' : Node} (h : Inv env n.coordinator)
    (hmembers : MembersOnly env (input, n)) (hstep : Step env input n n') : Inv env n'.coordinator := by
  cases hstep with
  | restarted hs => exact inv_restarted hs
  | advanced hnext hseal => exact ⟨h.epoch_eq, h.wellFormed, h.members⟩
  | sealed hphase => exact ⟨h.epoch_eq, h.wellFormed, h.members⟩
  | produced hphase hquorum hprev => exact ⟨h.epoch_eq, h.wellFormed, h.members⟩
  | saltSet haccepts => exact ⟨h.epoch_eq, h.wellFormed, h.members⟩
  | @committed cmd _ commit localSolution hbrings =>
    refine ⟨(epoch_addCommit _ _).trans h.epoch_eq, h.wellFormed.addCommit commit, fun c hc => ?_⟩
    rcases mem_addCommit.mp hc with hc | ⟨rfl, haccepts⟩
    · exact h.members c hc
    · have hcounts := countsMember_of_brings (n := n) hmembers hbrings rfl haccepts
      exact hcounts
  | peerJoined nodeId =>
    refine ⟨h.epoch_eq, h.wellFormed, fun c hc => ?_⟩
    obtain ⟨hmem, hgenuine⟩ := h.members c hc
    exact ⟨PeerSet.mem_insert.mpr (.inr hmem), hgenuine⟩
  | peerLeft nodeId =>
    refine ⟨h.epoch_eq, h.wellFormed, fun c hc => ?_⟩
    obtain ⟨hmem, hgenuine⟩ := h.members c hc
    exact ⟨PeerSet.mem_remove.mpr ⟨hmembers c hc, hmem⟩, hgenuine⟩
  | tipUpdated height hash work => exact ⟨h.epoch_eq, h.wellFormed, h.members⟩
  | idle => exact h

/-- Every collected commit is that of another committed member. -/
theorem length_commits_le {s : EpochCoordinator} (h : Inv env s) :
    s.collector.commits.length ≤ (committedMembers env s).length := by
  have hnodup : (s.collector.commits.map SolutionCommit.nodeId).Nodup :=
    List.pairwise_map.mpr h.wellFormed.senders
  have hsubset : s.collector.commits.map SolutionCommit.nodeId ⊆ committedMembers env s := by
    intro id hid
    obtain ⟨c, hc, rfl⟩ := List.mem_map.mp hid
    obtain ⟨hmem, hgenuine⟩ := h.members c hc
    refine List.mem_filter.mpr ⟨hmem, List.any_eq_true.mpr ⟨c, hc, ?_⟩⟩
    exact decide_eq_true ⟨rfl, hgenuine⟩
  have hle := (hnodup.subperm hsubset).length_le
  rwa [List.length_map] at hle

theorem blockCount_updateCurrent {f : EpochRecord → EpochRecord} (hf : ∀ r, (f r).blocks = r.blocks)
    (s : EpochCoordinator) (records : List EpochRecord) :
    blockCount ⟨s, updateCurrent f records⟩ = (records.flatMap EpochRecord.blocks).length := by
  cases records with
  | nil => rfl
  | cons r rs =>
    rw [blockCount, updateCurrent, List.flatMap_cons, List.flatMap_cons, hf]

/-- A block is produced only with a quorum in the collector. -/
theorem quorum_of_produces {p : Input × Node} (h : Produces env p) :
    p.2.coordinator.collector.hasQuorum p.2.coordinator.peers.len
      p.2.coordinator.config.quorumThreshold = true := by
  obtain ⟨input, n⟩ := p
  unfold Produces at h
  have hstep := @step_next env input n
  generalize (machine env).next input n = n' at h hstep
  have hsame : blockCount n < (n.records.flatMap EpochRecord.blocks).length → False :=
    fun hlt => absurd hlt (lt_irrefl _)
  cases hstep with
  | produced hphase hquorum hprev => exact hquorum
  | restarted hs => exact (hsame h).elim
  | @advanced clocks _ phase phaseStart hnext hseal =>
    rw [blockCount_updateCurrent (f := EpochRecord.enter phase) fun _ => rfl] at h
    exact (hsame h).elim
  | sealed hphase =>
    rw [blockCount_updateCurrent (f := EpochRecord.enter .Seal) fun _ => rfl] at h
    exact (hsame h).elim
  | @saltSet _ epoch salt src haccepts =>
    rw [blockCount_updateCurrent (f := EpochRecord.setSalt salt) fun _ => rfl] at h
    exact (hsame h).elim
  | @committed cmd _ commit localSolution hbrings =>
    split_ifs at h
    · rw [blockCount_updateCurrent
        (f := EpochRecord.count n.coordinator.epochState.epoch commit) fun _ => rfl] at h
      exact (hsame h).elim
    · exact (hsame h).elim
  | peerJoined nodeId => exact (hsame h).elim
  | peerLeft nodeId => exact (hsame h).elim
  | tipUpdated height hash work => exact (hsame h).elim
  | idle => exact (hsame h).elim

/-- In a run that counts members only, every block is backed by a quorum of them. -/
theorem blocks_backed (env : Env) (now : ℕ) (s : EpochCoordinator) (inputs : List Input)
    (hmembers : ∀ p ∈ (machine env).trace inputs (start env now s), MembersOnly env p) :
    ∀ p ∈ (machine env).trace inputs (start env now s), Produces env p → Backed env p.2.coordinator := by
  intro p hp hproduces
  have hstep : ∀ p ∈ (machine env).trace inputs (start env now s), Inv env p.2.coordinator →
      Inv env ((machine env).next p.1 p.2).coordinator := fun p hp hinv =>
    inv_step hinv (hmembers p hp) (step_next p.1 p.2)
  have hstart : Inv env (start env now s).coordinator := inv_restarted (start_coordinator now s)
  have hinv := Machine.invariant_trace (P := fun n => Inv env n.coordinator) hstep hstart p hp
  have hquorum := quorum_of_produces hproduces
  rw [hasQuorum] at hquorum
  split_ifs at hquorum
  calc required p.2.coordinator.peers.len p.2.coordinator.config.quorumThreshold
      ≤ p.2.coordinator.collector.commits.length := of_decide_eq_true hquorum
    _ ≤ (committedMembers env p.2.coordinator).length := length_commits_le hinv

namespace Sample

/-- A node that signs its commits; its key 5 belongs to its id. -/
def signer : SigningKey := ⟨⟨5⟩, fun _ => List.replicate 64 1⟩

def signing : Env where
  ext := .ofTables [] [(⟨5⟩, commitSigningMessage 1 ⟨3⟩ F64.one,
    signatureFromBytes (List.replicate 64 1))]
  log2 _ := F64.zero
  allowUnsigned := true
  values := .id

def signingNode : EpochCoordinator := .withSigningKey 0 0 .default 6 ⟨5⟩ 100 ⟨2⟩ (some signer)

def quietEpoch : List Input :=
  [Machine.Sample.expiry 2, Machine.Sample.solved, Machine.Sample.expiry 22, Machine.Sample.expiry 27]

/-- An unsigned commit under any id. -/
def forged (nodeId : NodeId) : Input :=
  .command (.CommitReceived 1 ⟨nodeId, ⟨0⟩, ⟨4⟩, ⟨0x3FE0000000000000⟩, []⟩)

/-- The node has two peers; the commits are its own and those of two strangers. -/
def strangers : List Input :=
  [.command (.PeerJoined 1), .command (.PeerJoined 3), Machine.Sample.expiry 2, Machine.Sample.solved,
    Machine.Sample.expiry 22, forged 8, forged 9, Machine.Sample.expiry 27]

end Sample

/-- A node that is alone and signs. -/
theorem blocks_backed_quietEpoch :
    (∃ p ∈ (machine Sample.signing).trace Sample.quietEpoch (start Sample.signing 0 Sample.signingNode),
      Produces Sample.signing p) ∧
    ∀ p ∈ (machine Sample.signing).trace Sample.quietEpoch (start Sample.signing 0 Sample.signingNode),
      Produces Sample.signing p → Backed Sample.signing p.2.coordinator := by
  refine ⟨by decide +kernel, blocks_backed Sample.signing 0 Sample.signingNode Sample.quietEpoch ?_⟩
  decide +kernel

/-- Two forged commits of nodes that are no peers make the quorum of a block. -/
theorem strangers_make_quorum :
    ¬ ∀ p ∈ (machine Machine.Sample.environment).trace Sample.strangers
        (start Machine.Sample.environment 0 Machine.Sample.node),
      Produces Machine.Sample.environment p → Backed Machine.Sample.environment p.2.coordinator := by
  decide +kernel

end Coinjecture.Consensus.Coordinator.Quorum
