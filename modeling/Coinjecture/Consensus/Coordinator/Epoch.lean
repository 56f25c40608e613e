import Coinjecture.Consensus.Coordinator.Commit
import Coinjecture.Core.Crypto

/-! # Phases, peers and leaders

The state of one epoch and its clock, and the leader that the peer set elects for an epoch and a tip.
Instants and durations are nanoseconds; `elapsed` saturates at zero. The peer set is a sorted list
without repetitions, so that its elements can be counted off. -/

namespace Coinjecture.Consensus.Coordinator.Epoch

open Lib.Bincode Lib.Float64
open Core.Types Core.Extern Core.Crypto
open Consensus.Coordinator.Commit

/-- `CoordinatorConfig`, without the failover depth, which the coordinator does not read. -/
structure CoordinatorConfig where
  saltDuration : ℕ
  mineDuration : ℕ
  commitDuration : ℕ
  sealDuration : ℕ
  quorumThreshold : F64
  stallTimeout : ℕ
  maxConsecutiveStalls : UInt32

/-- `CoordinatorConfig::default`. -/
def CoordinatorConfig.default : CoordinatorConfig where
  saltDuration := 2000000000
  mineDuration := 20000000000
  commitDuration := 5000000000
  sealDuration := 3000000000
  quorumThreshold := ⟨0x3FE570A3D70A3D71⟩
  stallTimeout := 10000000000
  maxConsecutiveStalls := 3

inductive EpochPhase where
  | Salt | Mine | Commit | Seal
  deriving DecidableEq

namespace EpochPhase

def duration (config : CoordinatorConfig) : EpochPhase → ℕ
  | Salt => config.saltDuration
  | Mine => config.mineDuration
  | Commit => config.commitDuration
  | Seal => config.sealDuration

def next : EpochPhase → Option EpochPhase
  | Salt => some Mine
  | Mine => some Commit
  | Commit => some Seal
  | Seal => none

/-- `Display`. -/
def display : EpochPhase → String
  | Salt => "Salt"
  | Mine => "Mine"
  | Commit => "Commit"
  | Seal => "Seal"

end EpochPhase

structure EpochState where
  epoch : UInt64
  phase : EpochPhase
  phaseStart : ℕ
  epochStart : ℕ
  salt : Option Bytes32
  deriving DecidableEq

namespace EpochState

/-- `EpochState::new`. -/
def new (now : ℕ) (epoch : UInt64) : EpochState := ⟨epoch, .Salt, now, now, none⟩

def phaseElapsed (now : ℕ) (s : EpochState) : ℕ := now - s.phaseStart

def epochElapsed (now : ℕ) (s : EpochState) : ℕ := now - s.epochStart

def phaseExpired (config : CoordinatorConfig) (now : ℕ) (s : EpochState) : Bool :=
  s.phase.duration config ≤ s.phaseElapsed now

def isStalled (config : CoordinatorConfig) (now : ℕ) (s : EpochState) : Bool :=
  s.phase.duration config + config.stallTimeout ≤ s.phaseElapsed now

def hasExceededHardDeadline (config : CoordinatorConfig) (now : ℕ) (s : EpochState) : Bool :=
  config.saltDuration + config.mineDuration + config.commitDuration + config.sealDuration +
    config.stallTimeout * 2 ≤ s.epochElapsed now

/-- `try_advance`: the new state, and the phase it reports. -/
def tryAdvance (config : CoordinatorConfig) (now phaseStart : ℕ) (s : EpochState) :
    EpochState × Option EpochPhase :=
  if !s.phaseExpired config now then (s, some s.phase)
  else
    match s.phase.next with
    | some nextPhase => ({ s with phase := nextPhase, phaseStart := phaseStart }, some nextPhase)
    | none => (s, none)

def setSalt (salt : Bytes32) (s : EpochState) : EpochState := { s with salt := some salt }

end EpochState

/-! ### Peers -/

/-- `BTreeSet::insert` on the list of the elements. -/
def insertSorted (id : NodeId) : List NodeId → List NodeId
  | [] => [id]
  | y :: ys => if id < y then id :: y :: ys else if id = y then y :: ys else y :: insertSorted id ys

theorem mem_insertSorted {id a : NodeId} {ids : List NodeId} :
    a ∈ insertSorted id ids ↔ a = id ∨ a ∈ ids := by
  induction ids with
  | nil => simp [insertSorted]
  | cons y ys ih =>
    rw [insertSorted]
    split_ifs with hlt heq
    · rw [List.mem_cons]
    · rw [heq, List.mem_cons]
      tauto
    · rw [List.mem_cons, ih, List.mem_cons]
      tauto

theorem pairwise_insertSorted {id : NodeId} {ids : List NodeId} (h : ids.Pairwise (· < ·)) :
    (insertSorted id ids).Pairwise (· < ·) := by
  induction ids with
  | nil => exact List.pairwise_singleton _ _
  | cons y ys ih =>
    obtain ⟨hy, hys⟩ := List.pairwise_cons.mp h
    rw [insertSorted]
    split_ifs with hlt heq
    · refine List.pairwise_cons.mpr ⟨fun a ha => ?_, h⟩
      rcases List.mem_cons.mp ha with rfl | ha
      · exact hlt
      · exact BitVec.lt_trans hlt (hy a ha)
    · exact h
    · refine List.pairwise_cons.mpr ⟨fun a ha => ?_, ih hys⟩
      rcases mem_insertSorted.mp ha with rfl | ha
      · simp only [BitVec.lt_def] at hlt ⊢
        have hne : y.toNat ≠ a.toNat := fun h => heq (BitVec.eq_of_toNat_eq h.symm)
        omega
      · exact hy a ha

/-- The peer set. -/
structure PeerSet where
  ids : List NodeId
  sorted : ids.Pairwise (· < ·)
  deriving DecidableEq

namespace PeerSet

def empty : PeerSet := ⟨[], List.Pairwise.nil⟩

def insert (id : NodeId) (s : PeerSet) : PeerSet :=
  ⟨insertSorted id s.ids, pairwise_insertSorted s.sorted⟩

def remove (id : NodeId) (s : PeerSet) : PeerSet :=
  ⟨s.ids.erase id, s.sorted.sublist List.erase_sublist⟩

def len (s : PeerSet) : ℕ := s.ids.length

theorem nodup (s : PeerSet) : s.ids.Nodup := by
  refine s.sorted.imp ?_
  rintro a b hlt rfl
  exact BitVec.lt_irrefl a hlt

theorem mem_insert {id a : NodeId} {s : PeerSet} : a ∈ (s.insert id).ids ↔ a = id ∨ a ∈ s.ids :=
  mem_insertSorted

theorem mem_remove {id a : NodeId} {s : PeerSet} : a ∈ (s.remove id).ids ↔ a ≠ id ∧ a ∈ s.ids :=
  s.nodup.mem_erase_iff

end PeerSet

section Derived

variable (ext : Ext)

/-- `H(epoch ‖ tip)`. -/
def epochHash (epoch : UInt64) (chainHash : Hash) : Hash :=
  Hash.new ext (encode epoch ++ chainHash.asBytes)

/-- `leader_index`: the first eight bytes of the hash, modulo the number of peers. -/
def leaderIndex (epoch : UInt64) (prevHash : Hash) (peerCount : ℕ) : ℕ :=
  ((epochHash ext epoch prevHash).asBytes.take 8).foldr (fun b acc => b.toNat + 256 * acc) 0 % peerCount

/-- `elect_leader`. -/
def electLeader (epoch : UInt64) (prevHash : Hash) (peers : PeerSet) : Option NodeId :=
  if peers.ids = [] then none else peers.ids[leaderIndex ext epoch prevHash peers.len]?

/-- `derive_salt`, for the tip it is derived from. -/
def deriveSalt (epoch : UInt64) (chainHash : Hash) : Bytes32 := (epochHash ext epoch chainHash).bytes

end Derived

end Coinjecture.Consensus.Coordinator.Epoch
