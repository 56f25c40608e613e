import Coinjecture.Core.Types
import Coinjecture.Lib.Float64
import Coinjecture.Lib.Selection
import Mathlib.Data.List.Sort

/-! # Peer consensus

The table of peer reports and the answers that are read off it: whether to mine, whether the local tip
is on a fork, and which peer to sync from. The table is a hash map; here it is the list of its entries
in the order in which it is iterated, and the votes for tips, which are counted in another hash map,
come in an order of their own. The clock is read once for one answer; messages are formatted with a
given `fixed` for `{:.N}`. -/

namespace Coinjecture.Node.PeerConsensus

open Lib.Float64 Lib.Selection
open Core.Types

/-- `consensus_stale_threshold`: 90 seconds times 1 + 1/√2, in nanoseconds. -/
def CONSENSUS_STALE_THRESHOLD : ℕ := 153639610307

/-- Instants are nanoseconds. -/
structure PeerState where
  bestHeight : UInt64
  bestHash : Bytes32
  cumulativeWork : BitVec 128
  lastSeen : ℕ
  missedRounds : UInt32
  isFiltered : Bool
  incompatibleTipReports : UInt32
  quarantineUntil : Option ℕ
  deriving DecidableEq

namespace PeerState

/-- `PeerState::new`. -/
def new (now : ℕ) (height : UInt64) (hash : Bytes32) : PeerState :=
  ⟨height, hash, 0, now, 0, false, 0, none⟩

def isStale (now : ℕ) (s : PeerState) : Bool := CONSENSUS_STALE_THRESHOLD < now - s.lastSeen

def isQuarantined (now : ℕ) (s : PeerState) : Bool :=
  match s.quarantineUntil with
  | none => false
  | some until_ => now < until_

end PeerState

/-- The fields of `ConsensusConfig` that the answers depend on. -/
structure ConsensusConfig where
  minPeersForMining : ℕ
  syncThresholdBlocks : UInt64
  maxAheadOfPeersBlocks : UInt64
  consensusThreshold : F64

/-- `ConsensusConfig::default`. -/
def ConsensusConfig.default : ConsensusConfig := ⟨1, 10, 96, ⟨0x3FE999999999999A⟩⟩

def ConsensusConfig.getAdaptiveThreshold (config : ConsensusConfig) : ℕ → F64 × String
  | 0 => (F64.one, "SOLO")
  | 1 => (⟨0x3FE0000000000000⟩, "BOOTSTRAP-1")
  | 2 => (⟨0x3FE0000000000000⟩, "BOOTSTRAP-2")
  | 3 => (⟨0x3FE3333333333333⟩, "BOOTSTRAP-3")
  | _ => (config.consensusThreshold, "SECURE")

/-- The entries of the peer table, in the order of iteration. -/
abbrev Peers := List (String × PeerState)

def saturatingAdd (a b : UInt64) : UInt64 := .ofNat (min (a.toNat + b.toNat) (2 ^ 64 - 1))

def saturatingSub (a b : UInt64) : UInt64 := .ofNat (a.toNat - b.toNat)

/-! ### Heights -/

/-- `while heights[j].saturating_sub(heights[i]) > 1 { i += 1 }`, where `n` bounds the steps. -/
def advance (heights : List UInt64) (height : UInt64) : ℕ → ℕ → ℕ
  | 0, i => i
  | n + 1, i =>
    if 1 < saturatingSub height (heights.getD i 0) then advance heights height n (i + 1) else i

/-- The window that ends at `j`, and the best one so far: `i`, `best_len` and `best_height`. -/
def clusterStep (heights : List UInt64) (acc : ℕ × ℕ × UInt64) (j : ℕ) : ℕ × ℕ × UInt64 :=
  let i := advance heights (heights.getD j 0) (j - acc.1) acc.1
  if acc.2.1 < j - i + 1 then (i, j - i + 1, heights.getD ((i + j) / 2) 0) else (i, acc.2)

/-- `largest_height_cluster_within_one_block`. -/
def largestHeightClusterWithinOneBlock (heights : List UInt64) : ℕ × UInt64 :=
  ((List.range heights.length).foldl (clusterStep heights) (0, 0, 0)).2

def sortHeights (heights : List UInt64) : List UInt64 := heights.insertionSort fun a b => a ≤ b

section Answers

variable (now : ℕ) (config : ConsensusConfig) (peers : Peers)

def activePeers : Peers :=
  peers.filter fun p => !p.2.isFiltered && !p.2.isStale now && !p.2.isQuarantined now

def activePeerCount : ℕ := (activePeers now peers).length

def activeHeights : List UInt64 :=
  sortHeights ((activePeers now peers).map fun p => p.2.bestHeight)

/-- `best_peer_height`. -/
def bestPeerHeight : UInt64 :=
  (lastMax UInt64.toNat ((peers.filter fun p => !p.2.isFiltered && !p.2.isStale now).map
    fun p => p.2.bestHeight)).getD 0

def medianPeerHeight : UInt64 :=
  let heights := activeHeights now peers
  let mid := heights.length / 2
  if heights = [] then 0
  else if heights.length % 2 = 0 then (heights.getD (mid - 1) 0 + heights.getD mid 0) / 2
  else heights.getD mid 0

/-- `check_consensus`: whether there is consensus, the height and the agreement. -/
def checkConsensus : Bool × UInt64 × F64 :=
  let peerCount := activePeerCount now peers
  if peerCount < config.minPeersForMining then (false, 0, F64.zero)
  else
    let (threshold, _) := config.getAdaptiveThreshold peerCount
    let (maxVotes, consensusHeight) := largestHeightClusterWithinOneBlock (activeHeights now peers)
    let agreement := (F64.ofNat maxVotes).div (F64.ofNat peerCount)
    (threshold.le agreement, consensusHeight, agreement)

/-! ### The best peer -/

/-- `compare_peers_by_heavy_chain` compares the work, then the height. -/
def heavyChain (p : String × PeerState) : ℕ ×ₗ ℕ :=
  toLex (p.2.cumulativeWork.toNat, p.2.bestHeight.toNat)

def bestActivePeerByCumulativeWork : Option (String × PeerState) :=
  lastMax heavyChain (activePeers now peers)

/-- The peers that `best_peer_for_fork_recovery` chooses from. -/
def recoveryPeers (localWork : BitVec 128) (ourHeight : UInt64) (ourHash : Bytes32) : Peers :=
  (activePeers now peers).filter fun p =>
    localWork.toNat < p.2.cumulativeWork.toNat ∨ p.2.bestHash ≠ ourHash ∧ ourHeight < p.2.bestHeight

def bestPeerForForkRecovery (localWork : BitVec 128) (ourHeight : UInt64) (ourHash : Bytes32) :
    Option (String × PeerState) :=
  lastMax heavyChain (recoveryPeers now peers localWork ourHeight ourHash)

/-! ### The tip -/

/-- The order in which a table of votes is iterated. -/
structure VoteOrder where
  order : List (Bytes32 × ℕ) → List (Bytes32 × ℕ)
  perm (votes : List (Bytes32 × ℕ)) : votes.Perm (order votes)

variable (votes : VoteOrder) (ourHeight : UInt64) (ourHash : Bytes32)

/-- The tips of the active peers whose height is at most one from ours. -/
def tipsInBand : List Bytes32 :=
  ((activePeers now peers).filter fun p => saturatingSub ourHeight 1 ≤ p.2.bestHeight ∧
    p.2.bestHeight ≤ saturatingAdd ourHeight 1).map fun p => p.2.bestHash

/-- `hash_votes`: each of these tips with the number of its peers. -/
def hashVotes : List (Bytes32 × ℕ) :=
  (tipsInBand now peers ourHeight).dedup.map fun hash =>
    (hash, (tipsInBand now peers ourHeight).count hash)

/-- The node is behind the median, or there is none. -/
def Behind : Prop := medianPeerHeight now peers = 0 ∨
  ourHeight + config.syncThresholdBlocks < medianPeerHeight now peers

instance : Decidable (Behind now config peers ourHeight) := inferInstanceAs (Decidable (_ ∨ _))

/-- `((peer_count as f64 * adaptive.0).ceil() as usize).max(1)`. -/
def requiredVotes : ℕ :=
  let peerCount := activePeerCount now peers
  max (((F64.ofNat peerCount).mul (config.getAdaptiveThreshold peerCount).1).ceil.toUnsigned 64).toNat 1

def tipHashForkReason : Option String :=
  if Behind now config peers ourHeight then none
  else
    let peerCount := activePeerCount now peers
    match lastMax Prod.snd (votes.order (hashVotes now peers ourHeight)) with
    | none => none
    | some (dominantHash, dominantVotes) =>
      if dominantVotes < requiredVotes now config peers then
        some s!"[{(config.getAdaptiveThreshold peerCount).2}] No tip-hash consensus among peers (best {dominantVotes} / {peerCount} votes)"
      else if ourHash ≠ dominantHash then
        some s!"Local tip hash diverges from peer mesh (height ~{ourHeight}, {dominantVotes} peer votes on alternate branch)"
      else none

def heaviestPeerWhenLocalForked : Option (String × PeerState) :=
  match tipHashForkReason now config peers votes ourHeight ourHash with
  | none => none
  | some _ => (bestActivePeerByCumulativeWork now peers).filter fun p => p.2.bestHash ≠ ourHash

/-! ### Mining -/

/-- `should_mine`: the decision and the reason. -/
def shouldMine (fixed : ℕ → F64 → String) : Bool × String :=
  let activeCount := activePeerCount now peers
  let medianHeight := medianPeerHeight now peers
  let (threshold, mode) := config.getAdaptiveThreshold activeCount
  let (hasConsensus, consensusHeight, agreement) := checkConsensus now config peers
  let hundred := F64.ofNat 100
  if activeCount < config.minPeersForMining then
    (false, s!"Insufficient peers: {activeCount} < {config.minPeersForMining} required")
  else if ourHeight + config.syncThresholdBlocks < medianHeight then
    (false, s!"Behind peers: {medianHeight - ourHeight} blocks (our: {ourHeight}, median: {medianHeight})")
  else if 0 < medianHeight ∧ saturatingAdd medianHeight config.maxAheadOfPeersBlocks < ourHeight then
    (false, s!"Ahead of peers: {ourHeight - medianHeight} blocks above median (our: {ourHeight}, median: {medianHeight}, max allowed: {config.maxAheadOfPeersBlocks}) — pause mining until reorg/sync")
  else if !hasConsensus then
    (false, s!"[{mode}] No peer consensus: {fixed 1 (agreement.mul hundred)}% < {fixed 1 (threshold.mul hundred)}% required at height {consensusHeight}")
  else
    match tipHashForkReason now config peers votes ourHeight ourHash with
    | some reason => (false, reason)
    | none => (true, s!"[{mode}] Consensus OK: {activeCount} peers, {fixed 1 (agreement.mul hundred)}% agreement (threshold: {fixed 0 (threshold.mul hundred)}%)")

end Answers

end Coinjecture.Node.PeerConsensus
