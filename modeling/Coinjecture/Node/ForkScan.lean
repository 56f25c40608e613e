import Coinjecture.Node.ForkChoice
import Coinjecture.Node.PeerConsensus
import Coinjecture.Node.Sync

/-! # The look for forks

Every 15 seconds, and when a batch has applied nothing, the node looks for the end of a chain that it could
switch to. At most three attempts are started, each a task of its own: for the highest buffered block if no
common ancestor is found for it, for the end of what is buffered on another block of our height, and for the
highest end of what goes on from a block of ours. Where there is no common ancestor, the blocks around our tip
and those below the lowest buffered block that is not on our chain are asked for, 16 at a time.

One table of buffered blocks is read throughout, and both command channels are there. What is only logged and the
random ids of the requests are left out. -/

namespace Coinjecture.Node.ForkScan

open Lib.Effect Lib.Table Lib.Selection Lib.Trace
open Core.Types Core.Blocks Core.Extern Core.Crypto
open Node.Validator Node.Chain Node.Chain.ChainState
open Node.Service Node.PeerConsensus Node.Sync
open Node.ForkHandler Node.ForkPaths Node.ForkChoice

/-! ### The buffer -/

/-- The buffered blocks, and the order in which the map yields their heights. -/
structure Buffer where
  blocks : Keyed bufferKey
  order : List UInt64
  nodup : order.Nodup
  listed : ∀ height, height ∈ order ↔ (blocks.get height).isSome

namespace Buffer

variable (buffer : Buffer)

def get (height : UInt64) : Option Block := buffer.blocks.get height

def values : List Block := buffer.order.filterMap buffer.get

/-- `max_buffered_height`, 0 if nothing is buffered. -/
def maxHeight : UInt64 := (lastMax UInt64.toNat buffer.order).getD 0

/-- The buffered block of this height, if it is on the hash. -/
def next (height : UInt64) (hash : Hash) : Option Block :=
  (buffer.get height).filter fun block => block.header.prevHash = hash

end Buffer

/-! ### The ends of chains -/

/-- What an attempt is started with. -/
structure Candidate where
  endHash : Hash
  endHeight : UInt64
  altChain : List Block
  deriving DecidableEq

section Candidates

variable {ext : Ext} (chain : ChainState ext) (buffer : Buffer)

variable (ext) in
/-- At most so many steps up. -/
def walkUp (next : UInt64 → Hash → Option Block) : ℕ → UInt64 × Hash → UInt64 × Hash
  | 0, here => here
  | n + 1, (height, hash) =>
    match next (height + 1) hash with
    | some block => walkUp next n (height + 1, Block.hash ext block)
    | none => (height, hash)

/-- The highest buffered block, if it is above our tip and has no common ancestor with it. -/
def completeFork : Option Candidate :=
  if chain.bestHeight < buffer.maxHeight then
    (buffer.get buffer.maxHeight).bind fun highestBlock =>
      let highestHash := Block.hash ext highestBlock
      match findCommonAncestorWithAltChain chain buffer.values highestHash buffer.maxHeight with
      | some _ => none
      | none => some ⟨highestHash, buffer.maxHeight, buffer.values⟩
  else none

/-- The end of what is buffered on another block of our height. Each step takes another buffered block. -/
def sameHeightFork : Option Candidate :=
  (buffer.get chain.bestHeight).bind fun forkBlock =>
    if Block.hash ext forkBlock = chain.bestHash then none
    else
      let tip := walkUp ext buffer.next buffer.order.length (chain.bestHeight, Block.hash ext forkBlock)
      if 0 < tip.1 ∧ tip.2 ≠ Hash.ZERO then some ⟨tip.2, tip.1, buffer.values⟩ else none

/-- The hashes of our chain from this one down, at most `n`. -/
def chainHashes : ℕ → UInt64 → Hash → List Hash
  | 0, _, _ => []
  | n + 1, height, hash =>
    hash :: if height = 0 then [] else
      match chain.getBlockByHash hash with
      | some block => chainHashes n (height - 1) block.header.prevHash
      | none => []

/-- A buffered or else a canonical block. -/
def nextBlock (height : UInt64) (hash : Hash) : Option Block :=
  (buffer.next height hash).or
    ((getCanonicalBlockByHeight height chain).filter fun block => block.header.prevHash = hash)

/-- The highest end of what goes on from one of the last 1000 blocks of our chain, of the 100 highest buffered
blocks above it. -/
def bestCandidate : UInt64 × Hash :=
  let currentChainHashes := chainHashes chain 1000 chain.bestHeight chain.bestHash
  let sortedHeights := (buffer.order.filter fun height => chain.bestHeight < height).insertionSort (· ≥ ·)
  (sortedHeights.take 100).foldl (fun best checkHeight =>
    match buffer.get checkHeight with
    | some block =>
      if block.header.prevHash ∈ currentChainHashes then
        let tip := walkUp ext (nextBlock chain buffer) 1001 (checkHeight, Block.hash ext block)
        if best.1 < tip.1 then tip else best
      else best
    | none => best) (chain.bestHeight, chain.bestHash)

/-- The scan over the canonical blocks of the next 1000 heights. -/
def storedScan (best : UInt64 × Hash) : UInt64 × Hash :=
  (List.range 1000).foldl (fun best i =>
    let height := chain.bestHeight + 1 + .ofNat i
    match getCanonicalBlockByHeight height chain with
    | some block =>
      match chain.getBlockByHash block.header.prevHash with
      | some prevBlock =>
        if prevBlock.header.height = height - 1 ∧ best.1 < height then (height, Block.hash ext block) else best
      | none => best
    | none => best) best

/-- `max_stored_height` and `max_stored_hash`. -/
def maxStored : UInt64 × Hash := storedScan chain (bestCandidate chain buffer)

/-- This attempt is started without the buffered blocks. -/
def storedFork : Option Candidate :=
  let stored := maxStored chain buffer
  if chain.bestHeight < stored.1 then some ⟨stored.2, stored.1, []⟩ else none

end Candidates

/-! ### Requests -/

/-- `CppNetworkCommand::RequestBlocks`. -/
structure RequestBlocks where
  peerId : Bytes32
  fromHeight : UInt64
  toHeight : UInt64
  deriving DecidableEq

def CHUNK_SIZE : UInt64 := 16

def MAX_RECOVERY_WINDOWS_PER_CYCLE : ℕ := 32

/-- The windows from the cursor down, each with the block on it. -/
def recoveryWindows : ℕ → UInt64 → List (UInt64 × UInt64)
  | 0, _ => []
  | n + 1, recoveryCursor =>
    let probeFrom := saturatingSub recoveryCursor CHUNK_SIZE
    let probeTo := saturatingSub recoveryCursor 1
    if probeTo < probeFrom then []
    else
      (probeFrom, probeTo) :: (recoveryCursor, recoveryCursor) ::
        if probeFrom = 0 then [] else recoveryWindows n probeFrom

section Requests

variable {ext : Ext} (chain : ChainState ext) (buffer : Buffer)

/-- The block is not the one of our chain. -/
def Conflicts (block : Block) : Prop :=
  (getCanonicalBlockByHeight block.header.height chain).all fun existing =>
    Block.hash ext existing ≠ Block.hash ext block

instance (block : Block) : Decidable (Conflicts chain block) := inferInstanceAs (Decidable (_ = true))

def earliestConflictingHeight : Option UInt64 :=
  (buffer.order.filter fun height => height ≤ chain.bestHeight ∧
    ∃ block, buffer.get height = some block ∧ Conflicts chain block).min?

/-- The windows that are asked for in a complete fork. -/
def reviewWindows : List (UInt64 × UInt64) :=
  (saturatingSub chain.bestHeight CHUNK_SIZE, min buffer.maxHeight (chain.bestHeight + CHUNK_SIZE)) ::
    recoveryWindows MAX_RECOVERY_WINDOWS_PER_CYCLE
      ((earliestConflictingHeight chain buffer).getD chain.bestHeight)

/-- The peers of a check: their reports, the time, and how a peer id is read (`hex::decode` and the length). -/
structure Reports where
  peers : Peers
  now : ℕ
  peerBytes : String → Option Bytes32

/-- The requests of the complete fork, to the active peer of most work. -/
def completeForkRequests (reports : Reports) : List RequestBlocks :=
  match (bestActivePeerByCumulativeWork reports.now reports.peers).bind fun p => reports.peerBytes p.1 with
  | some peerId => (reviewWindows chain buffer).map fun w => ⟨peerId, w.1, w.2⟩
  | none => []

/-- The request of the fork at our height. -/
def sameHeightRequests (reports : Reports) : List RequestBlocks :=
  let localWork := chain.metadata.cumWork
  let ourHash := chain.bestHash.bytes
  match bestPeerForForkRecovery reports.now reports.peers localWork chain.bestHeight ourHash with
  | some (peerIdStr, peerState) =>
    if localWork < peerState.cumulativeWork ∨ peerState.bestHash ≠ ourHash then
      ((reports.peerBytes peerIdStr).map fun peerId =>
        ⟨peerId, chain.bestHeight, saturatingAdd chain.bestHeight 15⟩).toList
    else []
  | none => []

end Requests

/-! ### The check -/

/-- The attempts that are started, the requests to peers, and the gap that is asked for. -/
structure Check where
  attempts : List Candidate
  requests : List RequestBlocks
  gap : Option (UInt64 × UInt64)
  deriving DecidableEq

/-- `check_and_reorganize_chain`. -/
def checkAndReorganizeChain {ext : Ext} (chain : ChainState ext) (buffer : Buffer) (reports : Reports) :
    Check where
  attempts := (completeFork chain buffer).toList ++ (sameHeightFork chain buffer).toList ++
    (storedFork chain buffer).toList
  requests :=
    (if (completeFork chain buffer).isSome then completeForkRequests chain buffer reports else []) ++
      if (sameHeightFork chain buffer).isSome then sameHeightRequests chain reports else []
  gap :=
    let stored := maxStored chain buffer
    if chain.bestHeight + 1 < stored.1 then some (chain.bestHeight + 1, stored.1) else none

/-! ### What is in the buffer -/

section Contents

variable {buffer : Buffer} {block : Block} {height : UInt64} {hash : Hash}

theorem Buffer.height_of_get (h : buffer.get height = some block) : block.header.height = height :=
  buffer.blocks.keyed h

theorem Buffer.mem_order (h : buffer.get height = some block) : height ∈ buffer.order := by
  rw [buffer.listed, Option.isSome_iff_exists]
  exact ⟨block, h⟩

theorem Buffer.mem_values : block ∈ buffer.values ↔ buffer.get block.header.height = some block := by
  rw [Buffer.values, List.mem_filterMap]
  constructor
  · rintro ⟨height, -, hget⟩
    rwa [Buffer.height_of_get hget]
  · intro hget
    exact ⟨block.header.height, Buffer.mem_order hget, hget⟩

theorem Buffer.exists_get (h : height ∈ buffer.order) : ∃ block, buffer.get height = some block :=
  Option.isSome_iff_exists.mp ((buffer.listed height).mp h)

/-- The highest height is buffered, and no higher one is. -/
theorem Buffer.maxHeight_spec (h : height ∈ buffer.order) :
    buffer.maxHeight ∈ buffer.order ∧ height ≤ buffer.maxHeight := by
  rw [Buffer.maxHeight]
  rcases hmax : lastMax UInt64.toNat buffer.order with _ | top
  · rw [lastMax_eq_none_iff] at hmax
    rw [hmax] at h
    cases h
  · obtain ⟨hmem, hle⟩ := isMax_lastMax hmax
    exact ⟨hmem, UInt64.le_iff_toNat_le.mpr (hle height h)⟩

theorem Buffer.next_eq_some : buffer.next height hash = some block ↔
    buffer.get height = some block ∧ block.header.prevHash = hash := by
  rw [Buffer.next, Option.filter_eq_some_iff, decide_eq_true_eq]

end Contents

/-! ### The walk up -/

section Walk

variable {ext : Ext} {buffer : Buffer} {next : UInt64 → Hash → Option Block} {n : ℕ} {here : UInt64 × Hash}

theorem walkUp_stop (h : next (here.1 + 1) here.2 = none) : walkUp ext next n here = here := by
  cases n with
  | zero => rfl
  | succ n =>
    unfold walkUp
    rw [h]

theorem walkUp_step {height : UInt64} {hash : Hash} {block : Block} (h : next (height + 1) hash = some block) :
    walkUp ext next (n + 1) (height, hash) = walkUp ext next n (height + 1, Block.hash ext block) := by
  rw [walkUp, h]

end Walk

/-! ### The windows -/

theorem toNat_saturatingSub (a b : UInt64) : (saturatingSub a b).toNat = a.toNat - b.toNat := by
  have hlt := a.toNat_lt
  rw [saturatingSub, UInt64.toNat_ofNat_of_lt' (lt_of_le_of_lt (Nat.sub_le _ _) hlt)]

/-- A height is asked for. -/
def Asked (windows : List (UInt64 × UInt64)) (height : UInt64) : Prop :=
  ∃ w ∈ windows, w.1 ≤ height ∧ height ≤ w.2

theorem toNat_probeFrom (cursor : UInt64) : (saturatingSub cursor CHUNK_SIZE).toNat = cursor.toNat - 16 :=
  toNat_saturatingSub cursor CHUNK_SIZE

theorem toNat_probeTo (cursor : UInt64) : (saturatingSub cursor 1).toNat = cursor.toNat - 1 :=
  toNat_saturatingSub cursor 1

theorem recoveryWindows_succ (n : ℕ) (cursor : UInt64) : recoveryWindows (n + 1) cursor =
    (saturatingSub cursor CHUNK_SIZE, saturatingSub cursor 1) :: (cursor, cursor) ::
      if saturatingSub cursor CHUNK_SIZE = 0 then [] else recoveryWindows n (saturatingSub cursor CHUNK_SIZE) := by
  have hopen : ¬saturatingSub cursor 1 < saturatingSub cursor CHUNK_SIZE := by
    rw [UInt64.lt_iff_toNat_lt, toNat_probeFrom, toNat_probeTo]
    omega
  rw [recoveryWindows, if_neg hopen]

/-- With each step 16 heights more are asked for. -/
theorem asked_recoveryWindows {n : ℕ} {cursor height : UInt64} (hn : 0 < n)
    (hfrom : cursor.toNat - 16 * n ≤ height.toNat) (hto : height ≤ cursor) :
    Asked (recoveryWindows n cursor) height := by
  induction n generalizing cursor with
  | zero => exact absurd hn (Nat.lt_irrefl 0)
  | succ n ih =>
    have hprobeFrom := toNat_probeFrom cursor
    have hprobeTo := toNat_probeTo cursor
    rw [UInt64.le_iff_toNat_le] at hto
    rw [recoveryWindows_succ]
    by_cases hwindow : height.toNat + 1 ≤ cursor.toNat ∧ cursor.toNat ≤ height.toNat + 16
    · refine ⟨_, List.mem_cons_self, ?_, ?_⟩
      · rw [UInt64.le_iff_toNat_le, hprobeFrom]
        omega
      · rw [UInt64.le_iff_toNat_le, hprobeTo]
        omega
    by_cases hcursor : height.toNat = cursor.toNat
    · refine ⟨_, List.mem_cons_of_mem _ List.mem_cons_self, ?_, ?_⟩
      · rw [UInt64.le_iff_toNat_le]
        exact hcursor.ge
      · rw [UInt64.le_iff_toNat_le]
        exact hcursor.le
    · have hbelow : height.toNat + 16 < cursor.toNat := by omega
      have hzero : saturatingSub cursor CHUNK_SIZE ≠ 0 := fun hzero => by
        rw [hzero, UInt64.toNat_zero] at hprobeFrom
        omega
      rw [if_neg hzero]
      have hrest : Asked (recoveryWindows n (saturatingSub cursor CHUNK_SIZE)) height :=
        ih (by omega) (by omega) (by rw [UInt64.le_iff_toNat_le]; omega)
      obtain ⟨w, hw, hasked⟩ := hrest
      exact ⟨w, List.mem_cons_of_mem _ (List.mem_cons_of_mem _ hw), hasked⟩

/-- No window starts below these heights, or is of more than 16. -/
theorem recoveryWindows_bounds {n : ℕ} {cursor : UInt64} {w : UInt64 × UInt64} (hw : w ∈ recoveryWindows n cursor) :
    cursor.toNat - 16 * n ≤ w.1.toNat ∧ w.2.toNat < w.1.toNat + 16 := by
  induction n generalizing cursor with
  | zero => cases hw
  | succ n ih =>
    have hprobeFrom := toNat_probeFrom cursor
    have hprobeTo := toNat_probeTo cursor
    rw [recoveryWindows_succ] at hw
    rcases List.mem_cons.mp hw with rfl | hw
    · simp only [hprobeFrom, hprobeTo]
      omega
    rcases List.mem_cons.mp hw with rfl | hw
    · simp only
      omega
    split_ifs at hw
    · cases hw
    · obtain ⟨hfrom, hto⟩ := ih hw
      exact ⟨by omega, hto⟩

/-! ### Attempts that do nothing -/

/-- What an offer is started with. -/
def candidate (o : Offer) : Candidate := ⟨o.endHash, o.endHeight, o.altChain⟩

section Idle

variable {ext : Ext} {v : BlockValidator} {s : NodeState ext} {buffer : Buffer} {o : Offer}

theorem attempt_of_no_ancestor (htip : OneTip s.chain)
    (hnone : findCommonAncestorWithAltChain s.chain o.altChain o.endHash o.endHeight = none) :
    run (attemptReorganizationIfLongerChain v o) s = (.ok false, s) := by
  unfold attemptReorganizationIfLongerChain
  rw [run_gets_bind, run_ite, run_ite]
  split_ifs
  · rfl
  · rfl
  · rw [hnone]
    exact run_switchCompletely htip hnone

/-- The attempt for a complete fork. -/
theorem attempt_completeFork (htip : OneTip s.chain) (h : completeFork s.chain buffer = some (candidate o)) :
    run (attemptReorganizationIfLongerChain v o) s = (.ok false, s) := by
  refine attempt_of_no_ancestor htip ?_
  unfold completeFork at h
  split_ifs at h
  obtain ⟨block, -, hfound⟩ := Option.bind_eq_some_iff.mp h
  simp only at hfound
  split at hfound
  · cases hfound
  · next hnone =>
    obtain ⟨hhash, hheight, halt⟩ := Candidate.mk.inj (Option.some.inj hfound)
    rwa [hhash, hheight, halt] at hnone

/-- The attempt for stored blocks, unless the last of them is stored. -/
theorem attempt_storedFork (htip : OneTip s.chain) (h : storedFork s.chain buffer = some (candidate o))
    (hunstored : s.chain.getBlockByHash o.endHash = none) :
    run (attemptReorganizationIfLongerChain v o) s = (.ok false, s) := by
  refine attempt_of_no_ancestor htip ?_
  unfold storedFork at h
  simp only at h
  split_ifs at h with habove
  obtain ⟨hhash, hheight, halt⟩ := Candidate.mk.inj (Option.some.inj h)
  rw [hheight, UInt64.lt_iff_toNat_lt] at habove
  have hnotle : ¬o.endHeight ≤ s.chain.bestHeight := by
    rw [UInt64.le_iff_toNat_le]
    omega
  obtain ⟨n, hn⟩ : ∃ n, o.endHeight.toNat - s.chain.bestHeight.toNat = n + 1 :=
    ⟨_, (Nat.succ_pred (by omega)).symm⟩
  have hmissing : blockFromChainOrAlt s.chain o.altChain o.endHash = none := by
    rw [blockFromChainOrAlt, hunstored, ← halt]
    rfl
  have hsum : s.chain.bestHeight.toNat + n + 1 = o.endHeight.toNat := by omega
  have hcanonical : getCanonicalBlockByHeight o.endHeight s.chain = none := by
    rw [getCanonicalBlockByHeight, htip.height, if_pos (UInt64.lt_iff_toNat_lt.mpr habove)]
  rw [findCommonAncestorWithAltChain, if_neg hnotle, hn, walkTheirs, hmissing]
  simp only
  rw [hsum, ourBlockAt, UInt64.ofNat_toNat, hcanonical]

end Idle

end Coinjecture.Node.ForkScan
