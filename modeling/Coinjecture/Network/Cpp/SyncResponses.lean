import Coinjecture.Lib.Words
import Coinjecture.Core.Blocks
import Coinjecture.Network.Cpp.Framing

/-! # Responses to GetBlocks

The handler clamps the requested heights, takes the blocks from the provider and sends them in one frame. The
number of requested heights is counted in 64 bits, where that of all heights is zero; the number of blocks is
limited without regard to their sizes. `sync_response_iff` says for which requests and chains the response is
what it should be. -/

namespace Coinjecture.Network.Cpp.SyncResponses

open Lib.Bincode Lib.Words
open Core.Types Core.Blocks Core.Transactions Core.Extern
open Network.Cpp.Framing

def MAX_BLOCKS_PER_RESPONSE : UInt64 := 16

def MAX_BLOCKS_PER_REQUEST : UInt64 := 500

instance : Encode CoinbaseTransaction := ⟨fun tx => encode tx.to ++ encode tx.reward ++ encode tx.height⟩

instance : Encode SolutionReveal := ⟨fun r => encode r.problem ++ encode r.solution ++ encode r.commitment⟩

instance : Encode Block := ⟨fun b =>
  encode b.header ++ encode b.coinbase ++ encode b.transactions ++ encode b.solutionReveal⟩

structure GetBlocksMessage where
  fromHeight : UInt64
  toHeight : UInt64
  requestId : UInt64
  deriving DecidableEq

structure BlocksMessage where
  blocks : List Block
  requestId : UInt64
  deriving DecidableEq

instance : Encode BlocksMessage := ⟨fun m => encode m.blocks ++ encode m.requestId⟩

def saturatingSub (a b : UInt64) : UInt64 := if b ≤ a then a - b else 0

/-! ### The provider -/

/-- The canonical chain, as the network sees it. -/
structure BlockProvider where
  getBlockByHeight : UInt64 → Option Block
  getBestHeight : UInt64

namespace BlockProvider

variable (p : BlockProvider)

/-- The loop over so many heights, broken off at a gap. -/
def readBlocks : ℕ → UInt64 → List Block
  | 0, _ => []
  | n + 1, height =>
    match p.getBlockByHeight height with
    | some block => block :: readBlocks n (height + 1)
    | none => []

def getBlocksRange (fromHeight toHeight : UInt64) : List Block :=
  let best := p.getBestHeight
  if best < fromHeight ∨ toHeight < fromHeight then []
  else
    let toHeight := min toHeight best
    let count := min (toHeight - fromHeight + 1) MAX_BLOCKS_PER_REQUEST
    let actualTo := fromHeight + count - 1
    p.readBlocks (actualTo.toNat + 1 - fromHeight.toNat) fromHeight

end BlockProvider

/-! ### The handler -/

def clampedTo (m : GetBlocksMessage) : UInt64 :=
  let requestedCount := saturatingSub m.toHeight m.fromHeight + 1
  if MAX_BLOCKS_PER_RESPONSE < requestedCount then m.fromHeight + MAX_BLOCKS_PER_RESPONSE - 1
  else m.toHeight

/-- The blocks of the response. -/
def served (p : BlockProvider) (m : GetBlocksMessage) : List Block :=
  p.getBlocksRange m.fromHeight (clampedTo m)

/-- `handle_get_blocks`: the frame that goes to the peer, if it is still there. -/
def handleGetBlocks (ext : Ext) (p : BlockProvider) (peerKnown : Bool) (m : GetBlocksMessage) :
    Except ProtocolError (Option Bytes) :=
  let blocksMsg : BlocksMessage := ⟨served p m, m.requestId⟩
  if peerKnown then
    match MessageEnvelope.new .Blocks blocksMsg with
    | .error e => .error e
    | .ok envelope => .ok (some (envelope.encode ext))
  else .ok none

/-! ### What a response should be -/

inductive Operation where
  | add (x y : UInt64)
  | sub (x y : UInt64)

def Operation.Wraps : Operation → Prop
  | .add x y => 2 ^ 64 ≤ x.toNat + y.toNat
  | .sub x y => x.toNat < y.toNat

/-- The additions and subtractions of `get_blocks_range`. -/
def rangeOperations (fromHeight toHeight : UInt64) (p : BlockProvider) : List Operation :=
  let best := p.getBestHeight
  if best < fromHeight ∨ toHeight < fromHeight then []
  else
    let toHeight := min toHeight best
    let count := min (toHeight - fromHeight + 1) MAX_BLOCKS_PER_REQUEST
    [.sub toHeight fromHeight, .add (toHeight - fromHeight) 1, .add fromHeight count,
      .sub (fromHeight + count) 1]

/-- The additions and subtractions of the handler; `saturating_sub` does not wrap. -/
def operations (p : BlockProvider) (m : GetBlocksMessage) : List Operation :=
  let requested := saturatingSub m.toHeight m.fromHeight
  .add requested 1 :: (if MAX_BLOCKS_PER_RESPONSE < requested + 1
    then [.add m.fromHeight MAX_BLOCKS_PER_RESPONSE, .sub (m.fromHeight + MAX_BLOCKS_PER_RESPONSE) 1]
    else []) ++ rangeOperations m.fromHeight (clampedTo m) p

/-- These blocks fit into one response. -/
def FitsFrame (blocks : List Block) : Prop :=
  8 + (blocks.map fun b => (encode b).length).sum + 8 ≤ typeLimit MessageType.Blocks.asU8

/-- A response of at most so many consecutive blocks of the chain from the first requested height on, computed
without a wrap, and sent if each of its blocks alone could be. -/
structure Bounded (ext : Ext) (p : BlockProvider) (m : GetBlocksMessage) : Prop where
  few : (served p m).length ≤ MAX_BLOCKS_PER_RESPONSE.toNat
  consecutive : ∀ i b, (served p m)[i]? = some b →
    ∃ height : UInt64, height.toNat = m.fromHeight.toNat + i ∧ p.getBlockByHeight height = some b
  noneWraps : ∀ op ∈ operations p m, ¬ op.Wraps
  sent : (∀ b ∈ served p m, FitsFrame [b]) → ∃ frame, handleGetBlocks ext p true m = .ok (some frame)

/-- The number of the first requested heights up to the tip, at most sixteen. -/
def windowLength (p : BlockProvider) (m : GetBlocksMessage) : ℕ :=
  min (m.toHeight.toNat + 1 - m.fromHeight.toNat)
    (min 16 (p.getBestHeight.toNat + 1 - m.fromHeight.toNat))

/-- The blocks at these heights. -/
def window (p : BlockProvider) (m : GetBlocksMessage) : List Block :=
  p.readBlocks (windowLength p m) m.fromHeight

/-- All heights are requested. -/
def AllHeights (m : GetBlocksMessage) : Prop := m.fromHeight.toNat = 0 ∧ m.toHeight.toNat = 2 ^ 64 - 1

/-- The last of all heights is in the window, and there is a block at it. -/
def AtLastHeight (p : BlockProvider) (m : GetBlocksMessage) : Prop :=
  p.getBestHeight.toNat = 2 ^ 64 - 1 ∧ m.toHeight.toNat = 2 ^ 64 - 1 ∧ 2 ^ 64 - 16 ≤ m.fromHeight.toNat

/-! ### The blocks that are read -/

section Reading

variable {p : BlockProvider}

theorem length_readBlocks_le (n : ℕ) (height : UInt64) : (p.readBlocks n height).length ≤ n := by
  induction n generalizing height with
  | zero => exact le_rfl
  | succ n ih =>
    rw [BlockProvider.readBlocks]
    split
    · exact Nat.succ_le_succ (ih _)
    · exact Nat.zero_le _

theorem getElem?_readBlocks {n i : ℕ} {height : UInt64} {b : Block} (hn : height.toNat + n ≤ 2 ^ 64)
    (h : (p.readBlocks n height)[i]? = some b) :
    ∃ at' : UInt64, at'.toNat = height.toNat + i ∧ p.getBlockByHeight at' = some b := by
  induction n generalizing height i with
  | zero => cases h
  | succ n ih =>
    rw [BlockProvider.readBlocks] at h
    rcases hblock : p.getBlockByHeight height with _ | block
    · rw [hblock] at h
      cases h
    · rw [hblock] at h
      cases i with
      | zero =>
        cases h
        exact ⟨height, rfl, hblock⟩
      | succ i =>
        have hget : (p.readBlocks n (height + 1))[i]? = some b := h
        have hne : n ≠ 0 := by
          rintro rfl
          cases hget
        have hnext : (height + 1).toNat = height.toNat + 1 := by
          rw [UInt64.toNat_add, UInt64.toNat_one]
          omega
        obtain ⟨at', hat, hget⟩ := ih (by omega) hget
        exact ⟨at', by omega, hget⟩

end Reading

/-! ### The arithmetic -/

theorem toNat_saturatingSub (a b : UInt64) : (saturatingSub a b).toNat = a.toNat - b.toNat := by
  unfold saturatingSub
  split_ifs with h
  · exact UInt64.toNat_sub_of_le _ _ h
  · rw [UInt64.le_iff_toNat_le] at h
    change 0 = _
    omega

/-- Where not all heights are requested, their number is counted right. -/
theorem toNat_requested {m : GetBlocksMessage} (h : ¬ AllHeights m) :
    (saturatingSub m.toHeight m.fromHeight + 1).toNat = m.toHeight.toNat - m.fromHeight.toNat + 1 := by
  have hto := m.toHeight.toNat_lt
  have hrequested := toNat_saturatingSub m.toHeight m.fromHeight
  unfold AllHeights at h
  rw [toNat_add_of_lt (by rw [UInt64.toNat_one]; omega), hrequested, UInt64.toNat_one]

theorem toNat_clampedTo {m : GetBlocksMessage} (h : ¬ AllHeights m) :
    (clampedTo m).toNat = if m.fromHeight.toNat + 16 ≤ m.toHeight.toNat then m.fromHeight.toNat + 15
      else m.toHeight.toNat := by
  have hto := m.toHeight.toNat_lt
  have hmax : MAX_BLOCKS_PER_RESPONSE.toNat = 16 := rfl
  have hclamped : MAX_BLOCKS_PER_RESPONSE < saturatingSub m.toHeight m.fromHeight + 1 ↔
      m.fromHeight.toNat + 16 ≤ m.toHeight.toNat := by
    rw [UInt64.lt_iff_toNat_lt, toNat_requested h, hmax]
    omega
  simp only [clampedTo, hclamped]
  split_ifs with hlong
  · have hsum : (m.fromHeight + MAX_BLOCKS_PER_RESPONSE).toNat = m.fromHeight.toNat + 16 := by
      rw [toNat_add_of_lt (by rw [hmax]; omega), hmax]
    have hone : (1 : UInt64) ≤ m.fromHeight + MAX_BLOCKS_PER_RESPONSE := by
      rw [UInt64.le_iff_toNat_le, hsum, UInt64.toNat_one]
      omega
    rw [UInt64.toNat_sub_of_le _ _ hone, hsum, UInt64.toNat_one]
    omega
  · rfl

/-- The count of `get_blocks_range`. -/
theorem toNat_count {fromHeight toHeight : UInt64} (hle : fromHeight ≤ toHeight)
    (hfew : toHeight.toNat - fromHeight.toNat < 500) :
    (min (toHeight - fromHeight + 1) MAX_BLOCKS_PER_REQUEST).toNat =
      toHeight.toNat - fromHeight.toNat + 1 := by
  have hmax : MAX_BLOCKS_PER_REQUEST.toNat = 500 := rfl
  have hsub := UInt64.toNat_sub_of_le _ _ hle
  rw [toNat_min, toNat_add_of_lt (by rw [hsub, UInt64.toNat_one]; omega), hsub, UInt64.toNat_one, hmax]
  omega

/-- The blocks of the response are those of the window. -/
theorem served_eq_window {p : BlockProvider} {m : GetBlocksMessage} (h : ¬ AllHeights m) :
    served p m = window p m := by
  have hclamped := toNat_clampedTo h
  have hlt := (clampedTo m).toNat_lt
  have hbest := p.getBestHeight.toNat_lt
  simp only [served, BlockProvider.getBlocksRange, UInt64.lt_iff_toNat_lt]
  split_ifs with hempty
  · have hzero : windowLength p m = 0 := by
      unfold windowLength
      split_ifs at hclamped
      · omega
      · omega
    rw [window, hzero]
    rfl
  · rw [not_or, not_lt, not_lt] at hempty
    have hmin := toNat_min (clampedTo m) p.getBestHeight
    have hle : m.fromHeight ≤ min (clampedTo m) p.getBestHeight := by
      rw [UInt64.le_iff_toNat_le, hmin]
      omega
    have hfew : (min (clampedTo m) p.getBestHeight).toNat - m.fromHeight.toNat < 16 := by
      rw [hmin]
      split_ifs at hclamped
      · omega
      · omega
    have hcount := toNat_count hle (by omega)
    rw [UInt64.le_iff_toNat_le] at hle
    -- the sum may reach the end of 64 bits, and then the difference comes back
    have hactual : (m.fromHeight + min (min (clampedTo m) p.getBestHeight - m.fromHeight + 1)
        MAX_BLOCKS_PER_REQUEST - 1).toNat = (min (clampedTo m) p.getBestHeight).toNat := by
      rw [UInt64.toNat_sub, UInt64.toNat_add, hcount, UInt64.toNat_one]
      have hmlt := (min (clampedTo m) p.getBestHeight).toNat_lt
      omega
    have hlength : (min (clampedTo m) p.getBestHeight).toNat + 1 - m.fromHeight.toNat =
        windowLength p m := by
      rw [hmin, windowLength]
      split_ifs at hclamped
      · omega
      · omega
    rw [hactual, hlength, window]

theorem rangeOperations_wrap_iff {fromHeight toHeight : UInt64} {p : BlockProvider}
    (hfew : toHeight.toNat - fromHeight.toNat < 500) :
    (∀ op ∈ rangeOperations fromHeight toHeight p, ¬ op.Wraps) ↔
      ¬ (fromHeight ≤ toHeight ∧ toHeight.toNat = 2 ^ 64 - 1 ∧ p.getBestHeight.toNat = 2 ^ 64 - 1) := by
  have hto := toHeight.toNat_lt
  have hbest := p.getBestHeight.toNat_lt
  simp only [rangeOperations, UInt64.lt_iff_toNat_lt, UInt64.le_iff_toNat_le]
  split_ifs with hempty
  · exact iff_of_true (fun op hop => absurd hop List.not_mem_nil) (by omega)
  · rw [not_or, not_lt, not_lt] at hempty
    have hmin := toNat_min toHeight p.getBestHeight
    have hle : fromHeight ≤ min toHeight p.getBestHeight := by
      rw [UInt64.le_iff_toNat_le, hmin]
      omega
    have hcount := toNat_count hle (by omega)
    have hsub := UInt64.toNat_sub_of_le _ _ hle
    rw [UInt64.le_iff_toNat_le] at hle
    simp only [List.forall_mem_cons, List.not_mem_nil, false_implies, implies_true, and_true,
      Operation.Wraps, UInt64.toNat_add, hcount, hsub, UInt64.toNat_one, hmin]
    rw [hmin] at hle
    omega

/-- Nothing wraps, unless all heights are requested or the last of all heights is in the window. -/
theorem noneWraps_iff (p : BlockProvider) (m : GetBlocksMessage) :
    (∀ op ∈ operations p m, ¬ op.Wraps) ↔ ¬ AllHeights m ∧ ¬ AtLastHeight p m := by
  have hto := m.toHeight.toNat_lt
  have hsub := toNat_saturatingSub m.toHeight m.fromHeight
  rw [operations]
  simp only [List.cons_append, List.forall_mem_cons, List.forall_mem_append]
  by_cases hall : AllHeights m
  · refine iff_of_false (fun h => h.1 ?_) fun h => h.1 hall
    rw [Operation.Wraps, hsub, UInt64.toNat_one]
    unfold AllHeights at hall
    omega
  · have hclamped := toNat_clampedTo hall
    have hfew : (clampedTo m).toNat - m.fromHeight.toNat < 500 := by
      split_ifs at hclamped
      · omega
      · omega
    rw [rangeOperations_wrap_iff hfew]
    have hfirst : ¬ (Operation.add (saturatingSub m.toHeight m.fromHeight) 1).Wraps := by
      rw [Operation.Wraps, hsub, UInt64.toNat_one]
      unfold AllHeights at hall
      omega
    have hmax : MAX_BLOCKS_PER_RESPONSE.toNat = 16 := rfl
    have hmiddle : ∀ op ∈ (if MAX_BLOCKS_PER_RESPONSE < saturatingSub m.toHeight m.fromHeight + 1
        then [Operation.add m.fromHeight MAX_BLOCKS_PER_RESPONSE,
          .sub (m.fromHeight + MAX_BLOCKS_PER_RESPONSE) 1] else []), ¬ op.Wraps := by
      split_ifs with hlong
      · rw [UInt64.lt_iff_toNat_lt, toNat_requested hall, hmax] at hlong
        simp only [List.forall_mem_cons, List.not_mem_nil, false_implies, implies_true, and_true,
          Operation.Wraps, UInt64.toNat_add, UInt64.toNat_one, hmax]
        omega
      · exact fun op hop => absurd hop List.not_mem_nil
    have hlast : (m.fromHeight ≤ clampedTo m ∧ (clampedTo m).toNat = 2 ^ 64 - 1 ∧
        p.getBestHeight.toNat = 2 ^ 64 - 1) ↔ AtLastHeight p m := by
      have hfrom := m.fromHeight.toNat_lt
      rw [UInt64.le_iff_toNat_le, AtLastHeight]
      split_ifs at hclamped
      · omega
      · omega
    rw [hlast]
    exact ⟨fun h => ⟨hall, h.2.2⟩, fun h => ⟨hfirst, hmiddle, h.2⟩⟩

/-! ### Responses -/

theorem length_encode_blocks (blocks : List Block) (requestId : UInt64) :
    (encode (⟨blocks, requestId⟩ : BlocksMessage)).length =
      8 + (blocks.map fun b => (encode b).length).sum + 8 := by
  change ((leBytes 8 blocks.length ++ blocks.flatMap encode) ++ leBytes 8 requestId.toNat).length = _
  rw [List.length_append, List.length_append, length_leBytes, length_leBytes, List.length_flatMap]

theorem sent_iff (ext : Ext) (p : BlockProvider) (m : GetBlocksMessage) :
    (∃ frame, handleGetBlocks ext p true m = .ok (some frame)) ↔ FitsFrame (served p m) := by
  have hlength := length_encode_blocks (served p m) m.requestId
  simp only [handleGetBlocks, if_true, MessageEnvelope.new, FitsFrame]
  rw [hlength]
  split_ifs with hlarge
  · exact iff_of_false (fun h => by cases h.choose_spec) (not_le.mpr hlarge)
  · exact iff_of_true ⟨_, rfl⟩ (not_lt.mp hlarge)

/-- The response is what it should be unless all heights are requested, or the window ends at the last of all
heights, or its blocks fit into frames of their own only. -/
theorem sync_response_iff (ext : Ext) (p : BlockProvider) (m : GetBlocksMessage) :
    Bounded ext p m ↔ ¬ AllHeights m ∧ ¬ AtLastHeight p m ∧
      ((∀ b ∈ window p m, FitsFrame [b]) → FitsFrame (window p m)) := by
  constructor
  · intro h
    obtain ⟨hall, hlast⟩ := (noneWraps_iff p m).mp h.noneWraps
    refine ⟨hall, hlast, fun hfits => ?_⟩
    rw [← served_eq_window hall] at hfits ⊢
    exact (sent_iff ext p m).mp (h.sent hfits)
  · rintro ⟨hall, hlast, hfits⟩
    have hserved := served_eq_window (p := p) hall
    have hlength : windowLength p m ≤ 16 := (min_le_right _ _).trans (min_le_left _ _)
    have hfrom := m.fromHeight.toNat_lt
    have hto := m.toHeight.toNat_lt
    refine ⟨?_, fun i b hget => ?_, (noneWraps_iff p m).mpr ⟨hall, hlast⟩, fun hsingle => ?_⟩
    · rw [hserved]
      exact (length_readBlocks_le _ _).trans hlength
    · rw [hserved] at hget
      have hend : m.fromHeight.toNat + windowLength p m ≤ 2 ^ 64 := by
        unfold windowLength
        omega
      exact getElem?_readBlocks hend hget
    · rw [hserved] at hsingle
      rw [sent_iff, hserved]
      exact hfits hsingle

namespace Sample

def block (height : UInt64) : Block where
  header :=
    { version := 1
      height := height
      prevHash := .ZERO
      timestamp := 0
      transactionsRoot := .ZERO
      solutionsRoot := .ZERO
      commitment := ⟨.ZERO, .ZERO⟩
      workScore := ⟨0⟩
      miner := ⟨0⟩
      nonce := 0
      solveTimeUs := 0
      verifyTimeUs := 0
      timeAsymmetryRatio := ⟨0⟩
      solutionQuality := ⟨0⟩
      complexityWeight := ⟨0⟩
      energyEstimateJoules := ⟨0⟩ }
  coinbase := ⟨⟨0⟩, 0, height⟩
  transactions := []
  solutionReveal := ⟨.SubsetSum [] 0, .SubsetSum [], ⟨.ZERO, .ZERO⟩⟩

/-- A chain of seventeen blocks. -/
def seventeen : BlockProvider where
  getBlockByHeight height := if height ≤ 16 then some (block height) else none
  getBestHeight := 16

end Sample

/-- A request of all heights is not clamped: the number of the requested heights wraps to zero. -/
theorem all_heights_not_clamped :
    (served Sample.seventeen ⟨0, 0xFFFFFFFFFFFFFFFF, 7⟩).length = 17 ∧
    ¬ ∀ ext p m, Bounded ext p m := by
  have hlength : (served Sample.seventeen ⟨0, 0xFFFFFFFFFFFFFFFF, 7⟩).length = 17 := by decide +kernel
  refine ⟨hlength, fun h => ?_⟩
  have hfew := (h (.ofTables [] []) Sample.seventeen ⟨0, 0xFFFFFFFFFFFFFFFF, 7⟩).few
  rw [hlength] at hfew
  exact absurd hfew (by decide)

end Coinjecture.Network.Cpp.SyncResponses
