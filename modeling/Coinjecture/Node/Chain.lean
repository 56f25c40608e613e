import Coinjecture.Core.Crypto
import Coinjecture.Lib.Ancestry
import Coinjecture.Lib.Effect
import Coinjecture.Lib.Saturating
import Coinjecture.Lib.Trace

/-! # The chain state

`ChainState` keeps blocks under their hash and the best tip twice: in memory (`bestHeight`,
`bestHash`) and in the metadata table, with the cumulative work and the total of the coinbase rewards
through the tip. `storeBlock` adds to these two when a block extends the tip; `updateBestChain` moves
the tip and computes them anew, by a walk along the parents to height 0. The tip in memory moves
before the walk, which may fail. The block cache and the errors of the database are left out. -/

namespace Coinjecture.Node.Chain

open Lib.Effect Lib.Table Lib.Ancestry
open Lib.Float64 Lib.Saturating Lib.Trace
open Core.Types Core.Blocks Core.Extern
open Core.Crypto

def MAX_REASONABLE_HEIGHT : UInt64 := 10000000

/-- `ChainError`, without those of the database. `Endless` is none of the source: it stands for a walk
that does not return. -/
inductive ChainError where
  | BlockNotFound
  | InvalidHeight
  | Endless
  deriving DecidableEq

structure Metadata where
  bestHeight : UInt64
  bestHash : Hash
  cumWork : BitVec 128
  totalMinted : BitVec 128
  deriving DecidableEq

structure ChainState (ext : Ext) where
  blocks : Keyed (Block.hash ext)
  heightIndex : UInt64 → Option Hash
  metadata : Metadata
  bestHeight : UInt64
  bestHash : Hash
  genesisHash : Hash

/-- `header.work_score.max(0.0) as u64 as u128`. -/
def truncatedWork (block : Block) : BitVec 128 :=
  ((block.header.workScore.max F64.zero).toUnsigned 64).setWidth 128

/-- A walk towards genesis stops at height 0. -/
def AtHeightZero (block : Block) : Prop := block.header.height = 0

instance : DecidablePred AtHeightZero := fun block =>
  inferInstanceAs (Decidable (block.header.height = 0))

abbrev parentHash (block : Block) : Hash := block.header.prevHash

/-- There are that many hashes, so a longer walk has met a block twice and does not end. -/
def WALK_LIMIT : ℕ := 2 ^ 256 + 1

namespace ChainState

variable {ext : Ext}

/-- The blocks from `tip` to the one at height 0, as `compute_cumulative_work_tip_db` and
`compute_total_minted_tip_db` visit them. -/
def walkFromTip (tip : Hash) (s : ChainState ext) : Walked Block :=
  walk parentHash AtHeightZero s.blocks WALK_LIMIT tip

/-- The saturating sum of `f` over the walk from `tip`. -/
def sumFromTip (f : Block → BitVec 128) (tip : Hash) :
    Exec ChainError (ChainState ext) (BitVec 128) := do
  match ← gets (walkFromTip tip) with
  | .found blocks => pure (blocks.foldl (fun sum block => satAdd sum (f block)) 0)
  | .missing => throw .BlockNotFound
  | .endless => throw .Endless

/-- `compute_cumulative_work_tip_db`, which is also `cumulative_work_at_tip_hash`. -/
def computeCumulativeWorkTipDb (tip : Hash) : Exec ChainError (ChainState ext) (BitVec 128) :=
  sumFromTip truncatedWork tip

/-- `compute_total_minted_tip_db`. -/
def computeTotalMintedTipDb (tip : Hash) : Exec ChainError (ChainState ext) (BitVec 128) :=
  sumFromTip (fun block => block.coinbase.reward) tip

def getBlockByHash (hash : Hash) (s : ChainState ext) : Option Block := s.blocks.get hash

def storeBlockRaw (block : Block) (s : ChainState ext) : ChainState ext :=
  { s with blocks := s.blocks.insert block }

def setHeightIndex (height : UInt64) (hash : Hash) (s : ChainState ext) : ChainState ext :=
  { s with heightIndex := Function.update s.heightIndex height (some hash) }

/-- `ChainState::new` on an empty database. -/
def new (genesisBlock : Block) : ChainState ext where
  blocks := Keyed.empty.insert genesisBlock
  heightIndex := Function.update (fun _ => none) 0 (some (Block.hash ext genesisBlock))
  metadata :=
    { bestHeight := 0
      bestHash := Block.hash ext genesisBlock
      cumWork := truncatedWork genesisBlock
      totalMinted := genesisBlock.coinbase.reward }
  bestHeight := 0
  bestHash := Block.hash ext genesisBlock
  genesisHash := Block.hash ext genesisBlock

/-- The walk of `get_canonical_block_by_height`: `n` blocks back from `hash`. -/
def blockBack (s : ChainState ext) : ℕ → Hash → Option Block
  | 0, hash => s.getBlockByHash hash
  | n + 1, hash => (s.getBlockByHash hash).bind fun block => blockBack s n block.header.prevHash

/-- `get_canonical_block_by_height`. -/
def getCanonicalBlockByHeight (height : UInt64) (s : ChainState ext) : Option Block :=
  if s.metadata.bestHeight < height then none
  else s.blockBack (s.metadata.bestHeight.toNat - height.toNat) s.metadata.bestHash

/-- The loop of `rebuild_height_index_from_canonical_tip`. -/
def rebuildHeightIndex : ℕ → Hash → Exec ChainError (ChainState ext) Unit
  | 0, hash => modify (setHeightIndex 0 hash)
  | h + 1, hash => do
    modify (setHeightIndex (UInt64.ofNat (h + 1)) hash)
    let block ← okOr .InvalidHeight (← gets (getBlockByHash hash))
    rebuildHeightIndex h block.header.prevHash

/-- What `store_block` writes when a block extends the tip. -/
def extendTip (block : Block) (s : ChainState ext) : ChainState ext where
  blocks := s.blocks
  heightIndex := Function.update s.heightIndex block.header.height (some (Block.hash ext block))
  metadata :=
    { bestHeight := block.header.height
      bestHash := Block.hash ext block
      cumWork := satAdd s.metadata.cumWork (truncatedWork block)
      totalMinted := satAdd s.metadata.totalMinted block.coinbase.reward }
  bestHeight := block.header.height
  bestHash := Block.hash ext block
  genesisHash := s.genesisHash

/-- `store_block`: whether the block is the new tip. The block is stored in any case, over whatever is
there under its hash. -/
def storeBlock (block : Block) : Exec ChainError (ChainState ext) Bool := do
  throwIf (MAX_REASONABLE_HEIGHT < block.header.height) .InvalidHeight
  modify (storeBlockRaw block)
  let currentBestHeight ← gets ChainState.bestHeight
  let currentBestHash ← gets ChainState.bestHash
  if currentBestHeight < block.header.height then
    if block.header.prevHash ≠ currentBestHash then pure false
    else do
      modify (extendTip block)
      pure true
  else pure false

/-- `update_best_chain`. -/
def updateBestChain (newBestHash : Hash) (newBestHeight : UInt64) :
    Exec ChainError (ChainState ext) Unit := do
  modify fun s => { s with bestHeight := newBestHeight, bestHash := newBestHash }
  let newCum ← computeCumulativeWorkTipDb newBestHash
  let newMinted ← computeTotalMintedTipDb newBestHash
  modify fun s => { s with
    metadata := ⟨newBestHeight, newBestHash, newCum, newMinted⟩ }
  rebuildHeightIndex newBestHeight.toNat newBestHash

end ChainState

open ChainState

/-! ### Calls -/

/-- The calls that write to the chain state. -/
inductive ChainCall where
  | storeBlock (block : Block)
  | updateBestChain (newBestHash : Hash) (newBestHeight : UInt64)
  deriving DecidableEq

/-- The result of a call: whether it succeeded, and the state it leaves. -/
def ChainCall.perform {ext : Ext} : ChainCall → ChainState ext → Except ChainError Unit × ChainState ext
  | .storeBlock block, s =>
    ((run (ChainState.storeBlock block) s).1.map fun _ => (), (run (ChainState.storeBlock block) s).2)
  | .updateBestChain hash height, s => run (ChainState.updateBestChain hash height) s

/-- A chain state taking calls. An error is reported to the caller and the state goes on. -/
def chainMachine (ext : Ext) : Machine ChainCall (ChainState ext) where
  next call s := (call.perform s).2
  halts _ _ := false

/-! ### What the calls do -/

section Spec

variable {ext : Ext} {block : Block} {s : ChainState ext}

/-- The block extends the tip in memory. -/
def Extends (block : Block) (s : ChainState ext) : Prop :=
  s.bestHeight < block.header.height ∧ block.header.prevHash = s.bestHash

instance : Decidable (Extends block s) := inferInstanceAs (Decidable (_ ∧ _))

/-- The three ends of `store_block`. -/
theorem run_storeBlock : run (storeBlock block) s =
    if MAX_REASONABLE_HEIGHT < block.header.height then (.error .InvalidHeight, s)
    else if Extends block s then (.ok true, extendTip block (storeBlockRaw block s))
    else (.ok false, storeBlockRaw block s) := by
  simp only [storeBlock, run_throwIf_bind, run_modify_bind, run_gets_bind, run_ite]
  split_ifs with hmax hheight hprev hextends hextends hextends
  · rfl
  · exact absurd hextends.2 hprev
  · rfl
  · rfl
  · exact absurd ⟨hheight, not_not.mp hprev⟩ hextends
  · exact absurd hextends.1 hheight
  · rfl

/-- `rebuild_height_index` writes to the index only. -/
theorem rebuildHeightIndex_frame (n : ℕ) (hash : Hash) (s : ChainState ext) :
    ∃ index, (run (rebuildHeightIndex n hash) s).2 = { s with heightIndex := index } := by
  induction n generalizing hash s with
  | zero => exact ⟨_, rfl⟩
  | succ n ih =>
    simp only [rebuildHeightIndex, run_modify_bind, run_gets_bind]
    rcases hget : getBlockByHash hash (setHeightIndex (UInt64.ofNat (n + 1)) hash s) with _ | block
    · exact ⟨_, rfl⟩
    · obtain ⟨index, hindex⟩ := ih block.header.prevHash
        (setHeightIndex (UInt64.ofNat (n + 1)) hash s)
      exact ⟨index, by rw [run_okOr_some_bind, hindex]; rfl⟩

theorem run_sumFromTip {f : Block → BitVec 128} {tip : Hash} {blocks : List Block}
    (h : walkFromTip tip s = .found blocks) : run (sumFromTip f tip) s =
      (.ok (blocks.foldl (fun sum block => satAdd sum (f block)) 0), s) := by
  simp only [sumFromTip, run_gets_bind, h, run_pure]

/-- `update_best_chain` where the walk from the new tip ends: what is left is to rebuild the index. -/
theorem run_updateBestChain_of_found (height : UInt64) {hash : Hash} {blocks : List Block}
    (h : walkFromTip hash s = .found blocks) :
    run (updateBestChain hash height) s = run (rebuildHeightIndex height.toNat hash)
      { s with
        metadata := ⟨height, hash, blocks.foldl (fun sum block => satAdd sum (truncatedWork block)) 0,
          blocks.foldl (fun sum block => satAdd sum block.coinbase.reward) 0⟩
        bestHeight := height
        bestHash := hash } := by
  have hwalk : walkFromTip hash { s with bestHeight := height, bestHash := hash } =
      .found blocks := h
  simp only [updateBestChain, computeCumulativeWorkTipDb, computeTotalMintedTipDb, run_modify_bind]
  rw [run_bind_ok (run_sumFromTip hwalk), run_bind_ok (run_sumFromTip hwalk), run_modify_bind]

/-- The tip moves and the sums are those of the walk. -/
theorem updateBestChain_of_found (height : UInt64) {hash : Hash} {blocks : List Block}
    (h : walkFromTip hash s = .found blocks) :
    ∃ index, (run (updateBestChain hash height) s).2 =
      { s with
        heightIndex := index
        metadata := ⟨height, hash, blocks.foldl (fun sum block => satAdd sum (truncatedWork block)) 0,
          blocks.foldl (fun sum block => satAdd sum block.coinbase.reward) 0⟩
        bestHeight := height
        bestHash := hash } := by
  rw [run_updateBestChain_of_found height h]
  obtain ⟨index, hindex⟩ := rebuildHeightIndex_frame height.toNat hash { s with
    metadata := ⟨height, hash, blocks.foldl (fun sum block => satAdd sum (truncatedWork block)) 0,
      blocks.foldl (fun sum block => satAdd sum block.coinbase.reward) 0⟩
    bestHeight := height
    bestHash := hash }
  exact ⟨index, hindex⟩

/-- `update_best_chain` moves the tip in memory in any case, and stores no block. -/
theorem updateBestChain_moves (hash : Hash) (height : UInt64) (s : ChainState ext) :
    (run (updateBestChain hash height) s).2.blocks = s.blocks ∧
      (run (updateBestChain hash height) s).2.bestHash = hash ∧
      (run (updateBestChain hash height) s).2.bestHeight = height ∧
      (run (updateBestChain hash height) s).2.genesisHash = s.genesisHash := by
  have hwalk : walkFromTip hash { s with bestHeight := height, bestHash := hash } =
      walkFromTip hash s := rfl
  rcases h : walkFromTip hash s with blocks | _ | _
  · obtain ⟨index, hresult⟩ := updateBestChain_of_found height h
    rw [hresult]
    exact ⟨rfl, rfl, rfl, rfl⟩
  · rw [h] at hwalk
    simp only [updateBestChain, computeCumulativeWorkTipDb, sumFromTip, run_modify_bind, bind_assoc,
      run_gets_bind, hwalk, run_throw_bind, and_self]
  · rw [h] at hwalk
    simp only [updateBestChain, computeCumulativeWorkTipDb, sumFromTip, run_modify_bind, bind_assoc,
      run_gets_bind, hwalk, run_throw_bind, and_self]

end Spec

end Coinjecture.Node.Chain
