import Coinjecture.Node.BlockProcessing
import Coinjecture.Node.Chain
import Coinjecture.Node.Validator
import Coinjecture.State.PoolMaintenance

/-! # The node service

The paths by which blocks reach the chain state and the ledger.

* `receiveBlock` : a block of a peer or of a client, on every path that validates against the tip (CPP
  push, sync batch, the buffer after it, mesh, RPC). The paths differ in how they report an error.
* `mineBlock` : the end of a round of `mining_loop`. The block is not validated; whether the store made
  it the tip is not looked at; and the pools are maintained, which the other paths do not do.
* `reorganizeChain` : unwind the old chain, validate the new one, store and apply it, move the tip.

Nothing that was written is taken back when a later step fails. -/

namespace Coinjecture.Node.Service

open Lib.Effect Lib.Float64 Lib.Saturating
open Core.Types Core.Blocks Core.Extern
open Core.Crypto
open State.Stores State.Stores.Ledger State.PoolMaintenance
open Node.BlockProcessing Node.Validator
open Node.Chain Node.Chain.ChainState

/-- The chain state and the stores of a node. Of the saved consensus states the highest height counts. -/
structure NodeState (ext : Ext) where
  chain : ChainState ext
  ledger : Ledger
  consensusHeight : Option UInt64

/-- Why a path stops. `context` is the text before the cause. -/
inductive ServiceError where
  | height (expected actual : UInt64)
  | prevHash (expected actual : Hash)
  | chain (context : String) (error : ChainError)
  | validation (context : String) (error : ValidationError)
  | notExtending
  | emptyChain
  | disconnected (height : UInt64)
  | ledger (failure : Failure)
  deriving DecidableEq

section Parts

variable {ext : Ext} {σ α : Type}

def onChain (context : String) (x : Exec ChainError (ChainState ext) α) :
    Exec ServiceError (NodeState ext) α :=
  zoom NodeState.chain (fun chain s => { s with chain := chain }) (mapErr (.chain context) x)

def onLedger (x : Exec Failure Ledger α) : Exec ServiceError (NodeState ext) α :=
  zoom NodeState.ledger (fun ledger s => { s with ledger := ledger }) (mapErr .ledger x)

/-- `validate(..).map_err(..)?`. -/
def validated (context : String) : Except ValidationError Unit → Exec ServiceError σ Unit
  | .ok () => pure ()
  | .error e => throw (.validation context e)

/-- The work through the parent, which the reward is checked against; genesis has none. -/
def emissionWork (block : Block) : Exec ServiceError (NodeState ext) (Option (BitVec 128)) :=
  if block.header.height = 0 then pure none
  else do
    let w ← onChain "Could not compute parent cumulative work: "
      (computeCumulativeWorkTipDb block.header.prevHash)
    pure (some w)

/-- `save_consensus_state`. -/
def saveConsensusState (height : UInt64) (s : NodeState ext) : NodeState ext :=
  { s with consensusHeight :=
      match s.consensusHeight with
      | none => some height
      | some h => some (if h < height then height else h) }

/-- The pool updates of `mining_loop`, in the consensus state of the highest height saved. -/
def maintainPools (block : Block) (s : NodeState ext) : NodeState ext :=
  match s.consensusHeight with
  | none => s
  | some h => { s with ledger := s.ledger.withPools (maintain ext (.atHeight ext h)
      block.coinbase.reward block.header.height s.ledger.pools) }

end Parts

variable {ext : Ext} (v : BlockValidator) (now : Int64)

/-- A received block: checked against the tip, validated, stored and applied. -/
def receiveBlock (clock : ℕ → Int64) (skipTimestampAgeCheck : Bool) (block : Block) :
    Exec ServiceError (NodeState ext) (List Hash) := do
  let expectedHeight ← gets fun s => s.chain.bestHeight + 1
  let bestHash ← gets fun s => s.chain.bestHash
  throwIf (block.header.height ≠ expectedHeight) (.height expectedHeight block.header.height)
  throwIf (block.header.prevHash ≠ bestHash) (.prevHash bestHash block.header.prevHash)
  let emissionW ← emissionWork block
  validated "Block validation failed: " (v.validateBlockWithOptions ext now block bestHash
    expectedHeight skipTimestampAgeCheck emissionW)
  let isNewBest ← onChain "Failed to store block: " (storeBlock block)
  throwIf (!isNewBest) .notExtending
  onLedger (applyBlockTransactions ext clock block)

/-- A mined block: stored, the pools maintained, and applied. -/
def mineBlock (clock : ℕ → Int64) (block : Block) :
    Exec ServiceError (NodeState ext) (List Hash) := do
  let _isNewBest ← onChain "failed to store mined block: " (storeBlock block)
  modify (saveConsensusState block.header.height)
  modify (maintainPools block)
  onLedger (applyBlockTransactions ext clock block)

/-! ### Reorganisation -/

/-- The blocks from `height` on, `n` of them, on the canonical chain. -/
def canonicalBlocks (chain : ChainState ext) (height : UInt64) : ℕ → Option (List Block)
  | 0 => some []
  | n + 1 => do
    let block ← chain.getCanonicalBlockByHeight height
    let blocks ← canonicalBlocks chain (height + 1) n
    pure (block :: blocks)

/-- The old chain as `attempt_reorganization_if_longer_chain` collects it: from the common ancestor
up, then reversed. -/
def oldChainBlocks (chain : ChainState ext) (commonHeight : UInt64) : Option (List Block) :=
  (canonicalBlocks chain (commonHeight + 1)
    (chain.bestHeight.toNat - commonHeight.toNat)).map List.reverse

/-- `block_from_chain_or_alt`. -/
def blockFromChainOrAlt (chain : ChainState ext) (altChain : List Block) (hash : Hash) :
    Option Block :=
  match chain.getBlockByHash hash with
  | some block => some block
  | none => altChain.find? fun b => Block.hash ext b = hash

/-- The walk that collects the new chain: `n` blocks back from `hash`, the last one first. The heights
of the blocks are not looked at. -/
def newChainWalk (chain : ChainState ext) (altChain : List Block) : ℕ → Hash → Option (List Block)
  | 0, _ => some []
  | n + 1, hash => do
    let block ← blockFromChainOrAlt chain altChain hash
    let blocks ← newChainWalk chain altChain n block.header.prevHash
    pure (block :: blocks)

/-- The new chain, from the block after the common ancestor to its end. -/
def newChainBlocks (chain : ChainState ext) (altChain : List Block) (endHash : Hash)
    (endHeight commonHeight : UInt64) : Option (List Block) :=
  (newChainWalk chain altChain (endHeight.toNat - commonHeight.toNat) endHash).map List.reverse

variable (ext) in
/-- The loop of step 1: the blocks given last first. -/
def unwindBlocks (oldChain : List Block) (L : Ledger) : Ledger :=
  oldChain.reverse.foldl (fun L block => unwindBlockTransactions ext block L) L

variable (ext) in
/-- The loop of step 2. The height the validator is told to expect is the block's own. -/
def validateNewChain : Hash → BitVec 128 → List Block → Except ServiceError Unit
  | _, _, [] => .ok ()
  | prevHash, parentCumulativeWork, block :: blocks =>
    if block.header.prevHash ≠ prevHash then .error (.disconnected block.header.height)
    else
      let emissionW := if block.header.height = 0 then none else some parentCumulativeWork
      match v.validateBlockWithOptions ext now block prevHash block.header.height true emissionW with
      | .ok () => validateNewChain (Block.hash ext block)
          (satAdd parentCumulativeWork (truncatedWork block)) blocks
      | .error e => .error (.validation "New chain block validation failed: " e)

/-- The loop of step 3. -/
def applyNewChain (clock : ℕ → ℕ → Int64) : ℕ → List Block → Exec ServiceError (NodeState ext) Unit
  | _, [] => pure ()
  | i, block :: blocks => do
    let _isNewBest ← onChain "Failed to store block: " (storeBlock block)
    let _appliedTxs ← onLedger (applyBlockTransactions ext (clock i) block)
    modify (saveConsensusState block.header.height)
    applyNewChain clock (i + 1) blocks

/-- `reorganize_chain`. -/
def reorganizeChain (clock : ℕ → ℕ → Int64) (oldChain newChain : List Block) :
    Exec ServiceError (NodeState ext) Unit := do
  modify fun s => { s with ledger := unwindBlocks ext oldChain s.ledger }
  let firstBlock ← okOr .emptyChain newChain.head?
  let parentCumulativeWork ← onChain "Common ancestor cumulative work: "
    (computeCumulativeWorkTipDb firstBlock.header.prevHash)
  match validateNewChain ext v now firstBlock.header.prevHash parentCumulativeWork newChain with
  | .error e => throw e
  | .ok () => do
    applyNewChain clock 0 newChain
    match newChain.getLast? with
    | none => pure ()
    | some lastBlock =>
      onChain "Failed to update best chain: "
        (updateBestChain (Block.hash ext lastBlock) lastBlock.header.height)

end Coinjecture.Node.Service
