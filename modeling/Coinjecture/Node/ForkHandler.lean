import Coinjecture.Node.Service

/-! # The fork handler

A chain is offered by its tip, with the blocks of the sync buffer that are not stored yet. The handler
looks for a common ancestor at equal counted heights, collects the two branches above it and compares
the sums of their work scores, each score cut off to an integer and the sums taken modulo 2 ^ 64. With
no common ancestor both chains are compared from genesis. What is only logged is left out, and so are
the heights in the messages of the errors. -/

namespace Coinjecture.Node.ForkHandler

open Lib.Effect Lib.Float64
open Core.Types Core.Blocks Core.Extern
open Core.Crypto
open Node.Validator Node.Chain Node.Chain.ChainState
open Node.Service

def MIN_ANCHOR_DEPTH : UInt64 := 6

/-- What `attempt_reorganization_if_longer_chain` is called with. -/
structure Offer where
  endHash : Hash
  endHeight : UInt64
  altChain : List Block
  now : Int64
  clock : ℕ → ℕ → Int64

inductive ForkError where
  | oldBlockMissing
  | newBlockMissing
  | emptyChain
  | notFromGenesis
  | service (error : ServiceError)
  deriving DecidableEq

/-! ### Work -/

/-- `work_score as u64`. -/
def scoreAsU64 (block : Block) : BitVec 64 := block.header.workScore.toUnsigned 64

/-- The sum of a release build. -/
def chainWork (blocks : List Block) : BitVec 64 :=
  blocks.foldl (fun work block => work + scoreAsU64 block) 0

/-- `WorkScoreCalculator::compare_chains`. -/
def compareChains (ourWork theirWork : BitVec 64) : ℤ :=
  let tolerance := ourWork / 200
  if ourWork + tolerance < theirWork then 1
  else if theirWork + tolerance < ourWork then -1
  else 0

/-! ### The common ancestor -/

section Ancestor

variable {ext : Ext} (chain : ChainState ext) (altChain : List Block)

/-- The hash `n` blocks back along the parents. -/
def hashBack (block? : Hash → Option Block) : ℕ → Hash → Option Hash
  | 0, hash => some hash
  | n + 1, hash => (block? hash).bind fun block => hashBack block? n block.header.prevHash

/-- The block of our chain at `height`, if it is the one under `hash`. -/
def ourBlockAt (height : ℕ) (hash : Hash) : Option (Hash × UInt64) :=
  match chain.getCanonicalBlockByHeight (.ofNat height) with
  | some ours => if hash = Block.hash ext ours then some (hash, .ofNat height) else none
  | none => none

/-- The last loop, from equal heights on. `theirHeight` stays what it was before the loop. -/
def walkBoth (theirHeight : ℕ) : ℕ → Hash → Hash → Option (Hash × UInt64)
  | 0, ourHash, theirHash => if ourHash = theirHash then some (ourHash, 0) else none
  | n + 1, ourHash, theirHash =>
    if ourHash = theirHash then some (ourHash, .ofNat (n + 1))
    else
      match chain.getBlockByHash ourHash, blockFromChainOrAlt chain altChain theirHash with
      | some ourBlock, some theirBlock =>
        let found := if 0 < theirHeight
          then ourBlockAt chain (theirHeight - 1) theirBlock.header.prevHash else none
        found.or (walkBoth theirHeight n ourBlock.header.prevHash theirBlock.header.prevHash)
      | some _, none => ourBlockAt chain theirHeight theirHash
      | none, some theirBlock => ourBlockAt chain (n + 1) theirBlock.header.prevHash
      | none, none => none

/-- The loop over their chain as far as it is higher than ours, `n` blocks above. -/
def walkTheirs : ℕ → Hash → Option (Hash × UInt64)
  | 0, theirHash =>
    walkBoth chain altChain chain.bestHeight.toNat chain.bestHeight.toNat chain.bestHash theirHash
  | n + 1, theirHash =>
    match blockFromChainOrAlt chain altChain theirHash with
    | some block =>
      (ourBlockAt chain (chain.bestHeight.toNat + n) block.header.prevHash).or
        (walkTheirs n block.header.prevHash)
    | none => ourBlockAt chain (chain.bestHeight.toNat + n + 1) theirHash

/-- `find_common_ancestor_with_alt_chain`. The loop that aligns our height walks over the same blocks as
the one before it. -/
def findCommonAncestorWithAltChain (targetHash : Hash) (targetHeight : UInt64) :
    Option (Hash × UInt64) :=
  if targetHeight ≤ chain.bestHeight then
    match hashBack chain.getBlockByHash (chain.bestHeight.toNat - targetHeight.toNat)
      chain.bestHash with
    | none => none
    | some ourHash =>
      if ourHash = targetHash then some (ourHash, targetHeight)
      else walkBoth chain altChain targetHeight.toNat targetHeight.toNat ourHash targetHash
  else walkTheirs chain altChain (targetHeight.toNat - chain.bestHeight.toNat) targetHash

end Ancestor

/-! ### Chains from genesis -/

section FromGenesis

variable {ext : Ext} (v : BlockValidator) (now : Int64) (chain : ChainState ext)

/-- The walk of `validate_chain_from_genesis`, the last block first, and the hash it comes to. -/
def candidateWalk (altChain : List Block) : ℕ → Hash → Option (List Block × Hash)
  | 0, hash => some ([], hash)
  | n + 1, hash => do
    let block ← blockFromChainOrAlt chain altChain hash
    guard (block.header.height.toNat = n + 1)
    let (blocks, endHash) ← candidateWalk altChain n block.header.prevHash
    pure (block :: blocks, endHash)

/-- The integrity check. -/
def Connected (ext : Ext) (blocks : List Block) : Prop :=
  blocks.IsChain fun prev curr =>
    curr.header.prevHash = Block.hash ext prev ∧ curr.header.height = prev.header.height + 1

instance (blocks : List Block) : Decidable (Connected ext blocks) :=
  inferInstanceAs (Decidable (List.IsChain _ _))

/-- `validate_chain_from_genesis`. Genesis is taken as valid. -/
def validateChainFromGenesis (altChain : List Block) (endHash : Hash) (endHeight : UInt64) :
    Option (List Block) := do
  let (blocks, hash) ← candidateWalk chain altChain endHeight.toNat endHash
  guard (hash = chain.genesisHash)
  let genesis ← chain.getBlockByHash chain.genesisHash
  guard (genesis.header.height = 0)
  guard (Connected ext (genesis :: blocks.reverse))
  match validateNewChain ext v now (Block.hash ext genesis) (truncatedWork genesis)
    blocks.reverse with
  | .ok () => some (genesis :: blocks.reverse)
  | .error _ => none

/-- The walk of `get_chain_from_genesis` down to height 1, the last block first. -/
def canonicalWalk : ℕ → Hash → Option (List Block)
  | 0, _ => some []
  | n + 1, hash => do
    let block ← chain.getCanonicalBlockByHeight (.ofNat (n + 1))
    guard (Block.hash ext block = hash)
    let blocks ← canonicalWalk n block.header.prevHash
    pure (block :: blocks)

/-- `get_chain_from_genesis`. -/
def getChainFromGenesis : Option (List Block) := do
  let blocks ← canonicalWalk chain chain.bestHeight.toNat chain.bestHash
  let genesis ← chain.getCanonicalBlockByHeight 0
  guard (Block.hash ext genesis = chain.genesisHash)
  pure (genesis :: blocks.reverse)

/-- `reorganize_chain_from_genesis`. Here the old blocks are unwound last first. -/
def reorganizeChainFromGenesis (clock : ℕ → ℕ → Int64) (oldChain newChain : List Block) :
    Exec ForkError (NodeState ext) Unit :=
  match oldChain, newChain with
  | oldGenesis :: oldChain, newGenesis :: newChain => do
    let genesisHash ← gets fun s => s.chain.genesisHash
    throwIf (Block.hash ext oldGenesis ≠ genesisHash ∨ Block.hash ext newGenesis ≠ genesisHash)
      .notFromGenesis
    modify fun s => { s with ledger := unwindBlocks ext oldChain s.ledger }
    mapErr .service do
      applyNewChain clock 0 newChain
      let lastBlock := (newGenesis :: newChain).getLast (List.cons_ne_nil _ _)
      onChain "Failed to update best chain: "
        (updateBestChain (Block.hash ext lastBlock) lastBlock.header.height)
  | _, _ => throw .emptyChain

end FromGenesis

/-! ### The handler -/

variable {ext : Ext} (v : BlockValidator)

/-- The common ancestor is stored, deep enough and not above our best height. -/
def Anchored (chain : ChainState ext) (commonHash : Hash) (commonHeight : UInt64) : Prop :=
  ¬ commonHeight < MIN_ANCHOR_DEPTH ∧
    ∃ block, chain.getBlockByHash commonHash = some block ∧
      ¬ chain.bestHeight < block.header.height

instance (chain : ChainState ext) (commonHash : Hash) (commonHeight : UInt64) :
    Decidable (Anchored chain commonHash commonHeight) :=
  inferInstanceAs (Decidable (_ ∧ ∃ block, _ = some block ∧ _))

/-- The branch without a common ancestor. -/
def switchCompletely (o : Offer) (chain : ChainState ext) : Exec ForkError (NodeState ext) Bool :=
  match validateChainFromGenesis v o.now chain o.altChain o.endHash o.endHeight with
  | none => pure false
  | some newChain =>
    match getChainFromGenesis chain with
    | none => pure false
    | some oldChain =>
      if compareChains (chainWork oldChain) (chainWork newChain) ≤ 0 ∧
        o.endHeight ≤ chain.bestHeight then pure false
      else do
        reorganizeChainFromGenesis o.clock oldChain newChain
        pure true

/-- The branch above a common ancestor. -/
def switchAbove (o : Offer) (chain : ChainState ext) (commonHeight : UInt64) :
    Exec ForkError (NodeState ext) Bool := do
  let oldChain ← okOr .oldBlockMissing (oldChainBlocks chain commonHeight)
  let newChain ← okOr .newBlockMissing
    (newChainBlocks chain o.altChain o.endHash o.endHeight commonHeight)
  if compareChains (chainWork oldChain) (chainWork newChain) ≤ 0 then pure false
  else do
    mapErr .service (reorganizeChain v o.now o.clock oldChain newChain)
    pure true

/-- `attempt_reorganization_if_longer_chain`: whether the node has switched. -/
def attemptReorganizationIfLongerChain (o : Offer) : Exec ForkError (NodeState ext) Bool := do
  let chain ← gets NodeState.chain
  if o.endHeight < chain.bestHeight then pure false
  else if o.endHeight = chain.bestHeight ∧ o.endHash = chain.bestHash then pure false
  else
    match findCommonAncestorWithAltChain chain o.altChain o.endHash o.endHeight with
    | some (commonHash, commonHeight) =>
      if Anchored chain commonHash commonHeight then switchAbove v o chain commonHeight
      else pure false
    | none => switchCompletely v o chain

end Coinjecture.Node.ForkHandler
