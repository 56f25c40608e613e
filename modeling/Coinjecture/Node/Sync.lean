import Coinjecture.Node.ServiceCalls

/-! # Synchronisation batches

The blocks of a batch are looked at one after the other: the next block of the tip is stored and applied if
it is on the chain of the peer's advertised tip as far as that chain is stored, and all other blocks that are
not known wait in a buffer, one for each height. Then the buffer is drained: as long as it has the next block
of the tip, that block is stored and applied. What the peer is told and thought of, and the reorganisation
that is looked for when a batch has applied nothing, are left out. -/

namespace Coinjecture.Node.Sync

open Lib.Effect Lib.Table
open Core.Types Core.Blocks Core.Extern Core.Crypto
open State.Stores Node.BlockProcessing Node.Validator
open Node.Chain Node.Chain.ChainState Node.Service
open Node.ServiceCalls

def SUPPORTED_VERSIONS : List UInt32 := [1, 2]

structure NodeConfig where
  minBlockVersion : UInt32
  produceBlockVersion : UInt32
  strictVersion : Bool

/-- The reasons against a version are logged only. -/
def NodeConfig.shouldAcceptVersion (version : UInt32) (config : NodeConfig) : Bool :=
  decide (version ∈ SUPPORTED_VERSIONS) && decide (config.minBlockVersion ≤ version) &&
    !(config.strictVersion && decide (version ≠ config.produceBlockVersion))

/-- The tip that a peer has advertised. -/
structure PeerTip where
  height : UInt64
  hash : Hash
  cumulativeWork : BitVec 128

section Canonical

variable {ext : Ext}

/-- The loop of `is_hash_on_chain_from_tip`. -/
def isHashBelow (chain : ChainState ext) (candidate : Hash) : ℕ → Hash → Bool
  | 0, _ => false
  | tipHeight + 1, hash =>
    match chain.getBlockByHash hash with
    | none => false
    | some block =>
      decide (block.header.prevHash = candidate) || isHashBelow chain candidate tipHeight block.header.prevHash

def isHashOnChainFromTip (chain : ChainState ext) (tipHash : Hash) (tipHeight : UInt64) (candidate : Hash) :
    Bool :=
  decide (candidate = tipHash) || isHashBelow chain candidate tipHeight.toNat tipHash

def shouldApplySyncExtension (chain : ChainState ext) (blockHash : Hash) (blockHeight : UInt64)
    (peerTip : PeerTip) : Bool :=
  if peerTip.height ≤ blockHeight ∨ peerTip.cumulativeWork = 0 then true
  else if peerTip.cumulativeWork ≤ chain.metadata.cumWork then true
  else isHashOnChainFromTip chain peerTip.hash peerTip.height blockHash

variable (ext)

def missingForkPointParentHash (tipHash : Hash) (nextBuffered forkPointBuffered : Option Block) : Option Hash :=
  nextBuffered.bind fun next =>
    let parent := next.header.prevHash
    if parent = tipHash then none
    else if forkPointBuffered.any fun block => Block.hash ext block = parent then none
    else some parent

end Canonical

/-! ### The handler -/

abbrev bufferKey (block : Block) : UInt64 := block.header.height

/-- The node, the blocks that wait, and those that have been applied, in order. -/
structure SyncState (ext : Ext) where
  node : NodeState ext
  blockBuffer : Keyed bufferKey
  applied : List Block

structure Batch where
  now : Int64
  clock : ℕ → Int64
  peerTip : PeerTip
  blocks : List Block

variable {ext : Ext}

abbrev SyncState.chain (s : SyncState ext) : ChainState ext := s.node.chain

def SyncState.hold (block : Block) (s : SyncState ext) : SyncState ext :=
  { s with blockBuffer := s.blockBuffer.insert block }

def SyncState.release (height : UInt64) (s : SyncState ext) : SyncState ext :=
  { s with blockBuffer := s.blockBuffer.erase height }

/-- A block that becomes the tip is applied; an error of its transactions is logged only. -/
def SyncState.storeAndApply (clock : ℕ → Int64) (block : Block) (s : SyncState ext) : SyncState ext :=
  let (isNewBest, chain) := run (storeBlock block) s.chain
  match isNewBest with
  | .ok true =>
    { s with
      node := { s.node with
        chain := chain
        ledger := (run (applyBlockTransactions ext clock block) s.node.ledger).2 }
      applied := s.applied ++ [block] }
  | _ => { s with node := { s.node with chain := chain } }

variable (config : NodeConfig) (v : BlockValidator)

/-- The block against the tip; the error is that of the work through its parent. -/
def checkNext (now : Int64) (block : Block) (chain : ChainState ext) : Except ChainError Bool :=
  (parentWork block chain).map fun emissionW =>
    (v.validateBlockWithOptions ext now block chain.bestHash (chain.bestHeight + 1) true emissionW).isOk

/-- A block of the batch. -/
def processSyncBlock (b : Batch) (s : SyncState ext) (block : Block) : SyncState ext :=
  if config.shouldAcceptVersion block.header.version = false then s
  else
    let bestHeight := s.chain.bestHeight
    let bestHash := s.chain.bestHash
    let expectedHeight := bestHeight + 1
    let neededForkParent := missingForkPointParentHash ext bestHash (s.blockBuffer.get expectedHeight)
      (s.blockBuffer.get bestHeight)
    if neededForkParent = some (Block.hash ext block) then s.hold block
    else if block.header.height = bestHeight ∧ Block.hash ext block ≠ bestHash then s.hold block
    else if block.header.height = expectedHeight ∧ block.header.prevHash = bestHash then
      if shouldApplySyncExtension s.chain (Block.hash ext block) block.header.height b.peerTip then
        match checkNext v b.now block s.chain with
        | .error _ => s
        | .ok true => s.storeAndApply b.clock block
        | .ok false => s.hold block
      else s.hold block
    else if block.header.height = expectedHeight then s.hold block
    else if expectedHeight < block.header.height then s.hold block
    else
      -- an older block conflicts if it is not the one of our chain at its height
      let conflicting := (getCanonicalBlockByHeight block.header.height s.chain).all
        fun existing => Block.hash ext existing ≠ Block.hash ext block
      if conflicting ∨ (block.header.height = bestHeight ∧ Block.hash ext block ≠ bestHash) then s.hold block
      else s

/-- There are fewer rounds: each takes a block out of the buffer, or is the last one. -/
def DRAIN_ROUNDS : ℕ := 2 ^ 66

/-- The loop over the buffer. -/
def drain (now : Int64) (clock : ℕ → Int64) : ℕ → SyncState ext → SyncState ext
  | 0, s => s
  | rounds + 1, s =>
    let nextHeight := s.chain.bestHeight + 1
    match s.blockBuffer.get nextHeight with
    | none => s
    | some block =>
      let t := s.release nextHeight
      if config.shouldAcceptVersion block.header.version = false then drain now clock rounds t
      else if block.header.prevHash = s.chain.bestHash then
        match checkNext v now block s.chain with
        | .error _ => drain now clock rounds t
        | .ok true => drain now clock rounds (t.storeAndApply clock block)
        | .ok false => drain now clock rounds t
      else t.hold block

/-- `CppNetworkEvent::BlocksReceived`. -/
def blocksReceived (s : SyncState ext) (b : Batch) : SyncState ext :=
  drain config v b.now b.clock DRAIN_ROUNDS (b.blocks.foldl (processSyncBlock config v b) s)

/-! ### What the steps do -/

/-- The block is accepted as the next one: it is stored, becomes the tip and is applied. -/
structure Ready (now : Int64) (block : Block) (chain : ChainState ext) : Prop where
  version : config.shouldAcceptVersion block.header.version = true
  height : block.header.height = chain.bestHeight + 1
  prevHash : block.header.prevHash = chain.bestHash
  valid : checkNext v now block chain = .ok true
  stored : (run (storeBlock block) chain).1 = .ok true

instance (now : Int64) (block : Block) (chain : ChainState ext) : Decidable (Ready config v now block chain) :=
  decidable_of_iff (config.shouldAcceptVersion block.header.version = true ∧
    block.header.height = chain.bestHeight + 1 ∧ block.header.prevHash = chain.bestHash ∧
      checkNext v now block chain = .ok true ∧ (run (storeBlock block) chain).1 = .ok true)
    ⟨fun ⟨h₁, h₂, h₃, h₄, h₅⟩ => ⟨h₁, h₂, h₃, h₄, h₅⟩, fun ⟨h₁, h₂, h₃, h₄, h₅⟩ => ⟨h₁, h₂, h₃, h₄, h₅⟩⟩

variable {config v} {s : SyncState ext} {block : Block}

@[simp] theorem chain_hold : (s.hold block).chain = s.chain := rfl

@[simp] theorem chain_release (height : UInt64) : (s.release height).chain = s.chain := rfl

@[simp] theorem applied_hold : (s.hold block).applied = s.applied := rfl

@[simp] theorem applied_release (height : UInt64) : (s.release height).applied = s.applied := rfl

/-- A block that is stored and does not become the tip leaves the tip as it is. -/
theorem storeAndApply_of_not_stored (clock : ℕ → Int64) (h : (run (storeBlock block) s.chain).1 ≠ .ok true) :
    (s.storeAndApply clock block).applied = s.applied ∧
      (s.storeAndApply clock block).blockBuffer = s.blockBuffer ∧
        (s.storeAndApply clock block).chain = (run (storeBlock block) s.chain).2 := by
  unfold SyncState.storeAndApply
  cases hstored : (run (storeBlock block) s.chain).1 with
  | error e => simp only [hstored, true_and]
  | ok isNewBest =>
    cases isNewBest with
    | true => exact absurd hstored h
    | false => simp only [hstored, true_and]

theorem storeAndApply_of_stored (clock : ℕ → Int64) (h : (run (storeBlock block) s.chain).1 = .ok true) :
    (s.storeAndApply clock block).applied = s.applied ++ [block] ∧
      (s.storeAndApply clock block).blockBuffer = s.blockBuffer ∧
        (s.storeAndApply clock block).chain = (run (storeBlock block) s.chain).2 := by
  unfold SyncState.storeAndApply
  simp only [h, true_and]

/-- The block is the tip after it. -/
theorem tip_of_stored {chain : ChainState ext} (h : (run (storeBlock block) chain).1 = .ok true) :
    (run (storeBlock block) chain).2.bestHash = Block.hash ext block ∧
      (run (storeBlock block) chain).2.bestHeight = block.header.height ∧
        chain.bestHeight < block.header.height ∧ block.header.height ≤ MAX_REASONABLE_HEIGHT := by
  rw [run_storeBlock] at h ⊢
  by_cases hmax : MAX_REASONABLE_HEIGHT < block.header.height
  · rw [if_pos hmax] at h
    cases h
  · by_cases hextends : Extends block chain
    · rw [if_neg hmax, if_pos hextends]
      exact ⟨rfl, rfl, hextends.1, UInt64.not_lt.mp hmax⟩
    · rw [if_neg hmax, if_neg hextends] at h
      cases h

/-- What may happen to a block of the batch whose version is accepted. -/
theorem processSyncBlock_cases (b : Batch) (hversion : config.shouldAcceptVersion block.header.version = true) :
    processSyncBlock config v b s block = s.hold block ∨
      (processSyncBlock config v b s block = s ∧ (block.header.height < s.chain.bestHeight + 1 ∨
        (block.header.height = s.chain.bestHeight + 1 ∧ ∃ e, checkNext v b.now block s.chain = .error e))) ∨
      (block.header.height = s.chain.bestHeight + 1 ∧ block.header.prevHash = s.chain.bestHash ∧
        checkNext v b.now block s.chain = .ok true ∧
          processSyncBlock config v b s block = s.storeAndApply b.clock block) := by
  unfold processSyncBlock
  rw [if_neg (by simp [hversion])]
  simp only
  split_ifs with hfork hsame hnext hgate hexpected hfuture holder
  · exact .inl rfl
  · exact .inl rfl
  · cases hcheck : checkNext v b.now block s.chain with
    | error e => exact .inr (.inl ⟨rfl, .inr ⟨hnext.1, e, rfl⟩⟩)
    | ok valid =>
      cases valid with
      | true => exact .inr (.inr ⟨hnext.1, hnext.2, rfl, rfl⟩)
      | false => exact .inl rfl
  · exact .inl rfl
  · exact .inl rfl
  · exact .inl rfl
  · exact .inl rfl
  · exact .inr (.inl ⟨rfl, .inl (UInt64.lt_of_le_of_ne (UInt64.not_lt.mp hfuture) hexpected)⟩)

end Coinjecture.Node.Sync
