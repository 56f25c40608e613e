import Coinjecture.Node.ChainRules
import Coinjecture.Node.PoolFrame

/-! # Tasks that share the chain and the ledger

The node runs as tasks that write to the chain state and to the ledger in separate steps: the handlers of
blocks, the mining loop, the processing of buffered blocks, fork checks. Between two steps of a task any
other task may step. `Service` has each of these paths as one event; here a path is the sequence of its
steps.

* `ledger_is_fold` : where no task is under way the ledger is that of the best chain, in every run whose
  steps are orderly. -/

namespace Coinjecture.Node.Interleavings

open Lib.Effect Lib.Table Lib.Ancestry Lib.Trace
open Core.Types Core.Blocks Core.Extern Core.Crypto
open State.Stores
open Node.BlockProcessing Node.Validator Node.Runs
open Node.PoolFrame
open Node.Chain Node.Chain.ChainState Node.ChainMetadata
open Node.Service Node.ServiceCalls

/-! ### Tasks -/

/-- The path of a block. `direct` are the handlers of RPC, CPP and mesh and the sync batches, which differ
in nothing here; `buffered` is `process_buffered_blocks`. -/
inductive Path where
  | direct
  | buffered
  | mining
  deriving DecidableEq

/-- A task, by its next step. -/
inductive Task where
  | store (path : Path) (block : Block)
  /-- A buffered block that was no new tip: is it one now? -/
  | recheck (block : Block)
  /-- Consensus state and pools, after a mined block is stored. -/
  | maintain (block : Block)
  | apply (path : Path) (block : Block) (thenMove : Bool)
  | moveTip (block : Block)
  /-- A fork check that has collected the blocks to unwind, in this order, and the new chain. -/
  | fork (fromGenesis : Bool) (left newChain : List Block)
  | unwind (fromGenesis : Bool) (left newChain : List Block)
  | storeNew (left newChain : List Block)
  | applyNew (block : Block) (left newChain : List Block)
  deriving DecidableEq

section Steps

variable {ext : Ext} (v : BlockValidator) (now : Int64) (clock : ℕ → Int64)

/-- The checks of a block that arrives, against the tip at this moment. A buffered block may also have
another parent that is stored. -/
def Passes (path : Path) (skip : Bool) (block : Block) (c : ChainState ext) : Prop :=
  block.header.height = c.bestHeight + 1 ∧
    (block.header.prevHash = c.bestHash ∨
      path = .buffered ∧ (c.getBlockByHash block.header.prevHash).isSome) ∧
    match parentWork block c with
    | .ok w => v.validateBlockWithOptions ext now block block.header.prevHash (c.bestHeight + 1) skip w =
        .ok ()
    | .error _ => False

instance (path : Path) (skip : Bool) (block : Block) (c : ChainState ext) :
    Decidable (Passes v now path skip block c) := by
  unfold Passes
  split
  · exact inferInstance
  · exact inferInstance

def storeStep (path : Path) (block : Block) (s : NodeState ext) : Option Task × NodeState ext :=
  let stored := { s with chain := (run (storeBlock block) s.chain).2 }
  match (run (storeBlock block) s.chain).1, path with
  | .error _, _ => (none, stored)
  | .ok _, .mining => (some (.maintain block), stored)
  | .ok true, _ => (some (.apply path block false), stored)
  | .ok false, .direct => (none, stored)
  | .ok false, .buffered => (some (.recheck block), stored)

/-- The height is the next one and the parent is the tip. -/
def ExtendsNow (block : Block) (c : ChainState ext) : Prop :=
  block.header.height = c.bestHeight + 1 ∧ block.header.prevHash = c.bestHash

instance (block : Block) (c : ChainState ext) : Decidable (ExtendsNow block c) :=
  inferInstanceAs (Decidable (_ ∧ _))

def applyStep (path : Path) (block : Block) (thenMove : Bool) (s : NodeState ext) :
    Option Task × NodeState ext :=
  let saved := if path = .buffered then saveConsensusState block.header.height s else s
  let (result, ledger) := run (applyBlockTransactions ext clock block) s.ledger
  (match result with
    | .error _ => none
    | .ok _ => if thenMove then some (.moveTip block) else none, { saved with ledger := ledger })

def moveStep (block : Block) (s : NodeState ext) : NodeState ext :=
  { s with chain := (run (updateBestChain (Block.hash ext block) block.header.height) s.chain).2 }

/-- Step 2 of `reorganize_chain`; `reorganize_chain_from_genesis` does not validate. -/
def NewChainValid (newChain : List Block) (s : NodeState ext) : Prop :=
  match newChain.head? with
  | none => False
  | some first =>
    match (run (computeCumulativeWorkTipDb first.header.prevHash) s.chain).1 with
    | .error _ => False
    | .ok w => validateNewChain ext v now first.header.prevHash w newChain = .ok ()

instance (newChain : List Block) (s : NodeState ext) : Decidable (NewChainValid v now newChain s) := by
  unfold NewChainValid
  split
  · exact inferInstance
  · split
    · exact inferInstance
    · exact inferInstance

/-- The blocks that are stored and applied: genesis is not. -/
def toApply (fromGenesis : Bool) (newChain : List Block) : List Block :=
  if fromGenesis then newChain.tail else newChain

/-- Step 1, block by block, and step 2 after it. -/
def unwindStep (fromGenesis : Bool) (left newChain : List Block) (s : NodeState ext) :
    Option Task × NodeState ext :=
  match left with
  | [] =>
    (if fromGenesis ∨ NewChainValid v now newChain s then
      some (.storeNew (toApply fromGenesis newChain) newChain) else none, s)
  | block :: left =>
    (some (.unwind fromGenesis left newChain),
      { s with ledger := unwindBlockTransactions ext block s.ledger })

/-- Step 3, and step 4 after it. -/
def storeNewStep (left newChain : List Block) (s : NodeState ext) : Option Task × NodeState ext :=
  match left with
  | [] => (none, newChain.getLast?.elim s fun last => moveStep last s)
  | block :: left =>
    let stored := { s with chain := (run (storeBlock block) s.chain).2 }
    match (run (storeBlock block) s.chain).1 with
    | .error _ => (none, stored)
    | .ok _ => (some (.applyNew block left newChain), stored)

def applyNewStep (block : Block) (left newChain : List Block) (s : NodeState ext) :
    Option Task × NodeState ext :=
  let applied := { s with ledger := (run (applyBlockTransactions ext clock block) s.ledger).2 }
  match (run (applyBlockTransactions ext clock block) s.ledger).1 with
  | .error _ => (none, applied)
  | .ok _ => (some (.storeNew left newChain), saveConsensusState block.header.height applied)

/-- A step of a task: what the task does next, if it goes on, and the node after the step. -/
def Task.perform : Task → NodeState ext → Option Task × NodeState ext
  | .store path block, s => storeStep path block s
  | .recheck block, s =>
    (if ExtendsNow block s.chain then some (.apply .buffered block true) else none, s)
  | .maintain block, s =>
    (some (.apply .mining block false), maintainPools block (saveConsensusState block.header.height s))
  | .apply path block thenMove, s => applyStep clock path block thenMove s
  | .moveTip block, s => (none, moveStep block s)
  | .fork fromGenesis left newChain, s => unwindStep v now fromGenesis left newChain s
  | .unwind fromGenesis left newChain, s => unwindStep v now fromGenesis left newChain s
  | .storeNew left newChain, s => storeNewStep left newChain s
  | .applyNew block left newChain, s => applyNewStep clock block left newChain s

/-! ### The node with its tasks -/

/-- The node, the tasks that are under way, and a record of the blocks that have been applied and not
unwound since, with the clock readings of their applications. -/
structure World (ext : Ext) where
  node : NodeState ext
  tasks : List Task
  applied : List TimedBlock

def recordUnwind (left : List Block) (applied : List TimedBlock) : List TimedBlock :=
  match left with
  | [] => applied
  | block :: _ => applied.eraseP fun b => b.1 = block

/-- What a step does to the record. -/
def Task.record : Task → List TimedBlock → List TimedBlock
  | .apply _ block _, applied => applied ++ [(block, clock)]
  | .applyNew block _ _, applied => applied ++ [(block, clock)]
  | .fork _ left _, applied => recordUnwind left applied
  | .unwind _ left _, applied => recordUnwind left applied
  | _, applied => applied

inductive Action where
  | arrives (path : Path) (now : Int64) (skip : Bool) (block : Block)
  /-- A block comes out of the miner, on whatever was the tip when its round began. -/
  | mined (block : Block)
  /-- A fork check calls `reorganize_chain`, with the old chain's last block first. -/
  | forkFound (oldChain newChain : List Block)
  /-- It calls `reorganize_chain_from_genesis`, with both chains from genesis on. -/
  | forkFoundFromGenesis (oldChain newChain : List Block)
  | step (task : Task) (now : Int64) (clock : ℕ → Int64)

/-- The world after a step of `task`. -/
def World.stepped (w : World ext) (task : Task) (result : Option Task × NodeState ext)
    (applied : List TimedBlock) : World ext :=
  ⟨result.2, result.1.toList ++ w.tasks.erase task, applied⟩

def World.next (w : World ext) : Action → World ext
  | .arrives path now skip block =>
    if path ≠ .mining ∧ Passes v now path skip block w.node.chain then
      { w with tasks := .store path block :: w.tasks }
    else w
  | .mined block => { w with tasks := .store .mining block :: w.tasks }
  | .forkFound oldChain newChain => { w with tasks := .fork false oldChain.reverse newChain :: w.tasks }
  | .forkFoundFromGenesis oldChain newChain =>
    let starts := fun blocks : List Block =>
      blocks.head?.map (Block.hash ext) = some w.node.chain.genesisHash
    if starts oldChain ∧ starts newChain then
      { w with tasks := .fork true oldChain.tail.reverse newChain :: w.tasks }
    else w
  | .step task now clock =>
    if task ∈ w.tasks then
      w.stepped task (task.perform v now clock w.node) (task.record clock w.applied)
    else w

def machine (ext : Ext) (v : BlockValidator) : Machine Action (World ext) where
  next a w := w.next v a
  halts _ _ := false

/-- A node on its genesis block, with no task. -/
def World.start (genesisBlock : Block) (ledger : Ledger) : World ext :=
  ⟨⟨.new genesisBlock, ledger, none⟩, [], []⟩

end Steps

/-! ### The ledger of the chain -/

section Chains

variable {ext : Ext} (genesisBlock : Block) (L0 : Ledger)

/-- The ledger after blocks are applied in order, each at its own time. -/
def applyAll (ext : Ext) (blocks : List TimedBlock) (L : Ledger) : Ledger :=
  blocks.foldl (fun L b => (run (applyBlockTransactions ext b.2 b.1) L).2) L

def unwindAll (ext : Ext) (blocks : List Block) (L : Ledger) : Ledger :=
  blocks.foldl (fun L block => unwindBlockTransactions ext block L) L

/-- The chain of these blocks over genesis, the last one first. -/
def chainOf (blocks : List TimedBlock) : List Block := (blocks.map Prod.fst).reverse ++ [genesisBlock]

variable (ext) in
/-- The hash of the last of these blocks over genesis. -/
def tipOf (blocks : List TimedBlock) : Hash :=
  Block.hash ext ((blocks.getLast?.map Prod.fst).getD genesisBlock)

/-- The best chain is that of the blocks that have been applied and not unwound, each once, and the balances
and nonces are those that its blocks lead to, applied in order. -/
def LedgerIsFold (w : World ext) : Prop :=
  ChainFrom w.node.chain w.node.chain.bestHash (chainOf genesisBlock w.applied) ∧
    w.node.ledger.accounts = (applyAll ext w.applied L0).accounts

/-- Each block names the one before, and none claims to be genesis. -/
def Linked (ext : Ext) : Hash → List Block → Prop
  | _, [] => True
  | tip, block :: blocks => block.header.prevHash = tip ∧ block.header.height ≠ 0 ∧
      Linked ext (Block.hash ext block) blocks

/-- The tip after the blocks. -/
def endOf (ext : Ext) : Hash → List Block → Hash
  | tip, [] => tip
  | _, block :: blocks => endOf ext (Block.hash ext block) blocks

/-! ### Orderly steps -/

/-- Between its first write that others could see half done and its last write. -/
def Task.Critical : Task → Prop
  | .maintain _ | .apply .. | .moveTip _ | .unwind .. | .storeNew .. | .applyNew .. => True
  | .store .. | .recheck _ | .fork .. => False

def Calm (w : World ext) : Prop := ∀ task ∈ w.tasks, ¬ task.Critical

/-- Under the hash of the block there is no other block. -/
def Fresh (block : Block) (c : ChainState ext) : Prop :=
  ∀ stored, c.blocks.get (Block.hash ext block) = some stored → stored = block

/-- `apply_block_transactions` returns. -/
def Applies (ext : Ext) (clock : ℕ → Int64) (block : Block) (L : Ledger) : Prop :=
  ∃ hashes, (run (applyBlockTransactions ext clock block) L).1 = .ok hashes

/-- The blocks to unwind are the last ones that were applied, unwinding them gives back the ledger from
before, and the new chain continues the block before. -/
def Exchangeable (fromGenesis : Bool) (left newChain : List Block) (w : World ext) : Prop :=
  ∃ kept undone, w.applied = kept ++ undone ∧ (undone.map Prod.fst).Perm left ∧
    ButPools (unwindAll ext left w.node.ledger) (applyAll ext kept L0) ∧
    Linked ext (tipOf ext genesisBlock kept) (toApply fromGenesis newChain) ∧
    newChain.getLast?.map (Block.hash ext) =
      some (endOf ext (tipOf ext genesisBlock kept) (toApply fromGenesis newChain))

/-- The condition on a step of a task. -/
def OrderlyStep (v : BlockValidator) (now : Int64) (clock : ℕ → Int64) (w : World ext) : Task → Prop
  | .store path block => ¬ MAX_REASONABLE_HEIGHT < block.header.height →
      Fresh block w.node.chain ∧ (Extends block w.node.chain → Calm w) ∧
        (path = .mining → Extends block w.node.chain)
  | .recheck block => ExtendsNow block w.node.chain → Calm w ∧ Extends block w.node.chain
  | .apply _ block thenMove => thenMove = true → Applies ext clock block w.node.ledger
  | .maintain _ | .moveTip _ => True
  | .fork fromGenesis left newChain =>
      (left = [] → fromGenesis = true ∨ NewChainValid v now newChain w.node) →
        Calm w ∧ Exchangeable genesisBlock L0 fromGenesis left newChain w
  | .unwind fromGenesis left newChain =>
      left = [] → fromGenesis = true ∨ NewChainValid v now newChain w.node
  | .storeNew left _ => ∀ block ∈ left.head?,
      ¬ MAX_REASONABLE_HEIGHT < block.header.height ∧ Fresh block w.node.chain
  | .applyNew block _ _ => Applies ext clock block w.node.ledger

def Orderly (v : BlockValidator) (p : Action × World ext) : Prop :=
  match p.1 with
  | .step task now clock => task ∈ p.2.tasks → OrderlyStep genesisBlock L0 v now clock p.2 task
  | .arrives .. | .mined _ | .forkFound .. | .forkFoundFromGenesis .. => True

end Chains

/-! ### Chains under writes -/

section Writes

variable {ext : Ext} {c c' : ChainState ext} {block : Block} {tip : Hash} {blocks : List Block}

/-- Nothing that is stored is lost or replaced. -/
def Keeps (c c' : ChainState ext) : Prop :=
  ∀ hash b, c.blocks.get hash = some b → c'.blocks.get hash = some b

theorem Keeps.refl (c : ChainState ext) : Keeps c c := fun _ _ h => h

theorem Keeps.chainFrom (h : Keeps c c') (hchain : ChainFrom c tip blocks) : ChainFrom c' tip blocks :=
  Lineage.mono hchain fun _ _ => h _ _

theorem keeps_storeBlock (hfresh : ¬ MAX_REASONABLE_HEIGHT < block.header.height → Fresh block c) :
    Keeps c (run (storeBlock block) c).2 := by
  intro hash b hget
  rw [run_storeBlock]
  split_ifs with hmax hextends
  · exact hget
  all_goals
    change (c.blocks.insert block).get hash = some b
    rw [Keyed.get_insert]
    split_ifs with hk
    · rw [hk] at hget
      rw [hfresh hmax b hget]
    · exact hget

theorem keeps_moveTip (hash : Hash) (height : UInt64) : Keeps c (run (updateBestChain hash height) c).2 := by
  intro k b hget
  rw [(updateBestChain_moves hash height c).1]
  exact hget

theorem get_storeBlock (hmax : ¬ MAX_REASONABLE_HEIGHT < block.header.height) :
    (run (storeBlock block) c).2.blocks.get (Block.hash ext block) = some block := by
  rw [run_storeBlock, if_neg hmax]
  split_ifs with hextends
  · exact Keyed.get_insert_self ..
  · exact Keyed.get_insert_self ..

/-- A stored block over the tip of a chain. -/
theorem chainFrom_cons (hchain : ChainFrom c tip blocks)
    (hget : c.blocks.get (Block.hash ext block) = some block) (hprev : block.header.prevHash = tip)
    (hheight : block.header.height ≠ 0) : ChainFrom c (Block.hash ext block) (block :: blocks) := by
  refine .link hget hheight ?_
  rw [parentHash, hprev]
  exact hchain

theorem Extends.height_ne_zero (h : Extends block c) : block.header.height ≠ 0 := by
  intro hzero
  have hlt := h.1
  rw [hzero] at hlt
  exact absurd hlt (by simp)

theorem chainOf_concat (genesisBlock : Block) (applied : List TimedBlock) (b : TimedBlock) :
    chainOf genesisBlock (applied ++ [b]) = b.1 :: chainOf genesisBlock applied := by
  simp [chainOf]

theorem tipOf_concat (genesisBlock : Block) (applied : List TimedBlock) (b : TimedBlock) :
    tipOf ext genesisBlock (applied ++ [b]) = Block.hash ext b.1 := by
  simp [tipOf]

theorem applyAll_concat (applied : List TimedBlock) (b : TimedBlock) (L : Ledger) :
    applyAll ext (applied ++ [b]) L =
      (run (applyBlockTransactions ext b.2 b.1) (applyAll ext applied L)).2 := by
  rw [applyAll, List.foldl_append]
  rfl

/-- The key of a chain is the hash of its first block. -/
theorem hash_of_chainFrom (h : ChainFrom c tip (block :: blocks)) : Block.hash ext block = tip := by
  cases h with
  | root hget _ => exact c.blocks.keyed hget
  | link hget _ _ => exact c.blocks.keyed hget

theorem tip_of_chainFrom {genesisBlock : Block} {applied : List TimedBlock}
    (h : ChainFrom c tip (chainOf genesisBlock applied)) : tip = tipOf ext genesisBlock applied := by
  rcases List.eq_nil_or_concat' applied with rfl | ⟨rest, b, rfl⟩
  · exact (hash_of_chainFrom h).symm
  · rw [chainOf_concat] at h
    rw [tipOf_concat]
    exact (hash_of_chainFrom h).symm

/-- A first part of the applied blocks has its chain too. -/
theorem chainFrom_kept {genesisBlock : Block} {kept undone : List TimedBlock}
    (h : ChainFrom c tip (chainOf genesisBlock (kept ++ undone))) :
    ChainFrom c (tipOf ext genesisBlock kept) (chainOf genesisBlock kept) := by
  induction undone using List.reverseRecOn generalizing tip with
  | nil =>
    rw [List.append_nil] at h
    rw [← tip_of_chainFrom h]
    exact h
  | append_singleton undone b ih =>
    rw [← List.append_assoc, chainOf_concat] at h
    generalize hrest : chainOf genesisBlock (kept ++ undone) = rest at h
    cases h with
    | root hget hroot => simp [chainOf] at hrest
    | link hget hroot hchain =>
      rw [← hrest] at hchain
      exact ih hchain

/-- No block is applied twice in a chain. -/
theorem nodup_of_chainFrom {genesisBlock : Block} {applied : List TimedBlock}
    (h : ChainFrom c tip (chainOf genesisBlock applied)) : (applied.map Prod.fst).Nodup := by
  have hnodup : (chainOf genesisBlock applied).Nodup := List.Nodup.of_map _ (Lineage.nodup h)
  exact List.nodup_reverse.mp (List.nodup_append.mp hnodup).1

end Writes

/-! ### What holds between the steps -/

section Invariant

variable {ext : Ext} (genesisBlock : Block) (L0 : Ledger)

/-- The chain from `tip` is that of the applied blocks, and the ledger is theirs. -/
structure Synced (tip : Hash) (w : World ext) : Prop where
  chain : ChainFrom w.node.chain tip (chainOf genesisBlock w.applied)
  ledger : ButPools w.node.ledger (applyAll ext w.applied L0)

/-- The chain from the block is that of the applied blocks with the block on top, and the ledger is that of
the applied blocks. -/
structure Pending (block : Block) (w : World ext) : Prop where
  chain : ChainFrom w.node.chain (Block.hash ext block) (block :: chainOf genesisBlock w.applied)
  ledger : ButPools w.node.ledger (applyAll ext w.applied L0)

variable (ext) in
/-- What is left of the new chain continues the applied blocks. -/
structure Continues (tip : Hash) (left newChain : List Block) : Prop where
  linked : Linked ext tip left
  last : newChain.getLast?.map (Block.hash ext) = some (endOf ext tip left)

/-- The state at a step of the task that is in its critical part. -/
def Phase (w : World ext) : Task → Prop
  | .maintain block => Pending genesisBlock L0 block w ∧ w.node.chain.bestHash = Block.hash ext block
  | .apply _ block thenMove => Pending genesisBlock L0 block w ∧
      (thenMove = false → w.node.chain.bestHash = Block.hash ext block)
  | .moveTip block => Synced genesisBlock L0 (Block.hash ext block) w
  | .unwind fromGenesis left newChain => ∃ kept undone, w.applied = kept ++ undone ∧
      (undone.map Prod.fst).Perm left ∧ (w.applied.map Prod.fst).Nodup ∧
      ButPools (unwindAll ext left w.node.ledger) (applyAll ext kept L0) ∧
      ChainFrom w.node.chain (tipOf ext genesisBlock kept) (chainOf genesisBlock kept) ∧
      Continues ext (tipOf ext genesisBlock kept) (toApply fromGenesis newChain) newChain
  | .storeNew left newChain => Synced genesisBlock L0 (tipOf ext genesisBlock w.applied) w ∧
      Continues ext (tipOf ext genesisBlock w.applied) left newChain
  | .applyNew block left newChain => Pending genesisBlock L0 block w ∧
      Continues ext (Block.hash ext block) left newChain
  | .store .. | .recheck _ | .fork .. => True

/-- No task is in its critical part, or one is. -/
inductive Consistent (w : World ext) : Prop where
  | calm (hcalm : Calm w) (hsynced : Synced genesisBlock L0 w.node.chain.bestHash w)
  | critical (task : Task) (htask : task ∈ w.tasks) (hcritical : task.Critical)
      (halone : ∀ other ∈ w.tasks.erase task, ¬ other.Critical) (hphase : Phase genesisBlock L0 w task)

structure Inv (w : World ext) : Prop where
  consistent : Consistent genesisBlock L0 w
  rechecked : ∀ block, .recheck block ∈ w.tasks →
    w.node.chain.blocks.get (Block.hash ext block) = some block

variable {genesisBlock L0} {w w' : World ext}

/-! ### Steps that change nothing that matters -/

/-- Blocks may have been stored; nothing else has changed. -/
structure Quiet (w w' : World ext) : Prop where
  keeps : Keeps w.node.chain w'.node.chain
  bestHash : w'.node.chain.bestHash = w.node.chain.bestHash
  ledger : w'.node.ledger = w.node.ledger
  applied : w'.applied = w.applied

theorem Synced.quiet {tip : Hash} (h : Synced genesisBlock L0 tip w) (hquiet : Quiet w w') :
    Synced genesisBlock L0 tip w' := by
  refine ⟨?_, ?_⟩
  · rw [hquiet.applied]
    exact hquiet.keeps.chainFrom h.chain
  · rw [hquiet.ledger, hquiet.applied]
    exact h.ledger

theorem Pending.quiet {block : Block} (h : Pending genesisBlock L0 block w) (hquiet : Quiet w w') :
    Pending genesisBlock L0 block w' := by
  refine ⟨?_, ?_⟩
  · rw [hquiet.applied]
    exact hquiet.keeps.chainFrom h.chain
  · rw [hquiet.ledger, hquiet.applied]
    exact h.ledger

theorem Phase.quiet {task : Task} (h : Phase genesisBlock L0 w task) (hquiet : Quiet w w') :
    Phase genesisBlock L0 w' task := by
  cases task with
  | maintain block => exact ⟨h.1.quiet hquiet, hquiet.bestHash.trans h.2⟩
  | apply path block thenMove =>
    exact ⟨h.1.quiet hquiet, fun hmove => hquiet.bestHash.trans (h.2 hmove)⟩
  | moveTip block => exact Synced.quiet h hquiet
  | unwind fromGenesis left newChain =>
    obtain ⟨kept, undone, happlied, hperm, hnodup, hledger, hchain, hcontinues⟩ := h
    refine ⟨kept, undone, hquiet.applied.trans happlied, hperm, ?_, ?_, hquiet.keeps.chainFrom hchain,
      hcontinues⟩
    · rw [hquiet.applied]
      exact hnodup
    · rw [hquiet.ledger]
      exact hledger
  | storeNew left newChain =>
    unfold Phase
    rw [hquiet.applied]
    exact ⟨h.1.quiet hquiet, h.2⟩
  | applyNew block left newChain => exact ⟨h.1.quiet hquiet, h.2⟩
  | store path block => trivial
  | recheck block => trivial
  | fork fromGenesis left newChain => trivial

/-- Where nothing that matters has changed, and only tasks come and go that are not in their critical
part. -/
theorem Consistent.quiet {added rest : List Task} (h : Consistent genesisBlock L0 w) (hquiet : Quiet w w')
    (htasks : w'.tasks = added ++ rest) (hadded : ∀ task ∈ added, ¬ task.Critical)
    (hrest : rest = w.tasks ∨ ∃ gone, ¬ gone.Critical ∧ rest = w.tasks.erase gone) :
    Consistent genesisBlock L0 w' := by
  have hsub : ∀ task ∈ rest, task ∈ w.tasks := by
    intro task htask
    rcases hrest with rfl | ⟨gone, -, rfl⟩
    · exact htask
    · exact List.mem_of_mem_erase htask
  cases h with
  | calm hcalm hsynced =>
    refine .calm ?_ ?_
    · intro task htask
      rw [htasks] at htask
      rcases List.mem_append.mp htask with hnew | hold
      · exact hadded task hnew
      · exact hcalm task (hsub task hold)
    · rw [hquiet.bestHash]
      exact hsynced.quiet hquiet
  | critical task htask hcritical halone hphase =>
    have hstays : task ∈ rest := by
      rcases hrest with rfl | ⟨gone, hgone, rfl⟩
      · exact htask
      · refine (List.mem_erase_of_ne ?_).mpr htask
        rintro rfl
        exact hgone hcritical
    refine .critical task ?_ hcritical ?_ (hphase.quiet hquiet)
    · rw [htasks]
      exact List.mem_append_right _ hstays
    · rw [htasks, List.erase_append_right _ fun hnew => hadded task hnew hcritical]
      intro other hother
      rcases List.mem_append.mp hother with hnew | hold
      · exact hadded other hnew
      · refine halone other ?_
        rcases hrest with rfl | ⟨gone, -, rfl⟩
        · exact hold
        · rw [List.erase_comm] at hold
          exact List.mem_of_mem_erase hold

/-! ### Steps of the task in its critical part -/

/-- Where the other tasks are not in their critical parts, a step leads to a consistent state if what it
leads to fits with what the task does next. -/
theorem consistent_of_next {next : Option Task} {others : List Task}
    (hothers : ∀ other ∈ others, ¬ other.Critical) (htasks : w.tasks = next.toList ++ others)
    (hnone : next = none → Synced genesisBlock L0 w.node.chain.bestHash w)
    (hsome : ∀ task, next = some task → task.Critical ∧ Phase genesisBlock L0 w task) :
    Consistent genesisBlock L0 w := by
  cases next with
  | none =>
    refine .calm ?_ (hnone rfl)
    unfold Calm
    rw [htasks]
    exact hothers
  | some task =>
    obtain ⟨hcritical, hphase⟩ := hsome task rfl
    refine .critical task ?_ hcritical ?_ hphase
    · rw [htasks]
      exact List.mem_cons_self
    · rw [htasks]
      change ∀ other ∈ (task :: others).erase task, _
      rw [List.erase_cons_head]
      exact hothers

/-- A task in its critical part is the only one there. -/
theorem Consistent.of_critical (h : Consistent genesisBlock L0 w) {task : Task} (htask : task ∈ w.tasks)
    (hcritical : task.Critical) :
    (∀ other ∈ w.tasks.erase task, ¬ other.Critical) ∧ Phase genesisBlock L0 w task := by
  cases h with
  | calm hcalm hsynced => exact absurd hcritical (hcalm task htask)
  | critical task' htask' hcritical' halone hphase =>
    obtain rfl : task = task' := by
      by_contra hne
      exact halone task ((List.mem_erase_of_ne hne).mpr htask) hcritical
    exact ⟨halone, hphase⟩

theorem Consistent.of_calm (h : Consistent genesisBlock L0 w) (hcalm : Calm w) :
    Synced genesisBlock L0 w.node.chain.bestHash w := by
  cases h with
  | calm _ hsynced => exact hsynced
  | critical task htask hcritical _ _ => exact absurd hcritical (hcalm task htask)

theorem Calm.erase (h : Calm w) (task : Task) : ∀ other ∈ w.tasks.erase task, ¬ other.Critical :=
  fun other hother => h other (List.mem_of_mem_erase hother)

theorem Inv.rechecked_stepped (h : Inv genesisBlock L0 w) {task : Task}
    {result : Option Task × NodeState ext} {applied : List TimedBlock}
    (hkeeps : Keeps w.node.chain result.2.chain)
    (hnext : ∀ block, result.1 = some (.recheck block) →
      result.2.chain.blocks.get (Block.hash ext block) = some block) (block : Block)
    (hblock : .recheck block ∈ (w.stepped task result applied).tasks) :
    (w.stepped task result applied).node.chain.blocks.get (Block.hash ext block) = some block := by
  rcases List.mem_append.mp hblock with hnew | hold
  · exact hnext block (Option.mem_toList.mp hnew)
  · exact hkeeps _ _ (h.rechecked block (List.mem_of_mem_erase hold))

theorem none_next {P : Task → Prop} (next : Task) (h : none = some next) : P next :=
  absurd h.symm (Option.some_ne_none next)

theorem some_next {P : Prop} {next : Task} (h : some next = none) : P :=
  absurd h (Option.some_ne_none next)

/-- A step of a task outside its critical part that stays outside. -/
theorem Inv.pass (h : Inv genesisBlock L0 w) {task : Task} (hnot : ¬ task.Critical)
    {result : Option Task × NodeState ext} (hkeeps : Keeps w.node.chain result.2.chain)
    (hbest : result.2.chain.bestHash = w.node.chain.bestHash) (hledger : result.2.ledger = w.node.ledger)
    (hnext : ∀ next, result.1 = some next → ∃ block, next = .recheck block ∧
      result.2.chain.blocks.get (Block.hash ext block) = some block) :
    Inv genesisBlock L0 (w.stepped task result w.applied) := by
  refine ⟨h.consistent.quiet ⟨hkeeps, hbest, hledger, rfl⟩ rfl ?_ (.inr ⟨task, hnot, rfl⟩), ?_⟩
  · intro next hmem
    obtain ⟨block, rfl, -⟩ := hnext next (Option.mem_toList.mp hmem)
    exact fun hcritical => hcritical
  · refine h.rechecked_stepped hkeeps fun block heq => ?_
    obtain ⟨block', heq', hget⟩ := hnext _ heq
    cases heq'
    exact hget

/-- A step that leads into a critical part or on in it, or ends it. -/
theorem Inv.advance (h : Inv genesisBlock L0 w) {task : Task}
    (hothers : ∀ other ∈ w.tasks.erase task, ¬ other.Critical) {result : Option Task × NodeState ext}
    {applied : List TimedBlock} (hkeeps : Keeps w.node.chain result.2.chain)
    (hnone : result.1 = none → Synced genesisBlock L0 result.2.chain.bestHash
      (w.stepped task result applied))
    (hsome : ∀ next, result.1 = some next →
      next.Critical ∧ Phase genesisBlock L0 (w.stepped task result applied) next) :
    Inv genesisBlock L0 (w.stepped task result applied) := by
  refine ⟨consistent_of_next hothers rfl hnone hsome, h.rechecked_stepped hkeeps fun block heq => ?_⟩
  exact absurd (hsome _ heq).1 fun hcritical => hcritical

/-! ### The steps of each task -/

/-- A block is stored. -/
theorem inv_store (h : Inv genesisBlock L0 w) {path : Path} {block : Block}
    (horderly : ¬ MAX_REASONABLE_HEIGHT < block.header.height → Fresh block w.node.chain ∧
      (Extends block w.node.chain → Calm w) ∧ (path = .mining → Extends block w.node.chain)) :
    Inv genesisBlock L0 (w.stepped (.store path block) (storeStep path block w.node) w.applied) := by
  have hkeeps : Keeps w.node.chain (run (storeBlock block) w.node.chain).2 :=
    keeps_storeBlock fun hmax => (horderly hmax).1
  by_cases hmax : MAX_REASONABLE_HEIGHT < block.header.height
  · have hrun : run (storeBlock block) w.node.chain = (.error .InvalidHeight, w.node.chain) := by
      rw [run_storeBlock, if_pos hmax]
    have hstep : storeStep path block w.node = (none, w.node) := by
      simp only [storeStep, hrun]
    rw [hstep]
    exact h.pass id (Keeps.refl _) rfl rfl none_next
  obtain ⟨-, hcalm, hmining⟩ := horderly hmax
  by_cases hextends : Extends block w.node.chain
  · have hrun : run (storeBlock block) w.node.chain =
        (.ok true, extendTip block (storeBlockRaw block w.node.chain)) := by
      rw [run_storeBlock, if_neg hmax, if_pos hextends]
    rw [hrun] at hkeeps
    have hsynced := h.consistent.of_calm (hcalm hextends)
    have hpending : ∀ result : Option Task × NodeState ext, result.2 = { w.node with
        chain := extendTip block (storeBlockRaw block w.node.chain) } →
        Pending genesisBlock L0 block (w.stepped (.store path block) result w.applied) := by
      rintro ⟨next, node⟩ rfl
      refine ⟨chainFrom_cons (hkeeps.chainFrom hsynced.chain) (Keyed.get_insert_self ..) hextends.2
        (Extends.height_ne_zero hextends), hsynced.ledger⟩
    -- the task goes on with the new tip, as its path says
    have hadvance : ∀ next : Task, storeStep path block w.node = (some next, { w.node with
        chain := extendTip block (storeBlockRaw block w.node.chain) }) →
        (next.Critical ∧ Phase genesisBlock L0 (w.stepped (.store path block) (some next, { w.node with
          chain := extendTip block (storeBlockRaw block w.node.chain) }) w.applied) next) →
        Inv genesisBlock L0 (w.stepped (.store path block) (storeStep path block w.node) w.applied) := by
      intro next hstep hnext
      rw [hstep]
      refine h.advance ((hcalm hextends).erase _) hkeeps some_next ?_
      rintro _ ⟨⟩
      exact hnext
    cases path with
    | mining =>
      exact hadvance (.maintain block) (by simp only [storeStep, hrun]) ⟨trivial, hpending _ rfl, rfl⟩
    | direct =>
      exact hadvance (.apply .direct block false) (by simp only [storeStep, hrun])
        ⟨trivial, hpending _ rfl, fun _ => rfl⟩
    | buffered =>
      exact hadvance (.apply .buffered block false) (by simp only [storeStep, hrun])
        ⟨trivial, hpending _ rfl, fun _ => rfl⟩
  · have hrun : run (storeBlock block) w.node.chain = (.ok false, storeBlockRaw block w.node.chain) := by
      rw [run_storeBlock, if_neg hmax, if_neg hextends]
    rw [hrun] at hkeeps
    cases path with
    | mining => exact absurd (hmining rfl) hextends
    | direct =>
      have hstep : storeStep .direct block w.node =
          (none, { w.node with chain := storeBlockRaw block w.node.chain }) := by
        simp only [storeStep, hrun]
      rw [hstep]
      exact h.pass id hkeeps rfl rfl none_next
    | buffered =>
      have hstep : storeStep .buffered block w.node =
          (some (.recheck block), { w.node with chain := storeBlockRaw block w.node.chain }) := by
        simp only [storeStep, hrun]
      rw [hstep]
      refine h.pass id hkeeps rfl rfl ?_
      rintro next ⟨⟩
      exact ⟨block, rfl, Keyed.get_insert_self ..⟩

/-- A buffered block that was no new tip is looked at again. -/
theorem inv_recheck (h : Inv genesisBlock L0 w) {block : Block} (htask : .recheck block ∈ w.tasks)
    (horderly : ExtendsNow block w.node.chain → Calm w ∧ Extends block w.node.chain) :
    Inv genesisBlock L0 (w.stepped (.recheck block)
      (if ExtendsNow block w.node.chain then some (.apply .buffered block true) else none, w.node)
      w.applied) := by
  split_ifs with hnow
  · obtain ⟨hcalm, hextends⟩ := horderly hnow
    have hsynced := h.consistent.of_calm hcalm
    refine h.advance (hcalm.erase _) (Keeps.refl _) some_next ?_
    rintro next ⟨⟩
    refine ⟨trivial, ⟨?_, hsynced.ledger⟩, nofun⟩
    exact chainFrom_cons hsynced.chain (h.rechecked block htask) hextends.2
      (Extends.height_ne_zero hextends)
  · exact h.pass id (Keeps.refl _) rfl rfl none_next

theorem butPools_maintainPools (block : Block) (s : NodeState ext) :
    ButPools (maintainPools block s).ledger s.ledger := by
  unfold maintainPools
  rcases s.consensusHeight with _ | height
  · exact .refl _
  · exact .withPools ..

/-- The pools are maintained. -/
theorem inv_maintain (h : Inv genesisBlock L0 w) {block : Block} (htask : .maintain block ∈ w.tasks) :
    Inv genesisBlock L0 (w.stepped (.maintain block) (some (.apply .mining block false),
      maintainPools block (saveConsensusState block.header.height w.node)) w.applied) := by
  obtain ⟨hothers, hpending, hbest⟩ := h.consistent.of_critical htask trivial
  have hchain : (maintainPools block (saveConsensusState block.header.height w.node)).chain =
      w.node.chain := chain_maintainPools _ _
  have hkeeps : Keeps w.node.chain
      (maintainPools block (saveConsensusState block.header.height w.node)).chain := by
    rw [hchain]
    exact Keeps.refl _
  refine h.advance hothers hkeeps some_next ?_
  rintro next ⟨⟩
  refine ⟨trivial, ⟨hkeeps.chainFrom hpending.chain, ?_⟩, fun _ => ?_⟩
  · exact (butPools_maintainPools block (saveConsensusState block.header.height w.node)).trans hpending.ledger
  · exact (congrArg ChainState.bestHash hchain).trans hbest

/-- A pending block that has been applied. -/
theorem Pending.synced {block : Block} {clock : ℕ → Int64} (h : Pending genesisBlock L0 block w)
    (hchain : w'.node.chain = w.node.chain) (happlied : w'.applied = w.applied ++ [(block, clock)])
    (hledger : w'.node.ledger = (run (applyBlockTransactions ext clock block) w.node.ledger).2) :
    Synced genesisBlock L0 (Block.hash ext block) w' := by
  refine ⟨?_, ?_⟩
  · rw [hchain, happlied, chainOf_concat]
    exact h.chain
  · rw [hledger, happlied, applyAll_concat]
    exact h.ledger.applyBlockTransactions ext clock block

/-- A block is applied. -/
theorem inv_apply (h : Inv genesisBlock L0 w) {path : Path} {block : Block} {thenMove : Bool}
    {clock : ℕ → Int64} (htask : .apply path block thenMove ∈ w.tasks)
    (horderly : thenMove = true → Applies ext clock block w.node.ledger) :
    Inv genesisBlock L0 (w.stepped (.apply path block thenMove)
      (applyStep clock path block thenMove w.node) (w.applied ++ [(block, clock)])) := by
  obtain ⟨hothers, hpending, hbest⟩ := h.consistent.of_critical htask trivial
  have hchain : (applyStep clock path block thenMove w.node).2.chain = w.node.chain := by
    cases path with
    | direct => rfl
    | buffered => rfl
    | mining => rfl
  have hledger : (applyStep clock path block thenMove w.node).2.ledger =
      (run (applyBlockTransactions ext clock block) w.node.ledger).2 := rfl
  have hsynced : Synced genesisBlock L0 (Block.hash ext block) (w.stepped (.apply path block thenMove)
      (applyStep clock path block thenMove w.node) (w.applied ++ [(block, clock)])) :=
    hpending.synced hchain rfl hledger
  have hkeeps : Keeps w.node.chain (applyStep clock path block thenMove w.node).2.chain := by
    rw [hchain]
    exact Keeps.refl _
  cases thenMove with
  | false =>
    have hnext : (applyStep clock path block false w.node).1 = none := by
      simp only [applyStep]
      split
      · rfl
      · rfl
    refine h.advance hothers hkeeps ?_ ?_
    · intro _
      rw [hchain, hbest rfl]
      exact hsynced
    · intro next heq
      rw [hnext] at heq
      cases heq
  | true =>
    obtain ⟨hashes, hok⟩ := horderly rfl
    have hnext : (applyStep clock path block true w.node).1 = some (.moveTip block) := by
      simp only [applyStep, hok, if_true]
    refine h.advance hothers hkeeps ?_ ?_
    · intro heq
      rw [hnext] at heq
      cases heq
    · intro next heq
      rw [hnext] at heq
      cases heq
      exact ⟨trivial, hsynced⟩

/-- The tip moves to where the ledger is. -/
theorem Synced.moved {tip : Hash} (h : Synced genesisBlock L0 tip w) (w' : World ext) {last : Block}
    (hlast : Block.hash ext last = tip) (happlied : w'.applied = w.applied)
    (hnode : w'.node = moveStep last w.node) :
    Synced genesisBlock L0 w'.node.chain.bestHash w' := by
  obtain ⟨-, hbest, -⟩ := updateBestChain_moves (Block.hash ext last) last.header.height w.node.chain
  have hbest' : w'.node.chain.bestHash = tip := by
    rw [hnode, ← hlast]
    exact hbest
  refine ⟨?_, ?_⟩
  · rw [hbest', hnode, happlied]
    exact (keeps_moveTip _ _).chainFrom h.chain
  · rw [hnode, happlied]
    exact h.ledger

theorem inv_moveTip (h : Inv genesisBlock L0 w) {block : Block} (htask : .moveTip block ∈ w.tasks) :
    Inv genesisBlock L0 (w.stepped (.moveTip block) (none, moveStep block w.node) w.applied) := by
  obtain ⟨hothers, hsynced⟩ := h.consistent.of_critical htask trivial
  refine h.advance hothers (keeps_moveTip _ _) (fun _ => ?_) none_next
  exact hsynced.moved (w.stepped (.moveTip block) (none, moveStep block w.node) w.applied) rfl rfl rfl

/-! ### Reorganisations -/

/-- What is known while blocks are unwound. -/
structure Unwinding (genesisBlock : Block) (L0 : Ledger) (fromGenesis : Bool) (left newChain : List Block)
    (kept undone : List TimedBlock) (w : World ext) : Prop where
  applied : w.applied = kept ++ undone
  perm : (undone.map Prod.fst).Perm left
  nodup : (w.applied.map Prod.fst).Nodup
  ledger : ButPools (unwindAll ext left w.node.ledger) (applyAll ext kept L0)
  chain : ChainFrom w.node.chain (tipOf ext genesisBlock kept) (chainOf genesisBlock kept)
  continues : Continues ext (tipOf ext genesisBlock kept) (toApply fromGenesis newChain) newChain

theorem Unwinding.phase {fromGenesis : Bool} {left newChain : List Block} {kept undone : List TimedBlock}
    (h : Unwinding genesisBlock L0 fromGenesis left newChain kept undone w) :
    Phase genesisBlock L0 w (.unwind fromGenesis left newChain) :=
  ⟨kept, undone, h.applied, h.perm, h.nodup, h.ledger, h.chain, h.continues⟩

/-- One block less to unwind. -/
theorem Unwinding.next {fromGenesis : Bool} {block : Block} {left newChain : List Block}
    {kept undone : List TimedBlock}
    (h : Unwinding genesisBlock L0 fromGenesis (block :: left) newChain kept undone w) (w' : World ext)
    (hchain : w'.node.chain = w.node.chain)
    (hledger : w'.node.ledger = unwindBlockTransactions ext block w.node.ledger)
    (happlied : w'.applied = recordUnwind (block :: left) w.applied) :
    Unwinding genesisBlock L0 fromGenesis left newChain kept (undone.eraseP fun b => b.1 = block) w' := by
  have hmem : block ∈ undone.map Prod.fst := h.perm.mem_iff.mpr List.mem_cons_self
  have hnot : ∀ b ∈ kept, ¬ b.1 = block := by
    intro b hb heq
    have hnodup := h.nodup
    rw [h.applied, List.map_append, List.nodup_append] at hnodup
    exact hnodup.2.2 _ (List.mem_map_of_mem hb) _ hmem heq
  have happlied' : w'.applied = kept ++ undone.eraseP fun b => b.1 = block := by
    rw [happlied, recordUnwind, h.applied, List.eraseP_append_right]
    intro b hb
    simpa using hnot b hb
  refine ⟨happlied', ?_, ?_, ?_, ?_, h.continues⟩
  · have herase : (undone.eraseP fun b => b.1 = block).map Prod.fst = (undone.map Prod.fst).erase block := by
      rw [List.erase_eq_eraseP', List.eraseP_map]
      rfl
    rw [herase]
    have hperm := h.perm.erase block
    rwa [List.erase_cons_head] at hperm
  · rw [happlied, recordUnwind]
    exact h.nodup.sublist (List.eraseP_sublist.map _)
  · rw [hledger]
    exact h.ledger
  · rw [hchain]
    exact h.chain

/-- Nothing is left to unwind: the blocks that are kept are the applied ones. -/
theorem Unwinding.done {fromGenesis : Bool} {newChain : List Block} {kept undone : List TimedBlock}
    (h : Unwinding genesisBlock L0 fromGenesis [] newChain kept undone w) :
    Phase genesisBlock L0 w (.storeNew (toApply fromGenesis newChain) newChain) := by
  have hnone : undone = [] := List.map_eq_nil_iff.mp (List.perm_nil.mp h.perm)
  have happlied : w.applied = kept := by
    rw [h.applied, hnone, List.append_nil]
  rw [Phase, happlied]
  refine ⟨⟨?_, ?_⟩, h.continues⟩
  · rw [happlied]
    exact h.chain
  · rw [happlied]
    exact h.ledger

/-- A step that unwinds a block, or ends the unwinding. -/
theorem Inv.unwind (h : Inv genesisBlock L0 w) {task : Task}
    (hothers : ∀ other ∈ w.tasks.erase task, ¬ other.Critical) {v : BlockValidator} {now : Int64}
    {fromGenesis : Bool} {left newChain : List Block} {kept undone : List TimedBlock}
    (hunwinding : Unwinding genesisBlock L0 fromGenesis left newChain kept undone w)
    (hvalid : left = [] → fromGenesis = true ∨ NewChainValid v now newChain w.node) :
    Inv genesisBlock L0 (w.stepped task (unwindStep v now fromGenesis left newChain w.node)
      (recordUnwind left w.applied)) := by
  cases left with
  | nil =>
    have hstep : unwindStep v now fromGenesis [] newChain w.node =
        (some (.storeNew (toApply fromGenesis newChain) newChain), w.node) := by
      simp only [unwindStep]
      rw [if_pos (hvalid rfl)]
    rw [hstep]
    refine h.advance hothers (Keeps.refl _) some_next ?_
    rintro next ⟨⟩
    have hquiet : Quiet w (w.stepped task (some (.storeNew (toApply fromGenesis newChain) newChain),
        w.node) w.applied) := ⟨Keeps.refl _, rfl, rfl, rfl⟩
    exact ⟨trivial, hunwinding.done.quiet hquiet⟩
  | cons block left =>
    refine h.advance hothers (Keeps.refl _) some_next ?_
    rintro next ⟨⟩
    have hnext := hunwinding.next (w.stepped task (unwindStep v now fromGenesis (block :: left) newChain
      w.node) (recordUnwind (block :: left) w.applied)) rfl rfl rfl
    exact ⟨trivial, hnext.phase⟩

/-- A fork check starts to unwind, if the new chain is one to go over to. -/
theorem inv_fork (h : Inv genesisBlock L0 w) {v : BlockValidator} {now : Int64} {fromGenesis : Bool}
    {left newChain : List Block}
    (horderly : (left = [] → fromGenesis = true ∨ NewChainValid v now newChain w.node) →
      Calm w ∧ Exchangeable genesisBlock L0 fromGenesis left newChain w) :
    Inv genesisBlock L0 (w.stepped (.fork fromGenesis left newChain)
      (unwindStep v now fromGenesis left newChain w.node) (recordUnwind left w.applied)) := by
  by_cases hgoes : left = [] → fromGenesis = true ∨ NewChainValid v now newChain w.node
  · obtain ⟨hcalm, kept, undone, happlied, hperm, hledger, hlinked, hlast⟩ := horderly hgoes
    have hsynced := h.consistent.of_calm hcalm
    have hchain := hsynced.chain
    refine h.unwind (hcalm.erase _) ⟨happlied, hperm, nodup_of_chainFrom hchain, hledger, ?_,
      hlinked, hlast⟩ hgoes
    rw [happlied] at hchain
    exact chainFrom_kept hchain
  · rw [Classical.not_imp] at hgoes
    obtain ⟨rfl, hnot⟩ := hgoes
    have hstep : unwindStep v now fromGenesis [] newChain w.node = (none, w.node) := by
      simp only [unwindStep]
      rw [if_neg hnot]
    rw [hstep]
    exact h.pass id (Keeps.refl _) rfl rfl none_next

theorem inv_unwind (h : Inv genesisBlock L0 w) {v : BlockValidator} {now : Int64} {fromGenesis : Bool}
    {left newChain : List Block} (htask : .unwind fromGenesis left newChain ∈ w.tasks)
    (horderly : left = [] → fromGenesis = true ∨ NewChainValid v now newChain w.node) :
    Inv genesisBlock L0 (w.stepped (.unwind fromGenesis left newChain)
      (unwindStep v now fromGenesis left newChain w.node) (recordUnwind left w.applied)) := by
  obtain ⟨hothers, kept, undone, happlied, hperm, hnodup, hledger, hchain, hcontinues⟩ :=
    h.consistent.of_critical htask trivial
  exact h.unwind hothers ⟨happlied, hperm, hnodup, hledger, hchain, hcontinues⟩ horderly

/-- A block of the new chain is stored, or the tip is moved to its end. -/
theorem inv_storeNew (h : Inv genesisBlock L0 w) {left newChain : List Block}
    (htask : .storeNew left newChain ∈ w.tasks)
    (horderly : ∀ block ∈ left.head?, ¬ MAX_REASONABLE_HEIGHT < block.header.height ∧
      Fresh block w.node.chain) :
    Inv genesisBlock L0 (w.stepped (.storeNew left newChain) (storeNewStep left newChain w.node)
      w.applied) := by
  obtain ⟨hothers, hsynced, hcontinues⟩ := h.consistent.of_critical htask trivial
  cases left with
  | nil =>
    obtain ⟨last, hlast, hhash⟩ := Option.map_eq_some_iff.mp hcontinues.last
    have hstep : storeNewStep [] newChain w.node = (none, moveStep last w.node) := by
      rw [storeNewStep, hlast]
      rfl
    rw [hstep]
    refine h.advance hothers (keeps_moveTip _ _) (fun _ => ?_) none_next
    exact hsynced.moved (w.stepped (.storeNew [] newChain) (none, moveStep last w.node) w.applied) hhash
      rfl rfl
  | cons block left =>
    obtain ⟨hmax, hfresh⟩ := horderly block rfl
    obtain ⟨hprev, hheight, hrest⟩ := hcontinues.linked
    have hkeeps : Keeps w.node.chain (run (storeBlock block) w.node.chain).2 :=
      keeps_storeBlock fun _ => hfresh
    obtain ⟨isNewBest, hok⟩ : ∃ b, (run (storeBlock block) w.node.chain).1 = .ok b := by
      rw [run_storeBlock, if_neg hmax]
      split_ifs
      · exact ⟨true, rfl⟩
      · exact ⟨false, rfl⟩
    have hstep : storeNewStep (block :: left) newChain w.node = (some (.applyNew block left newChain),
        { w.node with chain := (run (storeBlock block) w.node.chain).2 }) := by
      simp only [storeNewStep, hok]
    rw [hstep]
    have hlast := hcontinues.last
    rw [endOf] at hlast
    refine h.advance hothers hkeeps some_next ?_
    rintro next ⟨⟩
    refine ⟨trivial, ⟨?_, hsynced.ledger⟩, ⟨hrest, hlast⟩⟩
    exact chainFrom_cons (hkeeps.chainFrom hsynced.chain) (get_storeBlock hmax) hprev hheight

theorem inv_applyNew (h : Inv genesisBlock L0 w) {block : Block} {left newChain : List Block}
    {clock : ℕ → Int64} (htask : .applyNew block left newChain ∈ w.tasks)
    (horderly : Applies ext clock block w.node.ledger) :
    Inv genesisBlock L0 (w.stepped (.applyNew block left newChain)
      (applyNewStep clock block left newChain w.node) (w.applied ++ [(block, clock)])) := by
  obtain ⟨hothers, hpending, hcontinues⟩ := h.consistent.of_critical htask trivial
  obtain ⟨hashes, hok⟩ := horderly
  have hstep : applyNewStep clock block left newChain w.node = (some (.storeNew left newChain),
      saveConsensusState block.header.height { w.node with
        ledger := (run (applyBlockTransactions ext clock block) w.node.ledger).2 }) := by
    simp only [applyNewStep, hok]
  rw [hstep]
  refine h.advance hothers (Keeps.refl _) some_next ?_
  rintro next ⟨⟩
  refine ⟨trivial, ?_⟩
  change Synced genesisBlock L0 (tipOf ext genesisBlock (w.applied ++ [(block, clock)])) _ ∧
    Continues ext (tipOf ext genesisBlock (w.applied ++ [(block, clock)])) left newChain
  rw [tipOf_concat]
  exact ⟨hpending.synced rfl rfl rfl, hcontinues⟩

/-! ### Runs -/

/-- A task that starts is not in its critical part. -/
theorem Inv.start (h : Inv genesisBlock L0 w) {task : Task} (hnot : ¬ task.Critical)
    (hrecheck : ∀ block, task ≠ .recheck block) : Inv genesisBlock L0 { w with tasks := task :: w.tasks } := by
  have hadded : ∀ other ∈ [task], ¬ other.Critical := by
    intro other hother
    rw [List.mem_singleton.mp hother]
    exact hnot
  refine ⟨h.consistent.quiet ⟨Keeps.refl _, rfl, rfl, rfl⟩ List.singleton_append.symm hadded (.inl rfl), ?_⟩
  · intro block hblock
    rcases List.mem_cons.mp hblock with heq | hold
    · exact absurd heq.symm (hrecheck block)
    · exact h.rechecked block hold

theorem inv_next {v : BlockValidator} {p : Action × World ext} (h : Inv genesisBlock L0 p.2)
    (horderly : Orderly genesisBlock L0 v p) : Inv genesisBlock L0 ((machine ext v).next p.1 p.2) := by
  obtain ⟨action, w⟩ := p
  cases action with
  | arrives path now skip block =>
    simp only [machine, World.next]
    split_ifs
    · exact h.start id nofun
    · exact h
  | mined block => exact h.start id nofun
  | forkFound oldChain newChain => exact h.start id nofun
  | forkFoundFromGenesis oldChain newChain =>
    simp only [machine, World.next]
    split_ifs
    · exact h.start id nofun
    · exact h
  | step task now clock =>
    simp only [machine, World.next]
    split_ifs with htask
    · have hstep : OrderlyStep genesisBlock L0 v now clock w task := horderly htask
      cases task with
      | store path block => exact inv_store h hstep
      | recheck block => exact inv_recheck h htask hstep
      | maintain block => exact inv_maintain h htask
      | apply path block thenMove => exact inv_apply h htask hstep
      | moveTip block => exact inv_moveTip h htask
      | fork fromGenesis left newChain => exact inv_fork h hstep
      | unwind fromGenesis left newChain => exact inv_unwind h htask hstep
      | storeNew left newChain => exact inv_storeNew h htask hstep
      | applyNew block left newChain => exact inv_applyNew h htask hstep
    · exact h

theorem inv_start (hheight : genesisBlock.header.height = 0) :
    Inv genesisBlock L0 (World.start genesisBlock L0 : World ext) := by
  refine ⟨.calm (fun _ htask => absurd htask List.not_mem_nil) ⟨?_, rfl⟩,
    fun _ hblock => absurd hblock List.not_mem_nil⟩
  exact .root (Keyed.get_insert_self ..) hheight

/-- With no task under way the ledger is that of the chain. -/
theorem Inv.ledgerIsFold (h : Inv genesisBlock L0 w) (hquiescent : w.tasks = []) :
    LedgerIsFold genesisBlock L0 w := by
  have hcalm : Calm w := by
    unfold Calm
    rw [hquiescent]
    exact fun _ htask => absurd htask List.not_mem_nil
  have hsynced := h.consistent.of_calm hcalm
  exact ⟨hsynced.chain, hsynced.ledger.accounts⟩

end Invariant

/-! ### A block that is mined on an earlier tip -/

section Stale

open Node.ChainRules

def L0 : Ledger := .ofAccounts Sample.aliceHas100

/-- The later block arrives and is stored and applied. -/
def received : List Action :=
  [.arrives .direct 1767225660 false laterBlock,
    .step (.store .direct laterBlock) 0 fun _ => 0,
    .step (.apply .direct laterBlock false) 0 fun _ => 0]

/-- A block comes out of the miner before that, and is stored and applied after it. -/
def stale : List Action :=
  .mined twiceBlock :: received ++
    [.step (.store .mining twiceBlock) 0 fun _ => 0, .step (.maintain twiceBlock) 0 fun _ => 0,
      .step (.apply .mining twiceBlock false) 0 fun _ => 0]

def run0 (actions : List Action) : World ext0 :=
  (machine ext0 Sample.validator).final actions (.start block0 L0)

/-- The later block has arrived. -/
def arrived : World ext0 :=
  (machine ext0 Sample.validator).next (.arrives .direct 1767225660 false laterBlock) (.start block0 L0)

end Stale

end Coinjecture.Node.Interleavings
