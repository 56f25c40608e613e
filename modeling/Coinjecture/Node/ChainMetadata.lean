import Coinjecture.Node.Chain
import Coinjecture.Node.Validator

/-! # The sums in the metadata

`metadata_is_sum`: the cumulative work and the total minted in the metadata are the sums over the chain
from genesis to the tip, after every call of a run whose calls meet `Keeps`. Two kinds of call break it.
A block that is stored over one of the chain, under the same hash but with another reward, changes
what the sum runs over; and a tip moved to a block whose ancestors are not all there stays moved in
memory when the call fails, so that the next block extends it on top of the old sums. -/

namespace Coinjecture.Node.ChainMetadata

open Lib.Effect Lib.Table Lib.Ancestry
open Lib.Saturating Lib.Trace Lib.Bincode
open Core.Types Core.Blocks Core.Extern
open Core.Crypto
open Node.Chain Node.Chain.ChainState Node.Validator

variable {ext : Ext}

/-- The blocks from the tip to height 0. -/
abbrev ChainFrom (s : ChainState ext) (tip : Hash) (blocks : List Block) : Prop :=
  Lineage parentHash AtHeightZero s.blocks tip blocks

def workSum (blocks : List Block) : ℕ := (blocks.map fun b => (truncatedWork b).toNat).sum

def mintedSum (blocks : List Block) : ℕ := (blocks.map fun b => b.coinbase.reward.toNat).sum

/-- The metadata holds the sums over the chain from genesis to the tip. -/
def MetadataIsSum (s : ChainState ext) : Prop :=
  ∃ blocks, ChainFrom s s.bestHash blocks ∧
    blocks.getLast?.map (Block.hash ext) = some s.genesisHash ∧
    s.metadata.bestHash = s.bestHash ∧
    s.metadata.cumWork.toNat = workSum blocks ∧ s.metadata.totalMinted.toNat = mintedSum blocks

/-! ### Runs in which heights follow -/

/-- The blocks of a run of calls. -/
def storedIn (genesisBlock : Block) (calls : List ChainCall) : List Block :=
  genesisBlock :: calls.filterMap fun call =>
    match call with
    | .storeBlock block => some block
    | .updateBestChain .. => none

/-- Heights follow the parents: only genesis is at height 0, every other block is one above its parent
if that is among the blocks, and a tip is given with its height. -/
structure HeightsFollow (ext : Ext) (genesisBlock : Block) (calls : List ChainCall) : Prop where
  genesis : genesisBlock.header.height = 0
  root : ∀ b ∈ storedIn genesisBlock calls, b.header.height = 0 →
    Block.hash ext b = Block.hash ext genesisBlock
  link : ∀ b ∈ storedIn genesisBlock calls, ∀ p ∈ storedIn genesisBlock calls,
    b.header.height ≠ 0 → Block.hash ext p = b.header.prevHash →
      b.header.height = p.header.height + 1
  tip : ∀ hash height, .updateBestChain hash height ∈ calls →
    ∀ b ∈ storedIn genesisBlock calls, Block.hash ext b = hash → height = b.header.height

/-! ### The condition on a call -/

/-- A block that is stored over one of the chain has the header and the reward of that one, and the
rewards and the work of a chain that grows or that is moved to fit into the 128 bits; the ancestors of
a tip that is moved to are all there. -/
def Keeps (s : ChainState ext) : ChainCall → Prop
  | .storeBlock block => ¬ MAX_REASONABLE_HEIGHT < block.header.height →
      (∀ blocks, ChainFrom s s.bestHash blocks → ∀ b ∈ blocks,
        Block.hash ext b = Block.hash ext block →
          b.header = block.header ∧ b.coinbase.reward = block.coinbase.reward) ∧
      (Extends block s → NoCarry s.metadata.cumWork (truncatedWork block) ∧
        NoCarry s.metadata.totalMinted block.coinbase.reward)
  | .updateBestChain hash _ => ∃ blocks, walkFromTip hash s = .found blocks ∧
      workSum blocks < 2 ^ 128 ∧ mintedSum blocks < 2 ^ 128

/-- Only the genesis hash leads to a block of height 0. -/
def RootsAreGenesis (s : ChainState ext) : Prop :=
  ∀ hash block, s.blocks.get hash = some block → block.header.height = 0 → hash = s.genesisHash

/-! ### Chains under a store -/

section Store

variable {s : ChainState ext} {block : Block} {tip : Hash} {blocks : List Block}

/-- The chain with `block` for the blocks of its hash. -/
def replaced (ext : Ext) (block : Block) (blocks : List Block) : List Block :=
  blocks.map fun b => if Block.hash ext b = Block.hash ext block then block else b

theorem chainFrom_storeBlockRaw (h : ChainFrom s tip blocks)
    (hsame : ∀ b ∈ blocks, Block.hash ext b = Block.hash ext block → b.header = block.header) :
    ChainFrom (storeBlockRaw block s) tip (replaced ext block blocks) := by
  refine Lineage.insert h fun b hb hhash => ?_
  have hheader := hsame b hb hhash
  refine ⟨?_, ?_⟩
  · rw [parentHash, parentHash, hheader]
  · rw [AtHeightZero, AtHeightZero, hheader]

theorem sum_replaced {f : Block → ℕ}
    (hsame : ∀ b ∈ blocks, Block.hash ext b = Block.hash ext block → f b = f block) :
    ((replaced ext block blocks).map f).sum = (blocks.map f).sum := by
  rw [replaced, List.map_map]
  refine congrArg List.sum (List.map_congr_left fun b hb => ?_)
  rw [Function.comp_apply]
  split_ifs with hhash
  · exact (hsame b hb hhash).symm
  · rfl

theorem workSum_replaced (hsame : ∀ b ∈ blocks, Block.hash ext b = Block.hash ext block →
      b.header = block.header ∧ b.coinbase.reward = block.coinbase.reward) :
    workSum (replaced ext block blocks) = workSum blocks := by
  refine sum_replaced fun b hb hhash => ?_
  obtain ⟨hheader, -⟩ := hsame b hb hhash
  rw [truncatedWork, truncatedWork, hheader]

theorem mintedSum_replaced (hsame : ∀ b ∈ blocks, Block.hash ext b = Block.hash ext block →
      b.header = block.header ∧ b.coinbase.reward = block.coinbase.reward) :
    mintedSum (replaced ext block blocks) = mintedSum blocks := by
  refine sum_replaced fun b hb hhash => ?_
  obtain ⟨-, hreward⟩ := hsame b hb hhash
  rw [hreward]

variable (ext block blocks) in
theorem lastHash_replaced : (replaced ext block blocks).getLast?.map (Block.hash ext) =
    blocks.getLast?.map (Block.hash ext) := by
  rw [replaced, List.getLast?_map]
  rcases blocks.getLast? with _ | b
  · rfl
  · simp only [Option.map_some]
    split_ifs with hhash
    · rw [hhash]
    · rfl

end Store

/-! ### One call -/

section Step

variable {s : ChainState ext}

/-- The last block of a chain is genesis where only genesis is a root. -/
theorem last_of_chainFrom {tip : Hash} {blocks : List Block} (hroots : RootsAreGenesis s)
    (h : ChainFrom s tip blocks) : blocks.getLast?.map (Block.hash ext) = some s.genesisHash := by
  obtain ⟨b, hlast, hroot⟩ := h.exists_root
  have hget : s.blocks.get (Block.hash ext b) = some b := h.mem (List.mem_of_getLast? hlast)
  rw [hlast, Option.map_some, hroots _ b hget hroot]

/-- The blocks of the old chain under a block that extends it. -/
theorem chainFrom_extendTip {block : Block} {blocks : List Block} (hextends : Extends block s)
    (h : ChainFrom (storeBlockRaw block s) s.bestHash blocks) :
    ChainFrom (extendTip block (storeBlockRaw block s)) (Block.hash ext block)
      (block :: blocks) := by
  obtain ⟨hheight, hprev⟩ := hextends
  refine .link (Keyed.get_insert_self ..) ?_ ?_
  · intro hzero
    rw [hzero] at hheight
    exact absurd hheight (by simp)
  · rw [parentHash, hprev]
    exact h

theorem storeBlock_keeps {block : Block} (hroots : RootsAreGenesis s) (hsum : MetadataIsSum s)
    (hroot : block.header.height = 0 → Block.hash ext block = s.genesisHash)
    (hkeeps : Keeps s (.storeBlock block)) :
    RootsAreGenesis (run (storeBlock block) s).2 ∧ MetadataIsSum (run (storeBlock block) s).2 := by
  rw [run_storeBlock]
  by_cases hmax : MAX_REASONABLE_HEIGHT < block.header.height
  · rw [if_pos hmax]
    exact ⟨hroots, hsum⟩
  obtain ⟨hsame, hfits⟩ := hkeeps hmax
  obtain ⟨blocks, hchain, hlast, hhash, hwork, hminted⟩ := hsum
  have hsame' := hsame blocks hchain
  have hchain' : ChainFrom (storeBlockRaw block s) s.bestHash (replaced ext block blocks) :=
    chainFrom_storeBlockRaw hchain fun b hb hhash => (hsame' b hb hhash).1
  have hroots' : RootsAreGenesis (storeBlockRaw block s) := by
    intro hash b hget hzero
    change (s.blocks.insert block).get hash = some b at hget
    rw [Keyed.get_insert] at hget
    split_ifs at hget with hk
    · cases hget
      rw [hk]
      exact hroot hzero
    · exact hroots hash b hget hzero
  rw [if_neg hmax]
  by_cases hextends : Extends block s
  · rw [if_pos hextends]
    obtain ⟨hnoCarry, hnoCarry'⟩ := hfits hextends
    refine ⟨hroots', block :: replaced ext block blocks, chainFrom_extendTip hextends hchain', ?_,
      rfl, ?_, ?_⟩
    · rw [List.getLast?_cons]
      obtain ⟨b, hb, -⟩ := hchain'.exists_root
      have hlast' := lastHash_replaced ext block blocks
      rw [hlast, hb] at hlast'
      rw [hb]
      exact hlast'
    · change (satAdd s.metadata.cumWork (truncatedWork block)).toNat = _
      rw [toNat_satAdd hnoCarry, workSum, List.map_cons, List.sum_cons, ← workSum,
        workSum_replaced hsame', hwork, Nat.add_comm]
    · change (satAdd s.metadata.totalMinted block.coinbase.reward).toNat = _
      rw [toNat_satAdd hnoCarry', mintedSum, List.map_cons, List.sum_cons, ← mintedSum,
        mintedSum_replaced hsame', hminted, Nat.add_comm]
  · rw [if_neg hextends]
    refine ⟨hroots', replaced ext block blocks, hchain', ?_, hhash, ?_, ?_⟩
    · rw [lastHash_replaced, hlast]
      rfl
    · rw [workSum_replaced hsame']
      exact hwork
    · rw [mintedSum_replaced hsame']
      exact hminted

theorem updateBestChain_keeps {hash : Hash} {height : UInt64} (hroots : RootsAreGenesis s)
    (hkeeps : Keeps s (.updateBestChain hash height)) :
    RootsAreGenesis (run (updateBestChain hash height) s).2 ∧
      MetadataIsSum (run (updateBestChain hash height) s).2 := by
  obtain ⟨blocks, hwalk, hwork, hminted⟩ := hkeeps
  have hchain : ChainFrom s hash blocks := lineage_of_walk hwalk
  obtain ⟨index, hresult⟩ := updateBestChain_of_found height hwalk
  rw [hresult]
  refine ⟨hroots, blocks, hchain, last_of_chainFrom hroots hchain, rfl, ?_, ?_⟩
  · have hsum := toNat_foldl_satAdd (f := truncatedWork) (l := blocks) (x := 0)
      (by rw [toNat_zero', Nat.zero_add]; exact hwork)
    rw [toNat_zero', Nat.zero_add] at hsum
    exact hsum
  · have hsum := toNat_foldl_satAdd (f := fun b : Block => b.coinbase.reward) (l := blocks) (x := 0)
      (by rw [toNat_zero', Nat.zero_add]; exact hminted)
    rw [toNat_zero', Nat.zero_add] at hsum
    exact hsum

/-- The hash of the genesis block does not change. -/
theorem genesisHash_next (call : ChainCall) (s : ChainState ext) :
    ((chainMachine ext).next call s).genesisHash = s.genesisHash := by
  cases call with
  | storeBlock block =>
    change (run (storeBlock block) s).2.genesisHash = _
    rw [run_storeBlock]
    split_ifs <;> rfl
  | updateBestChain hash height => exact (updateBestChain_moves hash height s).2.2.2

end Step

/-! ### Runs of calls -/

theorem genesis_starts {genesisBlock : Block} (h : genesisBlock.header.height = 0) :
    RootsAreGenesis (ChainState.new genesisBlock : ChainState ext) ∧
      MetadataIsSum (ChainState.new genesisBlock : ChainState ext) := by
  refine ⟨fun hash block hget _ => ?_, [genesisBlock], .root (Keyed.get_insert_self ..) h, rfl, rfl,
    (List.sum_singleton).symm, (List.sum_singleton).symm⟩
  change (Keyed.empty.insert genesisBlock : Keyed (Block.hash ext)).get hash = some block at hget
  rw [Keyed.get_insert, Keyed.get_empty] at hget
  split_ifs at hget with hk
  exact hk

/-- What the run of calls keeps. -/
def Invariant (genesisBlock : Block) (s : ChainState ext) : Prop :=
  s.genesisHash = Block.hash ext genesisBlock ∧ RootsAreGenesis s ∧ MetadataIsSum s

theorem next_keeps {genesisBlock : Block} {calls : List ChainCall} {call : ChainCall}
    {s : ChainState ext} (hfollow : HeightsFollow ext genesisBlock calls) (hcall : call ∈ calls)
    (hkeeps : Keeps s call) (hs : Invariant genesisBlock s) :
    Invariant genesisBlock ((chainMachine ext).next call s) := by
  obtain ⟨hgenesis, hroots, hsum⟩ := hs
  refine ⟨(genesisHash_next call s).trans hgenesis, ?_⟩
  cases call with
  | storeBlock block =>
    have hstored : block ∈ storedIn genesisBlock calls :=
      List.mem_cons_of_mem _ (List.mem_filterMap.mpr ⟨_, hcall, rfl⟩)
    refine storeBlock_keeps hroots hsum (fun hzero => ?_) hkeeps
    rw [hfollow.root block hstored hzero, hgenesis]
  | updateBestChain hash height => exact updateBestChain_keeps hroots hkeeps

/-- In a run of calls on a new chain state, in which heights follow the parents and every call meets
`Keeps` where it is made, the metadata holds the sums over the chain after every call. -/
theorem metadata_is_sum (genesisBlock : Block) (calls : List ChainCall)
    (hfollow : HeightsFollow ext genesisBlock calls)
    (hkeeps : ∀ p ∈ (chainMachine ext).trace calls (ChainState.new genesisBlock), Keeps p.2 p.1) :
    ∀ p ∈ (chainMachine ext).trace calls (ChainState.new genesisBlock),
      MetadataIsSum ((chainMachine ext).next p.1 p.2) := by
  have hstep : ∀ p ∈ (chainMachine ext).trace calls (ChainState.new genesisBlock),
      Invariant genesisBlock p.2 → Invariant genesisBlock ((chainMachine ext).next p.1 p.2) :=
    fun p hp hs => next_keeps hfollow (Machine.mem_of_mem_trace hp) (hkeeps p hp) hs
  have hstart : Invariant genesisBlock (ChainState.new genesisBlock : ChainState ext) :=
    ⟨rfl, genesis_starts hfollow.genesis⟩
  intro p hp
  exact (hstep p hp (Machine.invariant_trace hstep hstart p hp)).2.2

/-! ### A chain of four blocks -/

def headerAt (height : UInt64) (prevHash : Hash) : BlockHeader :=
  { Sample.header Hash.ZERO 0 with height := height, prevHash := prevHash }

def blockAt (height : UInt64) (prevHash : Hash) (reward : Balance) : Block :=
  { Sample.block (headerAt height prevHash) [] with coinbase := ⟨Sample.carol, reward, height⟩ }

def hash0 : Hash := ⟨0x0cef7ab88307ff32337b456a3f8c692ae93d93fc011fa7c0dd914df120174b36⟩

def hash1 : Hash := ⟨0x756f8b1b0e75ea5be9be8deb2ef378b684012fee704ba16ab6b0073c68234210⟩

def hash2 : Hash := ⟨0xb4ef6d9494628908d2e407dc72be96529aebffc78c3d0644368099af546f820d⟩

def hash3 : Hash := ⟨0x0355a18851b9414f844f451a1ca3b1ae621d2c1c99add4e50f6b366691388c5b⟩

def chainExt : Ext := Ext.ofTables
  [(encode (headerAt 0 Hash.ZERO), hash0.bytes), (encode (headerAt 1 hash0), hash1.bytes),
    (encode (headerAt 2 hash1), hash2.bytes), (encode (headerAt 3 hash2), hash3.bytes)] []

def block0 : Block := blockAt 0 Hash.ZERO 7

def block1 : Block := blockAt 1 hash0 50

def block2 : Block := blockAt 2 hash1 50

def block3 : Block := blockAt 3 hash2 50

/-- The first block with another reward: the header and the hash are the same. -/
def block1' : Block := blockAt 1 hash0 70

abbrev start : ChainState chainExt := ChainState.new block0

theorem walk_eq {s : ChainState chainExt} {tip : Hash} {blocks blocks' : List Block}
    (hwalk : walkFromTip tip s = .found blocks) (h : ChainFrom s tip blocks') : blocks' = blocks :=
  h.unique (lineage_of_walk hwalk)

theorem trace_pair (c d : ChainCall) (s : ChainState ext) :
    (chainMachine ext).trace [c, d] s = [(c, s), (d, (chainMachine ext).next c s)] := rfl

theorem final_pair (c d : ChainCall) (s : ChainState ext) : (chainMachine ext).final [c, d] s =
    (chainMachine ext).next d ((chainMachine ext).next c s) := rfl

set_option maxRecDepth 20000 in
/-- Extending genesis and going back to it. -/
theorem metadata_is_sum_back :
    MetadataIsSum ((chainMachine chainExt).final [.storeBlock block1, .updateBestChain hash0 0]
      start) := by
  have hfollow : HeightsFollow chainExt block0 [.storeBlock block1, .updateBestChain hash0 0] := by
    refine ⟨by decide, by decide, by decide, fun hash height hcall => ?_⟩
    obtain ⟨rfl, rfl⟩ : hash = hash0 ∧ height = 0 := by simpa using hcall
    decide
  have hsum := metadata_is_sum block0 _ hfollow
  rw [trace_pair] at hsum
  rw [final_pair]
  simp only [List.forall_mem_cons, List.not_mem_nil, false_implies, implies_true, and_true] at hsum
  refine (hsum ⟨fun _ => ⟨fun blocks hblocks => ?_, fun _ => by decide⟩, [block0],
    by decide, by decide, by decide⟩).2
  have hwalk : walkFromTip start.bestHash start = .found [block0] := by decide
  rw [walk_eq hwalk hblocks]
  decide

/-- Block 1 again, with the other reward. -/
def overwriting : List ChainCall := [.storeBlock block1, .storeBlock block1']

/-- The tip moved to block 2 while block 1 is missing; then block 3, and block 1 at last. -/
def stranding : List ChainCall :=
  [.storeBlock block2, .updateBestChain hash2 2, .storeBlock block3, .storeBlock block1]

set_option maxRecDepth 20000 in
theorem heightsFollow_overwriting : HeightsFollow chainExt block0 overwriting := by
  refine ⟨by decide, by decide, by decide, fun hash height hcall => ?_⟩
  simp [overwriting] at hcall

set_option maxRecDepth 20000 in
theorem heightsFollow_stranding : HeightsFollow chainExt block0 stranding := by
  refine ⟨by decide, by decide, by decide, fun hash height hcall => ?_⟩
  obtain ⟨rfl, rfl⟩ : hash = hash2 ∧ height = 2 := by simpa [stranding] using hcall
  decide

set_option maxRecDepth 20000 in
/-- After the second reward is stored the metadata says 57, and the chain 77. -/
theorem overwriting_not_sum : ¬ MetadataIsSum ((chainMachine chainExt).final overwriting start) := by
  rintro ⟨blocks, hblocks, -, -, -, hminted⟩
  have hwalk : walkFromTip ((chainMachine chainExt).final overwriting start).bestHash
      ((chainMachine chainExt).final overwriting start) = .found [block1', block0] := by
    decide
  rw [walk_eq hwalk hblocks] at hminted
  exact absurd hminted (by decide)

set_option maxRecDepth 20000 in
/-- The metadata counts block 3 and genesis, and the chain has four blocks. -/
theorem stranding_not_sum : ¬ MetadataIsSum ((chainMachine chainExt).final stranding start) := by
  rintro ⟨blocks, hblocks, -, -, hwork, -⟩
  have hwalk : walkFromTip ((chainMachine chainExt).final stranding start).bestHash
      ((chainMachine chainExt).final stranding start) = .found [block3, block2, block1, block0] := by
    decide
  rw [walk_eq hwalk hblocks] at hwork
  exact absurd hwork (by decide)

set_option maxRecDepth 20000 in
/-- Heights follow the parents in both runs, and the last calls succeed. -/
theorem metadata_is_not_sum :
    (¬ MetadataIsSum ((chainMachine chainExt).final overwriting start) ∧
      ¬ MetadataIsSum ((chainMachine chainExt).final stranding start)) ∧
    ¬ ∀ genesisBlock calls, HeightsFollow chainExt genesisBlock calls →
      ∀ p ∈ (chainMachine chainExt).trace calls (ChainState.new genesisBlock),
        (p.1.perform p.2).1 = .ok () → MetadataIsSum ((chainMachine chainExt).next p.1 p.2) := by
  refine ⟨⟨overwriting_not_sum, stranding_not_sum⟩, fun h => overwriting_not_sum ?_⟩
  have hsum := h block0 overwriting heightsFollow_overwriting
  rw [overwriting, trace_pair] at hsum
  rw [overwriting, final_pair]
  simp only [List.forall_mem_cons, List.not_mem_nil, false_implies, implies_true, and_true] at hsum
  exact hsum.2 (by decide)

end Coinjecture.Node.ChainMetadata
