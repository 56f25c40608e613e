import Coinjecture.Adzdb.Recovery
import Coinjecture.Node.AdzdbChain
import Coinjecture.Node.ChainMetadata

/-! # The two backends

`ChainState` and `AdzdbChainState` take the same blocks. While every block that is higher than the tip
extends it, and no other block is stored at its height, at that of genesis or under a known hash, both
have the same tip and the same chain, before and after they are closed and opened again
(`backends_agree`). -/

namespace Coinjecture.Node.Backends

open Lib.Effect Lib.Table Lib.Bincode
open Core.Types Core.Blocks Core.Extern Core.Crypto
open Adzdb Adzdb.Reopen
open Node.Chain
open Node.AdzdbChain hiding ChainError

variable {ext : Ext} {codec : BlockCodec}

/-! ### Both backends -/

/-- `ChainState::new` on a database that is there; none where the genesis hash is another one. The
sums in the metadata are not computed anew, since they are there. -/
def reopened (genesisBlock : Block) (s : ChainState ext) : Option (ChainState ext) :=
  if s.genesisHash ≠ Block.hash ext genesisBlock then none
  else if MAX_REASONABLE_HEIGHT < s.metadata.bestHeight then
    some { s with
      bestHeight := 0
      bestHash := Block.hash ext genesisBlock
      metadata := ⟨0, Block.hash ext genesisBlock, truncatedWork genesisBlock,
        genesisBlock.coinbase.reward⟩ }
  else some { s with bestHeight := s.metadata.bestHeight, bestHash := s.metadata.bestHash }

/-- A new `ChainState` after these blocks. -/
def redbAfter (ext : Ext) (genesisBlock : Block) (blocks : List Block) : ChainState ext :=
  blocks.foldl (fun s block => (run (ChainState.storeBlock block) s).2) (ChainState.new genesisBlock)

/-- A new `AdzdbChainState` after these blocks. -/
def adzdbAfter (ext : Ext) (codec : BlockCodec) (genesisBlock : Block) (blocks : List Block) :
    Except AdzdbChain.ChainError AdzdbChainState :=
  (AdzdbChainState.create ext codec genesisBlock).map fun a =>
    blocks.foldl (fun a block => (AdzdbChainState.storeBlock ext codec block a).2) a

/-- The same tip and the same block at each height. -/
structure SameChain (codec : BlockCodec) (s : ChainState ext) (a : AdzdbChainState) : Prop where
  bestHeight : a.bestHeight = s.bestHeight
  bestHash : a.bestHash = s.bestHash
  block : ∀ height, AdzdbChainState.getBlockByHeight codec height a =
    .ok (ChainState.getCanonicalBlockByHeight height s)

/-- After these blocks both backends have the same chain, and again when they are closed, with or without
a last `sync`, and opened. -/
def Agree (ext : Ext) (codec : BlockCodec) (genesisBlock : Block) (blocks : List Block)
    (synced : Bool) : Prop :=
  ∃ a, adzdbAfter ext codec genesisBlock blocks = .ok a ∧
    SameChain codec (redbAfter ext genesisBlock blocks) a ∧
    ∃ s' a', reopened genesisBlock (redbAfter ext genesisBlock blocks) = some s' ∧
      AdzdbChainState.openFiles ext codec genesisBlock (a.db.closed synced) = .ok a' ∧
      SameChain codec s' a'

/-! ### The condition -/

/-- A block that is higher than the tip extends it, a block under a known hash is the known one, and a
new block is at another height than the tip and genesis, under another hash than zero. -/
structure Follows (s : ChainState ext) (block : Block) : Prop where
  onTip : s.bestHeight < block.header.height → block.header.prevHash = s.bestHash
  same : ∀ b, s.blocks.get (Block.hash ext block) = some b → b = block
  height : s.blocks.get (Block.hash ext block) = none →
    block.header.height ≠ 0 ∧ block.header.height ≠ s.bestHeight
  hash : Block.hash ext block ≠ Hash.ZERO

/-- Every block of the sequence that is not too high follows where it is stored. -/
def AllFollow (s : ChainState ext) : List Block → Prop
  | [] => True
  | block :: blocks => (¬ MAX_REASONABLE_HEIGHT < block.header.height → Follows s block) ∧
      AllFollow (run (ChainState.storeBlock block) s).2 blocks

/-- The blocks are read back as they were written, and their bytes fit the database. -/
structure Fits (codec : BlockCodec) (blocks : List Block) : Prop where
  readBack : ∀ b ∈ blocks, codec.deserialize (codec.serialize b) = some b
  size : ∀ b ∈ blocks, (codec.serialize b).length < 2 ^ 32
  total : (blocks.map fun b => (codec.serialize b).length).sum < 2 ^ 64

/-! ### The database -/

section Database

variable {db : Store.Database} {p : Store.Put}

theorem get_put_self (hnew : db.isNew p = true) (hoffset : db.files.data.length < 2 ^ 64)
    (hsize : p.data.length < 2 ^ 32) : ((db.put p).2).get p.hash = .ok p.data := by
  have hoffset' : (Store.Database.newEntry db p).offset.toNat = db.files.data.length := by
    simp only [Store.Database.newEntry, UInt64.toNat_ofNat', Nat.mod_eq_of_lt hoffset]
  have hsize' : (Store.Database.newEntry db p).size.toNat = p.data.length := by
    simp only [Store.Database.newEntry, UInt32.toNat_ofNat', Nat.mod_eq_of_lt hsize]
  have hindex : (added db p).hashIndex p.hash = some (Store.Database.newEntry db p) :=
    Function.update_self ..
  have hdata : (added db p).files.data = db.files.data ++ p.data := rfl
  rw [put_of_isNew hnew, Store.Database.get, hindex]
  dsimp only
  rw [hoffset', hsize', hdata, List.drop_left, List.take_length, if_pos rfl]

theorem length_data_put (db : Store.Database) (p : Store.Put) :
    ((db.put p).2).files.data.length ≤ db.files.data.length + p.data.length := by
  rcases put_cases db p with ⟨-, heq⟩ | ⟨-, heq⟩
  · rw [heq]
    omega
  · rw [heq]
    simp only [added, List.length_append, le_refl]

theorem syncOnWrite_put (db : Store.Database) (p : Store.Put) :
    ((db.put p).2).syncOnWrite = db.syncOnWrite := putAll_syncOnWrite db [p]

/-- The indices of a new entry. -/
theorem heightIndex_put (hnew : db.isNew p = true) :
    ((db.put p).2).heightIndex = Function.update db.heightIndex p.height (some p.hash) := by
  rw [put_of_isNew hnew]
  rfl

theorem latestHeight_put (hnew : db.isNew p = true) : ((db.put p).2).metadata.latestHeight =
    if db.metadata.latestHeight < p.height then p.height else db.metadata.latestHeight := by
  rw [put_of_isNew hnew]
  exact newMetadata_latestHeight db.metadata p

end Database

/-! ### Agreement -/

/-- What holds between the two backends, and of the database by itself. -/
structure Agreement (codec : BlockCodec) (genesisBlock : Block) (s : ChainState ext)
    (a : AdzdbChainState) : Prop where
  bestHeight : a.bestHeight = s.bestHeight
  bestHash : a.bestHash = s.bestHash
  metadataHeight : s.metadata.bestHeight = s.bestHeight
  metadataHash : s.metadata.bestHash = s.bestHash
  genesisHash : s.genesisHash = Block.hash ext genesisBlock
  bound : s.bestHeight ≤ MAX_REASONABLE_HEIGHT
  found : ∀ hash b, s.blocks.get hash = some b → a.db.get hash.bytes = .ok (codec.serialize b) ∧
    codec.deserialize (codec.serialize b) = some b ∧ b.header.height ≤ s.bestHeight
  missing : ∀ hash, s.blocks.get hash = none → a.db.hashIndex hash.bytes = none
  syncOnWrite : a.db.syncOnWrite = true
  loadable : Loadable a.db
  stored : Stored a.db
  aligned : ∃ entries heights, Aligned a.db entries heights
  latest : a.db.metadata.latestHeight = s.bestHeight
  tip : a.db.heightIndex s.bestHeight = some s.bestHash.bytes
  genesis : a.db.heightIndex 0 = some (Block.hash ext genesisBlock).bytes

section Step

variable {genesisBlock block : Block} {s : ChainState ext} {a : AdzdbChainState}

/-- The blocks under a hash. -/
def SameBlocks (codec : BlockCodec) (s : ChainState ext) (a : AdzdbChainState) : Prop :=
  ∀ hash, AdzdbChainState.getBlockByHash codec hash a = .ok (s.blocks.get hash)

theorem Agreement.sameBlocks (h : Agreement codec genesisBlock s a) : SameBlocks codec s a := by
  intro hash
  rw [AdzdbChainState.getBlockByHash, AdzdbChainState.loadBlock]
  rcases hget : s.blocks.get hash with _ | b
  · rw [get_eq_notFound_iff.mpr (h.missing hash hget)]
  · obtain ⟨hfound, hread, -⟩ := h.found hash b hget
    rw [hfound]
    dsimp only
    rw [hread]

theorem SameBlocks.blockBack (h : SameBlocks codec s a) (n : ℕ) (hash : Hash) :
    AdzdbChainState.blockBack codec a n hash = .ok (s.blockBack n hash) := by
  induction n generalizing hash with
  | zero => exact h hash
  | succ n ih =>
    rw [AdzdbChainState.blockBack, h hash, ChainState.blockBack, ChainState.getBlockByHash]
    rcases s.blocks.get hash with _ | b
    · rfl
    · exact ih b.header.prevHash

theorem SameBlocks.sameChain (h : SameBlocks codec s a) (hheight : a.bestHeight = s.bestHeight)
    (hhash : a.bestHash = s.bestHash) (hheight' : s.metadata.bestHeight = s.bestHeight)
    (hhash' : s.metadata.bestHash = s.bestHash) : SameChain codec s a := by
  refine ⟨hheight, hhash, fun height => ?_⟩
  rw [AdzdbChainState.getBlockByHeight, ChainState.getCanonicalBlockByHeight, hheight, hhash, hheight',
    hhash']
  split_ifs
  · rfl
  · exact h.blockBack _ _

theorem Agreement.sameChain (h : Agreement codec genesisBlock s a) : SameChain codec s a :=
  h.sameBlocks.sameChain h.bestHeight h.bestHash h.metadataHeight h.metadataHash

theorem hash_bytes_ne {hash hash' : Hash} (h : hash ≠ hash') : hash.bytes ≠ hash'.bytes :=
  fun heq => h (Hash.ext heq)

/-- A block that is known changes nothing on either side. -/
theorem Agreement.store_known (h : Agreement codec genesisBlock s a)
    (hmax : ¬ MAX_REASONABLE_HEIGHT < block.header.height)
    (hget : s.blocks.get (Block.hash ext block) = some block) :
    Agreement codec genesisBlock (run (ChainState.storeBlock block) s).2
      (AdzdbChainState.storeBlock ext codec block a).2 := by
  obtain ⟨hfound, -, hheight⟩ := h.found _ _ hget
  have hold : a.db.isNew (blockPut ext codec block) = false := by
    rw [not_isNew_iff]
    refine .inr ?_
    rcases hindex : a.db.hashIndex (Block.hash ext block).bytes with _ | e
    · rw [get_eq_notFound_iff.mpr hindex] at hfound
      cases hfound
    · rfl
  have hnot : ¬ s.bestHeight < block.header.height := UInt64.not_lt.mpr hheight
  have hraw : ChainState.storeBlockRaw block s = s := by
    rw [ChainState.storeBlockRaw, Keyed.insert_eq_self.mpr hget]
  obtain ⟨hdb, hbest, hhash⟩ := storeBlock_frame ext codec a hmax
  rw [run_storeBlock, if_neg hmax, if_neg fun hextends => hnot hextends.1, hraw]
  rw [put_of_not_isNew hold] at hdb
  rw [h.bestHeight, if_neg hnot] at hbest
  rw [h.bestHeight, if_neg hnot] at hhash
  exact { h with
    bestHeight := hbest
    bestHash := hhash.trans h.bestHash
    found := hdb ▸ h.found
    missing := hdb ▸ h.missing
    syncOnWrite := hdb ▸ h.syncOnWrite
    loadable := hdb ▸ h.loadable
    stored := hdb ▸ h.stored
    aligned := hdb ▸ h.aligned
    latest := hdb ▸ h.latest
    tip := hdb ▸ h.tip
    genesis := hdb ▸ h.genesis }

/-- A new block is found in the database as it is in the table. -/
theorem Agreement.store_new (h : Agreement codec genesisBlock s a) (hfollows : Follows s block)
    (hmax : ¬ MAX_REASONABLE_HEIGHT < block.header.height)
    (hread : codec.deserialize (codec.serialize block) = some block)
    (hsize : (codec.serialize block).length < 2 ^ 32) (hroom : a.db.files.data.length < 2 ^ 64)
    (hget : s.blocks.get (Block.hash ext block) = none) :
    Agreement codec genesisBlock (run (ChainState.storeBlock block) s).2
      (AdzdbChainState.storeBlock ext codec block a).2 := by
  have hmiss := h.missing _ hget
  have hnew : a.db.isNew (blockPut ext codec block) = true := by
    rw [← Bool.not_eq_false, not_isNew_iff, not_or]
    refine ⟨hmax, ?_⟩
    change ¬ (a.db.hashIndex (Block.hash ext block).bytes).isSome = true
    rw [hmiss]
    decide
  obtain ⟨hzero, htip⟩ := hfollows.height hget
  obtain ⟨hdb, hbest, hhash⟩ := storeBlock_frame ext codec a hmax
  obtain ⟨hgetraw, hframe⟩ : (∀ hash, (run (ChainState.storeBlock block) s).2.blocks.get hash =
      if hash = Block.hash ext block then some block else s.blocks.get hash) ∧
      (run (ChainState.storeBlock block) s).2.genesisHash = s.genesisHash := by
    rw [run_storeBlock, if_neg hmax]
    split_ifs <;> exact ⟨fun hash => Keyed.get_insert .., rfl⟩
  have htips : (run (ChainState.storeBlock block) s).2.bestHeight =
        (if s.bestHeight < block.header.height then block.header.height else s.bestHeight) ∧
      (run (ChainState.storeBlock block) s).2.bestHash =
        (if s.bestHeight < block.header.height then Block.hash ext block else s.bestHash) ∧
      (run (ChainState.storeBlock block) s).2.metadata.bestHeight =
        (run (ChainState.storeBlock block) s).2.bestHeight ∧
      (run (ChainState.storeBlock block) s).2.metadata.bestHash =
        (run (ChainState.storeBlock block) s).2.bestHash := by
    rw [run_storeBlock, if_neg hmax]
    by_cases hlt : s.bestHeight < block.header.height
    · rw [if_pos hlt, if_pos hlt, if_pos ⟨hlt, hfollows.onTip hlt⟩]
      exact ⟨rfl, rfl, rfl, rfl⟩
    · rw [if_neg hlt, if_neg hlt, if_neg fun hextends => hlt hextends.1]
      exact ⟨rfl, rfl, h.metadataHeight, h.metadataHash⟩
  obtain ⟨hbest', hhash', hmheight, hmhash⟩ := htips
  have hle : s.bestHeight ≤ (run (ChainState.storeBlock block) s).2.bestHeight ∧
      block.header.height ≤ (run (ChainState.storeBlock block) s).2.bestHeight := by
    rw [hbest']
    split_ifs with hlt
    · exact ⟨UInt64.le_of_lt hlt, UInt64.le_refl _⟩
    · exact ⟨UInt64.le_refl _, UInt64.not_lt.mp hlt⟩
  refine {
    bestHeight := by rw [hbest, hbest', h.bestHeight]
    bestHash := by rw [hhash, hhash', h.bestHeight, h.bestHash]
    metadataHeight := hmheight
    metadataHash := hmhash
    genesisHash := hframe.trans h.genesisHash
    bound := ?_
    found := fun hash b hb => ?_
    missing := fun hash hb => ?_
    syncOnWrite := by rw [hdb, syncOnWrite_put, h.syncOnWrite]
    loadable := hdb ▸ h.loadable.put _
    stored := hdb ▸ h.stored.put _
    aligned := hdb ▸ exists_aligned_put h.aligned fun _ => hash_bytes_ne hfollows.hash
    latest := ?_
    tip := ?_
    genesis := ?_ }
  · rw [hbest']
    split_ifs
    · exact UInt64.not_lt.mp hmax
    · exact h.bound
  · rw [hgetraw] at hb
    rw [hdb]
    split_ifs at hb with hk
    · cases hb
      rw [hk]
      exact ⟨get_put_self hnew hroom hsize, hread, hle.2⟩
    · obtain ⟨hfound, hread', hheight⟩ := h.found hash b hb
      exact ⟨Recovery.get_put hfound _, hread', UInt64.le_trans hheight hle.1⟩
  · rw [hgetraw] at hb
    rw [hdb, put_of_isNew hnew]
    split_ifs at hb with hk
    exact (Function.update_of_ne (hash_bytes_ne hk) _ _).trans (h.missing hash hb)
  · rw [hdb, latestHeight_put hnew, h.latest, hbest']
  · rw [hdb, heightIndex_put hnew, hbest', hhash']
    split_ifs with hlt
    · exact Function.update_self ..
    · exact (Function.update_of_ne (Ne.symm htip) _ _).trans h.tip
  · rw [hdb, heightIndex_put hnew]
    exact (Function.update_of_ne (Ne.symm hzero) _ _).trans h.genesis

/-- A block that follows keeps the agreement. -/
theorem Agreement.store (h : Agreement codec genesisBlock s a)
    (hfollows : ¬ MAX_REASONABLE_HEIGHT < block.header.height → Follows s block)
    (hread : codec.deserialize (codec.serialize block) = some block)
    (hsize : (codec.serialize block).length < 2 ^ 32) (hroom : a.db.files.data.length < 2 ^ 64) :
    Agreement codec genesisBlock (run (ChainState.storeBlock block) s).2
      (AdzdbChainState.storeBlock ext codec block a).2 := by
  by_cases hmax : MAX_REASONABLE_HEIGHT < block.header.height
  · rw [storeBlock_of_tooHigh hmax, run_storeBlock, if_pos hmax]
    exact h
  · rcases hget : s.blocks.get (Block.hash ext block) with _ | b
    · exact h.store_new (hfollows hmax) hmax hread hsize hroom hget
    · obtain rfl := (hfollows hmax).same b hget
      exact h.store_known hmax hget

theorem length_data_storeBlock (ext : Ext) (codec : BlockCodec) (block : Block)
    (a : AdzdbChainState) : (AdzdbChainState.storeBlock ext codec block a).2.db.files.data.length ≤
      a.db.files.data.length + (codec.serialize block).length := by
  by_cases hmax : MAX_REASONABLE_HEIGHT < block.header.height
  · rw [storeBlock_of_tooHigh hmax]
    omega
  · rw [(storeBlock_frame ext codec a hmax).1]
    exact length_data_put a.db (blockPut ext codec block)

/-- A sequence of blocks that follow keeps the agreement. -/
theorem Agreement.storeAll {blocks : List Block} (h : Agreement codec genesisBlock s a)
    (hfollow : AllFollow s blocks)
    (hread : ∀ b ∈ blocks, codec.deserialize (codec.serialize b) = some b)
    (hsize : ∀ b ∈ blocks, (codec.serialize b).length < 2 ^ 32)
    (hroom : a.db.files.data.length + (blocks.map fun b => (codec.serialize b).length).sum < 2 ^ 64) :
    Agreement codec genesisBlock
      (blocks.foldl (fun s block => (run (ChainState.storeBlock block) s).2) s)
      (blocks.foldl (fun a block => (AdzdbChainState.storeBlock ext codec block a).2) a) := by
  induction blocks generalizing s a with
  | nil => exact h
  | cons block blocks ih =>
    rw [List.map_cons, List.sum_cons] at hroom
    have hlength := length_data_storeBlock ext codec block a
    obtain ⟨hblock, hblocks⟩ := hfollow
    simp only [List.foldl_cons]
    exact ih (h.store hblock (hread block List.mem_cons_self) (hsize block List.mem_cons_self)
        (by omega)) hblocks (fun b hb => hread b (List.mem_cons_of_mem _ hb))
      (fun b hb => hsize b (List.mem_cons_of_mem _ hb)) (by omega)

end Step

/-! ### Opening -/

section Opening

variable {genesisBlock : Block} {s : ChainState ext} {a : AdzdbChainState}

/-- A database that has the genesis block and a block at the latest height is loaded. -/
theorem load_of_index (codec : BlockCodec) (db : Store.Database) {hash : Hash}
    (hgenesis : db.heightIndex 0 = some (Block.hash ext genesisBlock).bytes)
    (htip : db.heightIndex db.metadata.latestHeight = some hash.bytes) :
    ∃ a, AdzdbChainState.load ext codec genesisBlock db = .ok a ∧ a.db = db ∧
      a.bestHeight = db.metadata.latestHeight ∧ a.bestHash = hash := by
  have hbest : AdzdbChainState.loadBestHash ext genesisBlock db = .ok hash := by
    rw [AdzdbChainState.loadBestHash]
    split_ifs with hpos
    · rw [htip]
    · have hzero : db.metadata.latestHeight = 0 :=
        UInt64.le_zero_iff.mp (UInt64.not_lt.mp hpos)
      rw [hzero, hgenesis] at htip
      rw [Hash.ext (Option.some.inj htip)]
  rw [AdzdbChainState.load, checkGenesis_of_stored hgenesis]
  change ∃ a, (AdzdbChainState.loadBestHash ext genesisBlock db >>= _) = _ ∧ _
  rw [hbest]
  exact ⟨_, rfl, rfl, rfl, rfl⟩

/-- Both backends are opened with the chain they had. -/
theorem Agreement.reopen (h : Agreement codec genesisBlock s a) (synced : Bool) :
    ∃ s' a', reopened genesisBlock s = some s' ∧
      AdzdbChainState.openFiles ext codec genesisBlock (a.db.closed synced) = .ok a' ∧
      SameChain codec s' a' := by
  obtain ⟨entries, heights, haligned⟩ := h.aligned
  have hload : Store.loadMetadata (a.db.closed synced).metadata = .ok a.db.metadata := by
    rw [h.stored.closed, if_pos (.inl h.syncOnWrite)]
    exact loadMetadata_toBytes h.loadable.magic h.loadable.height
  have hopen := (congrArg (fun sync => Store.openFiles sync (a.db.closed synced))
    h.syncOnWrite).symm.trans (openFiles_closed haligned.readable hload)
  have hs : reopened genesisBlock s = some s := by
    rw [reopened, if_neg (not_not.mpr h.genesisHash), h.metadataHeight,
      if_neg (UInt64.not_lt.mpr h.bound), h.metadataHash]
  obtain ⟨a', ha', hdb, hheight, hhash⟩ := load_of_index codec
    { a.db with files := a.db.closed synced } h.genesis
    ((congrArg a.db.heightIndex h.latest).trans h.tip)
  refine ⟨s, a', hs, ?_, ?_⟩
  · rw [AdzdbChainState.openFiles, hopen]
    exact ha'
  · have hsame : SameBlocks codec s a' := by
      intro hash
      have hget := get_closed a.db synced a.db.metadata hash.bytes
      have hblock := h.sameBlocks hash
      rw [AdzdbChainState.getBlockByHash, AdzdbChainState.loadBlock] at hblock ⊢
      rw [hdb]
      exact hget ▸ hblock
    exact hsame.sameChain (hheight.trans h.latest) hhash h.metadataHeight h.metadataHash

/-- A new `AdzdbChainState`. -/
theorem agreement_create (hheight : genesisBlock.header.height = 0)
    (hhash : Block.hash ext genesisBlock ≠ Hash.ZERO)
    (hread : codec.deserialize (codec.serialize genesisBlock) = some genesisBlock)
    (hsize : (codec.serialize genesisBlock).length < 2 ^ 32) :
    ∃ a, AdzdbChainState.create ext codec genesisBlock = .ok a ∧
      Agreement codec genesisBlock (ChainState.new genesisBlock : ChainState ext) a ∧
      a.db.files.data.length ≤ (codec.serialize genesisBlock).length := by
  let p : Store.Put := ⟨(Block.hash ext genesisBlock).bytes, 0, codec.serialize genesisBlock⟩
  have hnew : (Store.create true).isNew p = true := rfl
  have hdb : ((Store.create true).put p).2 = added (Store.create true) p := put_of_isNew hnew
  have hput : (Store.create true).put p = (.ok (), added (Store.create true) p) :=
    Prod.ext rfl hdb
  have hcheck : AdzdbChainState.checkGenesis ext codec genesisBlock (Store.create true) =
      .ok (added (Store.create true) p) := checkGenesis_of_put rfl hput
  have hindex : (added (Store.create true) p).heightIndex 0 =
      some (Block.hash ext genesisBlock).bytes := by
    rw [← hdb, heightIndex_put hnew]
    exact Function.update_self ..
  have hlatest : (added (Store.create true) p).metadata.latestHeight = 0 := rfl
  obtain ⟨a, ha, hadb, haheight, hahash⟩ := load_of_index codec
    (added (Store.create true) p) hindex (by rw [hlatest]; exact hindex)
  have hcreate : AdzdbChainState.create ext codec genesisBlock = .ok a := by
    rw [← ha, AdzdbChainState.create, AdzdbChainState.load, AdzdbChainState.load, hcheck,
      checkGenesis_of_stored hindex]
  have hget := get_put_self hnew (by decide) hsize
  rw [hdb] at hget
  have hblocks : ∀ hash, (ChainState.new genesisBlock : ChainState ext).blocks.get hash =
      if hash = Block.hash ext genesisBlock then some genesisBlock else none :=
    fun hash => Keyed.get_insert ..
  refine ⟨a, hcreate, ?_, ?_⟩
  · refine {
      bestHeight := haheight.trans hlatest
      bestHash := hahash
      metadataHeight := rfl
      metadataHash := rfl
      genesisHash := rfl
      bound := UInt64.le_iff_toNat_le.mpr (Nat.zero_le _)
      found := fun hash b hb => ?_
      missing := fun hash hb => ?_
      syncOnWrite := by rw [hadb]; rfl
      loadable := by
        rw [hadb]
        exact (loadable_create true).added (UInt64.le_iff_toNat_le.mpr (Nat.zero_le _))
      stored := by
        rw [hadb, ← hdb]
        exact (show Stored (Store.create true) from rfl).put p
      aligned := ?_
      latest := by rw [hadb]; rfl
      tip := by rw [hadb]; exact hindex
      genesis := by rw [hadb]; exact hindex }
    · rw [hblocks] at hb
      split_ifs at hb with hk
      cases hb
      rw [hk, hadb]
      exact ⟨hget, hread, UInt64.le_iff_toNat_le.mpr (by rw [hheight]; exact Nat.zero_le _)⟩
    · rw [hblocks] at hb
      split_ifs at hb with hk
      rw [hadb]
      exact Function.update_of_ne (hash_bytes_ne hk) _ _
    · rw [hadb]
      exact ⟨_, _, (aligned_create true).added (hash_bytes_ne hhash)⟩
  · rw [hadb]
    exact le_rfl

end Opening

/-- The backends agree after blocks that follow. -/
theorem backends_agree (genesisBlock : Block) (blocks : List Block) (synced : Bool)
    (hheight : genesisBlock.header.height = 0) (hhash : Block.hash ext genesisBlock ≠ Hash.ZERO)
    (hfits : Fits codec (genesisBlock :: blocks))
    (hfollow : AllFollow (ChainState.new genesisBlock : ChainState ext) blocks) :
    Agree ext codec genesisBlock blocks synced := by
  obtain ⟨hread, hsize, htotal⟩ := hfits
  obtain ⟨a, hcreate, hagree, hlength⟩ := agreement_create hheight hhash
    (hread genesisBlock List.mem_cons_self) (hsize genesisBlock List.mem_cons_self)
  rw [List.map_cons, List.sum_cons] at htotal
  have h := hagree.storeAll hfollow (fun b hb => hread b (List.mem_cons_of_mem _ hb))
    (fun b hb => hsize b (List.mem_cons_of_mem _ hb)) (by omega)
  exact ⟨_, by rw [adzdbAfter, hcreate]; rfl, h.sameChain, h.reopen synced⟩

/-! ### Blocks on genesis -/

open Node.ChainMetadata

/-- The bincode encoding of a block. -/
def blockBytes (b : Block) : Bytes :=
  encode b.header ++ (encode b.coinbase.to ++ encode b.coinbase.reward ++ encode b.coinbase.height) ++
    encode b.transactions ++ (encode b.solutionReveal.problem ++ encode b.solutionReveal.solution ++
      encode b.solutionReveal.commitment)

/-- bincode on the blocks of the sample chain. -/
def sampleCodec : BlockCodec where
  serialize := blockBytes
  deserialize bytes := [block0, block1, block2, block3].find? fun b => blockBytes b = bytes

set_option maxRecDepth 20000 in
/-- Block 1 on genesis, and block 2 on it. -/
theorem backends_agree_chain : Agree chainExt sampleCodec block0 [block1, block2] true := by
  refine backends_agree block0 [block1, block2] true (by decide) (by decide)
    ⟨by decide, by decide, by decide⟩ ⟨fun _ => ⟨by decide, ?_, by decide, by decide⟩,
      fun _ => ⟨by decide, ?_, by decide, by decide⟩, trivial⟩
  · intro b hb
    rw [show (ChainState.new block0 : ChainState chainExt).blocks.get (Block.hash chainExt block1) =
      none by decide] at hb
    cases hb
  · intro b hb
    change (redbAfter chainExt block0 [block1]).blocks.get (Block.hash chainExt block2) = some b at hb
    rw [show (redbAfter chainExt block0 [block1]).blocks.get (Block.hash chainExt block2) = none by
      decide] at hb
    cases hb

set_option maxRecDepth 20000 in
/-- Block 2 before block 1: `ChainState` stays on genesis, `AdzdbChainState` is on block 2. -/
theorem backends_differ :
    (redbAfter chainExt block0 [block2]).bestHeight = 0 ∧
      ((adzdbAfter chainExt sampleCodec block0 [block2]).toOption.map fun a => a.bestHeight) = some 2 ∧
      ¬ ∀ blocks, Agree chainExt sampleCodec block0 blocks true := by
  have hredb : (redbAfter chainExt block0 [block2]).bestHeight = 0 := by decide
  have hadzdb : ((adzdbAfter chainExt sampleCodec block0 [block2]).toOption.map
    fun a => a.bestHeight) = some 2 := by decide
  refine ⟨hredb, hadzdb, fun h => ?_⟩
  obtain ⟨a, ha, hsame, -⟩ := h [block2]
  rw [ha] at hadzdb
  have hbest : a.bestHeight = 2 := Option.some.inj hadzdb
  have hheight := hsame.bestHeight
  rw [hredb, hbest] at hheight
  exact absurd hheight (by decide)

end Coinjecture.Node.Backends
