import Coinjecture.Node.ChainMetadata

/-! # Pruning

`pruneBlocksBefore` removes the blocks that the height index names strictly between height 0 and the
smaller of the given height and the best height. Heights and cumulative work are looked up by a walk
along the parents, which does not get past a block that is gone: in a run of calls as the node makes them
the chain stays usable exactly where there is nothing to remove (`usable_iff`). -/

namespace Coinjecture.Node.Pruning

open Lib.Effect Lib.Table Lib.Ancestry Lib.Trace
open Core.Types Core.Blocks Core.Extern
open Core.Crypto
open Node.Chain Node.Chain.ChainState Node.ChainMetadata

variable {ext : Ext}

/-! ### The code -/

/-- The smaller of the two heights. -/
def pruneBelow (keepHeight : UInt64) (s : ChainState ext) : UInt64 :=
  if keepHeight ≤ s.bestHeight then keepHeight else s.bestHeight

/-- The entries of the height index from 1 to below `n`. -/
def toPrune (n : UInt64) (s : ChainState ext) : List (UInt64 × Hash) :=
  ((List.range n.toNat).drop 1).filterMap fun h =>
    (s.heightIndex (.ofNat h)).map fun hash => (.ofNat h, hash)

/-- An entry of the index and its block are removed. -/
def pruneEntry (s : ChainState ext) (entry : UInt64 × Hash) : ChainState ext :=
  { s with
    heightIndex := Function.update s.heightIndex entry.1 none
    blocks := s.blocks.erase entry.2 }

/-- `prune_blocks_before`: the number of blocks pruned, and the state. -/
def pruneBlocksBefore (keepHeight : UInt64) (s : ChainState ext) : UInt64 × ChainState ext :=
  if keepHeight = 0 then (0, s)
  else
    let entries := toPrune (pruneBelow keepHeight s) s
    (.ofNat entries.length, entries.foldl pruneEntry s)

/-- The state after pruning. -/
abbrev pruned (keepHeight : UInt64) (s : ChainState ext) : ChainState ext :=
  (pruneBlocksBefore keepHeight s).2

/-! ### What pruning changes -/

section Frame

variable {s : ChainState ext} {k : UInt64}

theorem foldl_pruneEntry (entries : List (UInt64 × Hash)) (s : ChainState ext) :
    ((entries.foldl pruneEntry s).bestHeight, (entries.foldl pruneEntry s).bestHash,
      (entries.foldl pruneEntry s).metadata) = (s.bestHeight, s.bestHash, s.metadata) := by
  induction entries generalizing s with
  | nil => rfl
  | cons entry entries ih =>
    rw [List.foldl_cons, ih]
    rfl

/-- Pruning leaves the tip and the metadata. -/
theorem pruned_frame (k : UInt64) (s : ChainState ext) :
    (pruned k s).bestHeight = s.bestHeight ∧ (pruned k s).bestHash = s.bestHash ∧
      (pruned k s).metadata = s.metadata := by
  rw [pruned, pruneBlocksBefore]
  split_ifs
  · exact ⟨rfl, rfl, rfl⟩
  · have h := foldl_pruneEntry (toPrune (pruneBelow k s) s) s
    simp only [Prod.mk.injEq] at h
    exact h

theorem get_foldl_pruneEntry (entries : List (UInt64 × Hash)) (s : ChainState ext) (hash : Hash) :
    (entries.foldl pruneEntry s).blocks.get hash =
      if hash ∈ entries.map Prod.snd then none else s.blocks.get hash := by
  induction entries generalizing s with
  | nil => rfl
  | cons entry entries ih =>
    rw [List.foldl_cons, ih]
    have hget : (pruneEntry s entry).blocks.get hash =
        if hash = entry.2 then none else s.blocks.get hash := Keyed.get_erase ..
    rw [hget, List.map_cons]
    by_cases h : hash = entry.2
    · have hmem : hash ∈ entry.2 :: entries.map Prod.snd := by
        rw [h]
        exact List.mem_cons_self
      rw [if_pos h, if_pos hmem, ite_self]
    · simp only [List.mem_cons, h, false_or, if_false]

theorem get_of_get_pruned {hash : Hash} {b : Block} (h : (pruned k s).blocks.get hash = some b) :
    s.blocks.get hash = some b := by
  rw [pruned, pruneBlocksBefore] at h
  split_ifs at h
  · exact h
  · simp only [get_foldl_pruneEntry] at h
    split_ifs at h
    exact h

theorem mem_toPrune {n : UInt64} {height : UInt64} {hash : Hash} (hpos : 0 < height.toNat)
    (hlt : height < n) (hindex : s.heightIndex height = some hash) :
    (height, hash) ∈ toPrune n s := by
  rw [toPrune, List.mem_filterMap]
  have hmem : height.toNat ∈ (List.range n.toNat).drop 1 := by
    rw [List.mem_drop_iff_getElem]
    refine ⟨height.toNat - 1, ?_, ?_⟩
    · rw [List.length_range]
      have hlt' := UInt64.lt_iff_toNat_lt.mp hlt
      omega
    · rw [List.getElem_range]
      omega
  refine ⟨height.toNat, hmem, ?_⟩
  rw [UInt64.ofNat_toNat, hindex]
  rfl

/-- A block that the index names at a height above 0 and below both bounds is removed. -/
theorem get_pruned_eq_none {height : UInt64} {hash : Hash} (hpos : 0 < height.toNat)
    (hkeep : height < k) (hbest : height < s.bestHeight) (hindex : s.heightIndex height = some hash) :
    (pruned k s).blocks.get hash = none := by
  have hk : k ≠ 0 := by
    rintro rfl
    exact absurd hkeep UInt64.not_lt_zero
  have hlt : height < pruneBelow k s := by
    rw [pruneBelow]
    split_ifs
    · exact hkeep
    · exact hbest
  have hmem := mem_toPrune hpos hlt hindex
  rw [pruned, pruneBlocksBefore, if_neg hk]
  simp only
  rw [get_foldl_pruneEntry, if_pos (List.mem_map.mpr ⟨_, hmem, rfl⟩)]

/-- There is nothing below height 1 to remove. -/
theorem pruned_eq_self (h : k ≤ 1 ∨ s.bestHeight ≤ 1) : pruned k s = s := by
  have hmin : (pruneBelow k s).toNat ≤ 1 := by
    rw [pruneBelow]
    split_ifs with hle
    · rcases h with h | h
      · exact UInt64.le_iff_toNat_le.mp h
      · exact UInt64.le_iff_toNat_le.mp (UInt64.le_trans hle h)
    · rcases h with h | h
      · exact UInt64.le_iff_toNat_le.mp (UInt64.le_trans (UInt64.le_of_lt (UInt64.not_le.mp hle)) h)
      · exact UInt64.le_iff_toNat_le.mp h
  have hnil : toPrune (pruneBelow k s) s = [] := by
    rw [toPrune, List.drop_of_length_le (by rw [List.length_range]; exact hmin)]
    rfl
  rw [pruned, pruneBlocksBefore]
  split_ifs
  · rfl
  · rw [hnil]
    rfl

end Frame

/-! ### Chains whose heights follow -/

section Chains

variable {s : ChainState ext} {tip : Hash} {blocks : List Block}

/-- A block above height 0 is one above its parent. -/
def Descend (t : Keyed (Block.hash ext)) : Prop := ∀ hash b p, t.get hash = some b →
  b.header.height ≠ 0 → t.get b.header.prevHash = some p →
    b.header.height.toNat = p.header.height.toNat + 1

/-- The walk back from the tip finds a block at each height. -/
theorem exists_blockBack (hdesc : Descend s.blocks) (h : ChainFrom s tip blocks) {b : Block}
    (hb : s.blocks.get tip = some b) {n : ℕ} (hn : n ≤ b.header.height.toNat) :
    ∃ c ∈ blocks, s.blockBack n tip = some c ∧
      c.header.height.toNat + n = b.header.height.toNat := by
  induction h generalizing b n with
  | @root tip v hget hroot =>
    rw [hget] at hb
    cases hb
    have hzero : v.header.height.toNat = 0 := by
      rw [show v.header.height = 0 from hroot]
      rfl
    obtain rfl : n = 0 := by omega
    exact ⟨v, List.mem_singleton_self v, hget, rfl⟩
  | @link tip v vs hget hroot hrest ih =>
    rw [hget] at hb
    cases hb
    cases n with
    | zero => exact ⟨v, List.mem_cons_self, hget, rfl⟩
    | succ n =>
      obtain ⟨p, -, hp⟩ := hrest.exists_head
      have hheight := hdesc tip v p hget hroot hp
      obtain ⟨c, hc, hback, hsum⟩ := ih hp (n := n) (by omega)
      refine ⟨c, List.mem_cons_of_mem _ hc, ?_, by omega⟩
      rw [blockBack, getBlockByHash, hget]
      exact hback

/-- Blocks of a chain are at most as high as its tip. -/
theorem height_le (hdesc : Descend s.blocks) (h : ChainFrom s tip blocks) {b c : Block}
    (hb : s.blocks.get tip = some b) (hc : c ∈ blocks) :
    c.header.height.toNat ≤ b.header.height.toNat := by
  induction h generalizing b with
  | root hget hroot =>
    rw [hget] at hb
    cases hb
    rw [List.mem_singleton.mp hc]
  | @link tip v vs hget hroot hrest ih =>
    rw [hget] at hb
    cases hb
    rcases List.mem_cons.mp hc with rfl | hc
    · exact le_rfl
    · obtain ⟨p, -, hp⟩ := hrest.exists_head
      have hheight := hdesc tip v p hget hroot hp
      have hle := ih hp hc
      omega

theorem exists_blockBack_of_succ {n : ℕ} {hash : Hash} {c : Block}
    (h : s.blockBack (n + 1) hash = some c) : ∃ b, s.blockBack n hash = some b := by
  induction n generalizing hash with
  | zero =>
    rw [blockBack] at h
    obtain ⟨b, hb, -⟩ := Option.bind_eq_some_iff.mp h
    exact ⟨b, hb⟩
  | succ n ih =>
    rw [blockBack] at h
    obtain ⟨b, hb, hrest⟩ := Option.bind_eq_some_iff.mp h
    obtain ⟨d, hd⟩ := ih hrest
    exact ⟨d, by rw [blockBack, hb]; exact hd⟩

/-- A block found in a state is found in one with more blocks. -/
theorem blockBack_mono {s' : ChainState ext}
    (hsub : ∀ hash b, s'.blocks.get hash = some b → s.blocks.get hash = some b) {n : ℕ} {hash : Hash}
    {b : Block} (h : s'.blockBack n hash = some b) :
    s.blockBack n hash = some b ∧ s'.blocks.get (Block.hash ext b) = some b := by
  induction n generalizing hash with
  | zero => exact ⟨hsub _ _ h, by rw [s'.blocks.keyed h]; exact h⟩
  | succ n ih =>
    rw [blockBack] at h
    obtain ⟨c, hc, hrest⟩ := Option.bind_eq_some_iff.mp h
    obtain ⟨hback, hget⟩ := ih hrest
    refine ⟨?_, hget⟩
    rw [blockBack, show s.getBlockByHash hash = some c from hsub _ _ hc]
    exact hback

/-! ### The height index -/

/-- Rebuilding from height `n` down does not write above it. -/
theorem rebuildHeightIndex_above {n : ℕ} {height : UInt64} (hn : n < height.toNat) (hash : Hash)
    (s : ChainState ext) :
    (run (rebuildHeightIndex n hash) s).2.heightIndex height = s.heightIndex height := by
  induction n generalizing hash s with
  | zero =>
    refine Function.update_of_ne ?_ _ _
    rintro rfl
    exact absurd hn (by decide)
  | succ n ih =>
    have hset : (setHeightIndex (UInt64.ofNat (n + 1)) hash s).heightIndex height =
        s.heightIndex height := by
      refine Function.update_of_ne ?_ _ _
      rintro rfl
      rw [UInt64.toNat_ofNat'] at hn
      have hle := Nat.mod_le (n + 1) (2 ^ 64)
      omega
    simp only [rebuildHeightIndex, run_modify_bind, run_gets_bind]
    rcases hget : getBlockByHash hash (setHeightIndex (UInt64.ofNat (n + 1)) hash s) with _ | block
    · exact hset
    · rw [run_okOr_some_bind, ih (by omega), hset]

/-- Rebuilding from the tip of a chain names its blocks. -/
theorem rebuildHeightIndex_chain {t : Keyed (Block.hash ext)} (hdesc : Descend t)
    (h : Lineage parentHash AtHeightZero t tip blocks) {b : Block} (hb : t.get tip = some b)
    (s : ChainState ext) (hs : s.blocks = t) : ∀ c ∈ blocks,
      (run (rebuildHeightIndex b.header.height.toNat tip) s).2.heightIndex c.header.height =
        some (Block.hash ext c) := by
  induction h generalizing b s with
  | @root tip v hget hroot =>
    rw [hget] at hb
    cases hb
    intro c hc
    have hzero : v.header.height = 0 := hroot
    rw [List.mem_singleton.mp hc, hzero, t.keyed hget]
    exact Function.update_self (0 : UInt64) (some tip) s.heightIndex
  | @link tip v vs hget hroot hrest ih =>
    rw [hget] at hb
    cases hb
    obtain ⟨p, -, hp⟩ := hrest.exists_head
    have hheight := hdesc tip v p hget hroot hp
    have hself : UInt64.ofNat (p.header.height.toNat + 1) = v.header.height := by
      rw [← hheight, UInt64.ofNat_toNat]
    have hfound : getBlockByHash tip (setHeightIndex v.header.height tip s) = some v := by
      change s.blocks.get tip = some v
      rw [hs, hget]
    intro c hc
    rw [hheight]
    simp only [rebuildHeightIndex, run_modify_bind, run_gets_bind, hself, hfound, run_okOr_some_bind]
    rcases List.mem_cons.mp hc with rfl | hc
    · rw [rebuildHeightIndex_above (by omega), t.keyed hget]
      exact Function.update_self ..
    · exact ih hp (setHeightIndex v.header.height tip s) hs c hc

end Chains

/-! ### Runs -/

/-- A block that is stored over one of the chain has its header, and the ancestors of a tip that is
moved to are all there. -/
def Proper (s : ChainState ext) : ChainCall → Prop
  | .storeBlock block => ¬ MAX_REASONABLE_HEIGHT < block.header.height →
      ∀ blocks, ChainFrom s s.bestHash blocks → ∀ b ∈ blocks,
        Block.hash ext b = Block.hash ext block → b.header = block.header
  | .updateBestChain hash _ => ∃ blocks, walkFromTip hash s = .found blocks

/-- The blocks are those of the run, and the tip is that of a chain which the index names. -/
structure Canonical (stored : List Block) (s : ChainState ext) (blocks : List Block) : Prop where
  stored : ∀ hash b, s.blocks.get hash = some b →
    b ∈ stored ∧ b.header.height ≤ MAX_REASONABLE_HEIGHT
  chain : ChainFrom s s.bestHash blocks
  height : ∀ b, s.blocks.get s.bestHash = some b → b.header.height = s.bestHeight
  metadataHeight : s.metadata.bestHeight = s.bestHeight
  metadataHash : s.metadata.bestHash = s.bestHash
  index : ∀ b ∈ blocks, s.heightIndex b.header.height = some (Block.hash ext b)

section Runs

variable {genesisBlock : Block} {calls : List ChainCall} {s : ChainState ext} {blocks : List Block}

theorem descend_of_stored (hfollow : HeightsFollow ext genesisBlock calls)
    (h : ∀ hash b, s.blocks.get hash = some b →
      b ∈ storedIn genesisBlock calls ∧ b.header.height ≤ MAX_REASONABLE_HEIGHT) :
    Descend s.blocks := by
  intro hash b p hb hne hp
  obtain ⟨hstored, -⟩ := h hash b hb
  obtain ⟨hstored', hmax⟩ := h _ p hp
  have hlink := hfollow.link b hstored p hstored' hne (s.blocks.keyed hp)
  have hmax' := UInt64.le_iff_toNat_le.mp hmax
  rw [hlink, UInt64.toNat_add, UInt64.toNat_one]
  refine Nat.mod_eq_of_lt ?_
  rw [show MAX_REASONABLE_HEIGHT.toNat = 10000000 from rfl] at hmax'
  omega

theorem canonical_new (hfollow : HeightsFollow ext genesisBlock calls) :
    Canonical (storedIn genesisBlock calls) (ChainState.new genesisBlock : ChainState ext)
      [genesisBlock] := by
  have hget : (Keyed.empty.insert genesisBlock : Keyed (Block.hash ext)).get
      (Block.hash ext genesisBlock) = some genesisBlock := Keyed.get_insert_self ..
  refine ⟨fun hash b hb => ?_, .root hget hfollow.genesis, fun b hb => ?_, rfl, rfl, fun b hb => ?_⟩
  · change (Keyed.empty.insert genesisBlock : Keyed (Block.hash ext)).get hash = some b at hb
    rw [Keyed.get_insert, Keyed.get_empty] at hb
    split_ifs at hb
    cases hb
    refine ⟨List.mem_cons_self, ?_⟩
    rw [hfollow.genesis]
    exact UInt64.le_iff_toNat_le.mpr (Nat.zero_le _)
  · change (Keyed.empty.insert genesisBlock : Keyed (Block.hash ext)).get
      (Block.hash ext genesisBlock) = some b at hb
    rw [hget] at hb
    cases hb
    exact hfollow.genesis
  · rw [List.mem_singleton.mp hb, hfollow.genesis]
    exact Function.update_self (0 : UInt64) (some (Block.hash ext genesisBlock)) fun _ => none

theorem Canonical.storeBlockRaw {block : Block}
    (h : Canonical (storedIn genesisBlock calls) s blocks)
    (hstored : block ∈ storedIn genesisBlock calls)
    (hmax : ¬ MAX_REASONABLE_HEIGHT < block.header.height)
    (hsame : ∀ b ∈ blocks, Block.hash ext b = Block.hash ext block → b.header = block.header) :
    Canonical (storedIn genesisBlock calls) (storeBlockRaw block s) (replaced ext block blocks) := by
  have hget : ∀ hash, (ChainState.storeBlockRaw block s).blocks.get hash =
      if hash = Block.hash ext block then some block else s.blocks.get hash :=
    fun hash => Keyed.get_insert ..
  refine ⟨fun hash b hb => ?_, chainFrom_storeBlockRaw h.chain hsame, fun b hb => ?_,
    h.metadataHeight, h.metadataHash, fun b hb => ?_⟩
  · rw [hget] at hb
    split_ifs at hb
    · cases hb
      exact ⟨hstored, UInt64.not_lt.mp hmax⟩
    · exact h.stored hash b hb
  · change (ChainState.storeBlockRaw block s).blocks.get s.bestHash = some b at hb
    rw [hget] at hb
    split_ifs at hb with hhash
    · cases hb
      obtain ⟨c, hc, hgetc⟩ := h.chain.exists_head
      have hheader := hsame c hc (by rw [s.blocks.keyed hgetc, hhash])
      rw [← hheader]
      exact h.height c hgetc
    · exact h.height b hb
  · obtain ⟨c, hc, rfl⟩ := List.mem_map.mp hb
    have hindex := h.index c hc
    split_ifs with hhash
    · rw [← hsame c hc hhash, ← hhash]
      exact hindex
    · exact hindex

theorem Canonical.extendTip {block : Block} (h : Canonical (storedIn genesisBlock calls) s blocks)
    (hdesc : Descend s.blocks) (hget : s.blocks.get (Block.hash ext block) = some block)
    (hextends : Extends block s) :
    Canonical (storedIn genesisBlock calls) (extendTip block s) (block :: blocks) := by
  obtain ⟨hheight, hprev⟩ := hextends
  refine ⟨h.stored, .link hget ?_ ?_, fun b hb => ?_, rfl, rfl, fun b hb => ?_⟩
  · intro hzero
    rw [hzero] at hheight
    exact absurd hheight UInt64.not_lt_zero
  · rw [parentHash, hprev]
    exact h.chain
  · change s.blocks.get (Block.hash ext block) = some b at hb
    rw [hget] at hb
    cases hb
    rfl
  · change Function.update s.heightIndex block.header.height (some (Block.hash ext block))
      b.header.height = _
    rcases List.mem_cons.mp hb with rfl | hb
    · exact Function.update_self ..
    · obtain ⟨c, -, hc⟩ := h.chain.exists_head
      have hle := height_le hdesc h.chain hc hb
      rw [h.height c hc] at hle
      have hlt := UInt64.lt_iff_toNat_lt.mp hheight
      rw [Function.update_of_ne, h.index b hb]
      intro heq
      rw [heq] at hle
      omega

theorem Canonical.updateBestChain {hash : Hash} {height : UInt64}
    (h : Canonical (storedIn genesisBlock calls) s blocks)
    (hfollow : HeightsFollow ext genesisBlock calls)
    (hcall : .updateBestChain hash height ∈ calls) {blocks' : List Block}
    (hwalk : walkFromTip hash s = .found blocks') :
    Canonical (storedIn genesisBlock calls) (run (updateBestChain hash height) s).2 blocks' := by
  have hchain : ChainFrom s hash blocks' := lineage_of_walk hwalk
  have hdesc := descend_of_stored hfollow h.stored
  obtain ⟨b, -, hb⟩ := hchain.exists_head
  have hheight : height = b.header.height :=
    hfollow.tip hash height hcall b (h.stored hash b hb).1 (s.blocks.keyed hb)
  obtain ⟨index, hresult⟩ := updateBestChain_of_found height hwalk
  have hindex := rebuildHeightIndex_chain hdesc hchain hb
    { s with
      metadata := ⟨height, hash,
        blocks'.foldl (fun sum block => Lib.Saturating.satAdd sum (truncatedWork block)) 0,
        blocks'.foldl (fun sum block => Lib.Saturating.satAdd sum block.coinbase.reward) 0⟩
      bestHeight := height
      bestHash := hash } rfl
  rw [← hheight, ← run_updateBestChain_of_found height hwalk] at hindex
  rw [hresult] at hindex ⊢
  refine ⟨h.stored, hchain, fun c hc => ?_, rfl, rfl, hindex⟩
  change s.blocks.get hash = some c at hc
  rw [hb] at hc
  cases hc
  exact hheight.symm

theorem exists_canonical_next {call : ChainCall} (hfollow : HeightsFollow ext genesisBlock calls)
    (hcall : call ∈ calls) (hproper : Proper s call)
    (h : ∃ blocks, Canonical (storedIn genesisBlock calls) s blocks) :
    ∃ blocks, Canonical (storedIn genesisBlock calls) ((chainMachine ext).next call s) blocks := by
  obtain ⟨blocks, h⟩ := h
  cases call with
  | storeBlock block =>
    change ∃ blocks, Canonical _ (run (storeBlock block) s).2 blocks
    have hstored : block ∈ storedIn genesisBlock calls :=
      List.mem_cons_of_mem _ (List.mem_filterMap.mpr ⟨_, hcall, rfl⟩)
    rw [run_storeBlock]
    split_ifs with hmax hextends
    · exact ⟨blocks, h⟩
    · have hraw := h.storeBlockRaw hstored hmax (hproper hmax blocks h.chain)
      exact ⟨_, hraw.extendTip (descend_of_stored hfollow hraw.stored) (Keyed.get_insert_self ..)
        hextends⟩
    · exact ⟨_, h.storeBlockRaw hstored hmax (hproper hmax blocks h.chain)⟩
  | updateBestChain hash height =>
    obtain ⟨blocks', hwalk⟩ := hproper
    exact ⟨blocks', h.updateBestChain hfollow hcall hwalk⟩

end Runs

/-! ### Usability -/

/-- After pruning, genesis and the blocks from the kept height on are found as before, the tip and its
work are the same, and a block that would have extended the tip still does. -/
structure Usable (keepHeight : UInt64) (s : ChainState ext) : Prop where
  genesis : getCanonicalBlockByHeight 0 (pruned keepHeight s) = getCanonicalBlockByHeight 0 s
  retained : ∀ height, pruneBelow keepHeight s ≤ height →
    getCanonicalBlockByHeight height (pruned keepHeight s) = getCanonicalBlockByHeight height s
  bestHeight : (pruned keepHeight s).bestHeight = s.bestHeight
  bestHash : (pruned keepHeight s).bestHash = s.bestHash
  bestCumulativeWork : (pruned keepHeight s).metadata.cumWork = s.metadata.cumWork
  cumulativeWork : (run (computeCumulativeWorkTipDb s.bestHash) (pruned keepHeight s)).1 =
    (run (computeCumulativeWorkTipDb s.bestHash) s).1
  accepts : ∀ block, (run (storeBlock block) s).1 = .ok true →
    (run (storeBlock block) (pruned keepHeight s)).1 = .ok true

theorem usable_of_nothing {k : UInt64} {s : ChainState ext} (h : k ≤ 1 ∨ s.bestHeight ≤ 1) :
    Usable k s := by
  have hself := pruned_eq_self h
  constructor <;> simp only [hself, implies_true]
  exact fun block hblock => hblock

/-- Where a block is removed, genesis is not found any more. -/
theorem nothing_of_usable {stored : List Block} {k : UInt64} {s : ChainState ext}
    {blocks : List Block} (h : Canonical stored s blocks) (hdesc : Descend s.blocks)
    (husable : Usable k s) : k ≤ 1 ∨ s.bestHeight ≤ 1 := by
  by_contra hnot
  rw [not_or, UInt64.not_le, UInt64.not_le] at hnot
  obtain ⟨hk, hbest⟩ := hnot
  have hbest' := UInt64.lt_iff_toNat_lt.mp hbest
  rw [UInt64.toNat_one] at hbest'
  obtain ⟨b, -, hb⟩ := h.chain.exists_head
  have hheight := h.height b hb
  -- the block at height 1, on the way to genesis
  obtain ⟨c, hc, hback, hone⟩ := exists_blockBack hdesc h.chain hb (n := s.bestHeight.toNat - 1)
    (by rw [hheight]; omega)
  have hc1 : c.header.height = 1 := by
    rw [← UInt64.toNat_inj, UInt64.toNat_one]
    rw [hheight] at hone
    omega
  have hindex : s.heightIndex 1 = some (Block.hash ext c) := by
    rw [← hc1]
    exact h.index c hc
  have hgone : (pruned k s).blocks.get (Block.hash ext c) = none :=
    get_pruned_eq_none (by decide) hk hbest hindex
  obtain ⟨g, -, hgenesis, -⟩ := exists_blockBack hdesc h.chain hb (n := s.bestHeight.toNat)
    (by rw [hheight])
  have hlookup : ∀ s' : ChainState ext, s'.metadata = s.metadata →
      getCanonicalBlockByHeight 0 s' = s'.blockBack (s.bestHeight.toNat - 1 + 1) s.bestHash := by
    intro s' hs'
    have hlength : s.bestHeight.toNat - UInt64.toNat 0 = s.bestHeight.toNat - 1 + 1 := by
      rw [UInt64.toNat_zero]
      omega
    rw [getCanonicalBlockByHeight, hs', h.metadataHeight, h.metadataHash, if_neg UInt64.not_lt_zero,
      hlength]
  have hafter := husable.genesis
  rw [hlookup _ (pruned_frame k s).2.2, hlookup s rfl, show s.bestHeight.toNat - 1 + 1 =
    s.bestHeight.toNat by omega, hgenesis, show s.bestHeight.toNat = s.bestHeight.toNat - 1 + 1 by
    omega] at hafter
  obtain ⟨d, hd⟩ := exists_blockBack_of_succ hafter
  obtain ⟨hd', hget⟩ := blockBack_mono (fun _ _ => get_of_get_pruned) hd
  rw [hback] at hd'
  cases hd'
  rw [hgone] at hget
  cases hget

/-- Where nothing lies between genesis and both heights, the chain stays usable, after any run of calls;
and after a run of proper calls in which heights follow the parents, it does so only there. -/
theorem usable_iff (genesisBlock : Block) (calls : List ChainCall) (k : UInt64) :
    let s := (chainMachine ext).final calls (ChainState.new genesisBlock)
    (k ≤ 1 ∨ s.bestHeight ≤ 1 → Usable k s) ∧
      (HeightsFollow ext genesisBlock calls →
        (∀ p ∈ (chainMachine ext).trace calls (ChainState.new genesisBlock), Proper p.2 p.1) →
          (Usable k s ↔ k ≤ 1 ∨ s.bestHeight ≤ 1)) := by
  intro s
  refine ⟨usable_of_nothing, fun hfollow hproper => ⟨fun husable => ?_, usable_of_nothing⟩⟩
  obtain ⟨blocks, h⟩ : ∃ blocks, Canonical (storedIn genesisBlock calls) s blocks :=
    Machine.invariant (P := fun s => ∃ blocks, Canonical (storedIn genesisBlock calls) s blocks)
      (fun p hp => exists_canonical_next hfollow (Machine.mem_of_mem_trace hp)
        (hproper p hp)) ⟨_, canonical_new hfollow⟩
  exact nothing_of_usable h (descend_of_stored hfollow h.stored) husable

/-- Two blocks on genesis. -/
abbrev ofThree : ChainState chainExt :=
  (chainMachine chainExt).final [.storeBlock block1, .storeBlock block2] (ChainState.new block0)

set_option maxRecDepth 20000 in
/-- Pruning below height 2 takes block 1 away: genesis is not found, and the work cannot be added up. -/
theorem genesis_is_lost :
    (getCanonicalBlockByHeight 0 ofThree = some block0 ∧
      getCanonicalBlockByHeight 0 (pruned 2 ofThree) = none ∧
      (run (computeCumulativeWorkTipDb ofThree.bestHash) (pruned 2 ofThree)).1 =
        .error .BlockNotFound) ∧
    ¬ ∀ calls k, Usable k ((chainMachine chainExt).final calls (ChainState.new block0)) := by
  have hbefore : getCanonicalBlockByHeight 0 ofThree = some block0 := by decide
  have hafter : getCanonicalBlockByHeight 0 (pruned 2 ofThree) = none := by decide
  refine ⟨⟨hbefore, hafter, by decide⟩, fun h => ?_⟩
  have hgenesis := (h [.storeBlock block1, .storeBlock block2] 2).genesis
  rw [hbefore, hafter] at hgenesis
  cases hgenesis

end Coinjecture.Node.Pruning
