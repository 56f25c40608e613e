import Coinjecture.Node.ChainRules
import Coinjecture.Node.ForkPaths

/-! # What the fork handler does to the tip

The handler compares sums of cut-off scores modulo 2 ^ 64. Where the sums are those of the integers and
what is cut off our scores is within the tolerance (`Comparable`), a branch that it takes is heavier in
the exact scores (`comparable_heavier`). Every other call moves the tip to a child of it. So over a
whole run the exact work of the tip only grows and the tip never comes back to a block it has left
(`switches_improve`). The branch for a complete fork never switches here, because it is only entered
if one of the chains does not reach genesis. -/

namespace Coinjecture.Node.ForkChoice

open Lib.Effect Lib.Float64 Lib.Table Lib.Trace
open Lib.Ancestry Lib.Rank Lib.Bincode
open Core.Types Core.Blocks Core.Extern
open Core.Crypto
open State.Stores
open Node.Validator Node.Chain Node.Chain.ChainState
open Node.ChainMetadata Node.ChainRules Node.Service
open Node.ServiceCalls Node.ReorgAcceptance
open Node.ForkHandler Node.ForkPaths

/-! ### The comparison -/

/-- The score is a number and not negative. -/
def Sane (block : Block) : Prop :=
  block.header.workScore.isFinite = true ∧ 0 ≤ block.header.workScore.toRat

instance (block : Block) : Decidable (Sane block) := inferInstanceAs (Decidable (_ ∧ _))

/-- The exact score. -/
def exactScore (header : BlockHeader) : ℚ := header.workScore.toRat

/-- The exact work of blocks. -/
def exactWork (blocks : List Block) : ℚ := weigh exactScore (headers blocks)

/-- The sum of the scores, each cut off to an integer. -/
def cutWork (blocks : List Block) : ℕ := (blocks.map fun b => (scoreAsU64 b).toNat).sum

/-- The comparison of the branches is that of the integers, and what is cut off the old scores is less
than the lead that it asks of the new chain. -/
structure Comparable (oldChain newChain : List Block) : Prop where
  old : cutWork oldChain + cutWork oldChain / 200 < 2 ^ 64
  new : cutWork newChain < 2 ^ 64
  cutOff : exactWork oldChain < (cutWork oldChain + cutWork oldChain / 200 + 1 : ℕ)

instance (oldChain newChain : List Block) : Decidable (Comparable oldChain newChain) :=
  decidable_of_iff (cutWork oldChain + cutWork oldChain / 200 < 2 ^ 64 ∧
      cutWork newChain < 2 ^ 64 ∧
      exactWork oldChain < (cutWork oldChain + cutWork oldChain / 200 + 1 : ℕ))
    ⟨fun ⟨h, h', h''⟩ => ⟨h, h', h''⟩, fun ⟨h, h', h''⟩ => ⟨h, h', h''⟩⟩

theorem toNat_chainWork (blocks : List Block) : (chainWork blocks).toNat = cutWork blocks % 2 ^ 64 := by
  have hfold : ∀ (w : BitVec 64), (blocks.foldl (fun work block => work + scoreAsU64 block) w).toNat =
      (w.toNat + cutWork blocks) % 2 ^ 64 := by
    induction blocks with
    | nil =>
      intro w
      exact (Nat.mod_eq_of_lt w.isLt).symm
    | cons block blocks ih =>
      intro w
      have hcut : cutWork (block :: blocks) = (scoreAsU64 block).toNat + cutWork blocks := rfl
      simp only [List.foldl_cons]
      rw [ih, BitVec.toNat_add, hcut]
      omega
  rw [chainWork, hfold]
  simp

theorem cutWork_le_exactWork {blocks : List Block} (h : ∀ b ∈ blocks, Sane b) :
    (cutWork blocks : ℚ) ≤ exactWork blocks := by
  induction blocks with
  | nil => exact le_of_eq (by rfl)
  | cons block blocks ih =>
    have hblock := h block List.mem_cons_self
    have hscore : ((scoreAsU64 block).toNat : ℚ) ≤ exactScore block.header :=
      toUnsigned_le hblock.1 hblock.2
    have hrest := ih fun b hb => h b (List.mem_cons_of_mem _ hb)
    have hcut : cutWork (block :: blocks) = (scoreAsU64 block).toNat + cutWork blocks := rfl
    have hexact : exactWork (block :: blocks) = exactScore block.header + exactWork blocks := rfl
    rw [hcut, hexact, Nat.cast_add]
    exact add_le_add hscore hrest

/-- A new chain that is taken is heavier in the exact scores. -/
theorem comparable_heavier {oldChain newChain : List Block} (h : Comparable oldChain newChain)
    (hsane : ∀ b ∈ newChain, Sane b)
    (htaken : ¬ compareChains (chainWork oldChain) (chainWork newChain) ≤ 0) :
    exactWork oldChain < exactWork newChain := by
  have hlead : cutWork oldChain + cutWork oldChain / 200 < cutWork newChain := by
    have hours := toNat_chainWork oldChain
    have htheirs := toNat_chainWork newChain
    have hold := h.old
    rw [Nat.mod_eq_of_lt h.new] at htheirs
    rw [Nat.mod_eq_of_lt (by omega)] at hours
    unfold compareChains at htaken
    simp only at htaken
    split_ifs at htaken with hbetter hworse
    · rw [BitVec.lt_def, BitVec.toNat_add, BitVec.toNat_udiv, hours, htheirs] at hbetter
      have h200 : (200 : BitVec 64).toNat = 200 := rfl
      rw [h200, Nat.mod_eq_of_lt h.old] at hbetter
      exact hbetter
    · exact absurd (by decide) htaken
    · exact absurd le_rfl htaken
  calc exactWork oldChain < (cutWork oldChain + cutWork oldChain / 200 + 1 : ℕ) := h.cutOff
    _ ≤ cutWork newChain := by exact_mod_cast hlead
    _ ≤ exactWork newChain := cutWork_le_exactWork hsane

/-! ### What calls do to the tip -/

section Calls

variable {ext : Ext} {seen : List Block} {genesisBlock : Block} {c : ChainState ext} {hash : Hash}

/-- The tip has a path to genesis. -/
structure Rooted (seen : List Block) (root : Hash) (c : ChainState ext) : Prop where
  stored : StoredSeen seen c
  oneTip : OneTip c
  path : ∃ vs, PathTo ext seen c.bestHash vs root

theorem storedSeen_insert {block : Block} (h : StoredSeen seen c) (hblock : block ∈ seen) :
    StoredSeen seen (storeBlockRaw block c) := by
  intro hash b hb
  change (c.blocks.insert block).get hash = some b at hb
  rw [Keyed.get_insert] at hb
  split_ifs at hb with hhash
  · cases hb
    exact hblock
  · exact h hash b hb

/-- `store_block` leaves the tip or moves it to the block, whose parent it is. -/
theorem rooted_storeBlock (hapart : HashesApart ext seen genesisBlock) {block : Block} {root : Hash}
    (hblock : block ∈ seen) (h : Rooted seen root c) :
    Rooted seen root ((chainMachine ext).next (.storeBlock block) c) ∧
      ∃ us, PathTo ext seen ((chainMachine ext).next (.storeBlock block) c).bestHash us c.bestHash := by
  have hnext : (chainMachine ext).next (.storeBlock block) c =
      (run (ChainState.storeBlock block) c).2 := rfl
  have hraw := storedSeen_insert h.stored hblock
  rw [hnext, run_storeBlock]
  split_ifs with hmax hextends
  · exact ⟨h, [], .nil _⟩
  · obtain ⟨vs, hvs⟩ := h.path
    have hstep : PathTo ext seen (Block.hash ext block) [block.header] c.bestHash := by
      rw [← hextends.2]
      exact .single (hapart.known_eq hblock)
    exact ⟨⟨hraw, ⟨rfl, rfl⟩, _, hstep.append hvs⟩, _, hstep⟩
  · exact ⟨⟨hraw, ⟨h.oneTip.height, h.oneTip.hash⟩, h.path⟩, [], .nil _⟩

theorem rooted_stores (hapart : HashesApart ext seen genesisBlock) {root : Hash} {calls : List ChainCall}
    (hcalls : ∀ call ∈ calls, ∃ b ∈ seen, call = .storeBlock b) (h : Rooted seen root c) :
    Rooted seen root ((chainMachine ext).final calls c) ∧
      ∃ us, PathTo ext seen ((chainMachine ext).final calls c).bestHash us c.bestHash := by
  induction calls generalizing c with
  | nil => exact ⟨h, [], .nil _⟩
  | cons call calls ih =>
    obtain ⟨b, hb, rfl⟩ := hcalls call List.mem_cons_self
    obtain ⟨hnext, us, hus⟩ := rooted_storeBlock hapart hb h
    obtain ⟨hfinal, ws, hws⟩ := ih (fun call hcall => hcalls call (List.mem_cons_of_mem _ hcall)) hnext
    exact ⟨hfinal, ws ++ us, hws.append hus⟩

/-! ### A switch -/

/-- A block that is stored keeps the chains that are stored. -/
theorem chainFrom_insert (hapart : HashesApart ext seen genesisBlock) (hstored : StoredSeen seen c)
    {block : Block} (hblock : block ∈ seen) {vs : List Block} (h : ChainFrom c hash vs) :
    ∃ ws, Lineage parentHash AtHeightZero (c.blocks.insert block) hash ws := by
  refine ⟨_, h.insert fun v hv hkey => ?_⟩
  have hheader : v.header = block.header :=
    hapart.collisionFree v (hstored _ v (h.mem hv)) block hblock hkey
  refine ⟨by rw [parentHash, parentHash, hheader], ?_⟩
  rw [AtHeightZero, AtHeightZero, hheader]

/-- After the blocks of a branch on a stored chain are stored, the chain from its end is. -/
theorem chainFrom_stores (hapart : HashesApart ext seen genesisBlock) {blocks : List Block}
    (hblocks : ∀ b ∈ blocks, b ∈ seen) (hmax : ∀ b ∈ blocks, ¬ MAX_REASONABLE_HEIGHT < b.header.height)
    (hlinked : LinkedFrom ext hash blocks) (hstored : StoredSeen seen c) {below : List Block}
    (h : ChainFrom c hash below) :
    ∃ vs, ChainFrom ((chainMachine ext).final (blocks.map .storeBlock) c)
      ((blocks.getLast?.map (Block.hash ext)).getD hash) vs := by
  induction blocks generalizing c hash below with
  | nil => exact ⟨below, h⟩
  | cons block blocks ih =>
    obtain ⟨hprev, hrest⟩ := hlinked
    have hblock := hblocks block List.mem_cons_self
    set next := (chainMachine ext).next (.storeBlock block) c with hnext
    have hinserted : next.blocks = c.blocks.insert block := by
      rw [hnext]
      change (run (ChainState.storeBlock block) c).2.blocks = _
      rw [run_storeBlock, if_neg (hmax block List.mem_cons_self)]
      split_ifs
      · rfl
      · rfl
    have hget : next.blocks.get (Block.hash ext block) = some block := by
      rw [hinserted]
      exact Keyed.get_insert_self ..
    obtain ⟨ws, hws⟩ := chainFrom_insert hapart hstored hblock h
    rw [← hinserted, ← hprev] at hws
    have hstored' : StoredSeen seen next := by
      intro k b hb
      refine storedSeen_insert hstored hblock k b ?_
      change (c.blocks.insert block).get k = some b
      rwa [← hinserted]
    obtain ⟨us, hus⟩ : ∃ us, ChainFrom next (Block.hash ext block) us := by
      by_cases hroot : AtHeightZero block
      · exact ⟨_, .root hget hroot⟩
      · exact ⟨_, .link hget hroot hws⟩
    have hend : (((block :: blocks).getLast?.map (Block.hash ext)).getD hash) =
        ((blocks.getLast?.map (Block.hash ext)).getD (Block.hash ext block)) := by
      rw [List.getLast?_cons]
      rcases blocks.getLast? with _ | last
      · rfl
      · rfl
    rw [hend]
    exact ih (fun b hb => hblocks b (List.mem_cons_of_mem _ hb))
      (fun b hb => hmax b (List.mem_cons_of_mem _ hb)) hrest hstored' hus

/-- A chain that is stored is not too long for the walk. -/
theorem walk_of_chainFrom {vs : List Block} (h : ChainFrom c hash vs) :
    walkFromTip hash c = .found vs := by
  have hlength : vs.length ≤ 2 ^ 256 := h.length_le (fun k => k.bytes.toNat)
    (fun k k' hk => Hash.ext (BitVec.eq_of_toNat_eq hk)) fun k => k.bytes.isLt
  exact h.walk (hlength.trans (Nat.le_succ _))

/-- A switch to a branch on a stored chain moves the tip to its end. -/
theorem rooted_switch (hapart : HashesApart ext seen genesisBlock) {root : Hash}
    {newChain below : List Block} {last : Block} {vs : List BlockHeader}
    (hseen : ∀ b ∈ newChain, b ∈ seen) (hmax : ∀ b ∈ newChain, ¬ MAX_REASONABLE_HEIGHT < b.header.height)
    (hlinked : LinkedFrom ext hash newChain) (hbelow : ChainFrom c hash below)
    (hlast : newChain.getLast? = some last) (hpath : PathTo ext seen (Block.hash ext last) vs root)
    (h : Rooted seen root c) :
    Rooted seen root ((chainMachine ext).final (switchCalls ext newChain) c) ∧
      ((chainMachine ext).final (switchCalls ext newChain) c).bestHash = Block.hash ext last := by
  have hcalls : switchCalls ext newChain = newChain.map .storeBlock ++
      [.updateBestChain (Block.hash ext last) last.header.height] := by
    rw [switchCalls, hlast]
  obtain ⟨blocks, hblocks⟩ := chainFrom_stores hapart hseen hmax hlinked h.stored hbelow
  rw [hlast, Option.map_some, Option.getD_some] at hblocks
  have hmade : ∀ call ∈ newChain.map ChainCall.storeBlock, ∃ b ∈ seen, call = .storeBlock b := by
    intro call hcall
    obtain ⟨b, hb, rfl⟩ := List.mem_map.mp hcall
    exact ⟨b, hseen b hb, rfl⟩
  obtain ⟨hstores, -⟩ := rooted_stores hapart hmade h
  rw [hcalls, ServiceCalls.final_append]
  obtain ⟨index, hupdate⟩ := updateBestChain_of_found last.header.height (walk_of_chainFrom hblocks)
  have hnext : (chainMachine ext).final [.updateBestChain (Block.hash ext last) last.header.height]
      ((chainMachine ext).final (newChain.map .storeBlock) c) =
      (run (updateBestChain (Block.hash ext last) last.header.height)
        ((chainMachine ext).final (newChain.map .storeBlock) c)).2 := rfl
  rw [hnext, hupdate]
  exact ⟨⟨hstores.stored, ⟨rfl, rfl⟩, vs, hpath⟩, rfl⟩

end Calls

section Reorganised

variable {ext : Ext} {v : BlockValidator} {now : Int64} {clock : ℕ → ℕ → Int64}
  {oldChain newChain : List Block} {s : NodeState ext}

/-- The stores and the move of the tip, which are left to do when the new chain is valid. -/
def applyAndMove (clock : ℕ → ℕ → Int64) (newChain : List Block) :
    Exec ServiceError (NodeState ext) Unit := do
  applyNewChain clock 0 newChain
  match newChain.getLast? with
  | none => pure ()
  | some lastBlock =>
    onChain "Failed to update best chain: "
      (updateBestChain (Block.hash ext lastBlock) lastBlock.header.height)

theorem run_reorganizeChain (h : SwitchesTo v now newChain s.chain) :
    run (reorganizeChain v now clock oldChain newChain) s =
      run (applyAndMove clock newChain) { s with ledger := unwindBlocks ext oldChain s.ledger } := by
  obtain ⟨first, w, hhead, hwork, hvalid⟩ := h
  have hsum := snd_run_sumFromTip truncatedWork first.header.prevHash s.chain
  rcases hrun : run (computeCumulativeWorkTipDb first.header.prevHash) s.chain with ⟨r, t⟩
  have hchain : t = s.chain := by
    rw [← hsum]
    exact (congrArg Prod.snd hrun).symm
  rw [hrun] at hwork
  obtain rfl : r = .ok w := hwork
  rw [hchain] at hrun
  simp only [reorganizeChain, run_modify_bind, hhead, run_okOr_some_bind]
  rw [run_bind, run_onChain, run_mapErr, hrun]
  simp only [hvalid]
  rfl

/-- A reorganisation makes some of the stores, or all of them and moves the tip. -/
theorem chain_reorganizeChain (v : BlockValidator) (now : Int64) (clock : ℕ → ℕ → Int64)
    (oldChain newChain : List Block) (s : NodeState ext) :
    (∃ made, made <+: newChain.map .storeBlock ∧
        (run (reorganizeChain v now clock oldChain newChain) s).2.chain =
          (chainMachine ext).final made s.chain ∧
        (run (reorganizeChain v now clock oldChain newChain) s).1 ≠ .ok ()) ∨
      (SwitchesTo v now newChain s.chain ∧
        (∀ b ∈ newChain, ¬ MAX_REASONABLE_HEIGHT < b.header.height) ∧
        (run (reorganizeChain v now clock oldChain newChain) s).2.chain =
          (chainMachine ext).final (switchCalls ext newChain) s.chain) := by
  rcases hresult : (run (reorganizeChain v now clock oldChain newChain) s).1 with e | ⟨⟩
  · by_cases hswitches : SwitchesTo v now newChain s.chain
    · rw [run_reorganizeChain hswitches] at hresult ⊢
      obtain ⟨made, hmade, hchain, hall⟩ := makesCalls_applyNewChain clock 0 newChain
        { s with ledger := unwindBlocks ext oldChain s.ledger }
      unfold applyAndMove at hresult ⊢
      rw [run_bind] at hresult ⊢
      rcases happly : run (applyNewChain clock 0 newChain)
        { s with ledger := unwindBlocks ext oldChain s.ledger } with ⟨e' | ⟨⟩, t⟩
      · rw [happly] at hchain
        exact .inl ⟨made, hmade, hchain, by simp⟩
      · rw [happly] at hchain hresult hall
        obtain rfl := hall () rfl
        have hmax := applyNewChain_ok (by rw [happly])
        refine .inr ⟨hswitches, hmax, ?_⟩
        rw [switchCalls, ServiceCalls.final_append, ← hchain]
        simp only
        rcases newChain.getLast? with _ | last
        · rfl
        · exact chain_onChain ..
    · exact .inl ⟨[], List.nil_prefix, chain_of_not_switchesTo hswitches, by simp⟩
  · obtain ⟨first, w, hfirst, hwork, hvalid, hmax, hchain⟩ := reorganizeChain_ok hresult
    exact .inr ⟨⟨first, w, hfirst, hwork, hvalid⟩, hmax, hchain⟩

end Reorganised

/-! ### One offer -/

/-- The branches that the handler compares. -/
def branchesOf {ext : Ext} (o : Offer) (chain : ChainState ext) : Option (List Block × List Block) := do
  let (_, commonHeight) ← findCommonAncestorWithAltChain chain o.altChain o.endHash o.endHeight
  let oldChain ← oldChainBlocks chain commonHeight
  let newChain ← newChainBlocks chain o.altChain o.endHash o.endHeight commonHeight
  pure (oldChain, newChain)

/-- The chain of the second state is heavier from a common ancestor on, in the exact scores. -/
def Heavier {ext : Ext} (seen : List Block) (c c' : ChainState ext) : Prop :=
  ∃ ancestor header old new, known ext seen ancestor = some header ∧
    PathTo ext seen c.bestHash old ancestor ∧ PathTo ext seen c'.bestHash new ancestor ∧
    weigh exactScore old < weigh exactScore new

/-- The tip of the first state is still on the chain of the second. -/
def Keeps {ext : Ext} (seen : List Block) (c c' : ChainState ext) : Prop :=
  ∃ us, PathTo ext seen c'.bestHash us c.bestHash

section Offered

variable {ext : Ext} {seen : List Block} {genesisBlock : Block} {v : BlockValidator} {o : Offer}
  {s : NodeState ext} {root : Hash}

theorem Keeps.refl (c : ChainState ext) : Keeps seen c c := ⟨[], .nil _⟩

theorem exactScore_nonneg (hsane : ∀ b ∈ seen, Sane b) (k : Hash) (header : BlockHeader)
    (h : known ext seen k = some header) : 0 ≤ exactScore header := by
  obtain ⟨b, hb, -, rfl⟩ := exists_of_known h
  exact (hsane b hb).2

theorem run_switchCompletely (htip : OneTip s.chain)
    (hnone : findCommonAncestorWithAltChain s.chain o.altChain o.endHash o.endHeight = none) :
    run (switchCompletely v o s.chain) s = (.ok false, s) := by
  unfold switchCompletely
  rcases hnew : validateChainFromGenesis v o.now s.chain o.altChain o.endHash o.endHeight with
    _ | newChain
  · rfl
  rcases hold : getChainFromGenesis s.chain with _ | oldChain
  · rfl
  · exact absurd hold (not_fromGenesis htip hnone hnew)

/-- The new chain that the handler collects ends with the block that is offered, and leads to the common
ancestor. -/
theorem path_of_newChainBlocks (hapart : HashesApart ext seen genesisBlock)
    (hstored : StoredSeen seen s.chain) (halt : ∀ b ∈ o.altChain, b ∈ seen) {newChain : List Block}
    {found : Hash × UInt64} (hmeets : Meets s.chain o.altChain o.endHash o.endHeight found)
    (hnew : newChainBlocks s.chain o.altChain o.endHash o.endHeight found.2 = some newChain) :
    (∀ b ∈ newChain, b ∈ seen) ∧
      (∀ last, newChain.getLast? = some last → Block.hash ext last = o.endHash) ∧
      ∃ us, PathTo ext seen o.endHash (headers newChain.reverse ++ us) found.1 := by
  have hfinds := finds_chainOrAlt hstored halt
  obtain ⟨walked, hwalk, rfl⟩ := Option.map_eq_some_iff.mp hnew
  obtain ⟨k, -, hpath, hlength, hmem⟩ := path_of_newChainWalk hapart hfinds hwalk
  refine ⟨fun b hb => hmem b (List.mem_reverse.mp hb), fun last hlast => ?_, ?_⟩
  · rw [List.getLast?_reverse] at hlast
    rcases hn : o.endHeight.toNat - found.2.toNat with _ | n
    · rw [hn] at hwalk
      cases hwalk
      cases hlast
    · rw [hn] at hwalk
      simp only [newChainWalk, Option.bind_eq_bind, Option.bind_eq_some_iff] at hwalk
      obtain ⟨block, hblock, rest, -, hpure⟩ := hwalk
      cases hpure
      cases hlast
      exact (hfinds _ _ hblock).2
  · obtain ⟨m, hm, htheirs⟩ := hmeets.theirs
    obtain ⟨vs, hvs, hpath'⟩ := path_of_hashBack hapart hfinds htheirs
    obtain ⟨us, rfl, -⟩ := hpath.prolongs hpath' (by
      rw [headers, List.length_map, hlength, hvs]
      omega)
    rw [List.reverse_reverse]
    exact ⟨us, hpath'⟩

theorem path_of_oldChainBlocks (hapart : HashesApart ext seen genesisBlock)
    (h : Rooted seen root s.chain) {oldChain : List Block} {found : Hash × UInt64}
    (hmeets : Meets s.chain o.altChain o.endHash o.endHeight found)
    (hold : oldChainBlocks s.chain found.2 = some oldChain) :
    PathTo ext seen s.chain.bestHash (headers oldChain) found.1 := by
  obtain ⟨blocks, hblocks, rfl⟩ := Option.map_eq_some_iff.mp hold
  refine path_of_canonicalBlocks hapart h.stored h.oneTip ?_ hblocks hmeets.ours
  have hle := hmeets.le
  have hbound := s.chain.bestHeight.toNat_lt
  rcases hle.eq_or_lt with heq | hlt
  · left
    omega
  · right
    rw [UInt64.toNat_add, Nat.mod_eq_of_lt]
    · change found.2.toNat + 1 + _ = _
      omega
    · change found.2.toNat + 1 < _
      omega

theorem chainFrom_of_work {tip : Hash} {w : BitVec 128} {c : ChainState ext}
    (h : (run (computeCumulativeWorkTipDb tip) c).1 = .ok w) : ∃ blocks, ChainFrom c tip blocks := by
  simp only [computeCumulativeWorkTipDb, sumFromTip, run_gets_bind] at h
  rcases hwalk : walkFromTip tip c with blocks | _ | _
  · exact ⟨blocks, lineage_of_walk hwalk⟩
  · rw [hwalk] at h
    cases h
  · rw [hwalk] at h
    cases h

theorem run_thenTrue (x : Exec ServiceError (NodeState ext) Unit) (s : NodeState ext) :
    (run (mapErr ForkError.service x >>= fun _ => pure true) s).2 = (run x s).2 ∧
      ((run x s).1 ≠ .ok () →
        (run (mapErr ForkError.service x >>= fun _ => pure true) s).1 ≠ .ok true) := by
  rw [run_bind, run_mapErr]
  rcases run x s with ⟨e | ⟨⟩, t⟩
  · exact ⟨rfl, fun _ => by simp⟩
  · exact ⟨rfl, fun h => absurd rfl h⟩

/-- What the handler does above a common ancestor. -/
theorem switchAbove_step (hapart : HashesApart ext seen genesisBlock) (hsane : ∀ b ∈ seen, Sane b)
    (halt : ∀ b ∈ o.altChain, b ∈ seen) (h : Rooted seen (Block.hash ext genesisBlock) s.chain)
    {found : Hash × UInt64} (hmeets : Meets s.chain o.altChain o.endHash o.endHeight found)
    {block : Block} (hancestor : s.chain.getBlockByHash found.1 = some block)
    (hfair : ∀ oldChain newChain, oldChainBlocks s.chain found.2 = some oldChain →
      newChainBlocks s.chain o.altChain o.endHash o.endHeight found.2 = some newChain →
        Comparable oldChain newChain) :
    Rooted seen (Block.hash ext genesisBlock) (run (switchAbove v o s.chain found.2) s).2.chain ∧
      (Keeps seen s.chain (run (switchAbove v o s.chain found.2) s).2.chain ∧
          (run (switchAbove v o s.chain found.2) s).1 ≠ .ok true ∨
        Heavier seen s.chain (run (switchAbove v o s.chain found.2) s).2.chain) := by
  unfold switchAbove
  rcases hold : oldChainBlocks s.chain found.2 with _ | oldChain
  · exact ⟨h, .inl ⟨.refl _, by simp⟩⟩
  rcases hnew : newChainBlocks s.chain o.altChain o.endHash o.endHeight found.2 with _ | newChain
  · exact ⟨h, .inl ⟨.refl _, by simp⟩⟩
  simp only [run_okOr_some_bind]
  rw [run_ite]
  split_ifs with hcompare
  · exact ⟨h, .inl ⟨.refl _, by simp⟩⟩
  obtain ⟨hseen, hend, us, hpath⟩ := path_of_newChainBlocks hapart h.stored halt hmeets hnew
  obtain ⟨hrun, hok⟩ := run_thenTrue (reorganizeChain v o.now o.clock oldChain newChain) s
  rw [hrun]
  rcases chain_reorganizeChain v o.now o.clock oldChain newChain s with
    ⟨made, hmade, hmoved, hfails⟩ | ⟨hswitches, hmax, hmoved⟩
  · rw [hmoved]
    obtain ⟨hrooted, us, hus⟩ := rooted_stores hapart (by
      intro call hcall
      obtain ⟨b, hb, rfl⟩ := List.mem_map.mp (hmade.subset hcall)
      exact ⟨b, hseen b hb, rfl⟩) h
    exact ⟨hrooted, .inl ⟨⟨us, hus⟩, hok hfails⟩⟩
  · rw [hmoved]
    obtain ⟨first, w, hfirst, hwork, hvalid⟩ := hswitches
    obtain ⟨last, hlast⟩ : ∃ last, newChain.getLast? = some last := by
      rcases newChain with _ | ⟨b, blocks⟩
      · cases hfirst
      · exact ⟨_, List.getLast?_eq_some_getLast (List.cons_ne_nil _ _)⟩
    obtain ⟨below, hbelow⟩ := chainFrom_of_work hwork
    have hold' := path_of_oldChainBlocks hapart h hmeets hold
    have hknown : known ext seen found.1 = some block.header :=
      (finds_stored h.stored).known hapart hancestor
    obtain ⟨vs, hvs⟩ := h.path
    obtain ⟨base, -, hbase⟩ := hvs.through hapart.source hold' hknown
    have hlastHash := hend last hlast
    rw [← hlastHash] at hpath
    obtain ⟨hrooted, htip⟩ := rooted_switch hapart hseen hmax (linkedFrom_of_valid hvalid) hbelow
      hlast (hpath.append hbase) h
    refine ⟨hrooted, .inr ⟨found.1, block.header, headers oldChain, headers newChain.reverse ++ us,
      hknown, hold', ?_, ?_⟩⟩
    · rw [htip]
      exact hpath
    · have htaken := comparable_heavier (hfair oldChain newChain hold hnew)
        (fun b hb => hsane b (hseen b hb)) hcompare
      have hnonneg : 0 ≤ weigh exactScore us := weigh_nonneg fun header hheader => by
        obtain ⟨k, hk⟩ := hpath.mem (List.mem_append_right _ hheader)
        exact exactScore_nonneg hsane k header hk
      have hreverse : weigh exactScore (headers newChain.reverse) = exactWork newChain := by
        rw [exactWork, weigh, weigh, headers, List.map_reverse, List.map_reverse, List.sum_reverse]
      rw [weigh_append, hreverse]
      exact lt_of_lt_of_le htaken (le_add_of_nonneg_right hnonneg)

/-- One offer: the handler leaves the tip on the chain and says that it has not switched, or it switches to
a heavier chain. -/
theorem attempt_step (hapart : HashesApart ext seen genesisBlock) (hsane : ∀ b ∈ seen, Sane b)
    (halt : ∀ b ∈ o.altChain, b ∈ seen) (h : Rooted seen (Block.hash ext genesisBlock) s.chain)
    (hfair : ∀ p ∈ branchesOf o s.chain, Comparable p.1 p.2) :
    Rooted seen (Block.hash ext genesisBlock)
        (run (attemptReorganizationIfLongerChain v o) s).2.chain ∧
      (Keeps seen s.chain (run (attemptReorganizationIfLongerChain v o) s).2.chain ∧
          (run (attemptReorganizationIfLongerChain v o) s).1 ≠ .ok true ∨
        Heavier seen s.chain (run (attemptReorganizationIfLongerChain v o) s).2.chain) := by
  have hnothing : Rooted seen (Block.hash ext genesisBlock) s.chain ∧
      (Keeps seen s.chain s.chain ∧ (Except.ok false : Except ForkError Bool) ≠ .ok true ∨
        Heavier seen s.chain s.chain) := ⟨h, .inl ⟨.refl _, by simp⟩⟩
  unfold attemptReorganizationIfLongerChain
  rw [run_gets_bind, run_ite, run_ite]
  split_ifs with hbelow hsame
  · exact hnothing
  · exact hnothing
  rcases hfound : findCommonAncestorWithAltChain s.chain o.altChain o.endHash o.endHeight with
    _ | ⟨commonHash, commonHeight⟩
  · simp only
    rw [run_switchCompletely h.oneTip hfound]
    exact hnothing
  · simp only
    rw [run_ite]
    split_ifs with hanchored
    · obtain ⟨-, block, hblock, -⟩ := hanchored
      have hbranches : ∀ oldChain newChain, oldChainBlocks s.chain commonHeight = some oldChain →
          newChainBlocks s.chain o.altChain o.endHash o.endHeight commonHeight = some newChain →
            Comparable oldChain newChain := by
        intro oldChain newChain hold hnew
        refine hfair (oldChain, newChain) ?_
        rw [branchesOf, hfound]
        simp only [Option.bind_eq_bind, Option.bind_some, hold, hnew]
        rfl
      have hmeets := meets_of_found h.oneTip hfound
      have hstep := switchAbove_step (v := v) hapart hsane halt h hmeets hblock hbranches
      exact hstep
    · exact hnothing

end Offered

/-! ### Runs -/

/-- What happens to a node whose fork handler is offered chains. -/
inductive ForkEvent where
  | received (now : Int64) (clock : ℕ → Int64) (skipTimestampAgeCheck : Bool) (block : Block)
  | mined (clock : ℕ → Int64) (block : Block)
  | offered (o : Offer)

/-- The blocks that an event brings. -/
def ForkEvent.blocks : ForkEvent → List Block
  | .received _ _ _ block => [block]
  | .mined _ block => [block]
  | .offered o => o.altChain

def seenIn (genesisBlock : Block) (events : List ForkEvent) : List Block :=
  genesisBlock :: events.flatMap ForkEvent.blocks

/-- The node taking events. An error ends the event and the node goes on. -/
def forkMachine (ext : Ext) (v : BlockValidator) : Machine ForkEvent (NodeState ext) where
  next e s :=
    match e with
    | .received now clock skip block => (run (receiveBlock v now clock skip block) s).2
    | .mined clock block => (run (mineBlock clock block) s).2
    | .offered o => (run (attemptReorganizationIfLongerChain v o) s).2
  halts _ _ := false

def tip {ext : Ext} (s : NodeState ext) : Hash := s.chain.bestHash

/-- The branches of an offer are compared as they are. -/
def Fair {ext : Ext} (e : ForkEvent) (s : NodeState ext) : Prop :=
  match e with
  | .offered o => ∀ p ∈ branchesOf o s.chain, Comparable p.1 p.2
  | _ => True

instance {ext : Ext} (e : ForkEvent) (s : NodeState ext) : Decidable (Fair e s) :=
  match e with
  | .offered o => inferInstanceAs (Decidable (∀ p ∈ branchesOf o s.chain, Comparable p.1 p.2))
  | .received .. => isTrue trivial
  | .mined .. => isTrue trivial

/-- The handler says that it has switched, or the tip it was at is not on the chain any more. -/
def Switches {ext : Ext} (v : BlockValidator) (seen : List Block) (o : Offer) (s : NodeState ext) :
    Prop :=
  (run (attemptReorganizationIfLongerChain v o) s).1 = .ok true ∨
    ¬ Keeps seen s.chain (run (attemptReorganizationIfLongerChain v o) s).2.chain

section Run

variable {ext : Ext} {seen : List Block} {genesisBlock : Block} {v : BlockValidator}
  {s : NodeState ext}

theorem advances_of_keeps {c c' : ChainState ext} (h : Keeps seen c c') :
    Advances exactScore BlockHeader.prevHash (known ext seen) c.bestHash c'.bestHash := by
  obtain ⟨us, hus⟩ := h
  rcases us with _ | ⟨header, us⟩
  · exact .stays hus.eq_of_nil
  · exact .descends (List.cons_ne_nil _ _) hus

theorem advances_of_heavier {c c' : ChainState ext} (h : Heavier seen c c') :
    Advances exactScore BlockHeader.prevHash (known ext seen) c.bestHash c'.bestHash := by
  obtain ⟨ancestor, header, old, new, hknown, hold, hnew, hlt⟩ := h
  exact .switches hold hnew hknown hlt

/-- What a block that is stored by itself does. -/
theorem stored_step (hapart : HashesApart ext seen genesisBlock) {block : Block} {c : ChainState ext}
    (hblock : block ∈ seen) (h : Rooted seen (Block.hash ext genesisBlock) s.chain)
    {made : List ChainCall} (hmade : made <+: [.storeBlock block])
    (hchain : c = (chainMachine ext).final made s.chain) :
    Rooted seen (Block.hash ext genesisBlock) c ∧ Keeps seen s.chain c := by
  rw [hchain]
  refine rooted_stores hapart (fun call hcall => ?_) h
  exact ⟨block, hblock, List.mem_singleton.mp (hmade.subset hcall)⟩

theorem next_step (hapart : HashesApart ext seen genesisBlock) (hsane : ∀ b ∈ seen, Sane b)
    {e : ForkEvent} (hblocks : ∀ b ∈ e.blocks, b ∈ seen)
    (h : Rooted seen (Block.hash ext genesisBlock) s.chain) (hfair : Fair e s) :
    Rooted seen (Block.hash ext genesisBlock) ((forkMachine ext v).next e s).chain ∧
      Advances exactScore BlockHeader.prevHash (known ext seen) s.chain.bestHash
        ((forkMachine ext v).next e s).chain.bestHash := by
  cases e with
  | received now clock skip block =>
    obtain ⟨made, hmade, hchain, -⟩ := makesCalls_receiveBlock v now clock skip block s
    obtain ⟨hrooted, hkeeps⟩ := stored_step hapart (hblocks block List.mem_cons_self) h hmade hchain
    exact ⟨hrooted, advances_of_keeps hkeeps⟩
  | mined clock block =>
    obtain ⟨made, hmade, hchain, -⟩ := makesCalls_mineBlock clock block s
    obtain ⟨hrooted, hkeeps⟩ := stored_step hapart (hblocks block List.mem_cons_self) h hmade hchain
    exact ⟨hrooted, advances_of_keeps hkeeps⟩
  | offered o =>
    obtain ⟨hrooted, hmoves⟩ := attempt_step (v := v) hapart hsane hblocks h hfair
    rcases hmoves with ⟨hkeeps, -⟩ | hheavier
    · exact ⟨hrooted, advances_of_keeps hkeeps⟩
    · exact ⟨hrooted, advances_of_heavier hheavier⟩

theorem hashesApart_mono {seen' : List Block} (h : HashesApart ext seen genesisBlock) (hsub : seen' ⊆ seen)
    (hgenesis : genesisBlock ∈ seen') : HashesApart ext seen' genesisBlock :=
  ⟨fun b hb c hc => h.collisionFree b (hsub hb) c (hsub hc), hgenesis, fun b hb => h.nothingBefore b (hsub hb)⟩

theorem rooted_start (hapart : HashesApart ext seen genesisBlock) (ledger : Ledger) :
    Rooted seen (Block.hash ext genesisBlock) (start genesisBlock ledger : NodeState ext).chain := by
  refine ⟨fun hash b hb => ?_, ⟨rfl, rfl⟩, [], .nil _⟩
  change (Keyed.empty.insert genesisBlock).get hash = some b at hb
  rw [Keyed.get_insert] at hb
  split_ifs at hb
  · cases hb
    exact hapart.genesis
  · cases hb

theorem blocks_of_trace {events : List ForkEvent} {p : ForkEvent × NodeState ext}
    (hp : p ∈ (forkMachine ext v).trace events s) :
    ∀ b ∈ p.1.blocks, b ∈ seenIn genesisBlock events := fun _ hb =>
  List.mem_cons_of_mem _ (List.mem_flatMap.mpr ⟨p.1, Machine.mem_of_mem_trace hp, hb⟩)

end Run

variable (ext : Ext) (v : BlockValidator)

/-- In a run of received and mined blocks and of offers from genesis on, with scores that are numbers and
not negative and with comparisons that are fair, every switch goes to a chain with more exact work
from a common ancestor on, and a tip that is left never comes back. -/
theorem switches_improve (genesisBlock : Block) (ledger : Ledger) (events : List ForkEvent)
    (hapart : HashesApart ext (seenIn genesisBlock events) genesisBlock)
    (hsane : ∀ b ∈ seenIn genesisBlock events, Sane b)
    (hfair : ∀ p ∈ (forkMachine ext v).trace events (start genesisBlock ledger), Fair p.1 p.2) :
    (∀ o s, (.offered o, s) ∈ (forkMachine ext v).trace events (start genesisBlock ledger) →
      Switches v (seenIn genesisBlock events) o s →
        Heavier (seenIn genesisBlock events) s.chain
          (run (attemptReorganizationIfLongerChain v o) s).2.chain) ∧
    ∀ before between after, events = before ++ between ++ after →
      tip ((forkMachine ext v).final (before ++ between ++ after) (start genesisBlock ledger)) =
        tip ((forkMachine ext v).final before (start genesisBlock ledger)) →
      tip ((forkMachine ext v).final (before ++ between) (start genesisBlock ledger)) =
        tip ((forkMachine ext v).final before (start genesisBlock ledger)) := by
  have hstep : ∀ p ∈ (forkMachine ext v).trace events (start genesisBlock ledger),
      Rooted (seenIn genesisBlock events) (Block.hash ext genesisBlock) p.2.chain →
      Rooted (seenIn genesisBlock events) (Block.hash ext genesisBlock)
          ((forkMachine ext v).next p.1 p.2).chain ∧
        Advances exactScore BlockHeader.prevHash (known ext (seenIn genesisBlock events))
          p.2.chain.bestHash ((forkMachine ext v).next p.1 p.2).chain.bestHash :=
    fun p hp h => next_step hapart hsane (blocks_of_trace hp) h (hfair p hp)
  have hstart := rooted_start hapart ledger
  have hrooted := Machine.invariant_trace (P := fun s =>
    Rooted (seenIn genesisBlock events) (Block.hash ext genesisBlock) s.chain)
    (fun p hp h => (hstep p hp h).1) hstart
  refine ⟨fun o s hp hswitches => ?_, ?_⟩
  · obtain ⟨-, hmoves⟩ := attempt_step (v := v) hapart hsane (blocks_of_trace hp) (hrooted _ hp)
      (hfair _ hp)
    rcases hmoves with ⟨hkeeps, hfalse⟩ | hheavier
    · rcases hswitches with htrue | hleft
      · exact absurd htrue hfalse
      · exact absurd hkeeps hleft
    · exact hheavier
  · rintro before between after rfl hback
    have hpath : ∀ s : NodeState ext,
        Rooted (seenIn genesisBlock (before ++ between ++ after)) (Block.hash ext genesisBlock) s.chain →
        ∃ vs, PathTo ext (seenIn genesisBlock (before ++ between ++ after)) (tip s) vs
          (Block.hash ext genesisBlock) := fun s h => h.path
    exact never_returns hapart.source (exactScore_nonneg hsane) (fun _ _ => rfl) hpath hstart hstep
      hback

/-! ### A comparison that wraps -/

/-- On block 6, with another score and the coinbase that it pays. -/
def scoredBlock (score : F64) (reward : Balance) (nonce : UInt64) : Block :=
  { minedBlock 7 hash6 commitmentHash7 nonce with
    header := { (minedBlock 7 hash6 commitmentHash7 nonce).header with workScore := score }
    coinbase := ⟨Sample.carol, reward, 7⟩ }

/-- The score is 18354969227571693568, and with a 200th of it 419 above 2 ^ 64. -/
def heavyBlock : Block := scoredBlock ⟨0x43efd73e68701461⟩ 458874230689292339200000000000000 135294

/-- The score is 4096. -/
def lightBlock : Block := scoredBlock ⟨0x40b0000000000000⟩ 102400000000000000 195564

def heavyHash : Hash := ⟨0x0000bf482525b64e70eb7bc7733f4e8f009db25ef28610b3e6de9fd038bc53c7⟩

def lightHash : Hash := ⟨0x0000308a3f936a8540a6d73f4fb32551c1c19ac0774a722c21abc3fb89850f81⟩

def forkExt : Ext := Ext.ofTables
  [(encode Sample.problem, Sample.problemHash.bytes),
    (encode Sample.solution, Sample.solutionHash.bytes),
    (Sample.problemHash.asBytes ++ hash6.asBytes ++ Sample.solutionHash.asBytes,
      commitmentHash7.bytes),
    (encode (headerAt 0 Hash.ZERO), hash0.bytes), (encode (headerAt 1 hash0), hash1.bytes),
    (encode (headerAt 2 hash1), hash2.bytes), (encode (headerAt 3 hash2), hash3.bytes),
    (encode (headerAt 4 hash3), hash4.bytes), (encode (headerAt 5 hash4), hash5.bytes),
    (encode (headerAt 6 hash5), hash6.bytes), (encode heavyBlock.header, heavyHash.bytes),
    (encode lightBlock.header, lightHash.bytes)] []

/-- Six blocks on genesis. -/
def firstBlocks : List ForkEvent :=
  [block1, block2, block3, block4, block5, block6].map (.mined fun _ => 0)

def offerAt7 (endHash : Hash) (altChain : List Block) : Offer where
  endHash := endHash
  endHeight := 7
  altChain := altChain
  now := 1767225660
  clock _ _ := 0

/-- The light block on the six blocks. -/
def lightRun : List ForkEvent := firstBlocks ++ [.offered (offerAt7 lightHash [lightBlock])]

/-- Block 7 with the heavy score is received, the light one is offered, and then the heavy one again. -/
def heavyThenLight : List ForkEvent :=
  firstBlocks ++ [.received 1767225660 (fun _ => 0) false heavyBlock] ++
    [.offered (offerAt7 lightHash [lightBlock])] ++ [.offered (offerAt7 heavyHash [])]

theorem hashesApart_heavyThenLight : HashesApart forkExt (seenIn block0 heavyThenLight) block0 := by
  obtain ⟨hfree, hnothing⟩ :
      (∀ b ∈ seenIn block0 heavyThenLight, ∀ c ∈ seenIn block0 heavyThenLight,
        Block.hash forkExt b = Block.hash forkExt c → b.header = c.header) ∧
      ∀ b ∈ seenIn block0 heavyThenLight, Block.hash forkExt b ≠ block0.header.prevHash := by decide +kernel
  exact ⟨hfree, List.mem_cons_self, hnothing⟩

theorem seenIn_lightRun : seenIn block0 lightRun ⊆ seenIn block0 heavyThenLight := by decide +kernel

theorem switches_improve_light :
    Heavier (seenIn block0 lightRun)
      ((forkMachine forkExt Sample.validator).final firstBlocks
        (start block0 (.ofAccounts Sample.aliceHas100))).chain
      (run (attemptReorganizationIfLongerChain Sample.validator (offerAt7 lightHash [lightBlock]))
        ((forkMachine forkExt Sample.validator).final firstBlocks
          (start block0 (.ofAccounts Sample.aliceHas100)))).2.chain := by
  have hapart : HashesApart forkExt (seenIn block0 lightRun) block0 :=
    hashesApart_mono hashesApart_heavyThenLight seenIn_lightRun List.mem_cons_self
  obtain ⟨hsane, hfair, hswitches⟩ :
      (∀ b ∈ seenIn block0 lightRun, Sane b) ∧
      (∀ p ∈ (forkMachine forkExt Sample.validator).trace lightRun
          (start block0 (.ofAccounts Sample.aliceHas100)), Fair p.1 p.2) ∧
      (run (attemptReorganizationIfLongerChain Sample.validator (offerAt7 lightHash [lightBlock]))
        ((forkMachine forkExt Sample.validator).final firstBlocks
          (start block0 (.ofAccounts Sample.aliceHas100)))).1 = .ok true := by decide +kernel
  have himproves := (switches_improve forkExt Sample.validator block0 (.ofAccounts Sample.aliceHas100)
    lightRun hapart hsane hfair).1
  refine himproves _ _ ?_ (.inl hswitches)
  rw [lightRun, Machine.trace_append, halted_eq_false fun _ _ => rfl]
  exact List.mem_append_right _ List.mem_cons_self

/-- Our work and its 200th add up to 419, so the handler leaves the heavy block for the light one. The
offer of the heavy one brings it back, and so on. -/
theorem heavy_block_is_left : ¬ ∀ (genesisBlock : Block) (ledger : Ledger) (events : List ForkEvent),
    HashesApart forkExt (seenIn genesisBlock events) genesisBlock →
    (∀ b ∈ seenIn genesisBlock events, Sane b) →
    (∀ o s, (.offered o, s) ∈
        (forkMachine forkExt Sample.validator).trace events (start genesisBlock ledger) →
      Switches Sample.validator (seenIn genesisBlock events) o s →
        Heavier (seenIn genesisBlock events) s.chain
          (run (attemptReorganizationIfLongerChain Sample.validator o) s).2.chain) ∧
    ∀ before between after, events = before ++ between ++ after →
      tip ((forkMachine forkExt Sample.validator).final (before ++ between ++ after)
          (start genesisBlock ledger)) =
        tip ((forkMachine forkExt Sample.validator).final before (start genesisBlock ledger)) →
      tip ((forkMachine forkExt Sample.validator).final (before ++ between)
          (start genesisBlock ledger)) =
        tip ((forkMachine forkExt Sample.validator).final before (start genesisBlock ledger)) := by
  intro h
  have hstays := (h block0 (.ofAccounts Sample.aliceHas100) heavyThenLight hashesApart_heavyThenLight
    (by decide +kernel)).2 _ _ _ rfl
  obtain ⟨hback, hfirst, hleft⟩ :
      tip ((forkMachine forkExt Sample.validator).final heavyThenLight
        (start block0 (.ofAccounts Sample.aliceHas100))) = heavyHash ∧
      tip ((forkMachine forkExt Sample.validator).final
        (firstBlocks ++ [.received 1767225660 (fun _ => 0) false heavyBlock])
        (start block0 (.ofAccounts Sample.aliceHas100))) = heavyHash ∧
      tip ((forkMachine forkExt Sample.validator).final
        (firstBlocks ++ [.received 1767225660 (fun _ => 0) false heavyBlock] ++
          [.offered (offerAt7 lightHash [lightBlock])])
        (start block0 (.ofAccounts Sample.aliceHas100))) = lightHash := by decide +kernel
  have hsame := hstays (hback.trans hfirst.symm)
  rw [hleft, hfirst] at hsame
  exact absurd hsame (by decide)

end Coinjecture.Node.ForkChoice
