import Coinjecture.Node.ChainRules

/-! # What a reorganisation accepts

Step 2 of `reorganize_chain` tells the validator to expect the height that the block itself states. Of
what a node whose tip is the common ancestor would check of the blocks one after the other nothing but
the heights is lost (`acceptsInTurn_iff`). So a reorganisation that succeeds has switched to a chain that
the node would have accepted in turn, and whose heights are consecutive, exactly if the heights of the
new blocks follow the ancestor's (`reorganisation_accepts_iff`). -/

namespace Coinjecture.Node.ReorgAcceptance

open Lib.Effect Lib.Table Lib.Ancestry
open Lib.Saturating Lib.Bincode
open Core.Types Core.Blocks Core.Extern
open Core.Crypto
open State.Stores
open Node.Chain Node.Chain.ChainState Node.ChainMetadata
open Node.Validator Node.Service Node.ServiceCalls
open Node.ChainRules

variable (ext : Ext) (v : BlockValidator) (now : Int64)

/-! ### One after the other -/

/-- A node whose tip has the hash `prevHash`, the height before `expectedHeight` and the cumulative work
`w` accepts the blocks one after the other. -/
def AcceptsInTurn : UInt64 → Hash → BitVec 128 → List Block → Prop
  | _, _, _, [] => True
  | expectedHeight, prevHash, w, block :: blocks =>
    v.validateBlockWithOptions ext now block prevHash expectedHeight true
      (if block.header.height = 0 then none else some w) = .ok () ∧
    AcceptsInTurn (expectedHeight + 1) (Block.hash ext block) (satAdd w (truncatedWork block)) blocks

/-- The heights of the blocks are `height`, `height + 1` and so on. -/
def HeightsFrom : UInt64 → List Block → Prop
  | _, [] => True
  | height, block :: blocks => block.header.height = height ∧ HeightsFrom (height + 1) blocks

variable {ext v now}

theorem validateNewChain_cons {prevHash : Hash} {w : BitVec 128} {block : Block}
    {blocks : List Block} : validateNewChain ext v now prevHash w (block :: blocks) = .ok () ↔
      block.header.prevHash = prevHash ∧
      v.validateBlockWithOptions ext now block prevHash block.header.height true
        (if block.header.height = 0 then none else some w) = .ok () ∧
      validateNewChain ext v now (Block.hash ext block) (satAdd w (truncatedWork block)) blocks =
        .ok () := by
  rw [validateNewChain]
  by_cases hprev : block.header.prevHash = prevHash
  · rw [if_neg (not_not.mpr hprev)]
    simp only
    rcases hvalid : v.validateBlockWithOptions ext now block prevHash block.header.height true
      (if block.header.height = 0 then none else some w) with e | ⟨⟩
    · simp
    · simp [hprev]
  · rw [if_pos hprev]
    simp [hprev]

/-- A valid new chain is accepted in turn exactly if its heights are the expected ones. -/
theorem acceptsInTurn_iff {expectedHeight : UInt64} {prevHash : Hash} {w : BitVec 128}
    {blocks : List Block} (h : validateNewChain ext v now prevHash w blocks = .ok ()) :
    AcceptsInTurn ext v now expectedHeight prevHash w blocks ↔ HeightsFrom expectedHeight blocks := by
  induction blocks generalizing expectedHeight prevHash w with
  | nil => exact Iff.rfl
  | cons block blocks ih =>
    obtain ⟨-, hvalid, hrest⟩ := validateNewChain_cons.mp h
    rw [AcceptsInTurn, HeightsFrom, ih hrest]
    constructor
    · rintro ⟨haccepted, htail⟩
      exact ⟨(validateBlockWithOptions_ok.mp haccepted).1, htail⟩
    · rintro ⟨rfl, htail⟩
      exact ⟨hvalid, htail⟩

/-- Each block of a valid new chain names the one before. -/
def LinkedFrom (ext : Ext) : Hash → List Block → Prop
  | _, [] => True
  | hash, block :: blocks => block.header.prevHash = hash ∧ LinkedFrom ext (Block.hash ext block) blocks

theorem linkedFrom_of_valid {prevHash : Hash} {w : BitVec 128} {blocks : List Block}
    (h : validateNewChain ext v now prevHash w blocks = .ok ()) : LinkedFrom ext prevHash blocks := by
  induction blocks generalizing prevHash w with
  | nil => trivial
  | cons block blocks ih =>
    obtain ⟨hprev, -, hrest⟩ := validateNewChain_cons.mp h
    exact ⟨hprev, ih hrest⟩

/-! ### Storing a branch -/

/-- The blocks of a branch on `k`, none of whose hashes is in use on the chain from `k` or twice. -/
theorem lineage_branch {t : Keyed (Block.hash ext)} {k : Hash} {below blocks : List Block}
    (hbelow : Lineage parentHash AtHeightZero t k below) (hlinked : LinkedFrom ext k blocks)
    (hheights : ∀ b ∈ blocks, b.header.height ≠ 0)
    (hfresh : (blocks ++ below).Pairwise fun b c => Block.hash ext b ≠ Block.hash ext c) :
    Lineage parentHash AtHeightZero (blocks.foldl (fun t b => t.insert b) t)
      ((blocks.getLast?.map (Block.hash ext)).getD k) (blocks.reverse ++ below) := by
  induction blocks generalizing t k below with
  | nil => exact hbelow
  | cons block blocks ih =>
    obtain ⟨hprev, hrest⟩ := hlinked
    rw [List.cons_append, List.pairwise_cons] at hfresh
    obtain ⟨hblock, hpairwise⟩ := hfresh
    have hne : ∀ b ∈ below, Block.hash ext b ≠ Block.hash ext block :=
      fun b hb h => hblock b (List.mem_append_right _ hb) h.symm
    have hbelow' : Lineage parentHash AtHeightZero (t.insert block) k below :=
      hbelow.insert_of_ne hne
    have hblock' : Lineage parentHash AtHeightZero (t.insert block) (Block.hash ext block)
        (block :: below) := by
      refine .link (Keyed.get_insert_self ..) (hheights block List.mem_cons_self) ?_
      rw [parentHash, hprev]
      exact hbelow'
    have hpairwise' : (blocks ++ block :: below).Pairwise
        fun b c => Block.hash ext b ≠ Block.hash ext c := by
      rw [List.pairwise_append] at hpairwise ⊢
      obtain ⟨hblocks, hbelowp, hcross⟩ := hpairwise
      refine ⟨hblocks, List.pairwise_cons.mpr ⟨fun b hb => (hne b hb).symm, hbelowp⟩, ?_⟩
      intro b hb c hc
      rcases List.mem_cons.mp hc with rfl | hc
      · exact (hblock b (List.mem_append_left _ hb)).symm
      · exact hcross b hb c hc
    have hlineage := ih hblock' hrest (fun b hb => hheights b (List.mem_cons_of_mem _ hb)) hpairwise'
    rw [List.reverse_cons, List.append_assoc, List.singleton_append, List.foldl_cons]
    rw [List.getLast?_cons, Option.map_some, Option.getD_some]
    rcases hlast : blocks.getLast? with _ | last
    · rw [hlast] at hlineage
      exact hlineage
    · rw [hlast] at hlineage
      exact hlineage

/-- The blocks of a chain state after a list of stores none of which is refused. -/
theorem blocks_stores {blocks : List Block} {c : ChainState ext}
    (h : ∀ b ∈ blocks, ¬ MAX_REASONABLE_HEIGHT < b.header.height) :
    ((chainMachine ext).final (blocks.map .storeBlock) c).blocks =
      blocks.foldl (fun t b => t.insert b) c.blocks := by
  induction blocks generalizing c with
  | nil => rfl
  | cons block blocks ih =>
    have hrest := ih (c := (run (storeBlock block) c).2) fun b hb => h b (List.mem_cons_of_mem _ hb)
    have hstored : (run (storeBlock block) c).2.blocks = c.blocks.insert block := by
      rw [run_storeBlock, if_neg (h block List.mem_cons_self)]
      split_ifs
      · rfl
      · rfl
    rw [hstored] at hrest
    exact hrest

/-! ### Heights -/

/-- The heights of a list of blocks. -/
def heights (blocks : List Block) : List ℕ := blocks.map fun b => b.header.height.toNat

/-- The heights along the canonical chain are consecutive from the best height to 0. -/
def HeightsConsecutive (c : ChainState ext) : Prop :=
  ∃ blocks, ChainFrom c c.bestHash blocks ∧
    heights blocks = (List.range (c.bestHeight.toNat + 1)).reverse

theorem toNat_succ {h : UInt64} (hmax : ¬ MAX_REASONABLE_HEIGHT < h) :
    (h + 1).toNat = h.toNat + 1 := by
  have hle : h.toNat ≤ MAX_REASONABLE_HEIGHT.toNat := UInt64.not_lt.mp hmax
  have hbound : MAX_REASONABLE_HEIGHT.toNat = 10000000 := rfl
  rw [UInt64.toNat_add, UInt64.toNat_one]
  omega

/-- The heights of a branch do not wrap. -/
theorem heights_branch {height : UInt64} {blocks : List Block} (h : HeightsFrom (height + 1) blocks)
    (hheight : ¬ MAX_REASONABLE_HEIGHT < height)
    (hmax : ∀ b ∈ blocks, ¬ MAX_REASONABLE_HEIGHT < b.header.height) :
    heights blocks = List.range' (height.toNat + 1) blocks.length := by
  induction blocks generalizing height with
  | nil => rfl
  | cons block blocks ih =>
    obtain ⟨hblock, hrest⟩ := h
    have hblockMax := hmax block List.mem_cons_self
    rw [hblock] at hblockMax
    have htail := ih hrest hblockMax fun b hb => hmax b (List.mem_cons_of_mem _ hb)
    rw [toNat_succ hheight] at htail
    rw [heights, List.map_cons, ← heights, htail, hblock, toNat_succ hheight, List.length_cons,
      List.range'_succ]

/-! ### Success -/

theorem applyNewChain_ok {clock : ℕ → ℕ → Int64} {i : ℕ} {blocks : List Block} {s : NodeState ext}
    (h : (run (applyNewChain clock i blocks) s).1 = .ok ()) :
    ∀ b ∈ blocks, ¬ MAX_REASONABLE_HEIGHT < b.header.height := by
  induction blocks generalizing i s with
  | nil => exact fun b hb => absurd hb List.not_mem_nil
  | cons block blocks ih =>
    rw [applyNewChain] at h
    obtain ⟨isNewBest, t, hstore, h⟩ := run_bind_eq_ok h
    obtain ⟨appliedTxs, t', -, h⟩ := run_bind_eq_ok h
    obtain ⟨_, t'', -, h⟩ := run_bind_eq_ok h
    intro b hb
    rcases List.mem_cons.mp hb with rfl | hb
    · intro hmax
      rw [run_onChain, run_mapErr, run_storeBlock, if_pos hmax] at hstore
      cases hstore
    · exact ih h b hb

/-- What a reorganisation that succeeds has checked and done. -/
theorem reorganizeChain_ok {v : BlockValidator} {now : Int64} {clock : ℕ → ℕ → Int64}
    {oldChain newChain : List Block} {s : NodeState ext}
    (h : (run (reorganizeChain v now clock oldChain newChain) s).1 = .ok ()) :
    ∃ first w, newChain.head? = some first ∧
      (run (computeCumulativeWorkTipDb first.header.prevHash) s.chain).1 = .ok w ∧
      validateNewChain ext v now first.header.prevHash w newChain = .ok () ∧
      (∀ b ∈ newChain, ¬ MAX_REASONABLE_HEIGHT < b.header.height) ∧
      (run (reorganizeChain v now clock oldChain newChain) s).2.chain =
        (chainMachine ext).final (switchCalls ext newChain) s.chain := by
  obtain ⟨made, -, hchain, hall⟩ := makesCalls_reorganizeChain v now clock oldChain newChain s
  obtain rfl := hall () h
  unfold reorganizeChain at h
  obtain ⟨_, t, hunwind, h⟩ := run_bind_eq_ok h
  rw [run_modify] at hunwind
  cases hunwind
  obtain ⟨first, t, hfirst, h⟩ := run_bind_eq_ok h
  rcases hhead : newChain.head? with _ | first'
  · rw [hhead] at hfirst
    cases hfirst
  rw [hhead] at hfirst
  cases hfirst
  obtain ⟨w, t, hwork, h⟩ := run_bind_eq_ok h
  have hcomputed : (run (computeCumulativeWorkTipDb first.header.prevHash) s.chain).1 = .ok w := by
    rw [run_onChain, run_mapErr] at hwork
    rcases hrun : run (computeCumulativeWorkTipDb first.header.prevHash) s.chain with ⟨e | w', c⟩
    · simp only [hrun] at hwork
      cases hwork
    · simp only [hrun] at hwork
      cases hwork
      rfl
  rcases hvalid : validateNewChain ext v now first.header.prevHash w newChain with e | ⟨⟩
  · rw [hvalid] at h
    cases h
  rw [hvalid] at h
  obtain ⟨_, t', happly, h⟩ := run_bind_eq_ok h
  exact ⟨first, w, rfl, hcomputed, hvalid, applyNewChain_ok (by rw [happly]), hchain⟩

/-! ### The heights of the canonical chain -/

section Switched

variable {c : ChainState ext} {commonHeight : UInt64} {below newChain : List Block} {hash : Hash}

/-- The heights of a branch that follows on the chain below it. -/
theorem heights_append (hbelow : heights below = (List.range (commonHeight.toNat + 1)).reverse)
    (hnew : heights newChain = List.range' (commonHeight.toNat + 1) newChain.length) :
    heights (newChain.reverse ++ below) =
      (List.range (commonHeight.toNat + 1 + newChain.length)).reverse := by
  rw [heights, List.map_append, List.map_reverse, ← heights, ← heights, hbelow, hnew,
    ← List.reverse_append, List.range_eq_range', List.range_eq_range']
  congr 1
  have happend := List.range'_append_1 (s := 0) (m := commonHeight.toNat + 1) (n := newChain.length)
  rwa [Nat.zero_add] at happend

/-- Blocks of different heights have different hashes, if no two of them collide. -/
theorem pairwise_fresh (hbelow : heights below = (List.range (commonHeight.toNat + 1)).reverse)
    (hnew : heights newChain = List.range' (commonHeight.toNat + 1) newChain.length)
    (hfree : ∀ b ∈ newChain ++ below, ∀ c ∈ newChain ++ below,
      Block.hash ext b = Block.hash ext c → b.header = c.header) :
    (newChain ++ below).Pairwise fun b c => Block.hash ext b ≠ Block.hash ext c := by
  have hnodup : (heights (newChain ++ below)).Nodup := by
    have hperm : (newChain ++ below).Perm (newChain.reverse ++ below) :=
      (List.reverse_perm newChain).symm.append_right below
    have hheights : (heights (newChain ++ below)).Perm (heights (newChain.reverse ++ below)) :=
      hperm.map _
    rw [hheights.nodup_iff, heights_append hbelow hnew, List.nodup_reverse]
    exact List.nodup_range
  have hdistinct : (newChain ++ below).Pairwise
      fun b c => b.header.height.toNat ≠ c.header.height.toNat := List.pairwise_map.mp hnodup
  refine hdistinct.imp_of_mem fun {b d} hb hd hne hhash => hne ?_
  rw [hfree b hb d hd hhash]

/-- After a switch to a branch whose heights follow those of the chain below, the heights of the
canonical chain are consecutive. -/
theorem heightsConsecutive_switched (hbelow : ChainFrom c hash below)
    (hheights : heights below = (List.range (commonHeight.toNat + 1)).reverse)
    (hcommon : ¬ MAX_REASONABLE_HEIGHT < commonHeight) (hne : newChain ≠ [])
    (hlinked : LinkedFrom ext hash newChain)
    (hmax : ∀ b ∈ newChain, ¬ MAX_REASONABLE_HEIGHT < b.header.height)
    (hfree : ∀ b ∈ newChain ++ below, ∀ c ∈ newChain ++ below,
      Block.hash ext b = Block.hash ext c → b.header = c.header)
    (hfrom : HeightsFrom (commonHeight + 1) newChain) :
    HeightsConsecutive ((chainMachine ext).final (switchCalls ext newChain) c) := by
  obtain ⟨last, hlast⟩ : ∃ last, newChain.getLast? = some last :=
    ⟨_, List.getLast?_eq_some_getLast hne⟩
  have hnew : heights newChain = List.range' (commonHeight.toNat + 1) newChain.length :=
    heights_branch hfrom hcommon hmax
  have hpositive : ∀ b ∈ newChain, b.header.height ≠ 0 := by
    intro b hb hzero
    have hmem : b.header.height.toNat ∈ heights newChain := List.mem_map.mpr ⟨b, hb, rfl⟩
    rw [hnew, List.mem_range'_1, hzero, UInt64.toNat_zero] at hmem
    omega
  have hlineage := lineage_branch hbelow hlinked hpositive (pairwise_fresh hheights hnew hfree)
  rw [hlast, Option.map_some, Option.getD_some] at hlineage
  have hcalls : switchCalls ext newChain = newChain.map .storeBlock ++
      [.updateBestChain (Block.hash ext last) last.header.height] := by
    rw [switchCalls, hlast]
  rw [hcalls, ServiceCalls.final_append]
  obtain ⟨hblocks, htip, hheight, -⟩ := updateBestChain_moves (Block.hash ext last)
    last.header.height ((chainMachine ext).final (newChain.map .storeBlock) c)
  refine ⟨newChain.reverse ++ below, ?_, ?_⟩
  · change ChainFrom (run (updateBestChain (Block.hash ext last) last.header.height)
      ((chainMachine ext).final (newChain.map .storeBlock) c)).2 _ _
    rw [ChainFrom, hblocks, blocks_stores hmax]
    change Lineage parentHash AtHeightZero _ (run (updateBestChain (Block.hash ext last)
      last.header.height) ((chainMachine ext).final (newChain.map .storeBlock) c)).2.bestHash _
    rw [htip]
    exact hlineage
  · change _ = (List.range ((run (updateBestChain (Block.hash ext last) last.header.height)
      ((chainMachine ext).final (newChain.map .storeBlock) c)).2.bestHeight.toNat + 1)).reverse
    rw [hheight, heights_append hheights hnew]
    congr 2
    -- the last height is the highest
    have hlastHeight : (heights newChain).getLast? = some last.header.height.toNat := by
      rw [heights, List.getLast?_map, hlast, Option.map_some]
    rw [hnew] at hlastHeight
    have hlength : 0 < newChain.length := List.length_pos_iff.mpr hne
    rw [List.getLast?_range', if_neg (Nat.pos_iff_ne_zero.mp hlength), Option.some.injEq]
      at hlastHeight
    omega

end Switched

/-- A reorganisation succeeds, over a common ancestor whose chain has consecutive heights. The node would
have accepted the new chain block by block, and the heights of the canonical chain are consecutive
after it, exactly if the heights of the new chain follow the ancestor's. -/
theorem reorganisation_accepts_iff (commonHeight : UInt64) {v : BlockValidator} {now : Int64}
    {clock : ℕ → ℕ → Int64} {oldChain newChain below : List Block} {first : Block} {s : NodeState ext}
    (hfirst : newChain.head? = some first)
    (hbelow : ChainFrom s.chain first.header.prevHash below)
    (hheights : heights below = (List.range (commonHeight.toNat + 1)).reverse)
    (hcommon : ¬ MAX_REASONABLE_HEIGHT < commonHeight)
    (hfree : ∀ b ∈ newChain ++ below, ∀ c ∈ newChain ++ below,
      Block.hash ext b = Block.hash ext c → b.header = c.header)
    (hok : (run (reorganizeChain v now clock oldChain newChain) s).1 = .ok ()) :
    ((∃ w, (run (computeCumulativeWorkTipDb first.header.prevHash) s.chain).1 = .ok w ∧
        AcceptsInTurn ext v now (commonHeight + 1) first.header.prevHash w newChain) ∧
      HeightsConsecutive (run (reorganizeChain v now clock oldChain newChain) s).2.chain) ↔
    HeightsFrom (commonHeight + 1) newChain := by
  obtain ⟨first', w, hfirst', hwork, hvalid, hmax, hchain⟩ := reorganizeChain_ok hok
  rw [hfirst] at hfirst'
  cases hfirst'
  constructor
  · rintro ⟨⟨w', hwork', haccepts⟩, -⟩
    rw [hwork] at hwork'
    cases hwork'
    exact (acceptsInTurn_iff hvalid).mp haccepts
  · intro hfrom
    refine ⟨⟨w, hwork, (acceptsInTurn_iff hvalid).mpr hfrom⟩, ?_⟩
    have hne : newChain ≠ [] := by
      rintro rfl
      cases hfirst
    rw [hchain]
    exact heightsConsecutive_switched hbelow hheights hcommon hne (linkedFrom_of_valid hvalid) hmax
      hfree hfrom

/-! ### A branch on a chain of seven blocks -/

def hash4 : Hash := ⟨0xee40277bbc66459621fb545df386510612e8c0cdc30e95fc9be8daa72810e983⟩

def hash5 : Hash := ⟨0x02b195f66fccd5d623a7169c62567d33bcdf63587da15b8e00b79ca5cf7e2b93⟩

def hash6 : Hash := ⟨0x6611d4d88a925a32cd44e9824dafc5163d9b84f959d405ece6dd9c6ffb7867da⟩

def block4 : Block := blockAt 4 hash3 50

def block5 : Block := blockAt 5 hash4 50

def block6 : Block := blockAt 6 hash5 50

/-- A mined block whose reveal opens the commitment of its header. -/
def minedBlock (height : UInt64) (prevHash commitmentHash : Hash) (nonce : UInt64) : Block where
  header :=
    { Sample.header Hash.ZERO nonce with
      height := height
      prevHash := prevHash
      commitment := ⟨commitmentHash, Sample.problemHash⟩ }
  coinbase := ⟨Sample.carol, 25000000000000, height⟩
  transactions := []
  solutionReveal := ⟨Sample.problem, Sample.solution, ⟨commitmentHash, Sample.problemHash⟩⟩

def commitmentHash7 : Hash := ⟨0xe6be04cc193f77635f0ce7a3fb97ffdd9cce4d577f286198d97345ea91818e2c⟩

def commitmentHash8 : Hash := ⟨0x5595b41e5aa448f30da764d32f13b0e6ac7a7bf6e6e2d965549fdd4a06a3c7ae⟩

def hash99 : Hash := ⟨0x00009e62a9e84846a8f202c64fe436c7aaa115d2e175366ddf1300bb39e707c0⟩

/-- On block 6, with height 99. -/
def block99 : Block := minedBlock 99 hash6 commitmentHash7 59954

/-- On block 99, with height 8. -/
def block8 : Block := minedBlock 8 hash99 commitmentHash8 40880

/-- On block 6, with height 7. -/
def block7 : Block := minedBlock 7 hash6 commitmentHash7 42999

def branchExt : Ext := Ext.ofTables
  [(encode Sample.problem, Sample.problemHash.bytes),
    (encode Sample.solution, Sample.solutionHash.bytes),
    (Sample.problemHash.asBytes ++ hash6.asBytes ++ Sample.solutionHash.asBytes,
      commitmentHash7.bytes),
    (Sample.problemHash.asBytes ++ hash99.asBytes ++ Sample.solutionHash.asBytes,
      commitmentHash8.bytes),
    (encode (headerAt 0 Hash.ZERO), hash0.bytes), (encode (headerAt 1 hash0), hash1.bytes),
    (encode (headerAt 2 hash1), hash2.bytes), (encode (headerAt 3 hash2), hash3.bytes),
    (encode (headerAt 4 hash3), hash4.bytes), (encode (headerAt 5 hash4), hash5.bytes),
    (encode (headerAt 6 hash5), hash6.bytes), (encode block99.header, hash99.bytes),
    (encode block8.header, 0x0000d512e05d7a2aa6ce5cea2496a30538fca574dfe67c0742d6c7bdfcf42f74),
    (encode block7.header, 0x0000bd30851ff98a375139b4e3ad34611f74afa9674067ff8fc8a7d7ffc58bfc)] []

def chain6 : List Block := [block6, block5, block4, block3, block2, block1, block0]

/-- A node whose tip is block 6. -/
def node6 : NodeState branchExt where
  chain := (chainMachine branchExt).final (([block1, block2, block3, block4, block5, block6]).map
    .storeBlock) (ChainState.new block0)
  ledger := .ofAccounts Sample.aliceHas100
  consensusHeight := none

theorem chainFrom_node6 : ChainFrom node6.chain hash6 chain6 := by
  have hwalk : walkFromTip hash6 node6.chain = .found chain6 := by decide +kernel
  exact lineage_of_walk hwalk

/-- Switching to block 7 is accepted in turn and keeps the heights consecutive. -/
theorem reorganisation_accepts_block7 :
    (∃ w, (run (computeCumulativeWorkTipDb block7.header.prevHash) node6.chain).1 = .ok w ∧
      AcceptsInTurn branchExt Sample.validator 1767225660 (6 + 1) block7.header.prevHash w
        [block7]) ∧
    HeightsConsecutive (run (reorganizeChain Sample.validator 1767225660 (fun _ _ => 0) []
      [block7]) node6).2.chain := by
  have hchain : ChainFrom node6.chain block7.header.prevHash chain6 := chainFrom_node6
  have hheights : heights chain6 = (List.range ((6 : UInt64).toNat + 1)).reverse := by decide +kernel
  have hfree : ∀ b ∈ [block7] ++ chain6, ∀ c ∈ [block7] ++ chain6,
      Block.hash branchExt b = Block.hash branchExt c → b.header = c.header := by decide +kernel
  have hok : (run (reorganizeChain Sample.validator 1767225660 (fun _ _ => 0) [] [block7])
      node6).1 = .ok () := by decide +kernel
  have hiff := reorganisation_accepts_iff 6 (List.head?_cons) hchain hheights (by decide) hfree hok
  exact hiff.mpr ⟨by decide, trivial⟩

/-- The walk collects the blocks of heights 99 and 8 as a branch from height 6 to 8, and the
reorganisation to them succeeds. A node at block 6 refuses the first, and the canonical block of height
7 is then the one that says 99. -/
theorem reorganisation_accepts_jump :
    (newChainBlocks node6.chain [block8, block99] (Block.hash branchExt block8) 8 6 =
        some [block99, block8] ∧
      (run (reorganizeChain Sample.validator 1767225660 (fun _ _ => 0) [] [block99, block8])
        node6).1 = .ok () ∧
      ((run (reorganizeChain Sample.validator 1767225660 (fun _ _ => 0) [] [block99, block8])
        node6).2.chain.getCanonicalBlockByHeight 7).map (fun b => b.header.height) = some 99) ∧
    ¬ ∀ (clock : ℕ → ℕ → Int64) (oldChain newChain below : List Block) (first : Block)
        (commonHeight : UInt64) (s : NodeState branchExt), newChain.head? = some first →
      ChainFrom s.chain first.header.prevHash below →
      heights below = (List.range (commonHeight.toNat + 1)).reverse →
      (run (reorganizeChain Sample.validator 1767225660 clock oldChain newChain) s).1 = .ok () →
        (∃ w, (run (computeCumulativeWorkTipDb first.header.prevHash) s.chain).1 = .ok w ∧
          AcceptsInTurn branchExt Sample.validator 1767225660 (commonHeight + 1)
            first.header.prevHash w newChain) ∧
        HeightsConsecutive
          (run (reorganizeChain Sample.validator 1767225660 clock oldChain newChain) s).2.chain := by
  have hruns : newChainBlocks node6.chain [block8, block99] (Block.hash branchExt block8) 8 6 =
        some [block99, block8] ∧
      (run (reorganizeChain Sample.validator 1767225660 (fun _ _ => 0) [] [block99, block8])
        node6).1 = .ok () ∧
      ((run (reorganizeChain Sample.validator 1767225660 (fun _ _ => 0) [] [block99, block8])
        node6).2.chain.getCanonicalBlockByHeight 7).map (fun b => b.header.height) = some 99 := by
    decide +kernel
  refine ⟨hruns, fun h => ?_⟩
  obtain ⟨⟨w, -, haccepts, -⟩, -⟩ := h (fun _ _ => 0) [] [block99, block8] chain6 block99 6 node6 rfl
    chainFrom_node6 (by decide +kernel) hruns.2.1
  have hheight : block99.header.height = 7 := (validateBlockWithOptions_ok.mp haccepts).1
  exact absurd hheight (by decide)

end Coinjecture.Node.ReorgAcceptance
