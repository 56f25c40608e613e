import Coinjecture.Node.CommonAncestor
import Coinjecture.Node.FailedReorgs
import Coinjecture.Node.ForkScan
import Coinjecture.Node.PrefixWork
import Coinjecture.Node.TipSwitch

/-! # A fork in the buffer

Where the sync buffer has the blocks of a fork from a block of our chain on, deep enough and at least up to our
height, the check for forks finds its end and the attempt finds the block it is on.

* `buffered_fork_adopted` : in whatever order the attempts of the check are run, those before that one change
  nothing, and it moves the tip to the end of the fork exactly if the fork is heavier by the comparison, valid, and
  can be stored and applied. -/

namespace Coinjecture.Node.ForkAdoption

open Lib.Bincode Lib.Effect Lib.Table Lib.Ancestry
open Lib.Trace
open Core.Types Core.Blocks Core.Extern Core.Crypto
open State.Stores
open Node.Validator Node.Chain Node.Chain.ChainState Node.Service
open Node.ChainMetadata Node.ChainRules Node.ServiceCalls
open Node.ReorgAcceptance Node.ForkHandler Node.ForkPaths
open Node.CommonAncestor Node.ForkChoice Node.FailedReorgs
open Node.ForkScan
open Node.Sync (bufferKey)

variable {ext : Ext}

/-! ### Our chain -/

/-- Our chain from the tip down, with a block at every height, and the persisted tip in memory. -/
structure Whole (chain : ChainState ext) (ours : List Block) : Prop where
  oneTip : OneTip chain
  blocks : ChainFrom chain chain.bestHash ours
  heights : heights ours = (List.range (chain.bestHeight.toNat + 1)).reverse

namespace Whole

variable {chain : ChainState ext} {ours : List Block} (h : Whole chain ours) {n : ℕ} {hash : Hash} {block : Block}

include h

theorem length : ours.length = chain.bestHeight.toNat + 1 := by
  have hlength := congrArg List.length h.heights
  rwa [ReorgAcceptance.heights, List.length_map, List.length_reverse, List.length_range] at hlength

theorem height_at (hblock : ours[n]? = some block) : block.header.height.toNat + n = chain.bestHeight.toNat := by
  obtain ⟨hlt, -⟩ := List.getElem?_eq_some_iff.mp hblock
  have hlength := h.length
  have hget : (ReorgAcceptance.heights ours)[n]? = some block.header.height.toNat := by
    rw [ReorgAcceptance.heights, List.getElem?_map, hblock]
    rfl
  rw [h.heights, List.getElem?_reverse (by rw [List.length_range]; omega), List.length_range,
    List.getElem?_range (by omega), Option.some.injEq] at hget
  omega

theorem blockBack (hblock : ours[n]? = some block) : chain.blockBack n chain.bestHash = some block := by
  obtain ⟨hlt, rfl⟩ := List.getElem?_eq_some_iff.mp hblock
  exact PrefixWork.blockBack_chain h.blocks hlt

theorem stored (hblock : block ∈ ours) : chain.getBlockByHash (Block.hash ext block) = some block :=
  h.blocks.mem hblock

theorem canonical (hblock : ours[n]? = some block) :
    getCanonicalBlockByHeight block.header.height chain = some block := by
  have hheight := h.height_at hblock
  have hnot : ¬chain.metadata.bestHeight < block.header.height := by
    rw [h.oneTip.height, UInt64.lt_iff_toNat_lt]
    omega
  rw [getCanonicalBlockByHeight, if_neg hnot, h.oneTip.height, h.oneTip.hash,
    show chain.bestHeight.toNat - block.header.height.toNat = n by omega]
  exact h.blockBack hblock

/-- The hashes of our chain are those of the blocks. -/
theorem ours_at (hblock : ours[n]? = some block) :
    Ours chain block.header.height.toNat (Block.hash ext block) := by
  have hheight := h.height_at hblock
  refine ⟨by omega, ?_⟩
  rw [show chain.bestHeight.toNat - block.header.height.toNat = n by omega]
  exact (hashBack_of_blockBack (h.blockBack hblock)).1

/-- There is a block at every height. -/
theorem exists_at (hle : n ≤ chain.bestHeight.toNat) :
    ∃ block ∈ ours, block.header.height.toNat = n ∧ Ours chain n (Block.hash ext block) := by
  have hlength := h.length
  obtain ⟨block, hblock⟩ : ∃ block, ours[chain.bestHeight.toNat - n]? = some block :=
    ⟨_, List.getElem?_eq_getElem (by omega)⟩
  have hheight := h.height_at hblock
  have hn : block.header.height.toNat = n := by omega
  exact ⟨block, List.mem_of_getElem? hblock, hn, hn ▸ h.ours_at hblock⟩

theorem exists_of_ours (hours : Ours chain n hash) : ∃ block ∈ ours, Block.hash ext block = hash := by
  obtain ⟨block, hmem, -, hblock⟩ := h.exists_at hours.le
  exact ⟨block, hmem, hblock.unique hours⟩

theorem consecutive : Consecutive chain.getBlockByHash chain.bestHash chain.bestHeight := by
  intro height hle
  obtain ⟨block, hmem, hheight, hblock⟩ := h.exists_at hle
  exact ⟨_, block, hblock, h.stored hmem, hheight⟩

/-- The old chain is the blocks above. -/
theorem canonicalBlocks {height : UInt64} (hn : n = 0 ∨ height.toNat + n = chain.bestHeight.toNat + 1) :
    Service.canonicalBlocks chain height n = some (ours.take n).reverse := by
  induction n generalizing height with
  | zero => rfl
  | succ n ih =>
    have hlength := h.length
    have hbound := chain.bestHeight.toNat_lt
    have hsum : height.toNat + (n + 1) = chain.bestHeight.toNat + 1 := hn.resolve_left (Nat.succ_ne_zero n)
    obtain ⟨block, hblock⟩ : ∃ block, ours[n]? = some block := ⟨_, List.getElem?_eq_getElem (by omega)⟩
    have hheight := h.height_at hblock
    have hcanonical := h.canonical hblock
    have heq : block.header.height = height := UInt64.toNat_inj.mp (by omega)
    rw [heq] at hcanonical
    have hrest : Service.canonicalBlocks chain (height + 1) n = some (ours.take n).reverse := by
      refine ih ?_
      rcases Nat.eq_zero_or_pos n with hzero | hpositive
      · exact .inl hzero
      · right
        rw [UInt64.toNat_add, UInt64.toNat_one, Nat.mod_eq_of_lt (by omega)]
        omega
    rw [Service.canonicalBlocks, hcanonical, hrest, List.take_add_one, hblock, Option.toList_some,
      List.reverse_append, List.reverse_singleton]
    rfl

end Whole

/-! ### A fork -/

section Links

variable {a b c : Block} {fork : List Block} {i n : ℕ}

theorem prevHash_at (h : LinkedFrom ext (Block.hash ext a) fork) (hb : (a :: fork)[i]? = some b)
    (hc : (a :: fork)[i + 1]? = some c) : c.header.prevHash = Block.hash ext b := by
  induction fork generalizing a i with
  | nil =>
    rw [List.getElem?_cons_succ, List.getElem?_nil] at hc
    cases hc
  | cons d fork ih =>
    obtain ⟨hprev, hrest⟩ := h
    cases i with
    | zero =>
      cases hb
      cases hc
      exact hprev
    | succ i =>
      rw [List.getElem?_cons_succ] at hb hc
      exact ih hrest hb hc

theorem height_at (h : HeightsFrom (a.header.height + 1) fork) (hfits : a.header.height.toNat + fork.length < 2 ^ 64)
    (hb : (a :: fork)[i]? = some b) : b.header.height.toNat = a.header.height.toNat + i := by
  induction fork generalizing a i with
  | nil =>
    cases i with
    | zero =>
      cases hb
      rfl
    | succ i => cases hb
  | cons d fork ih =>
    obtain ⟨hd, hrest⟩ := h
    rw [List.length_cons] at hfits
    have hnext : d.header.height.toNat = a.header.height.toNat + 1 := by
      rw [hd, UInt64.toNat_add, UInt64.toNat_one]
      omega
    cases i with
    | zero =>
      cases hb
      rfl
    | succ i =>
      rw [List.getElem?_cons_succ] at hb
      rw [← hd] at hrest
      rw [ih hrest (by omega) hb]
      omega

end Links

/-- A fork on the block `anchor` of our chain, above which ours is `old`. Its hashes are told apart from each other
and from those of our chain, and what is stored under one of them is the block. -/
structure Diverges (chain : ChainState ext) (old : List Block) (anchor : Block) (below fork : List Block) : Prop where
  whole : Whole chain (old ++ anchor :: below)
  forked : old ≠ []
  linked : LinkedFrom ext (Block.hash ext anchor) fork
  follows : HeightsFrom (anchor.header.height + 1) fork
  fits : anchor.header.height.toNat + fork.length < 2 ^ 64
  apart : ∀ b ∈ fork, ∀ c ∈ fork, Block.hash ext b = Block.hash ext c → b.header = c.header
  off : ∀ b ∈ fork, ∀ c ∈ old ++ anchor :: below, Block.hash ext b ≠ Block.hash ext c
  kept : ∀ b ∈ fork, ∀ c, chain.getBlockByHash (Block.hash ext b) = some c → c = b

/-- A lookup that has the stored blocks and those of the fork. -/
structure Finds (chain : ChainState ext) (fork : List Block) (block? : Hash → Option Block) : Prop where
  stored : ∀ hash block, chain.getBlockByHash hash = some block → block? hash = some block
  fork : ∀ b ∈ fork, block? (Block.hash ext b) = some b

theorem hashBack_mono {block? block?' : Hash → Option Block}
    (h : ∀ hash block, block? hash = some block → block?' hash = some block) {n : ℕ} {hash k : Hash}
    (hback : hashBack block? n hash = some k) : hashBack block?' n hash = some k := by
  induction n generalizing hash with
  | zero => exact hback
  | succ n ih =>
    obtain ⟨block, hblock, hrest⟩ := Option.bind_eq_some_iff.mp hback
    rw [hashBack, h hash block hblock]
    exact ih hrest

namespace Diverges

variable {chain : ChainState ext} {old below fork altChain : List Block} {anchor b c last : Block}
  {block? : Hash → Option Block} {i n : ℕ} {hash : Hash}

section Branch

variable (h : Diverges chain old anchor below fork)

include h

theorem anchor_height : anchor.header.height.toNat + old.length = chain.bestHeight.toNat :=
  h.whole.height_at (by rw [List.getElem?_append_right le_rfl, Nat.sub_self]; rfl)

theorem anchor_ours : Ours chain anchor.header.height.toNat (Block.hash ext anchor) :=
  h.whole.ours_at (n := old.length) (by rw [List.getElem?_append_right le_rfl, Nat.sub_self]; rfl)

theorem anchor_stored : chain.getBlockByHash (Block.hash ext anchor) = some anchor :=
  h.whole.stored (List.mem_append_right _ List.mem_cons_self)

theorem not_ours (hb : b ∈ fork) : ¬Ours chain n (Block.hash ext b) := by
  intro hours
  obtain ⟨c, hc, heq⟩ := h.whole.exists_of_ours hours
  exact h.off b hb c hc heq.symm

theorem back (hfinds : Finds chain fork block?) (hb : (anchor :: fork)[i]? = some b)
    (hc : (anchor :: fork)[i + n]? = some c) : hashBack block? n (Block.hash ext c) = some (Block.hash ext b) := by
  induction n generalizing c with
  | zero =>
    rw [Nat.add_zero, hb] at hc
    cases hc
    rfl
  | succ n ih =>
    have hmem : c ∈ fork := List.mem_of_getElem? (i := i + n) hc
    obtain ⟨d, hd⟩ : ∃ d, (anchor :: fork)[i + n]? = some d := by
      obtain ⟨hlt, -⟩ := List.getElem?_eq_some_iff.mp hc
      exact ⟨_, List.getElem?_eq_getElem (by omega)⟩
    rw [hashBack, hfinds.fork c hmem, Option.bind_some, prevHash_at h.linked hd hc]
    exact ih hd

/-- The fork is what the walk back from its end collects. -/
theorem newChainWalk (hfinds : Finds chain fork (blockFromChainOrAlt chain altChain))
    (hc : (anchor :: fork)[n]? = some c) :
    Service.newChainWalk chain altChain n (Block.hash ext c) = some (fork.take n).reverse := by
  induction n generalizing c with
  | zero => rfl
  | succ n ih =>
    have hget : fork[n]? = some c := hc
    obtain ⟨d, hd⟩ : ∃ d, (anchor :: fork)[n]? = some d := by
      obtain ⟨hlt, -⟩ := List.getElem?_eq_some_iff.mp hc
      exact ⟨_, List.getElem?_eq_getElem (by omega)⟩
    rw [Service.newChainWalk, hfinds.fork c (List.mem_of_getElem? hget)]
    simp only [Option.bind_eq_bind, Option.bind_some]
    rw [prevHash_at h.linked hd hc, ih hd, Option.bind_some, List.take_add_one, hget, Option.toList_some,
      List.reverse_append, List.reverse_singleton]
    rfl

end Branch

section Search

variable (h : Diverges chain old anchor below fork) (hfinds : Finds chain fork (blockFromChainOrAlt chain altChain))
  (hlast : (anchor :: fork)[fork.length]? = some last)

include h hfinds hlast

theorem theirs_fork (hb : (anchor :: fork)[i]? = some b) :
    Theirs chain altChain (Block.hash ext last) last.header.height b.header.height.toNat (Block.hash ext b) := by
  obtain ⟨hlt, -⟩ := List.getElem?_eq_some_iff.mp hb
  rw [List.length_cons] at hlt
  have hheight := ForkAdoption.height_at h.follows h.fits hb
  have htop := ForkAdoption.height_at h.follows h.fits hlast
  refine ⟨by omega, ?_⟩
  rw [show last.header.height.toNat - b.header.height.toNat = fork.length - i by omega]
  refine h.back hfinds hb (n := fork.length - i) ?_
  rw [show i + (fork.length - i) = fork.length by omega]
  exact hlast

theorem theirs_ours (hle : n ≤ anchor.header.height.toNat) (hours : Ours chain n hash) :
    Theirs chain altChain (Block.hash ext last) last.header.height n hash := by
  have hanchor := h.theirs_fork hfinds hlast (i := 0) rfl
  have htop := hanchor.le
  have hsplit : chain.bestHeight.toNat - n =
      (chain.bestHeight.toNat - anchor.header.height.toNat) + (anchor.header.height.toNat - n) := by
    have := h.anchor_height
    omega
  have hback := hours.back
  rw [hsplit, hashBack_add, h.anchor_ours.back, Option.bind_some] at hback
  refine ⟨by omega, ?_⟩
  rw [show last.header.height.toNat - n =
    (last.header.height.toNat - anchor.header.height.toNat) + (anchor.header.height.toNat - n) by omega,
    hashBack_add, hanchor.back, Option.bind_some]
  exact hashBack_mono hfinds.stored hback

theorem consecutive :
    Consecutive (blockFromChainOrAlt chain altChain) (Block.hash ext last) last.header.height := by
  intro m hm
  have htop := ForkAdoption.height_at h.follows h.fits hlast
  rcases Nat.lt_or_ge m anchor.header.height.toNat with hlt | hge
  · have hanchor := h.anchor_height
    obtain ⟨block, hmem, hheight, hours⟩ := h.whole.exists_at (n := m) (by omega)
    exact ⟨_, block, h.theirs_ours hfinds hlast hlt.le hours, hfinds.stored _ _ (h.whole.stored hmem), hheight⟩
  · obtain ⟨b, hb⟩ : ∃ b, (anchor :: fork)[m - anchor.header.height.toNat]? = some b :=
      ⟨_, List.getElem?_eq_getElem (by rw [List.length_cons]; omega)⟩
    have hheight := ForkAdoption.height_at h.follows h.fits hb
    have hm' : b.header.height.toNat = m := by omega
    refine ⟨_, b, hm' ▸ h.theirs_fork hfinds hlast hb, ?_, hm'⟩
    rcases List.mem_cons.mp (List.mem_of_getElem? hb) with rfl | hmem
    · exact hfinds.stored _ _ h.anchor_stored
    · exact hfinds.fork b hmem

/-- The search finds the block that the fork is on. -/
theorem find_eq : findCommonAncestorWithAltChain chain altChain (Block.hash ext last) last.header.height =
    some (Block.hash ext anchor, anchor.header.height) := by
  have hanchor := h.anchor_height
  have htop := ForkAdoption.height_at h.follows h.fits hlast
  refine (right_find h.whole.oneTip h.whole.consecutive (h.consecutive hfinds hlast) _).mpr
    ⟨Nat.le_min.mpr ⟨by simp only; omega, by simp only; omega⟩, h.anchor_ours,
      h.theirs_fork hfinds hlast (i := 0) rfl, fun m hash hlt hle hours htheirs => ?_⟩
  -- above the anchor the other chain is the fork
  simp only at hlt
  have hm := (Nat.le_min.mp hle).1
  obtain ⟨b, hb⟩ : ∃ b, (anchor :: fork)[m - anchor.header.height.toNat]? = some b :=
    ⟨_, List.getElem?_eq_getElem (by rw [List.length_cons]; omega)⟩
  have hheight := ForkAdoption.height_at h.follows h.fits hb
  have htheirs' := h.theirs_fork hfinds hlast hb
  rw [show b.header.height.toNat = m by omega] at htheirs'
  obtain ⟨j, hj⟩ : ∃ j, m - anchor.header.height.toNat = j + 1 := ⟨m - anchor.header.height.toNat - 1, by omega⟩
  rw [hj, List.getElem?_cons_succ] at hb
  rw [htheirs.unique htheirs'] at hours
  exact h.not_ours (List.mem_of_getElem? hb) hours

end Search

end Diverges

/-! ### The reorganisation -/

/-- What an attempt asks of a fork that it has found. -/
structure Adoptable (v : BlockValidator) (o : Offer) (old fork : List Block) (s : NodeState ext) : Prop where
  heavier : ¬compareChains (chainWork old) (chainWork fork) ≤ 0
  valid : SwitchesTo v o.now fork s.chain
  storable : ∀ b ∈ fork, Storable b
  applied : (FailedReorgs.applied o.clock old fork s).1 = .ok ()

/-- It succeeds exactly then. The fork is our chain after it, or else the tip stays. -/
structure Outcome (v : BlockValidator) (o : Offer) (s : NodeState ext) (old : List Block) (anchor : Block)
    (below fork : List Block) : Prop where
  succeeds : (run (attemptReorganizationIfLongerChain v o) s).1 = .ok true ↔ Adoptable v o old fork s
  adopted : Adoptable v o old fork s →
    Whole (run (attemptReorganizationIfLongerChain v o) s).2.chain (fork.reverse ++ anchor :: below) ∧
      (run (attemptReorganizationIfLongerChain v o) s).2.ledger = (FailedReorgs.applied o.clock old fork s).2
  stays : ¬Adoptable v o old fork s →
    (run (attemptReorganizationIfLongerChain v o) s).2.chain.bestHash = s.chain.bestHash ∧
      (run (attemptReorganizationIfLongerChain v o) s).2.chain.bestHeight = s.chain.bestHeight

theorem run_thenTrue_ok (x : Exec ServiceError (NodeState ext) Unit) (s : NodeState ext) :
    (run (mapErr ForkError.service x >>= fun _ => pure true) s).1 = .ok true ↔ (run x s).1 = .ok () := by
  rw [run_bind, run_mapErr]
  rcases run x s with ⟨e | ⟨⟩, t⟩
  · exact ⟨nofun, nofun⟩
  · exact ⟨fun _ => rfl, fun _ => rfl⟩

namespace Diverges

variable {v : BlockValidator} {o : Offer} {s : NodeState ext} {old below fork : List Block} {anchor b last : Block}
  (h : Diverges s.chain old anchor below fork)

include h

theorem oldChainBlocks_eq : oldChainBlocks s.chain anchor.header.height = some old := by
  have hanchor := h.anchor_height
  have hbound := s.chain.bestHeight.toNat_lt
  have hlength : s.chain.bestHeight.toNat - anchor.header.height.toNat = old.length := by omega
  have hpositive := List.length_pos_iff.mpr h.forked
  rw [oldChainBlocks, hlength, h.whole.canonicalBlocks (.inr ?_), Option.map_some, List.reverse_reverse,
    List.take_left]
  rw [UInt64.toNat_add, UInt64.toNat_one]
  omega

theorem below_chain : ChainFrom s.chain (Block.hash ext anchor) (anchor :: below) := h.whole.blocks.of_append

theorem below_heights : heights (anchor :: below) = (List.range (anchor.header.height.toNat + 1)).reverse := by
  have hanchor := h.anchor_height
  have hdrop : heights (anchor :: below) = (heights (old ++ anchor :: below)).drop old.length := by
    rw [heights, heights, List.map_append]
    exact (List.drop_left' (List.length_map _)).symm
  rw [hdrop, h.whole.heights, List.drop_reverse, List.length_range, List.take_range]
  congr 2
  omega

/-- The whole chain after the blocks of the fork are stored. -/
theorem stored_chain (hstorable : ∀ b ∈ fork, Storable b) (hlast : fork.getLast? = some last) :
    ChainFrom ((chainMachine ext).final (fork.map .storeBlock) s.chain) (Block.hash ext last)
      (fork.reverse ++ anchor :: below) ∧
      heights (fork.reverse ++ anchor :: below) = (List.range (last.header.height.toNat + 1)).reverse := by
  obtain ⟨first, hfirst⟩ : ∃ first, fork[0]? = some first := by
    cases fork with
    | nil => cases hlast
    | cons first fork => exact ⟨first, rfl⟩
  have hone : first.header.height.toNat = anchor.header.height.toNat + 1 :=
    height_at h.follows h.fits (i := 1) hfirst
  have hanchorMax : ¬MAX_REASONABLE_HEIGHT < anchor.header.height := by
    have hmax := hstorable first (List.mem_of_getElem? hfirst)
    rw [Storable, UInt64.lt_iff_toNat_lt] at hmax
    rw [UInt64.lt_iff_toNat_lt]
    omega
  have hnew := heights_branch h.follows hanchorMax hstorable
  have hfree : ∀ b ∈ fork ++ anchor :: below, ∀ c ∈ fork ++ anchor :: below,
      Block.hash ext b = Block.hash ext c → b.header = c.header := by
    intro b hb c hc hhash
    rcases List.mem_append.mp hb with hb | hb <;> rcases List.mem_append.mp hc with hc | hc
    · exact h.apart b hb c hc hhash
    · exact absurd hhash (h.off b hb c (List.mem_append_right _ hc))
    · exact absurd hhash.symm (h.off c hc b (List.mem_append_right _ hb))
    · have hget := h.below_chain.mem hb
      rw [hhash, h.below_chain.mem hc] at hget
      rw [Option.some.inj hget]
  have hpositive : ∀ b ∈ fork, b.header.height ≠ 0 := by
    intro b hb hzero
    obtain ⟨i, hi⟩ := List.getElem?_of_mem hb
    have hheight := height_at h.follows h.fits (i := i + 1) hi
    rw [hzero, UInt64.toNat_zero] at hheight
    omega
  have hlineage := lineage_branch h.below_chain h.linked hpositive (pairwise_fresh h.below_heights hnew hfree)
  rw [hlast, Option.map_some, Option.getD_some, ← blocks_stores hstorable] at hlineage
  refine ⟨hlineage, ?_⟩
  have htop : last.header.height.toNat = anchor.header.height.toNat + fork.length := by
    refine height_at h.follows h.fits (i := fork.length) ?_
    rw [List.getLast?_eq_getElem?] at hlast
    obtain ⟨hlt, -⟩ := List.getElem?_eq_some_iff.mp hlast
    rw [show fork.length = fork.length - 1 + 1 by omega]
    exact hlast
  rw [heights_append h.below_heights hnew, htop]
  congr 2
  omega

/-- After a successful reorganisation the fork is our chain. -/
theorem switched (hswitches : SwitchesTo v o.now fork s.chain) (hstorable : ∀ b ∈ fork, Storable b)
    (happlied : (applied o.clock old fork s).1 = .ok ()) (hlast : fork.getLast? = some last) :
    (run (reorganizeChain v o.now o.clock old fork) s).1 = .ok () ∧
      Whole (run (reorganizeChain v o.now o.clock old fork) s).2.chain (fork.reverse ++ anchor :: below) ∧
        (run (reorganizeChain v o.now o.clock old fork) s).2.ledger = (applied o.clock old fork s).2 := by
  obtain ⟨hchain, hheights⟩ := h.stored_chain hstorable hlast
  have hlength := congrArg List.length hheights
  rw [heights, List.length_map, List.length_reverse, List.length_range] at hlength
  obtain ⟨hok, hheight, hhash, hmetadata⟩ := TipSwitch.updateBestChain_of_chain last.header.height hchain
  obtain ⟨u, hu⟩ := hok.mpr fun k hk => by
    rw [PrefixWork.blockBack_chain hchain (by omega), Option.isSome_some]
  have hblocks := (updateBestChain_moves (Block.hash ext last) last.header.height
    ((chainMachine ext).final (fork.map .storeBlock) s.chain)).1
  rcases hresult : applied o.clock old fork s with ⟨e | ⟨⟩, L⟩
  · rw [hresult] at happlied
    cases happlied
  obtain ⟨last', hlast', hrun⟩ := run_reorganizeChain_stored hswitches hresult hstorable
  rw [hlast] at hlast'
  cases hlast'
  rcases hupdate : run (updateBestChain (Block.hash ext last) last.header.height)
    ((chainMachine ext).final (fork.map .storeBlock) s.chain) with ⟨r, c⟩
  rw [hupdate] at hu hheight hhash hmetadata hblocks
  obtain rfl : r = .ok u := hu
  rw [run_onChain, run_mapErr] at hrun
  have hstores : (afterBlocks fork L { s with ledger := unwindBlocks ext old s.ledger }).chain =
      (chainMachine ext).final (fork.map .storeBlock) s.chain := rfl
  rw [hstores, hupdate] at hrun
  rw [hrun]
  simp only at hheight hhash hmetadata hblocks
  refine ⟨rfl, ⟨⟨?_, ?_⟩, ?_, ?_⟩, rfl⟩
  · change c.metadata.bestHeight = c.bestHeight
    rw [hmetadata, hheight]
    rfl
  · change c.metadata.bestHash = c.bestHash
    rw [hmetadata, hhash]
    rfl
  · change Lineage parentHash AtHeightZero c.blocks c.bestHash _
    rw [hblocks, hhash]
    exact hchain
  · change _ = (List.range (c.bestHeight.toNat + 1)).reverse
    rw [hheight]
    exact hheights

theorem reorganizeChain_ok_iff (hlast : fork.getLast? = some last) :
    (run (reorganizeChain v o.now o.clock old fork) s).1 = .ok () ↔ SwitchesTo v o.now fork s.chain ∧
      (∀ b ∈ fork, Storable b) ∧ (applied o.clock old fork s).1 = .ok () := by
  constructor
  · intro hok
    obtain ⟨first, w, hfirst, hwork, hvalid, hmax, -⟩ := reorganizeChain_ok hok
    have hswitches : SwitchesTo v o.now fork s.chain := ⟨first, w, hfirst, hwork, hvalid⟩
    refine ⟨hswitches, hmax, ?_⟩
    rcases applyBlocks_cases (timed o.clock 0 (storable fork)) (unwindBlocks ext old s.ledger) with
      ⟨L, happlied⟩ | hpanics
    · exact congrArg Prod.fst happlied
    · rw [run_reorganizeChain_panics hswitches hpanics] at hok
      cases hok
  · rintro ⟨hswitches, hstorable, happlied⟩
    exact (h.switched hswitches hstorable happlied hlast).1

end Diverges

/-! ### The attempt -/

namespace Diverges

section Tip

variable {chain c : ChainState ext} {old below fork : List Block} {anchor b : Block} {calls : List ChainCall}
  (h : Diverges chain old anchor below fork)

include h

theorem tip_ne_anchor : chain.bestHash ≠ Block.hash ext anchor := by
  intro heq
  obtain ⟨tip, hmem, hheight, htip⟩ := h.whole.exists_at (n := chain.bestHeight.toNat) le_rfl
  have hget := h.whole.stored hmem
  rw [htip.unique (HashAt.at_tip _ _), heq, h.anchor_stored, Option.some.injEq] at hget
  have hanchor := h.anchor_height
  have hpositive := List.length_pos_iff.mpr h.forked
  rw [← hget] at hheight
  omega

theorem hash_ne_tip (hb : b ∈ fork) : Block.hash ext b ≠ chain.bestHash := by
  intro heq
  refine h.not_ours (n := chain.bestHeight.toNat) hb ?_
  rw [heq]
  exact HashAt.at_tip _ _

/-- No block of the fork is on our tip. -/
theorem prevHash_ne_tip (hb : b ∈ fork) : b.header.prevHash ≠ chain.bestHash := by
  obtain ⟨i, hi⟩ := List.getElem?_of_mem hb
  obtain ⟨d, hd⟩ : ∃ d, (anchor :: fork)[i]? = some d := by
    obtain ⟨hlt, -⟩ := List.getElem?_eq_some_iff.mp hi
    exact ⟨_, List.getElem?_eq_getElem (by rw [List.length_cons]; omega)⟩
  rw [prevHash_at h.linked hd hi]
  rcases List.mem_cons.mp (List.mem_of_getElem? hd) with rfl | hmem
  · exact h.tip_ne_anchor.symm
  · exact h.hash_ne_tip hmem

theorem tip_of_stores (hcalls : ∀ call ∈ calls, ∃ b ∈ fork, call = .storeBlock b)
    (hhash : c.bestHash = chain.bestHash) :
    ((chainMachine ext).final calls c).bestHash = chain.bestHash ∧
      ((chainMachine ext).final calls c).bestHeight = c.bestHeight := by
  induction calls generalizing c with
  | nil => exact ⟨hhash, rfl⟩
  | cons call calls ih =>
    obtain ⟨b, hb, rfl⟩ := hcalls call List.mem_cons_self
    have hnot : ¬Extends b c := fun hextends => h.prevHash_ne_tip hb (hextends.2.trans hhash)
    have hnext : ((chainMachine ext).next (.storeBlock b) c).bestHash = chain.bestHash ∧
        ((chainMachine ext).next (.storeBlock b) c).bestHeight = c.bestHeight := by
      change (run (ChainState.storeBlock b) c).2.bestHash = _ ∧ (run (ChainState.storeBlock b) c).2.bestHeight = _
      rw [run_storeBlock, if_neg hnot]
      split_ifs
      · exact ⟨hhash, rfl⟩
      · exact ⟨hhash, rfl⟩
    obtain ⟨hfinal, hheight⟩ := ih (fun call hcall => hcalls call (List.mem_cons_of_mem _ hcall)) hnext.1
    exact ⟨hfinal, hheight.trans hnext.2⟩

end Tip

variable {v : BlockValidator} {o : Offer} {s : NodeState ext} {old below fork : List Block} {anchor last : Block}
  (h : Diverges s.chain old anchor below fork)

include h

/-- A reorganisation that fails leaves the tip. -/
theorem tip_of_failed (hlast : fork.getLast? = some last)
    (hfails : (run (reorganizeChain v o.now o.clock old fork) s).1 ≠ .ok ()) :
    (run (reorganizeChain v o.now o.clock old fork) s).2.chain.bestHash = s.chain.bestHash ∧
      (run (reorganizeChain v o.now o.clock old fork) s).2.chain.bestHeight = s.chain.bestHeight := by
  by_cases hswitches : SwitchesTo v o.now fork s.chain
  · obtain ⟨made, hmade, hchain, -⟩ := makesCalls_applyNewChain o.clock 0 fork
      { s with ledger := unwindBlocks ext old s.ledger }
    have hrun : run (reorganizeChain v o.now o.clock old fork) s =
        run (applyAndMove o.clock fork) { s with ledger := unwindBlocks ext old s.ledger } :=
      run_reorganizeChain hswitches
    rw [applyAndMove, run_bind] at hrun
    rcases happly : run (applyNewChain o.clock 0 fork) { s with ledger := unwindBlocks ext old s.ledger } with
      ⟨e | ⟨⟩, t⟩
    · rw [happly] at hrun hchain
      rw [hrun]
      simp only at hchain ⊢
      rw [hchain]
      refine h.tip_of_stores (fun call hcall => ?_) rfl
      obtain ⟨b, hb, rfl⟩ := List.mem_map.mp (hmade.subset hcall)
      exact ⟨b, hb, rfl⟩
    · -- then it does not fail
      have hstorable : ∀ b ∈ fork, Storable b := applyNewChain_ok (by rw [happly])
      refine absurd ((h.reorganizeChain_ok_iff hlast).mpr ⟨hswitches, hstorable, ?_⟩) hfails
      rcases applyBlocks_cases (timed o.clock 0 (storable fork)) (unwindBlocks ext old s.ledger) with
        ⟨L, happlied⟩ | hpanics
      · exact congrArg Prod.fst happlied
      · rw [storable_eq_self hstorable] at hpanics
        have hpanic : (run (applyNewChain o.clock 0 (fork ++ []))
            { s with ledger := unwindBlocks ext old s.ledger }).1 = .error (.ledger .panic) :=
          run_applyNewChain_panics hstorable hpanics
        rw [List.append_nil, happly] at hpanic
        cases hpanic
  · rw [chain_of_not_switchesTo hswitches]
    exact ⟨rfl, rfl⟩

/-- What comes of the attempt for a fork that is deep enough and reaches our height. -/
theorem attempt (hfinds : Finds s.chain fork (blockFromChainOrAlt s.chain o.altChain))
    (hlast : fork.getLast? = some last) (hdeep : ¬anchor.header.height < MIN_ANCHOR_DEPTH)
    (hreaches : s.chain.bestHeight ≤ last.header.height) (hhash : o.endHash = Block.hash ext last)
    (hheight : o.endHeight = last.header.height) :
    Outcome v o s old anchor below fork := by
  have hlast' : (anchor :: fork)[fork.length]? = some last := by
    have hpositive := List.length_pos_iff.mpr (List.ne_nil_of_mem (List.mem_of_getLast? hlast))
    rw [List.getLast?_eq_getElem?] at hlast
    rw [show fork.length = fork.length - 1 + 1 by omega]
    exact hlast
  have hnotBelow : ¬o.endHeight < s.chain.bestHeight := by
    rw [hheight]
    exact UInt64.not_lt.mpr hreaches
  have hnotTip : ¬(o.endHeight = s.chain.bestHeight ∧ o.endHash = s.chain.bestHash) := by
    rintro ⟨-, htip⟩
    exact h.hash_ne_tip (List.mem_of_getLast? hlast) (hhash.symm.trans htip)
  have hanchored : Anchored s.chain (Block.hash ext anchor) anchor.header.height := by
    refine ⟨hdeep, anchor, h.anchor_stored, ?_⟩
    have hanchor := h.anchor_height
    rw [UInt64.lt_iff_toNat_lt]
    omega
  have hnew : newChainBlocks s.chain o.altChain o.endHash o.endHeight anchor.header.height = some fork := by
    have htop := height_at h.follows h.fits hlast'
    rw [newChainBlocks, hhash, hheight,
      show last.header.height.toNat - anchor.header.height.toNat = fork.length by omega,
      h.newChainWalk hfinds hlast', Option.map_some, List.reverse_reverse, List.take_length]
  have hrun : run (attemptReorganizationIfLongerChain v o) s =
      if compareChains (chainWork old) (chainWork fork) ≤ 0 then (.ok false, s)
      else run (mapErr ForkError.service (reorganizeChain v o.now o.clock old fork) >>= fun _ => pure true) s := by
    unfold attemptReorganizationIfLongerChain
    rw [run_gets_bind, run_ite, if_neg hnotBelow, run_ite, if_neg hnotTip, hhash, hheight,
      h.find_eq hfinds hlast']
    simp only
    rw [run_ite, if_pos hanchored, switchAbove, h.oldChainBlocks_eq, hnew]
    simp only [run_okOr_some_bind]
    rw [run_ite]
    rfl
  by_cases hcompare : compareChains (chainWork old) (chainWork fork) ≤ 0
  · rw [if_pos hcompare] at hrun
    have hnot : ¬Adoptable v o old fork s := fun hadopt => hadopt.heavier hcompare
    refine ⟨?_, fun hadopt => absurd hadopt hnot, fun _ => ?_⟩
    · rw [hrun]
      exact iff_of_false (by simp) hnot
    · rw [hrun]
      exact ⟨rfl, rfl⟩
  · rw [if_neg hcompare] at hrun
    have hiff : (run (reorganizeChain v o.now o.clock old fork) s).1 = .ok () ↔ Adoptable v o old fork s :=
      (h.reorganizeChain_ok_iff hlast).trans
        ⟨fun ⟨hvalid, hstorable, happlied⟩ => ⟨hcompare, hvalid, hstorable, happlied⟩,
          fun hadopt => ⟨hadopt.valid, hadopt.storable, hadopt.applied⟩⟩
    refine ⟨?_, fun hadopt => ?_, fun hnot => ?_⟩
    · rw [hrun, run_thenTrue_ok]
      exact hiff
    · rw [hrun, (run_thenTrue _ s).1]
      exact (h.switched hadopt.valid hadopt.storable hadopt.applied hlast).2
    · rw [hrun, (run_thenTrue _ s).1]
      exact h.tip_of_failed hlast fun hok => hnot (hiff.mp hok)

end Diverges

/-! ### The check -/

/-- The fork is in the buffer, and what is buffered above its end does not go on from it. -/
structure Waiting (ext : Ext) (buffer : Buffer) (fork : List Block) (last : Block) : Prop where
  isLast : fork.getLast? = some last
  held : ∀ b ∈ fork, buffer.get b.header.height = some b
  apart : ∀ b ∈ fork, ∀ c ∈ buffer.values, Block.hash ext c = Block.hash ext b → c.header = b.header
  ends : buffer.next (last.header.height + 1) (Block.hash ext last) = none
  nonzero : Block.hash ext last ≠ Hash.ZERO

namespace Diverges

variable {chain : ChainState ext} {old below fork : List Block} {anchor b c last : Block} {buffer : Buffer}
  {i n m : ℕ}
  (h : Diverges chain old anchor below fork)

include h

theorem finds_of_waiting (hwaiting : Waiting ext buffer fork last) :
    Finds chain fork (blockFromChainOrAlt chain buffer.values) := by
  refine ⟨fun hash block => blockFromChainOrAlt_of_stored, fun b hb => ?_⟩
  have hheld := hwaiting.held b hb
  unfold blockFromChainOrAlt
  rcases hget : chain.getBlockByHash (Block.hash ext b) with _ | stored
  · rcases hfind : buffer.values.find? fun c => Block.hash ext c = Block.hash ext b with _ | c
    · have hnone := List.find?_eq_none.mp hfind b (Buffer.mem_values.mpr hheld)
      exact absurd (by simp) hnone
    · have hmem := List.mem_of_find?_eq_some hfind
      have hhash : Block.hash ext c = Block.hash ext b := by simpa using List.find?_some hfind
      have hc := Buffer.mem_values.mp hmem
      rw [hwaiting.apart b hb c hmem hhash, hheld] at hc
      exact hc.symm
  · exact congrArg some (h.kept b hb stored hget)

/-- The walk goes up the fork. -/
theorem walkUp_fork (hheld : ∀ b ∈ fork, buffer.get b.header.height = some b) (hb : (anchor :: fork)[i]? = some b)
    (hc : (anchor :: fork)[i + n]? = some c) :
    walkUp ext buffer.next (n + m) (b.header.height, Block.hash ext b) =
      walkUp ext buffer.next m (c.header.height, Block.hash ext c) := by
  induction n generalizing i b with
  | zero =>
    rw [Nat.add_zero, hb] at hc
    cases hc
    rw [Nat.zero_add]
  | succ n ih =>
    obtain ⟨hlt, -⟩ := List.getElem?_eq_some_iff.mp hc
    obtain ⟨d, hd⟩ : ∃ d, (anchor :: fork)[i + 1]? = some d := ⟨_, List.getElem?_eq_getElem (by omega)⟩
    have hheightB := height_at h.follows h.fits hb
    have hheightD := height_at h.follows h.fits hd
    have hfits := h.fits
    rw [List.length_cons] at hlt
    have hnext : b.header.height + 1 = d.header.height := by
      refine UInt64.toNat_inj.mp ?_
      rw [UInt64.toNat_add, UInt64.toNat_one]
      omega
    have hstep : buffer.next (b.header.height + 1) (Block.hash ext b) = some d := by
      rw [hnext]
      exact Buffer.next_eq_some.mpr ⟨hheld d (List.mem_of_getElem? hd), prevHash_at h.linked hb hd⟩
    rw [show n + 1 + m = n + m + 1 by omega, walkUp_step hstep, hnext]
    exact ih hd (by rw [show i + 1 + n = i + (n + 1) by omega]; exact hc)

/-- There are no fewer heights in the buffer. -/
theorem length_le_order (hheld : ∀ b ∈ fork, buffer.get b.header.height = some b) :
    fork.length ≤ buffer.order.length := by
  have hnodup : (fork.map fun b => b.header.height).Nodup := by
    refine List.nodup_iff_getElem?_ne_getElem?.mpr fun i j hij hj heq => ?_
    rw [List.length_map] at hj
    rw [List.getElem?_map, List.getElem?_map, List.getElem?_eq_getElem hj,
      List.getElem?_eq_getElem (hij.trans hj), Option.map_some, Option.map_some, Option.some.injEq] at heq
    have hi' := height_at h.follows h.fits (i := i + 1) (List.getElem?_eq_getElem (hij.trans hj))
    have hj' := height_at h.follows h.fits (i := j + 1) (List.getElem?_eq_getElem hj)
    rw [heq] at hi'
    omega
  have hsub : (fork.map fun b => b.header.height) ⊆ buffer.order := by
    intro height hheight
    obtain ⟨b, hb, rfl⟩ := List.mem_map.mp hheight
    exact Buffer.mem_order (hheld b hb)
  have hle := hnodup.length_le_of_subset hsub
  rwa [List.length_map] at hle

/-- The check finds the end of the fork. -/
theorem sameHeightFork_eq (hwaiting : Waiting ext buffer fork last)
    (hreaches : chain.bestHeight ≤ last.header.height) :
    sameHeightFork chain buffer = some ⟨Block.hash ext last, last.header.height, buffer.values⟩ := by
  have hpositive := List.length_pos_iff.mpr (List.ne_nil_of_mem (List.mem_of_getLast? hwaiting.isLast))
  have hlast : (anchor :: fork)[fork.length]? = some last := by
    have hgetLast := hwaiting.isLast
    rw [List.getLast?_eq_getElem?] at hgetLast
    rw [show fork.length = fork.length - 1 + 1 by omega]
    exact hgetLast
  have htop := height_at h.follows h.fits hlast
  have hanchor := h.anchor_height
  have hold := List.length_pos_iff.mpr h.forked
  rw [UInt64.le_iff_toNat_le] at hreaches
  -- the block of the fork at our height
  obtain ⟨mid, hmid⟩ : ∃ mid, (anchor :: fork)[old.length]? = some mid :=
    ⟨_, List.getElem?_eq_getElem (by rw [List.length_cons]; omega)⟩
  have hmidMem : mid ∈ fork := by
    rw [show old.length = old.length - 1 + 1 by omega, List.getElem?_cons_succ] at hmid
    exact List.mem_of_getElem? hmid
  have hmidHeight : mid.header.height = chain.bestHeight := by
    have hheight := height_at h.follows h.fits hmid
    exact UInt64.toNat_inj.mp (by omega)
  have hmidHeld := hwaiting.held mid hmidMem
  rw [hmidHeight] at hmidHeld
  have horder := h.length_le_order hwaiting.held
  have hwalk : walkUp ext buffer.next buffer.order.length (chain.bestHeight, Block.hash ext mid) =
      (last.header.height, Block.hash ext last) := by
    rw [← hmidHeight, show buffer.order.length = (fork.length - old.length) +
      (buffer.order.length - (fork.length - old.length)) by omega,
      h.walkUp_fork hwaiting.held hmid (c := last) (by
        rw [show old.length + (fork.length - old.length) = fork.length by omega]
        exact hlast)]
    exact walkUp_stop hwaiting.ends
  have hzero : (0 : UInt64) < last.header.height := by
    rw [UInt64.lt_iff_toNat_lt, UInt64.toNat_zero]
    omega
  unfold sameHeightFork
  rw [hmidHeld, Option.bind_some, if_neg (h.hash_ne_tip hmidMem)]
  simp only
  rw [hwalk, if_pos ⟨hzero, hwaiting.nonzero⟩]

end Diverges

/-- Of the other attempts that are run first none changes anything. -/
theorem final_of_idle {v : BlockValidator} {s : NodeState ext} {offers : List Offer}
    (h : ∀ o ∈ offers, (run (attemptReorganizationIfLongerChain v o) s).2 = s) :
    (forkMachine ext v).final (offers.map .offered) s = s := by
  induction offers with
  | nil => rfl
  | cons o offers ih =>
    change (forkMachine ext v).final (offers.map .offered) (run (attemptReorganizationIfLongerChain v o) s).2 = s
    rw [h o List.mem_cons_self]
    exact ih fun o ho => h o (List.mem_cons_of_mem _ ho)

/-- What becomes of a fork that the check finds. It starts an attempt for its end, and in whatever order its attempts
are run, the node is as it was when it comes to that one. -/
structure Tried (v : BlockValidator) (s : NodeState ext) (buffer : Buffer) (reports : Reports) (old : List Block)
    (anchor : Block) (below fork : List Block) (last : Block) : Prop where
  started : ⟨Block.hash ext last, last.header.height, buffer.values⟩ ∈
    (checkAndReorganizeChain s.chain buffer reports).attempts
  untouched : ∀ (before after : List Offer) (o : Offer),
    ((before ++ o :: after).map candidate).Perm (checkAndReorganizeChain s.chain buffer reports).attempts →
    candidate o = ⟨Block.hash ext last, last.header.height, buffer.values⟩ →
      (forkMachine ext v).final (before.map .offered) s = s
  outcome : ∀ o : Offer, candidate o = ⟨Block.hash ext last, last.header.height, buffer.values⟩ →
    Outcome v o s old anchor below fork

/-- The attempts before the one for the fork at our height are of the other two. -/
theorem final_before {v : BlockValidator} {s : NodeState ext} {buffer : Buffer} {reports : Reports}
    {before after : List Offer} {o : Offer} (htip : OneTip s.chain)
    (hsame : sameHeightFork s.chain buffer = some (candidate o))
    (hunstored : ∀ c ∈ storedFork s.chain buffer, s.chain.getBlockByHash c.endHash = none)
    (hperm : ((before ++ o :: after).map candidate).Perm (checkAndReorganizeChain s.chain buffer reports).attempts) :
    (forkMachine ext v).final (before.map .offered) s = s := by
  have hothers : ((before ++ after).map candidate).Perm
      ((completeFork s.chain buffer).toList ++ (storedFork s.chain buffer).toList) := by
    have hleft : ((before ++ o :: after).map candidate).Perm (candidate o :: (before ++ after).map candidate) := by
      rw [List.map_append, List.map_cons, List.map_append]
      exact List.perm_middle
    rw [checkAndReorganizeChain, hsame, Option.toList_some, List.append_assoc] at hperm
    exact (List.perm_cons (candidate o)).mp (hleft.symm.trans (hperm.trans List.perm_middle))
  refine final_of_idle fun first hfirst => ?_
  have hmem : candidate first ∈ (completeFork s.chain buffer).toList ++ (storedFork s.chain buffer).toList :=
    hothers.mem_iff.mp (List.mem_map_of_mem (List.mem_append_left _ hfirst))
  rcases List.mem_append.mp hmem with hcomplete | hstored
  · rw [attempt_completeFork htip (Option.mem_toList.mp hcomplete)]
  · have hfork := Option.mem_toList.mp hstored
    rw [attempt_storedFork htip hfork (hunstored _ hfork)]

/-- A fork in the buffer, from one of our blocks of height 6 or more at least up to our height, is found and tried,
unless the last block of what goes on from our chain is stored. -/
theorem buffered_fork_adopted (v : BlockValidator) (s : NodeState ext) (buffer : Buffer) (reports : Reports)
    {old below fork : List Block} {anchor last : Block} (h : Diverges s.chain old anchor below fork)
    (hdeep : ¬anchor.header.height < MIN_ANCHOR_DEPTH) (hwaiting : Waiting ext buffer fork last)
    (hreaches : s.chain.bestHeight ≤ last.header.height)
    (hunstored : ∀ c ∈ storedFork s.chain buffer, s.chain.getBlockByHash c.endHash = none) :
    Tried v s buffer reports old anchor below fork last := by
  have hsame := h.sameHeightFork_eq hwaiting hreaches
  refine ⟨?_, fun before after o hperm ho => ?_, fun o ho => ?_⟩
  · rw [checkAndReorganizeChain, hsame, Option.toList_some]
    exact List.mem_append_left _ (List.mem_append_right _ List.mem_cons_self)
  · rw [← ho] at hsame
    exact final_before h.whole.oneTip hsame hunstored hperm
  · obtain ⟨hhash, hheight, halt⟩ := Candidate.mk.inj ho
    have hfinds : Finds s.chain fork (blockFromChainOrAlt s.chain o.altChain) := by
      rw [halt]
      exact h.finds_of_waiting hwaiting
    exact h.attempt hfinds hwaiting.isLast hdeep hreaches hhash hheight

/-! ### Two blocks on the sixth -/

def topCommitment : Hash := ⟨0x9d345a15c2aa8cfa338d58730822fa75f73eca3ebf6b3e7ea3904d629201423b⟩

def topHash : Hash := ⟨0x0000727dc3b01af8481ed1671bb9fb4eaa85981083a8817e8407b13bed520367⟩

/-- On the heavy block, with the coinbase that is left for its score. -/
def topBlock : Block := { minedBlock 8 heavyHash topCommitment 57931 with coinbase := ⟨Sample.carol, 11670, 8⟩ }

def tallExt : Ext := { forkExt with
  blake3 data :=
    if data = encode topBlock.header then topHash.bytes
    else if data = Sample.problemHash.asBytes ++ heavyHash.asBytes ++ Sample.solutionHash.asBytes then
      topCommitment.bytes
    else forkExt.blake3 data }

/-- A node whose tip is the light block. -/
def lightNode : NodeState tallExt :=
  (forkMachine tallExt Sample.validator).final
    (firstBlocks ++ [.received 1767225660 (fun _ => 0) false lightBlock])
    (start block0 (.ofAccounts Sample.aliceHas100))

def heavyFork : List Block := [heavyBlock, topBlock]

/-- The fork waits. -/
def heavyBuffer : Buffer where
  blocks := (Keyed.empty.insert heavyBlock).insert topBlock
  order := [7, 8]
  nodup := by decide
  listed height := by
    have hkey : bufferKey heavyBlock = 7 := rfl
    have hkey' : bufferKey topBlock = 8 := rfl
    rw [Keyed.get_insert, Keyed.get_insert, hkey, hkey', List.mem_cons, List.mem_singleton]
    split_ifs with htop hheavy
    · exact iff_of_true (.inr htop) rfl
    · exact iff_of_true (.inl hheavy) rfl
    · exact iff_of_false (fun hor => hor.elim hheavy htop) nofun

def heavyOffer : Offer where
  endHash := topHash
  endHeight := 8
  altChain := heavyFork
  now := 1767225660
  clock _ _ := 0

def lastBlocks : List Block := [block5, block4, block3, block2, block1, block0]

theorem chain_lightNode :
    walkFromTip lightNode.chain.bestHash lightNode.chain = .found ([lightBlock] ++ block6 :: lastBlocks) ∧
      lightNode.chain.bestHeight = 7 ∧ lightNode.chain.metadata.bestHeight = 7 ∧
      lightNode.chain.metadata.bestHash = lightNode.chain.bestHash ∧
      ∀ b ∈ heavyFork, lightNode.chain.getBlockByHash (Block.hash tallExt b) = none := by decide +kernel

theorem diverges_lightNode : Diverges lightNode.chain [lightBlock] block6 lastBlocks heavyFork := by
  obtain ⟨hwalk, hbest, hheight, hhash, hunstored⟩ := chain_lightNode
  obtain ⟨hheavy, htop, hapart, hoff⟩ : heavyBlock.header.prevHash = Block.hash tallExt block6 ∧
      topBlock.header.prevHash = Block.hash tallExt heavyBlock ∧
      (∀ b ∈ heavyFork, ∀ c ∈ heavyFork, Block.hash tallExt b = Block.hash tallExt c → b.header = c.header) ∧
      ∀ b ∈ heavyFork, ∀ c ∈ [lightBlock] ++ block6 :: lastBlocks, Block.hash tallExt b ≠ Block.hash tallExt c := by
    decide +kernel
  refine ⟨⟨⟨hheight.trans hbest.symm, hhash⟩, lineage_of_walk hwalk, ?_⟩, List.cons_ne_nil _ _,
    ⟨hheavy, htop, trivial⟩, ⟨by decide, by decide, trivial⟩, by decide, hapart, hoff, ?_⟩
  · rw [hbest]
    decide
  · intro b hb c hc
    rw [hunstored b hb] at hc
    cases hc

theorem waiting_heavyBuffer : Waiting tallExt heavyBuffer heavyFork topBlock := by
  obtain ⟨hheld, hapart, hends, hnonzero⟩ :
      (∀ b ∈ heavyFork, heavyBuffer.get b.header.height = some b) ∧
      (∀ b ∈ heavyFork, ∀ c ∈ heavyBuffer.values,
        Block.hash tallExt c = Block.hash tallExt b → c.header = b.header) ∧
      heavyBuffer.next (topBlock.header.height + 1) (Block.hash tallExt topBlock) = none ∧
      Block.hash tallExt topBlock ≠ Hash.ZERO := by decide +kernel
  exact ⟨rfl, hheld, hapart, hends, hnonzero⟩

theorem buffered_fork_adopted_heavy :
    Adoptable Sample.validator heavyOffer [lightBlock] heavyFork lightNode ∧
      Whole (run (attemptReorganizationIfLongerChain Sample.validator heavyOffer) lightNode).2.chain
        (topBlock :: heavyBlock :: block6 :: lastBlocks) := by
  obtain ⟨hstored, hreaches, hoffer, hswitches⟩ :
      storedFork lightNode.chain heavyBuffer = none ∧ lightNode.chain.bestHeight ≤ topBlock.header.height ∧
      candidate heavyOffer = ⟨Block.hash tallExt topBlock, topBlock.header.height, heavyBuffer.values⟩ ∧
      (run (attemptReorganizationIfLongerChain Sample.validator heavyOffer) lightNode).1 = .ok true := by
    decide +kernel
  have htried := buffered_fork_adopted Sample.validator lightNode heavyBuffer ⟨[], 0, fun _ => none⟩
    diverges_lightNode (by decide) waiting_heavyBuffer hreaches (by rw [hstored]; exact nofun)
  have houtcome := htried.outcome heavyOffer hoffer
  have hadopt := houtcome.succeeds.mp hswitches
  exact ⟨hadopt, (houtcome.adopted hadopt).1⟩

end Coinjecture.Node.ForkAdoption
