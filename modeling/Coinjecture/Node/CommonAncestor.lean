import Coinjecture.Node.ForkPaths

/-! # The highest common block

The search for the common ancestor counts the heights of both chains down itself. Where the blocks of a chain are
all there, at the heights that are counted, and the persisted tip is the one in memory, it finds the highest block
of both chains; whatever the chains are, it finds none only if a block is missing or the last blocks differ
(`common_ancestor`). A block whose height is not one above its parent's leads it astray. -/

namespace Coinjecture.Node.CommonAncestor

open Lib.Effect Lib.Table Lib.Trace
open Core.Types Core.Blocks Core.Extern
open Core.Crypto
open Node.Chain Node.Chain.ChainState Node.Service
open Node.ChainMetadata Node.ReorgAcceptance
open Node.ForkHandler Node.ForkPaths

variable {ext : Ext}

/-! ### Chains of hashes -/

/-- The hash at a height of the chain under a tip. -/
structure HashAt (block? : Hash → Option Block) (tip : Hash) (tipHeight : UInt64) (height : ℕ) (hash : Hash) : Prop where
  le : height ≤ tipHeight.toNat
  back : hashBack block? (tipHeight.toNat - height) tip = some hash

instance {block? : Hash → Option Block} {tip hash : Hash} {tipHeight : UInt64} {height : ℕ} :
    Decidable (HashAt block? tip tipHeight height hash) :=
  decidable_of_iff (height ≤ tipHeight.toNat ∧ hashBack block? (tipHeight.toNat - height) tip = some hash)
    ⟨fun h => ⟨h.1, h.2⟩, fun h => ⟨h.le, h.back⟩⟩

/-- The block is on the chain. -/
def OnChain (ext : Ext) (block? : Hash → Option Block) (tip : Hash) (tipHeight : UInt64) (block : Block) : Prop :=
  ∃ height, HashAt block? tip tipHeight height (Block.hash ext block) ∧ block? (Block.hash ext block) = some block

/-- Down to height 0 every block is there, at the height that is counted. -/
def Consecutive (block? : Hash → Option Block) (tip : Hash) (tipHeight : UInt64) : Prop :=
  ∀ height ≤ tipHeight.toNat, ∃ hash block, HashAt block? tip tipHeight height hash ∧
    block? hash = some block ∧ block.header.height.toNat = height

/-- A block is missing on the way to height 0. -/
def Missing (block? : Hash → Option Block) (tip : Hash) (tipHeight : UInt64) : Prop :=
  ∃ height hash, 0 < height ∧ HashAt block? tip tipHeight height hash ∧ block? hash = none

section Hashes

variable {block? : Hash → Option Block} {tip hash hash' : Hash} {tipHeight : UInt64} {height n : ℕ} {block : Block}

theorem HashAt.unique (h : HashAt block? tip tipHeight height hash) (h' : HashAt block? tip tipHeight height hash') :
    hash = hash' :=
  Option.some.inj (h.back.symm.trans h'.back)

theorem HashAt.at_tip (tip : Hash) (tipHeight : UInt64) : HashAt block? tip tipHeight tipHeight.toNat tip :=
  ⟨le_rfl, by rw [Nat.sub_self]; rfl⟩

/-- One height down. -/
theorem HashAt.step (h : HashAt block? tip tipHeight (n + 1) hash) (hblock : block? hash = some block) :
    HashAt block? tip tipHeight n block.header.prevHash := by
  have hle := h.le
  have hback : tipHeight.toNat - n = tipHeight.toNat - (n + 1) + 1 := by omega
  exact ⟨by omega, by rw [hback]; exact hashBack_step h.back hblock⟩

theorem Consecutive.exists_block (h : Consecutive block? tip tipHeight) (hhash : HashAt block? tip tipHeight height hash) :
    ∃ block, block? hash = some block ∧ block.header.height.toNat = height := by
  obtain ⟨hash', block, hhash', hblock, hheight⟩ := h height hhash.le
  rw [hhash'.unique hhash] at hblock
  exact ⟨block, hblock, hheight⟩

/-- Where the walk to height 0 does not come to an end a block is missing. -/
theorem missing_of_none (h : hashBack block? tipHeight.toNat tip = none) : Missing block? tip tipHeight := by
  have hstep (n : ℕ) (hn : n ≤ tipHeight.toNat) (hnone : hashBack block? n tip = none) :
      Missing block? tip tipHeight := by
    induction n with
    | zero => cases hnone
    | succ n ih =>
      rcases hback : hashBack block? n tip with _ | hash
      · exact ih (by omega) hback
      · refine ⟨tipHeight.toNat - n, hash, by omega, ⟨Nat.sub_le _ _, ?_⟩, ?_⟩
        · rw [Nat.sub_sub_self (by omega), hback]
        · rw [hashBack_add, hback, Option.bind_some] at hnone
          rcases hblock : block? hash with _ | block
          · rfl
          · rw [hashBack, hblock] at hnone
            cases hnone
  exact hstep _ le_rfl h

end Hashes

/-! ### The search -/

section Search

variable {chain : ChainState ext} {altChain : List Block} {endHash ourHash theirHash : Hash} {endHeight : UInt64}
  {n theirHeight : ℕ}

/-- Our chain. -/
abbrev Ours (chain : ChainState ext) : ℕ → Hash → Prop := HashAt chain.getBlockByHash chain.bestHash chain.bestHeight

/-- The chain that is offered. -/
abbrev Theirs (chain : ChainState ext) (altChain : List Block) (endHash : Hash) (endHeight : UInt64) : ℕ → Hash → Prop :=
  HashAt (blockFromChainOrAlt chain altChain) endHash endHeight

/-- The highest height up to `n` at which both chains have the hash. -/
structure Highest (chain : ChainState ext) (altChain : List Block) (endHash : Hash) (endHeight : UInt64) (n : ℕ)
    (found : Hash × UInt64) : Prop where
  le : found.2.toNat ≤ n
  ours : Ours chain found.2.toNat found.1
  theirs : Theirs chain altChain endHash endHeight found.2.toNat found.1
  above : ∀ m hash, found.2.toNat < m → m ≤ n → Ours chain m hash →
    ¬Theirs chain altChain endHash endHeight m hash

/-- The search from height `n` down is right. -/
def Right (chain : ChainState ext) (altChain : List Block) (endHash : Hash) (endHeight : UInt64) (n : ℕ)
    (result : Option (Hash × UInt64)) : Prop :=
  ∀ found, result = some found ↔ Highest chain altChain endHash endHeight n found

theorem Highest.unique {found found' : Hash × UInt64} (h : Highest chain altChain endHash endHeight n found)
    (h' : Highest chain altChain endHash endHeight n found') : found = found' := by
  have hheight : found.2.toNat = found'.2.toNat := by
    rcases lt_trichotomy found.2.toNat found'.2.toNat with hlt | heq | hlt
    · exact absurd h'.theirs (h.above _ _ hlt h'.le h'.ours)
    · exact heq
    · exact absurd h.theirs (h'.above _ _ hlt h.le h.ours)
  have hours := h'.ours
  rw [← hheight] at hours
  exact Prod.ext (h.ours.unique hours) (UInt64.toNat_inj.mp hheight)

theorem Right.of_highest {found : Hash × UInt64} (h : Highest chain altChain endHash endHeight n found) :
    Right chain altChain endHash endHeight n (some found) := by
  intro found'
  constructor
  · intro heq
    rwa [← Option.some.inj heq]
  · intro h'
    rw [h.unique h']

/-- A height at which the hashes differ may be left out. -/
theorem Right.up {result : Option (Hash × UInt64)} (h : Right chain altChain endHash endHeight n result)
    (hdiffer : ∀ hash, Ours chain (n + 1) hash → ¬Theirs chain altChain endHash endHeight (n + 1) hash) :
    Right chain altChain endHash endHeight (n + 1) result := by
  intro found
  rw [h found]
  constructor
  · intro hn
    refine ⟨hn.le.trans (Nat.le_succ n), hn.ours, hn.theirs, fun m hash hlt hle => ?_⟩
    rcases Nat.lt_or_ge n m with hm | hm
    · obtain rfl : m = n + 1 := by omega
      exact hdiffer hash
    · exact hn.above m hash hlt hm
  · intro hn
    have hle : found.2.toNat ≤ n := by
      have hup := hn.le
      rcases Nat.lt_or_ge n found.2.toNat with hm | hm
      · have heq : found.2.toNat = n + 1 := by omega
        have hours := hn.ours
        have htheirs := hn.theirs
        rw [heq] at hours htheirs
        exact absurd htheirs (hdiffer _ hours)
      · exact hm
    exact ⟨hle, hn.ours, hn.theirs, fun m hash hlt hm => hn.above m hash hlt (hm.trans (Nat.le_succ n))⟩

/-- A stored block is what both chains find under its hash. -/
theorem blockFromChainOrAlt_of_stored {hash : Hash} {block : Block} (h : chain.getBlockByHash hash = some block) :
    blockFromChainOrAlt chain altChain hash = some block := by
  rw [blockFromChainOrAlt, h]

/-- A hash of their chain that our chain has at a height, it has at that height too. -/
theorem height_eq {height : ℕ} {hash : Hash}
    (hours : Consecutive chain.getBlockByHash chain.bestHash chain.bestHeight)
    (htheirs : Consecutive (blockFromChainOrAlt chain altChain) endHash endHeight)
    (hour : Ours chain height hash) (htheir : Theirs chain altChain endHash endHeight n hash) : height = n := by
  obtain ⟨block, hblock, hheight⟩ := hours.exists_block hour
  obtain ⟨block', hblock', hheight'⟩ := htheirs.exists_block htheir
  rw [blockFromChainOrAlt_of_stored hblock] at hblock'
  rw [← hheight, ← hheight', Option.some.inj hblock']

/-- The look-up of our block at a height. -/
theorem hashAt_of_ourBlockAt (htip : OneTip chain) {height : ℕ} {hash : Hash} {found : Hash × UInt64}
    (hheight : height < 2 ^ 64) (h : ourBlockAt chain height hash = some found) :
    found = (hash, .ofNat height) ∧ Ours chain height hash := by
  obtain ⟨hfound, hnat, hle, hback⟩ := ourBlockAt_some htip hheight h
  refine ⟨Prod.ext hfound ?_, hle, hback⟩
  rw [← UInt64.toNat_inj, hnat]
  exact (UInt64.toNat_ofNat_of_lt' hheight).symm

theorem highest_here (hour : Ours chain n ourHash) (htheir : Theirs chain altChain endHash endHeight n ourHash) :
    Highest chain altChain endHash endHeight n (ourHash, .ofNat n) := by
  have hofNat : (UInt64.ofNat n).toNat = n := UInt64.toNat_ofNat_of_lt' (hour.le.trans_lt chain.bestHeight.toNat_lt)
  refine ⟨hofNat.le, by rwa [hofNat], by rwa [hofNat], fun m hash hlt hle => ?_⟩
  rw [hofNat] at hlt
  omega

/-- The last loop. The height that it looks at besides its own is only right in its first round. -/
theorem right_walkBoth (htip : OneTip chain)
    (hours : Consecutive chain.getBlockByHash chain.bestHash chain.bestHeight)
    (htheirs : Consecutive (blockFromChainOrAlt chain altChain) endHash endHeight)
    (hbound : theirHeight < 2 ^ 64) (hour : Ours chain n ourHash)
    (htheir : Theirs chain altChain endHash endHeight n theirHash) :
    Right chain altChain endHash endHeight n (walkBoth chain altChain theirHeight n ourHash theirHash) := by
  induction n generalizing ourHash theirHash with
  | zero =>
    rw [walkBoth]
    split_ifs with hsame
    · subst hsame
      exact .of_highest (highest_here hour htheir)
    · intro found
      refine iff_of_false (fun h => by cases h) fun h => hsame ?_
      have hzero : found.2.toNat = 0 := Nat.le_zero.mp h.le
      have hfound := h.ours
      have hfound' := h.theirs
      rw [hzero] at hfound hfound'
      rw [hour.unique hfound, htheir.unique hfound']
  | succ n ih =>
    rw [walkBoth]
    by_cases hsame : ourHash = theirHash
    · subst hsame
      rw [if_pos rfl]
      exact .of_highest (highest_here hour htheir)
    rw [if_neg hsame]
    obtain ⟨ourBlock, hourBlock, -⟩ := hours.exists_block hour
    obtain ⟨theirBlock, htheirBlock, -⟩ := htheirs.exists_block htheir
    have hdiffer : ∀ hash, Ours chain (n + 1) hash → ¬Theirs chain altChain endHash endHeight (n + 1) hash :=
      fun hash hour' htheir' => hsame ((hour.unique hour').trans (htheir'.unique htheir))
    have htheirNext := htheir.step htheirBlock
    rw [hourBlock, htheirBlock]
    simp only
    rcases hat : (if 0 < theirHeight then ourBlockAt chain (theirHeight - 1) theirBlock.header.prevHash else none) with
      _ | found
    · rw [Option.none_or]
      exact (ih (hour.step hourBlock) htheirNext).up hdiffer
    · rw [Option.some_or]
      split_ifs at hat
      obtain ⟨rfl, hourNext⟩ := hashAt_of_ourBlockAt htip (by omega) hat
      have heq := height_eq hours htheirs hourNext htheirNext
      rw [heq] at hourNext ⊢
      exact (Right.of_highest (highest_here hourNext htheirNext)).up hdiffer

/-- The loop over the blocks of theirs that are higher than our tip. -/
theorem right_walkTheirs (htip : OneTip chain)
    (hours : Consecutive chain.getBlockByHash chain.bestHash chain.bestHeight)
    (htheirs : Consecutive (blockFromChainOrAlt chain altChain) endHash endHeight)
    (htheir : Theirs chain altChain endHash endHeight (chain.bestHeight.toNat + n) theirHash) :
    Right chain altChain endHash endHeight chain.bestHeight.toNat (walkTheirs chain altChain n theirHash) := by
  induction n generalizing theirHash with
  | zero => exact right_walkBoth htip hours htheirs chain.bestHeight.toNat_lt (HashAt.at_tip _ _) htheir
  | succ n ih =>
    obtain ⟨theirBlock, htheirBlock, -⟩ := htheirs.exists_block htheir
    have htheirNext := HashAt.step htheir htheirBlock
    have hbound : chain.bestHeight.toNat + n < 2 ^ 64 := by
      have hlt := endHeight.toNat_lt
      have hle := htheir.le
      omega
    rw [walkTheirs, htheirBlock]
    simp only
    rcases hat : ourBlockAt chain (chain.bestHeight.toNat + n) theirBlock.header.prevHash with _ | found
    · rw [Option.none_or]
      exact ih htheirNext
    · rw [Option.some_or]
      obtain ⟨rfl, hourNext⟩ := hashAt_of_ourBlockAt htip hbound hat
      obtain rfl : n = 0 := by
        have hle := hourNext.le
        omega
      exact .of_highest (highest_here hourNext htheirNext)

/-- Up to the lower one of both tips the search is right. -/
theorem right_find (htip : OneTip chain)
    (hours : Consecutive chain.getBlockByHash chain.bestHash chain.bestHeight)
    (htheirs : Consecutive (blockFromChainOrAlt chain altChain) endHash endHeight) :
    Right chain altChain endHash endHeight (min endHeight.toNat chain.bestHeight.toNat)
      (findCommonAncestorWithAltChain chain altChain endHash endHeight) := by
  unfold findCommonAncestorWithAltChain
  split_ifs with hle
  · have hle' := UInt64.le_iff_toNat_le.mp hle
    rw [Nat.min_eq_left hle']
    obtain ⟨ourHash, -, hour, -⟩ := hours endHeight.toNat hle'
    rw [hour.back]
    simp only
    split_ifs with hsame
    · subst hsame
      have hhere : Highest chain altChain ourHash endHeight _ (ourHash, .ofNat _) :=
        highest_here hour (HashAt.at_tip ourHash endHeight)
      rw [UInt64.ofNat_toNat] at hhere
      exact .of_highest hhere
    · exact right_walkBoth htip hours htheirs endHeight.toNat_lt hour (HashAt.at_tip _ _)
  · have hlt : chain.bestHeight.toNat < endHeight.toNat :=
      not_le.mp fun hle' => hle (UInt64.le_iff_toNat_le.mpr hle')
    rw [Nat.min_eq_right hlt.le]
    refine right_walkTheirs htip hours htheirs ?_
    rw [Nat.add_sub_cancel' hlt.le]
    exact HashAt.at_tip _ _

/-- The block is on both chains, and none that is higher. -/
structure HighestCommon (chain : ChainState ext) (altChain : List Block) (endHash : Hash) (endHeight : UInt64)
    (block : Block) : Prop where
  ours : OnChain ext chain.getBlockByHash chain.bestHash chain.bestHeight block
  theirs : OnChain ext (blockFromChainOrAlt chain altChain) endHash endHeight block
  highest : ∀ other, OnChain ext chain.getBlockByHash chain.bestHash chain.bestHeight other →
    OnChain ext (blockFromChainOrAlt chain altChain) endHash endHeight other →
    other.header.height ≤ block.header.height

/-- The highest hash is that of the highest block. -/
theorem highest_iff (hours : Consecutive chain.getBlockByHash chain.bestHash chain.bestHeight)
    (htheirs : Consecutive (blockFromChainOrAlt chain altChain) endHash endHeight) {found : Hash × UInt64} :
    Highest chain altChain endHash endHeight (min endHeight.toNat chain.bestHeight.toNat) found ↔
      ∃ block, found = (Block.hash ext block, block.header.height) ∧
        HighestCommon chain altChain endHash endHeight block := by
  constructor
  · intro h
    obtain ⟨block, hblock, hheight⟩ := hours.exists_block h.ours
    have hself : Block.hash ext block = found.1 := chain.blocks.keyed hblock
    have hfound : found = (Block.hash ext block, block.header.height) :=
      Prod.ext hself.symm (UInt64.toNat_inj.mp hheight.symm)
    refine ⟨block, hfound, ⟨found.2.toNat, ?_, ?_⟩, ⟨found.2.toNat, ?_, ?_⟩, ?_⟩
    · rw [hself]
      exact h.ours
    · rw [hself]
      exact hblock
    · rw [hself]
      exact h.theirs
    · rw [hself]
      exact blockFromChainOrAlt_of_stored hblock
    · rintro other ⟨n, hour, hget⟩ ⟨m, htheir, -⟩
      obtain rfl := height_eq hours htheirs hour htheir
      obtain ⟨other', hget', hheight'⟩ := hours.exists_block hour
      obtain rfl : other = other' := Option.some.inj (hget.symm.trans hget')
      rw [UInt64.le_iff_toNat_le, hheight, hheight']
      by_contra hlt
      exact h.above n _ (not_le.mp hlt) (Nat.le_min.mpr ⟨htheir.le, hour.le⟩) hour htheir
  · rintro ⟨block, rfl, ⟨n, hour, hget⟩, ⟨m, htheir, -⟩, hhighest⟩
    obtain rfl := height_eq hours htheirs hour htheir
    obtain ⟨block', hget', hheight⟩ := hours.exists_block hour
    obtain rfl : block = block' := Option.some.inj (hget.symm.trans hget')
    refine ⟨?_, by rw [hheight]; exact hour, by rw [hheight]; exact htheir, fun m hash hlt hle hour' htheir' => ?_⟩
    · rw [hheight]
      exact Nat.le_min.mpr ⟨htheir.le, hour.le⟩
    · obtain ⟨other, hother, hheight'⟩ := hours.exists_block hour'
      have hself : Block.hash ext other = hash := chain.blocks.keyed hother
      have hle' := hhighest other ⟨m, by rw [hself]; exact hour', by rw [hself]; exact hother⟩
        ⟨m, by rw [hself]; exact htheir', by rw [hself]; exact blockFromChainOrAlt_of_stored hother⟩
      rw [UInt64.le_iff_toNat_le, hheight'] at hle'
      simp only at hlt
      omega

end Search

/-! ### The result -/

/-- On chains whose blocks are all there, each one above its parent, and with the persisted tip in memory, the
search finds the highest block of both. On any chains it finds none only if a block is missing or the hashes at
height 0 differ. -/
theorem common_ancestor (chain : ChainState ext) (altChain : List Block) (endHash : Hash) (endHeight : UInt64) :
    (OneTip chain → Consecutive chain.getBlockByHash chain.bestHash chain.bestHeight →
      Consecutive (blockFromChainOrAlt chain altChain) endHash endHeight →
      ∀ found, findCommonAncestorWithAltChain chain altChain endHash endHeight = some found ↔
        ∃ block, found = (Block.hash ext block, block.header.height) ∧
          HighestCommon chain altChain endHash endHeight block) ∧
    (findCommonAncestorWithAltChain chain altChain endHash endHeight = none →
      Missing chain.getBlockByHash chain.bestHash chain.bestHeight ∨
      Missing (blockFromChainOrAlt chain altChain) endHash endHeight ∨
      ∃ ourGenesis theirGenesis, HashAt chain.getBlockByHash chain.bestHash chain.bestHeight 0 ourGenesis ∧
        HashAt (blockFromChainOrAlt chain altChain) endHash endHeight 0 theirGenesis ∧
        ourGenesis ≠ theirGenesis) := by
  refine ⟨fun htip hours htheirs found => ?_, fun hnone => ?_⟩
  · rw [right_find htip hours htheirs found, highest_iff hours htheirs]
  · rcases hour : hashBack chain.getBlockByHash chain.bestHeight.toNat chain.bestHash with _ | ourGenesis
    · exact .inl (missing_of_none hour)
    rcases htheir : hashBack (blockFromChainOrAlt chain altChain) endHeight.toNat endHash with _ | theirGenesis
    · exact .inr (.inl (missing_of_none htheir))
    refine .inr (.inr ⟨ourGenesis, theirGenesis, ⟨Nat.zero_le _, hour⟩, ⟨Nat.zero_le _, htheir⟩, ?_⟩)
    rintro rfl
    have hfound := found_of_fromGenesis hour htheir
    rw [hnone] at hfound
    cases hfound

set_option maxRecDepth 20000 in
/-- Genesis, and block 1 on it in the buffer. -/
theorem common_ancestor_genesis :
    findCommonAncestorWithAltChain (ChainState.new block0 : ChainState chainExt) [block1] hash1 1 = some (hash0, 0) ↔
      ∃ block, (hash0, 0) = (Block.hash chainExt block, block.header.height) ∧
        HighestCommon (ChainState.new block0 : ChainState chainExt) [block1] hash1 1 block := by
  refine (common_ancestor (ChainState.new block0 : ChainState chainExt) [block1] hash1 1).1 ⟨rfl, rfl⟩ ?_ ?_ (hash0, 0)
  · intro height hle
    obtain rfl : height = 0 := Nat.le_zero.mp hle
    exact ⟨hash0, block0, ⟨by decide, by decide⟩, by decide, by decide⟩
  · intro height hle
    obtain rfl | rfl : height = 0 ∨ height = 1 := Nat.le_one_iff_eq_zero_or_eq_one.mp hle
    · exact ⟨hash0, block0, ⟨by decide, by decide⟩, by decide, by decide⟩
    · exact ⟨hash1, block1, ⟨by decide, by decide⟩, by decide, by decide⟩

set_option maxRecDepth 20000 in
/-- Block 99 is on block 6, our tip. The search counts down from 99 and has passed genesis before it comes to the
height of our tip. -/
theorem ancestor_is_missed :
    findCommonAncestorWithAltChain node6.chain [block99] hash99 99 = none ∧
    OnChain branchExt node6.chain.getBlockByHash node6.chain.bestHash node6.chain.bestHeight block6 ∧
    OnChain branchExt (blockFromChainOrAlt node6.chain [block99]) hash99 99 block6 ∧
    OnChain branchExt (blockFromChainOrAlt node6.chain [block99]) hash99 99 block0 := by
  obtain ⟨hnone, hours, htheirs, hgenesis⟩ :
      findCommonAncestorWithAltChain node6.chain [block99] hash99 99 = none ∧
      (HashAt node6.chain.getBlockByHash node6.chain.bestHash node6.chain.bestHeight 6
          (Block.hash branchExt block6) ∧
        node6.chain.getBlockByHash (Block.hash branchExt block6) = some block6) ∧
      (HashAt (blockFromChainOrAlt node6.chain [block99]) hash99 99 98 (Block.hash branchExt block6) ∧
        blockFromChainOrAlt node6.chain [block99] (Block.hash branchExt block6) = some block6) ∧
      (HashAt (blockFromChainOrAlt node6.chain [block99]) hash99 99 92 (Block.hash branchExt block0) ∧
        blockFromChainOrAlt node6.chain [block99] (Block.hash branchExt block0) = some block0) := by decide +kernel
  exact ⟨hnone, ⟨6, hours⟩, ⟨98, htheirs⟩, ⟨92, hgenesis⟩⟩

end Coinjecture.Node.CommonAncestor
