import Coinjecture.Node.PeerConsensus
import Coinjecture.Node.SyncGate
import Mathlib.Logic.Relation

/-! # The window of heights that is asked for

A request for blocks starts at the height of the tip, if the peer is taller and our tip is not found on its
chain, and else behind it. Our tip is looked for in the blocks that are stored, from the peer's tip down, so it is
found only where it is an ancestor. A peer that is not taller is asked for what comes behind our tip, whether a
fork is suspected or not.

* `covers_fork_iff` : where our tip is no ancestor of the peer's, the window reaches down to it exactly if the
  peer is taller (or our height is the last). -/

namespace Coinjecture.Node.SyncWindow

open Lib.Effect
open Core.Types Core.Blocks Core.Extern Core.Crypto
open Node.Chain Node.Chain.ChainState Node.ChainMetadata
open Node.ChainRules
open Node.PeerConsensus (saturatingAdd)
open Node.Sync Node.SyncConvergence Node.SyncGate

def SYNC_BATCH_BLOCKS : UInt64 := 16

/-- Both heights are asked for. -/
structure SyncBatchPlan where
  fromHeight : UInt64
  toHeight : UInt64
  deriving DecidableEq

structure LocalSyncTip where
  height : UInt64
  hash : Hash
  cumulativeWork : BitVec 128

variable {ext : Ext}

def syncFromHeightForHeavierPeer (chain : ChainState ext) (tip : LocalSyncTip) (peer : PeerTip)
    (suspectFork : Bool) : UInt64 :=
  if peer.height ≤ tip.height ∧ suspectFork = false then saturatingAdd tip.height 1
  else if tip.height < peer.height ∧
      isHashOnChainFromTip chain peer.hash peer.height tip.hash = false then tip.height
  else saturatingAdd tip.height 1

def planSyncBatch (chain : ChainState ext) (localHeight : UInt64) (localHash : Hash) (peer : PeerTip)
    (suspectFork : Bool) (maxBatch : UInt64) : SyncBatchPlan :=
  let tip : LocalSyncTip := ⟨localHeight, localHash, chain.metadata.cumWork⟩
  let start := syncFromHeightForHeavierPeer chain tip peer suspectFork
  let batch := max maxBatch 1
  let stop := if start ≤ peer.height then min peer.height (saturatingAdd start (batch - 1)) else start
  ⟨start, max stop start⟩

/-! ### Ancestors -/

section Ancestors

variable (chain : ChainState ext) (others : Set Block)

/-- A stored block, or one of the others that there are, has the first hash and names the second. -/
def IsParent (child parent : Hash) : Prop :=
  ∃ block, (chain.getBlockByHash child = some block ∨ block ∈ others) ∧ Block.hash ext block = child ∧
    block.header.prevHash = parent

/-- The second hash is the first, or on the way from it to genesis. -/
def IsAncestor (tip candidate : Hash) : Prop := Relation.ReflTransGen (IsParent chain others) tip candidate

variable {chain}

theorem isAncestor_of_below {candidate hash : Hash} {height : ℕ}
    (h : isHashBelow chain candidate height hash = true) : IsAncestor chain others hash candidate := by
  induction height generalizing hash with
  | zero => cases h
  | succ height ih =>
    rw [isHashBelow] at h
    cases hblock : chain.getBlockByHash hash with
    | none =>
      rw [hblock] at h
      cases h
    | some block =>
      have hparent : IsParent chain others hash block.header.prevHash :=
        ⟨block, .inl hblock, chain.blocks.keyed hblock, rfl⟩
      rw [hblock] at h
      simp only [Bool.or_eq_true, decide_eq_true_eq] at h
      rcases h with hcandidate | hbelow
      · rw [← hcandidate]
        exact Relation.ReflTransGen.single hparent
      · exact (ih hbelow).head hparent

theorem isAncestor_of_onChain {tipHash candidate : Hash} {tipHeight : UInt64}
    (h : isHashOnChainFromTip chain tipHash tipHeight candidate = true) :
    IsAncestor chain others tipHash candidate := by
  simp only [isHashOnChainFromTip, Bool.or_eq_true, decide_eq_true_eq] at h
  rcases h with rfl | hbelow
  · exact Relation.ReflTransGen.refl
  · exact isAncestor_of_below others hbelow

end Ancestors

/-! ### The window -/

/-- The window is not empty, and where our tip is no ancestor of the peer's it has the height of our tip or a
lower one. -/
structure CoversFork (chain : ChainState ext) (others : Set Block) (localHeight : UInt64) (localHash : Hash)
    (peer : PeerTip) (plan : SyncBatchPlan) : Prop where
  nonempty : plan.fromHeight ≤ plan.toHeight
  fork : ¬ IsAncestor chain others peer.hash localHash →
    ∃ height, plan.fromHeight ≤ height ∧ height ≤ plan.toHeight ∧ height ≤ localHeight

theorem lt_saturatingAdd_one {height : UInt64} (h : height.toNat ≠ 2 ^ 64 - 1) :
    height < saturatingAdd height 1 := by
  have hlt := height.toNat_lt
  have hone : (1 : UInt64).toNat = 1 := rfl
  rw [UInt64.lt_iff_toNat_lt, saturatingAdd, UInt64.toNat_ofNat', hone]
  omega

theorem saturatingAdd_one_of_last {height : UInt64} (h : height.toNat = 2 ^ 64 - 1) :
    saturatingAdd height 1 = height := by
  have hone : (1 : UInt64).toNat = 1 := rfl
  rw [← UInt64.toNat_inj, saturatingAdd, UInt64.toNat_ofNat', hone]
  omega

section Window

variable (chain : ChainState ext) (localHeight : UInt64) (localHash : Hash) (peer : PeerTip)
  (suspectFork : Bool) (maxBatch : UInt64)

theorem fromHeight_le_toHeight :
    (planSyncBatch chain localHeight localHash peer suspectFork maxBatch).fromHeight ≤
      (planSyncBatch chain localHeight localHash peer suspectFork maxBatch).toHeight := by
  have hmax : ∀ a b : UInt64, b ≤ max a b := by
    intro a b
    rw [show max a b = if a ≤ b then b else a from rfl]
    split_ifs with h
    · exact UInt64.le_refl b
    · exact UInt64.le_of_lt (UInt64.not_le.mp h)
  exact hmax _ _

variable {localHeight peer}

/-- Whether a fork is suspected or not. -/
theorem fromHeight_of_not_taller (h : peer.height ≤ localHeight) :
    (planSyncBatch chain localHeight localHash peer suspectFork maxBatch).fromHeight =
      saturatingAdd localHeight 1 := by
  have hnot : ¬ localHeight < peer.height := UInt64.not_lt.mpr h
  simp only [planSyncBatch, syncFromHeightForHeavierPeer]
  split_ifs with hstop hbranch
  · rfl
  · exact absurd hbranch.1 hnot
  · rfl

theorem fromHeight_of_off_chain (h : localHeight < peer.height)
    (hoff : isHashOnChainFromTip chain peer.hash peer.height localHash = false) :
    (planSyncBatch chain localHeight localHash peer suspectFork maxBatch).fromHeight = localHeight := by
  have hnot : ¬ peer.height ≤ localHeight := UInt64.not_le.mpr h
  simp only [planSyncBatch, syncFromHeightForHeavierPeer]
  rw [if_neg fun hstop => hnot hstop.1, if_pos ⟨h, hoff⟩]

end Window

/-- The window covers the fork exactly if the peer is taller, our tip is an ancestor of its tip, or our height is
the last one. -/
theorem covers_fork_iff (ext : Ext) (chain : ChainState ext) (others : Set Block) (localHeight : UInt64)
    (localHash : Hash) (peer : PeerTip) (suspectFork : Bool) (maxBatch : UInt64) :
    CoversFork chain others localHeight localHash peer
        (planSyncBatch chain localHeight localHash peer suspectFork maxBatch) ↔
      localHeight < peer.height ∨ IsAncestor chain others peer.hash localHash ∨
        localHeight.toNat = 2 ^ 64 - 1 := by
  have hrange := fromHeight_le_toHeight chain localHeight localHash peer suspectFork maxBatch
  constructor
  · intro hcovers
    by_contra hnone
    obtain ⟨hnot, hfork, hlast⟩ : ¬ localHeight < peer.height ∧
        ¬ IsAncestor chain others peer.hash localHash ∧ localHeight.toNat ≠ 2 ^ 64 - 1 := by
      simpa only [not_or] using hnone
    obtain ⟨height, hfrom, -, hheight⟩ := hcovers.fork hfork
    rw [fromHeight_of_not_taller chain localHash suspectFork maxBatch (UInt64.not_lt.mp hnot)] at hfrom
    have hbehind := lt_saturatingAdd_one hlast
    exact absurd (UInt64.le_trans hfrom hheight) (UInt64.not_le.mpr hbehind)
  · intro hwhen
    refine ⟨hrange, fun hfork => ⟨_, UInt64.le_refl _, hrange, ?_⟩⟩
    by_cases htaller : localHeight < peer.height
    · have hoff : isHashOnChainFromTip chain peer.hash peer.height localHash = false :=
        Bool.eq_false_iff.mpr (mt (isAncestor_of_onChain others) hfork)
      rw [fromHeight_of_off_chain chain localHash suspectFork maxBatch htaller hoff]
      exact UInt64.le_refl _
    · have hlast := (hwhen.resolve_left htaller).resolve_left hfork
      rw [fromHeight_of_not_taller chain localHash suspectFork maxBatch (UInt64.not_lt.mp htaller),
        saturatingAdd_one_of_last hlast]
      exact UInt64.le_refl _

/-! ### A heavier peer of our height -/

def laterHash : Hash := ⟨0x0000d76a11aac658906ec36cac79fb9ef4f3f158753451dc1ae37638971a661a⟩

/-- Our chain ends with the later block. -/
def laterChain : ChainState ext0 := (run (storeBlock laterBlock) start0.chain).2

/-- The peer's ends with the other block on genesis, at the same height. -/
def twicePeer : PeerTip := ⟨1, twiceHash, 100⟩

/-- What the peer's tip descends from. -/
theorem mem_of_isAncestor_twice {hash : Hash} (h : IsAncestor laterChain {twiceBlock} twiceHash hash) :
    hash ∈ [twiceHash, hash0, Hash.ZERO] := by
  induction h with
  | refl => exact List.mem_cons_self
  | tail _ hparent ih =>
    obtain ⟨block, hblock, hhash, rfl⟩ := hparent
    have htwice : block = twiceBlock → block.header.prevHash ∈ [twiceHash, hash0, Hash.ZERO] := by
      rintro rfl
      decide +kernel
    rcases hblock with hstored | hother
    · simp only [List.mem_cons, List.not_mem_nil, or_false] at ih
      rcases ih with rfl | rfl | rfl
      · rw [show laterChain.getBlockByHash twiceHash = none by decide +kernel] at hstored
        cases hstored
      · rw [show laterChain.getBlockByHash hash0 = some block0 by decide +kernel] at hstored
        obtain rfl := Option.some.inj hstored
        decide +kernel
      · rw [show laterChain.getBlockByHash Hash.ZERO = none by decide +kernel] at hstored
        cases hstored
    · exact htwice hother

/-- A fork is suspected and the peer is heavier, and only height 2 is asked for. -/
theorem window_behind_fork :
    laterChain.bestHeight = 1 ∧ laterChain.bestHash = laterHash ∧
      laterChain.metadata.cumWork < twicePeer.cumulativeWork ∧
      planSyncBatch laterChain laterChain.bestHeight laterChain.bestHash twicePeer true SYNC_BATCH_BLOCKS =
        ⟨2, 2⟩ ∧
      ¬ CoversFork laterChain {twiceBlock} laterChain.bestHeight laterChain.bestHash twicePeer
        (planSyncBatch laterChain laterChain.bestHeight laterChain.bestHash twicePeer true SYNC_BATCH_BLOCKS) := by
  have hplan : planSyncBatch laterChain laterChain.bestHeight laterChain.bestHash twicePeer true
      SYNC_BATCH_BLOCKS = ⟨2, 2⟩ := by decide +kernel
  have hbest : laterChain.bestHeight = 1 ∧ laterChain.bestHash = laterHash ∧
      laterChain.metadata.cumWork < twicePeer.cumulativeWork := by decide +kernel
  refine ⟨hbest.1, hbest.2.1, hbest.2.2, hplan, fun hcovers => ?_⟩
  rw [hplan, hbest.1, hbest.2.1] at hcovers
  have hfork : ¬ IsAncestor laterChain {twiceBlock} twicePeer.hash laterHash := by
    intro hancestor
    have hmem := mem_of_isAncestor_twice hancestor
    revert hmem
    decide +kernel
  obtain ⟨height, hfrom, -, hheight⟩ := hcovers.fork hfork
  exact absurd (UInt64.le_trans hfrom hheight) (by decide)

end Coinjecture.Node.SyncWindow
