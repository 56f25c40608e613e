import Coinjecture.Node.ForkChoice
import Coinjecture.Node.Pruning
import Mathlib.Algebra.BigOperators.Intervals

/-! # The work of a prefix of the chain

`calculateChainWork` is asked for the work up to a height and answers with the recorded work of the whole chain, cut
off at `u64::MAX`. In a run of proper calls in which heights follow the parents the answer is right exactly where the
blocks above the height carry no work, or where both stop at `u64::MAX` (`chain_work_iff`). -/

namespace Coinjecture.Node.PrefixWork

open Lib.Saturating Lib.Trace Lib.Effect Lib.Table
open Lib.Ancestry
open Core.Types Core.Blocks Core.Extern
open Core.Crypto
open Node.Chain Node.Chain.ChainState Node.ChainMetadata
open Node.Pruning Node.ForkChoice

variable {ext : Ext}

/-! ### The code -/

/-- `read_cumulative_work_meta`: the metadata of a chain state that has been opened hold the work. -/
def readCumulativeWorkMeta (s : ChainState ext) : Option (BitVec 128) := some s.metadata.cumWork

/-- `calculate_chain_work`. -/
def calculateChainWork (upToHeight : UInt64) (s : ChainState ext) : UInt64 :=
  match readCumulativeWorkMeta s with
  | some cum => .ofNat (min cum.toNat (2 ^ 64 - 1))
  | none => .ofBitVec <| (List.range (upToHeight.toNat + 1)).foldl (fun total h =>
      match s.getCanonicalBlockByHeight (.ofNat h) with
      | some block => satAdd total (block.header.workScore.toUnsigned 64)
      | none => total) 0

/-- The truncated work score of the canonical block at a height. -/
def scoreAt (s : ChainState ext) (height : ℕ) : ℕ :=
  ((s.getCanonicalBlockByHeight (.ofNat height)).map fun block => (truncatedWork block).toNat).getD 0

/-- The work of the canonical blocks up to a height. -/
def prefixWork (upToHeight : UInt64) (s : ChainState ext) : ℕ :=
  ∑ height ∈ Finset.range (upToHeight.toNat + 1), scoreAt s height

/-! ### Sums that stop at the end -/

section Saturating

variable {w : ℕ}

theorem toNat_satAdd_min (x v : BitVec w) : (satAdd x v).toNat = min (x.toNat + v.toNat) (2 ^ w - 1) := by
  unfold satAdd
  split_ifs with h
  · rw [BitVec.toNat_add, Nat.mod_eq_of_lt h]
    omega
  · rw [BitVec.toNat_allOnes]
    omega

theorem toNat_foldl_satAdd_min {α : Type} {f : α → BitVec w} {l : List α} {x : BitVec w} :
    (l.foldl (fun s a => satAdd s (f a)) x).toNat = min (x.toNat + (l.map fun a => (f a).toNat).sum) (2 ^ w - 1) := by
  induction l generalizing x with
  | nil =>
    have hx := x.isLt
    simp only [List.foldl_nil, List.map_nil, List.sum_nil, Nat.add_zero]
    omega
  | cons a l ih =>
    rw [List.foldl_cons, ih, toNat_satAdd_min, List.map_cons, List.sum_cons]
    omega

end Saturating

/-! ### What is recorded -/

section Recorded

variable {s : ChainState ext} {blocks : List Block}

/-- The recorded work is that of the chain, as far as it fits. -/
def WorkRecorded (s : ChainState ext) : Prop :=
  ∃ blocks, ChainFrom s s.bestHash blocks ∧ s.metadata.cumWork.toNat = min (workSum blocks) (2 ^ 128 - 1)

theorem workSum_replaced_of_header {block : Block}
    (hsame : ∀ b ∈ blocks, Block.hash ext b = Block.hash ext block → b.header = block.header) :
    workSum (replaced ext block blocks) = workSum blocks := by
  refine sum_replaced fun b hb hhash => ?_
  rw [truncatedWork, truncatedWork, hsame b hb hhash]

theorem workRecorded_new {genesisBlock : Block} (h : genesisBlock.header.height = 0) :
    WorkRecorded (ChainState.new genesisBlock : ChainState ext) := by
  refine ⟨[genesisBlock], .root (Keyed.get_insert_self ..) h, ?_⟩
  have hsingle : workSum [genesisBlock] = (truncatedWork genesisBlock).toNat := List.sum_singleton
  have hlt := (truncatedWork genesisBlock).isLt
  rw [hsingle]
  change (truncatedWork genesisBlock).toNat = _
  omega

theorem workRecorded_next {call : ChainCall} (hproper : Proper s call) (h : WorkRecorded s) :
    WorkRecorded ((chainMachine ext).next call s) := by
  obtain ⟨blocks, hchain, hwork⟩ := h
  cases call with
  | storeBlock block =>
    change WorkRecorded (run (storeBlock block) s).2
    rw [run_storeBlock]
    split_ifs with hmax hextends
    · exact ⟨blocks, hchain, hwork⟩
    · have hsame := hproper hmax blocks hchain
      refine ⟨_, chainFrom_extendTip hextends (chainFrom_storeBlockRaw hchain hsame), ?_⟩
      change (satAdd s.metadata.cumWork (truncatedWork block)).toNat = _
      have hcons : workSum (block :: replaced ext block blocks) = (truncatedWork block).toNat + workSum blocks := by
        rw [← workSum_replaced_of_header hsame, workSum, workSum, List.map_cons, List.sum_cons]
      rw [toNat_satAdd_min, hwork, hcons]
      omega
    · have hsame := hproper hmax blocks hchain
      exact ⟨_, chainFrom_storeBlockRaw hchain hsame, by rw [workSum_replaced_of_header hsame]; exact hwork⟩
  | updateBestChain hash height =>
    obtain ⟨blocks', hwalk⟩ := hproper
    change WorkRecorded (run (updateBestChain hash height) s).2
    obtain ⟨index, hresult⟩ := updateBestChain_of_found height hwalk
    rw [hresult]
    refine ⟨blocks', lineage_of_walk hwalk, ?_⟩
    change (blocks'.foldl (fun sum block => satAdd sum (truncatedWork block)) 0).toNat = _
    rw [toNat_foldl_satAdd_min, toNat_zero', Nat.zero_add]
    rfl

end Recorded

/-! ### The canonical blocks -/

section Canonical

variable {s : ChainState ext} {tip : Hash} {blocks : List Block}

/-- A chain has as many blocks as its tip is high, and one. -/
theorem length_chain (hdesc : Descend s.blocks) (h : ChainFrom s tip blocks) {b : Block}
    (hb : s.blocks.get tip = some b) : blocks.length = b.header.height.toNat + 1 := by
  induction h generalizing b with
  | @root tip v hget hroot =>
    rw [hget] at hb
    cases hb
    rw [show v.header.height = 0 from hroot]
    rfl
  | @link tip v vs hget hroot hrest ih =>
    rw [hget] at hb
    cases hb
    obtain ⟨p, -, hp⟩ := hrest.exists_head
    rw [List.length_cons, ih hp, hdesc tip v p hget hroot hp]

theorem blockBack_chain (h : ChainFrom s tip blocks) {n : ℕ} (hn : n < blocks.length) :
    s.blockBack n tip = some blocks[n] := by
  induction h generalizing n with
  | @root tip v hget hroot =>
    obtain rfl : n = 0 := by simpa using hn
    exact hget
  | @link tip v vs hget hroot hrest ih =>
    cases n with
    | zero => exact hget
    | succ n =>
      rw [blockBack, getBlockByHash, hget, Option.bind_some]
      exact ih (by simpa using hn)

theorem sum_getD (l : List ℕ) : ∑ i ∈ Finset.range l.length, (l[i]?).getD 0 = l.sum := by
  induction l with
  | nil => rfl
  | cons a l ih =>
    rw [List.length_cons, Finset.sum_range_succ', List.sum_cons, ← ih, Nat.add_comm]
    rfl

/-- The work of a chain is that of the blocks at its heights. -/
theorem sum_scoreAt (hchain : ChainFrom s s.bestHash blocks) (hlength : blocks.length = s.bestHeight.toNat + 1)
    (hheight : s.metadata.bestHeight = s.bestHeight) (hhash : s.metadata.bestHash = s.bestHash) :
    prefixWork s.bestHeight s = workSum blocks := by
  have hscore : ∀ i ∈ Finset.range (s.bestHeight.toNat + 1),
      scoreAt s (s.bestHeight.toNat + 1 - 1 - i) = ((blocks.map fun b => (truncatedWork b).toNat)[i]?).getD 0 := by
    intro i hi
    rw [Finset.mem_range] at hi
    have hbest : s.bestHeight.toNat < UInt64.size := s.bestHeight.toNat_lt
    have hofNat : (UInt64.ofNat (s.bestHeight.toNat + 1 - 1 - i)).toNat = s.bestHeight.toNat - i :=
      (UInt64.toNat_ofNat_of_lt' (by omega)).trans (by omega)
    have hnot : ¬s.metadata.bestHeight < UInt64.ofNat (s.bestHeight.toNat + 1 - 1 - i) := by
      rw [hheight, UInt64.lt_iff_toNat_lt, hofNat]
      omega
    have hback : s.bestHeight.toNat - (s.bestHeight.toNat - i) = i := by omega
    rw [scoreAt, getCanonicalBlockByHeight, if_neg hnot, hofNat, hheight, hhash, hback,
      blockBack_chain hchain (by omega), List.getElem?_map, List.getElem?_eq_getElem (by omega)]
  rw [prefixWork, ← Finset.sum_range_reflect, Finset.sum_congr rfl hscore, workSum, ← hlength,
    ← sum_getD, List.length_map]

end Canonical

/-! ### Runs -/

/-- The answer is right: the blocks above the height carry no work and the sum fits, or both are at the end. -/
def NoWorkAbove (h : UInt64) (s : ChainState ext) : Prop :=
  ((∀ k, h.toNat < k → k ≤ s.bestHeight.toNat → scoreAt s k = 0) ∧ prefixWork h s < 2 ^ 64) ∨
    prefixWork h s = 2 ^ 64 - 1

theorem calculateChainWork_iff {s : ChainState ext} {h : UInt64} (hle : h ≤ s.bestHeight)
    (hwork : s.metadata.cumWork.toNat = min (prefixWork s.bestHeight s) (2 ^ 128 - 1)) :
    (calculateChainWork h s).toNat = prefixWork h s ↔ NoWorkAbove h s := by
  have hresult : (calculateChainWork h s).toNat = min (prefixWork s.bestHeight s) (2 ^ 64 - 1) := by
    change (UInt64.ofNat (min s.metadata.cumWork.toNat (2 ^ 64 - 1))).toNat = _
    have hsize : UInt64.size = 2 ^ 64 := rfl
    rw [UInt64.toNat_ofNat_of_lt' (by omega), hwork]
    omega
  have hheights := UInt64.le_iff_toNat_le.mp hle
  have hsplit : prefixWork s.bestHeight s = prefixWork h s +
      ∑ k ∈ Finset.Ico (h.toNat + 1) (s.bestHeight.toNat + 1), scoreAt s k :=
    (Finset.sum_range_add_sum_Ico _ (Nat.succ_le_succ hheights)).symm
  have hzero : ∑ k ∈ Finset.Ico (h.toNat + 1) (s.bestHeight.toNat + 1), scoreAt s k = 0 ↔
      ∀ k, h.toNat < k → k ≤ s.bestHeight.toNat → scoreAt s k = 0 := by
    rw [Finset.sum_eq_zero_iff]
    refine forall_congr' fun k => ?_
    rw [Finset.mem_Ico, Nat.lt_succ_iff, Nat.succ_le_iff, and_imp]
  rw [hresult, hsplit, NoWorkAbove, ← hzero]
  omega

/-- In a run of proper calls in which heights follow the parents the answer is the work up to the height exactly if
there is none above, or both stop at the end. -/
theorem chain_work_iff (genesisBlock : Block) (calls : List ChainCall) (hfollow : HeightsFollow ext genesisBlock calls)
    (hproper : ∀ p ∈ (chainMachine ext).trace calls (ChainState.new genesisBlock), Proper p.2 p.1) (h : UInt64)
    (hle : h ≤ ((chainMachine ext).final calls (ChainState.new genesisBlock)).bestHeight) :
    (calculateChainWork h ((chainMachine ext).final calls (ChainState.new genesisBlock))).toNat =
        prefixWork h ((chainMachine ext).final calls (ChainState.new genesisBlock)) ↔
      NoWorkAbove h ((chainMachine ext).final calls (ChainState.new genesisBlock)) := by
  obtain ⟨blocks, hcanonical⟩ := Machine.invariant
    (P := fun s => ∃ blocks, Canonical (storedIn genesisBlock calls) s blocks)
    (fun p hp => exists_canonical_next hfollow (Machine.mem_of_mem_trace hp) (hproper p hp))
    ⟨_, canonical_new hfollow⟩
  obtain ⟨blocks', hchain, hwork⟩ := Machine.invariant (P := WorkRecorded)
    (fun p hp => workRecorded_next (hproper p hp)) (workRecorded_new hfollow.genesis)
  obtain rfl := hchain.unique hcanonical.chain
  refine calculateChainWork_iff hle ?_
  obtain ⟨b, -, hb⟩ := hchain.exists_head
  have hlength := length_chain (descend_of_stored hfollow hcanonical.stored) hchain hb
  rw [hcanonical.height b hb] at hlength
  rw [sum_scoreAt hchain hlength hcanonical.metadataHeight hcanonical.metadataHash]
  exact hwork

/-- A block on genesis. -/
abbrev oneBlock : List ChainCall := [.storeBlock block1]

set_option maxRecDepth 20000 in
theorem heightsFollow_oneBlock : HeightsFollow chainExt block0 oneBlock :=
  ⟨by decide, by decide, by decide, fun hash height hcall => by simp at hcall⟩

set_option maxRecDepth 20000 in
theorem proper_oneBlock :
    ∀ p ∈ (chainMachine chainExt).trace oneBlock (ChainState.new block0), Proper p.2 p.1 := by
  rw [Machine.trace_cons rfl, Machine.trace_nil]
  intro p hp
  rw [List.mem_singleton.mp hp]
  intro _ blocks hblocks
  have hwalk : walkFromTip start.bestHash start = .found [block0] := by decide
  rw [walk_eq hwalk hblocks]
  decide

set_option maxRecDepth 20000 in
/-- Asked for the work up to height 1, which is the tip. -/
theorem chain_work_tip :
    (calculateChainWork 1 ((chainMachine chainExt).final oneBlock (ChainState.new block0))).toNat =
        prefixWork 1 ((chainMachine chainExt).final oneBlock (ChainState.new block0)) ↔
      NoWorkAbove 1 ((chainMachine chainExt).final oneBlock (ChainState.new block0)) :=
  chain_work_iff block0 oneBlock heightsFollow_oneBlock proper_oneBlock 1 (by decide)

set_option maxRecDepth 20000 in
/-- Asked for the work of genesis, below a block of the same work. -/
theorem chain_work_genesis :
    (0 : UInt64) ≤ ((chainMachine chainExt).final oneBlock (ChainState.new block0)).bestHeight ∧
    (calculateChainWork 0 ((chainMachine chainExt).final oneBlock (ChainState.new block0))).toNat = 2 ∧
    prefixWork 0 ((chainMachine chainExt).final oneBlock (ChainState.new block0)) = 1 :=
  ⟨by decide, by decide, by decide⟩

end Coinjecture.Node.PrefixWork
