import Coinjecture.Node.ForkChoice
import Coinjecture.Node.Pruning

/-! # Switching the tip

`updateBestChain` moves the tip in memory, looks for the blocks below it, writes the metadata and then the height
index. Both look-ups may fail, one before the metadata are written and one after.

* `failsCleanly_iff` : from which states a call that fails has changed nothing.
* `tip_switch_iff` : in which runs all failures are of that kind, and the tips in memory and in the metadata are
  always the same. -/

namespace Coinjecture.Node.TipSwitch

open Lib.Effect Lib.Saturating Lib.Trace
open Lib.Ancestry
open Core.Types Core.Blocks Core.Extern
open Core.Crypto
open Node.Chain Node.Chain.ChainState Node.ChainMetadata
open Node.Pruning Node.ForkChoice

variable {ext : Ext}

/-! ### Calls and their failures -/

/-- The calls that write to the chain state, with pruning. -/
inductive TipCall where
  | call (call : ChainCall)
  | pruneBlocksBefore (keepHeight : UInt64)

/-- A chain state taking calls. -/
def tipMachine (ext : Ext) : Machine TipCall (ChainState ext) where
  next
    | .call call, s => (chainMachine ext).next call s
    | .pruneBlocksBefore keepHeight, s => pruned keepHeight s
  halts _ _ := false

/-- The tips and the metadata are the same. -/
structure Unchanged (s s' : ChainState ext) : Prop where
  bestHeight : s'.bestHeight = s.bestHeight
  bestHash : s'.bestHash = s.bestHash
  metadata : s'.metadata = s.metadata

/-- If the call fails, it has changed nothing. -/
def FailsCleanly (hash : Hash) (height : UInt64) (s : ChainState ext) : Prop :=
  (∀ u, (run (updateBestChain hash height) s).1 ≠ .ok u) → Unchanged s (run (updateBestChain hash height) s).2

/-- The tip in memory is the persisted one. -/
structure TipsAgree (s : ChainState ext) : Prop where
  height : s.bestHeight = s.metadata.bestHeight
  hash : s.bestHash = s.metadata.bestHash

/-! ### The condition -/

/-- The metadata of a chain of blocks. -/
def metadataOf (hash : Hash) (height : UInt64) (blocks : List Block) : Metadata :=
  ⟨height, hash, blocks.foldl (fun sum block => satAdd sum (truncatedWork block)) 0,
    blocks.foldl (fun sum block => satAdd sum block.coinbase.reward) 0⟩

/-- A chain leads from the block to one at height 0, and as many blocks are there as the height says. -/
def Switchable (hash : Hash) (height : UInt64) (s : ChainState ext) : Prop :=
  (∃ blocks, ChainFrom s hash blocks) ∧ ∀ k < height.toNat, (s.blockBack k hash).isSome

/-- The tip is there already; if there is a chain, also the metadata. -/
def AtTip (hash : Hash) (height : UInt64) (s : ChainState ext) : Prop :=
  hash = s.bestHash ∧ height = s.bestHeight ∧
    ∀ blocks, ChainFrom s hash blocks → s.metadata = metadataOf hash height blocks

def Meets : TipCall → ChainState ext → Prop
  | .call (.updateBestChain hash height), s => Switchable hash height s ∨ AtTip hash height s
  | _, _ => True

/-! ### One call -/

section Step

variable {s : ChainState ext} {hash : Hash} {height : UInt64}

theorem blockBack_congr (s' s : ChainState ext) (h : s'.blocks = s.blocks) (n : ℕ) (hash : Hash) :
    s'.blockBack n hash = s.blockBack n hash := by
  have hget (hash : Hash) : s'.getBlockByHash hash = s.getBlockByHash hash := by
    rw [getBlockByHash, h]
    rfl
  induction n generalizing hash with
  | zero => exact hget hash
  | succ n ih => rw [blockBack, blockBack, hget, funext fun block : Block => ih block.header.prevHash]

/-- The index is rebuilt if the blocks on the way are there. -/
theorem rebuildHeightIndex_ok (n : ℕ) (hash : Hash) (s : ChainState ext) :
    (∃ u, (run (rebuildHeightIndex n hash) s).1 = .ok u) ↔ ∀ k < n, (s.blockBack k hash).isSome := by
  induction n generalizing hash s with
  | zero => exact iff_of_true ⟨(), rfl⟩ fun k hk => absurd hk (Nat.not_lt_zero k)
  | succ n ih =>
    simp only [rebuildHeightIndex, run_modify_bind, run_gets_bind]
    have hget : getBlockByHash hash (setHeightIndex (UInt64.ofNat (n + 1)) hash s) = s.getBlockByHash hash := rfl
    rw [hget]
    have hfirst : s.blockBack 0 hash = s.getBlockByHash hash := rfl
    rcases hblock : s.getBlockByHash hash with _ | block
    · refine iff_of_false ?_ fun h => ?_
      · rintro ⟨u, hu⟩
        cases hu
      · have hzero := h 0 (Nat.succ_pos n)
        rw [hfirst, hblock] at hzero
        cases hzero
    · have hset (k : ℕ) : (setHeightIndex (UInt64.ofNat (n + 1)) hash s).blockBack k block.header.prevHash =
          s.blockBack k block.header.prevHash :=
        blockBack_congr (setHeightIndex (UInt64.ofNat (n + 1)) hash s) s rfl k _
      rw [run_okOr_some_bind, ih]
      simp only [hset]
      have hback (k : ℕ) : s.blockBack (k + 1) hash = s.blockBack k block.header.prevHash := by
        rw [blockBack, hblock, Option.bind_some]
      constructor
      · intro h k hk
        cases k with
        | zero => rw [hfirst, hblock, Option.isSome_some]
        | succ k =>
          rw [hback]
          exact h k (by omega)
      · intro h k hk
        have hnext := h (k + 1) (by omega)
        rw [hback] at hnext
        exact hnext

/-- Without a chain the tip in memory moves and the metadata stay. -/
theorem updateBestChain_of_not_chain (height : UInt64) (h : ¬∃ blocks, ChainFrom s hash blocks) :
    (∀ u, (run (updateBestChain hash height) s).1 ≠ .ok u) ∧
      (run (updateBestChain hash height) s).2 = { s with bestHeight := height, bestHash := hash } := by
  have hwalk : walkFromTip hash { s with bestHeight := height, bestHash := hash } = walkFromTip hash s := rfl
  rcases hresult : walkFromTip hash s with blocks | _ | _
  · exact absurd ⟨blocks, lineage_of_walk hresult⟩ h
  · rw [hresult] at hwalk
    simp only [updateBestChain, computeCumulativeWorkTipDb, sumFromTip, run_modify_bind, bind_assoc,
      run_gets_bind, hwalk, run_throw_bind, ne_eq, reduceCtorEq, not_false_eq_true, implies_true, and_self]
  · rw [hresult] at hwalk
    simp only [updateBestChain, computeCumulativeWorkTipDb, sumFromTip, run_modify_bind, bind_assoc,
      run_gets_bind, hwalk, run_throw_bind, ne_eq, reduceCtorEq, not_false_eq_true, implies_true, and_self]

/-- On a chain both tips move, and the call succeeds if the index can be rebuilt. -/
theorem updateBestChain_of_chain (height : UInt64) {blocks : List Block} (h : ChainFrom s hash blocks) :
    ((∃ u, (run (updateBestChain hash height) s).1 = .ok u) ↔ ∀ k < height.toNat, (s.blockBack k hash).isSome) ∧
      (run (updateBestChain hash height) s).2.bestHeight = height ∧
      (run (updateBestChain hash height) s).2.bestHash = hash ∧
      (run (updateBestChain hash height) s).2.metadata = metadataOf hash height blocks := by
  have hfound := walk_of_chainFrom h
  refine ⟨?_, ?_⟩
  · rw [run_updateBestChain_of_found height hfound, rebuildHeightIndex_ok]
    refine forall₂_congr fun k _ => ?_
    refine iff_of_eq (congrArg (fun block : Option Block => block.isSome = true) (blockBack_congr _ s ?_ k hash))
    rfl
  · obtain ⟨index, hresult⟩ := updateBestChain_of_found height hfound
    rw [hresult]
    exact ⟨rfl, rfl, rfl⟩

/-- A failure changes nothing exactly if there is none, or the tip is there already. -/
theorem failsCleanly_iff : FailsCleanly hash height s ↔ Switchable hash height s ∨ AtTip hash height s := by
  by_cases hchain : ∃ blocks, ChainFrom s hash blocks
  · obtain ⟨blocks, hblocks⟩ := hchain
    obtain ⟨hok, hheight, hhash, hmetadata⟩ := updateBestChain_of_chain height hblocks
    by_cases hindex : ∀ k < height.toNat, (s.blockBack k hash).isSome
    · obtain ⟨u, hu⟩ := hok.mpr hindex
      exact iff_of_true (fun hfails => absurd hu (hfails u)) (.inl ⟨⟨blocks, hblocks⟩, hindex⟩)
    · have hfails : ∀ u, (run (updateBestChain hash height) s).1 ≠ .ok u :=
        fun u hu => hindex (hok.mp ⟨u, hu⟩)
      have hnot : ¬Switchable hash height s := fun h => hindex h.2
      rw [or_iff_right hnot]
      constructor
      · intro hclean
        have hsame := hclean hfails
        refine ⟨hhash.symm.trans hsame.bestHash, hheight.symm.trans hsame.bestHeight, fun other hother => ?_⟩
        rw [hother.unique hblocks, ← hmetadata]
        exact hsame.metadata.symm
      · rintro ⟨rfl, rfl, hsame⟩ -
        exact ⟨hheight, hhash, hmetadata.trans (hsame blocks hblocks).symm⟩
  · obtain ⟨hfails, hresult⟩ := updateBestChain_of_not_chain height hchain
    have hnot : ¬Switchable hash height s := fun h => hchain h.1
    rw [or_iff_right hnot]
    constructor
    · intro hclean
      have hsame := hclean hfails
      rw [hresult] at hsame
      exact ⟨hsame.bestHash, hsame.bestHeight, fun blocks hblocks => absurd ⟨blocks, hblocks⟩ hchain⟩
    · rintro ⟨rfl, rfl, -⟩ -
      rw [hresult]
      exact ⟨rfl, rfl, rfl⟩

/-- A call that meets the condition keeps the tips together. -/
theorem tipsAgree_next {call : TipCall} (h : TipsAgree s) (hmeets : Meets call s) :
    TipsAgree ((tipMachine ext).next call s) := by
  cases call with
  | call call =>
    cases call with
    | storeBlock block =>
      change TipsAgree (run (storeBlock block) s).2
      rw [run_storeBlock]
      split_ifs
      · exact h
      · exact ⟨rfl, rfl⟩
      · exact ⟨h.height, h.hash⟩
    | updateBestChain hash height =>
      change TipsAgree (run (updateBestChain hash height) s).2
      by_cases hchain : ∃ blocks, ChainFrom s hash blocks
      · obtain ⟨blocks, hblocks⟩ := hchain
        obtain ⟨-, hheight, hhash, hmetadata⟩ := updateBestChain_of_chain height hblocks
        exact ⟨by rw [hheight, hmetadata]; rfl, by rw [hhash, hmetadata]; rfl⟩
      · obtain ⟨rfl, rfl, -⟩ := hmeets.resolve_left fun hswitch => hchain hswitch.1
        rw [(updateBestChain_of_not_chain _ hchain).2]
        exact ⟨h.height, h.hash⟩
  | pruneBlocksBefore keepHeight =>
    obtain ⟨hheight, hhash, hmetadata⟩ := pruned_frame keepHeight s
    exact ⟨by change (pruned keepHeight s).bestHeight = _; rw [hheight, h.height, ← hmetadata]; rfl,
      by change (pruned keepHeight s).bestHash = _; rw [hhash, h.hash, ← hmetadata]; rfl⟩

end Step

/-! ### Runs -/

/-- The failures of the call are clean. -/
def CallFailsCleanly : TipCall → ChainState ext → Prop
  | .call (.updateBestChain hash height), s => FailsCleanly hash height s
  | _, _ => True

theorem callFailsCleanly_iff (call : TipCall) (s : ChainState ext) : CallFailsCleanly call s ↔ Meets call s := by
  cases call with
  | call call =>
    cases call with
    | storeBlock block => exact Iff.rfl
    | updateBestChain hash height => exact failsCleanly_iff
  | pruneBlocksBefore keepHeight => exact Iff.rfl

/-- A failed switch changes nothing in any state, and in every run the tips are the same after every call, exactly
where the calls meet the condition. -/
theorem tip_switch_iff (ext : Ext) :
    (∀ (s : ChainState ext) hash height, FailsCleanly hash height s ↔ Switchable hash height s ∨ AtTip hash height s) ∧
    ∀ genesisBlock calls,
      (TipsAgree (ChainState.new genesisBlock : ChainState ext) ∧
        ∀ p ∈ (tipMachine ext).trace calls (ChainState.new genesisBlock),
          CallFailsCleanly p.1 p.2 ∧ TipsAgree ((tipMachine ext).next p.1 p.2)) ↔
      ∀ p ∈ (tipMachine ext).trace calls (ChainState.new genesisBlock), Meets p.1 p.2 := by
  refine ⟨fun s hash height => failsCleanly_iff, fun genesisBlock calls => ?_⟩
  have hstart : TipsAgree (ChainState.new genesisBlock : ChainState ext) := ⟨rfl, rfl⟩
  rw [and_iff_right hstart]
  refine Machine.forall_trace_iff (Q := fun _ s => TipsAgree s) (C := fun p => Meets p.1 p.2)
    (fun call _ s hs => ?_) (fun call _ s hs hmeets => tipsAgree_next hs hmeets) hstart
  rw [callFailsCleanly_iff]
  exact and_iff_left_of_imp fun hmeets => tipsAgree_next hs hmeets

set_option maxRecDepth 20000 in
/-- A tip that is not stored, and genesis at height 5: the first moves in memory only, the second also in the
metadata. -/
theorem not_failsCleanly :
    ¬FailsCleanly hash1 1 (ChainState.new block0 : ChainState chainExt) ∧
    ¬TipsAgree ((tipMachine chainExt).next (.call (.updateBestChain hash1 1)) (ChainState.new block0)) ∧
    ¬FailsCleanly hash0 5 (ChainState.new block0 : ChainState chainExt) := by
  have habsent : (ChainState.new block0 : ChainState chainExt).blocks.get hash1 = none := by decide
  have hchain : ¬∃ blocks, ChainFrom (ChainState.new block0 : ChainState chainExt) hash1 blocks := by
    rintro ⟨blocks, hblocks⟩
    obtain ⟨v, -, hget⟩ := hblocks.exists_head
    rw [habsent] at hget
    cases hget
  refine ⟨fun h => ?_, fun h => ?_, fun h => ?_⟩
  · rcases failsCleanly_iff.mp h with hswitch | hat
    · exact hchain hswitch.1
    · exact absurd hat.1 (by decide)
  · have hheight := h.height
    have hresult := (updateBestChain_of_not_chain 1 hchain).2
    change (run (updateBestChain hash1 1) (ChainState.new block0 : ChainState chainExt)).2.bestHeight =
      (run (updateBestChain hash1 1) (ChainState.new block0 : ChainState chainExt)).2.metadata.bestHeight at hheight
    rw [hresult] at hheight
    exact absurd hheight (by decide)
  · rcases failsCleanly_iff.mp h with hswitch | hat
    · exact absurd (hswitch.2 1 (by decide)) (by decide)
    · exact absurd hat.2.1 (by decide)

end Coinjecture.Node.TipSwitch
