import Coinjecture.Network.Cpp.SyncResponses
import Coinjecture.Node.SyncWindow

/-! # Catching up with a peer

A node that is behind asks a peer for the window of heights it plans, the peer answers from its best chain, and
the blocks of the answer are processed as a batch. Requests may be lost, answered late, more than once and in any
order, and be made at any time with whatever tip the peer has advertised.

* `sync_rounds_converge` : what has been applied is always a first part of the peer's chain behind our tip, and
  each request that is planned against the peer's height and answered moves it on by 15 blocks or to the end.

The peer's chain does not change meanwhile, and no blocks come from elsewhere. -/

namespace Coinjecture.Node.SyncRounds

open Lib Lib.Bincode Lib.Effect Lib.Table
open Core.Types Core.Blocks Core.Extern Core.Crypto
open Network.Cpp.SyncResponses
open Node.Validator Node.Chain Node.Chain.ChainState
open Node.PeerConsensus (saturatingAdd)
open Node.ChainMetadata Node.ChainRules
open Node.Sync Node.SyncConvergence Node.SyncGate Node.SyncWindow

variable {ext : Ext}

/-- `ChainBlockProvider`. -/
def chainBlockProvider (chain : ChainState ext) : BlockProvider where
  getBlockByHeight height := getCanonicalBlockByHeight height chain
  getBestHeight := chain.bestHeight

/-- The requests of `request_hash_anchored_sync`, each with a random id. -/
def requestHashAnchoredSync (chain : ChainState ext) (peerTip : PeerTip) (suspectFork : Bool)
    (requestId forkRequestId : UInt64) : List GetBlocksMessage :=
  let localHeight := chain.bestHeight
  let plan := planSyncBatch chain localHeight chain.bestHash peerTip suspectFork SYNC_BATCH_BLOCKS
  if plan.toHeight < plan.fromHeight then []
  else ⟨plan.fromHeight, plan.toHeight, requestId⟩ ::
    (if suspectFork = true ∧ plan.fromHeight = localHeight then [⟨localHeight, localHeight, forkRequestId⟩] else [])

/-! ### The two nodes -/

/-- Our node, and the requests that it has sent. -/
structure Net (ext : Ext) where
  node : SyncState ext
  sent : List GetBlocksMessage

/-- We ask, or the answer to a request arrives. -/
inductive Event where
  | ask (peerTip : PeerTip) (suspectFork : Bool) (requestId forkRequestId : UInt64)
  | answer (m : GetBlocksMessage) (now : Int64) (clock : ℕ → Int64) (peerTip : PeerTip)

def Event.now? : Event → Option Int64
  | .ask .. => none
  | .answer _ now _ _ => some now

variable (config : NodeConfig) (v : BlockValidator) (peer : ChainState ext)

/-- A request that was not sent has no answer, and neither has one whose blocks do not fit into a frame. -/
def Net.step (net : Net ext) : Event → Net ext
  | .ask peerTip suspectFork requestId forkRequestId =>
    { net with sent := net.sent ++
        requestHashAnchoredSync net.node.chain peerTip suspectFork requestId forkRequestId }
  | .answer m now clock peerTip =>
    if m ∈ net.sent then
      match handleGetBlocks ext (chainBlockProvider peer) true m with
      | .ok (some _) =>
        { net with
          node := blocksReceived config v net.node ⟨now, clock, peerTip, served (chainBlockProvider peer) m⟩ }
      | _ => net
    else net

/-- A request that is answered, and what happens before it and until its answer arrives. -/
structure Round where
  before : List Event
  peerTip : PeerTip
  suspectFork : Bool
  requestId : UInt64
  forkRequestId : UInt64
  meanwhile : List Event
  now : Int64
  clock : ℕ → Int64
  answerTip : PeerTip

/-- The request for the planned window. -/
def Round.request (r : Round) (chain : ChainState ext) : GetBlocksMessage :=
  let plan := planSyncBatch chain chain.bestHeight chain.bestHash r.peerTip r.suspectFork SYNC_BATCH_BLOCKS
  ⟨plan.fromHeight, plan.toHeight, r.requestId⟩

def Net.round (net : Net ext) (r : Round) : Net ext :=
  let asking := r.before.foldl (Net.step config v peer) net
  let asked := asking.step config v peer (.ask r.peerTip r.suspectFork r.requestId r.forkRequestId)
  let waited := r.meanwhile.foldl (Net.step config v peer) asked
  waited.step config v peer (.answer (r.request asking.node.chain) r.now r.clock r.answerTip)

/-- The times at which blocks are validated in the rounds. -/
def Round.nows (r : Round) : List Int64 :=
  r.now :: (r.before ++ r.meanwhile).filterMap Event.now?

/-- The provider has these blocks from this height to its best. -/
structure Serves (p : BlockProvider) (fromHeight : UInt64) (blocks : List Block) : Prop where
  best : p.getBestHeight.toNat + 1 = fromHeight.toNat + blocks.length
  block : ∀ i b, blocks[i]? = some b → ∀ height : UInt64, height.toNat = fromHeight.toNat + i →
    p.getBlockByHeight height = some b

/-! ### What is served -/

section Served

variable {p : BlockProvider} {fromHeight : UInt64} {blocks : List Block}

theorem readBlocks_of_serves (h : Serves p fromHeight blocks) (n i : ℕ) (hlength : i + n ≤ blocks.length)
    (height : UInt64) (hheight : height.toNat = fromHeight.toNat + i) :
    p.readBlocks n height = (blocks.drop i).take n := by
  induction n generalizing i height with
  | zero => rw [BlockProvider.readBlocks, List.take_zero]
  | succ n ih =>
    have hi : i < blocks.length := by omega
    have hblock := h.block i blocks[i] (List.getElem?_eq_getElem hi) height hheight
    have hbest := p.getBestHeight.toNat_lt
    have hserved := h.best
    rw [BlockProvider.readBlocks, hblock]
    simp only
    rw [List.drop_eq_getElem_cons hi, List.take_succ_cons]
    cases n with
    | zero => rfl
    | succ n =>
      rw [ih (i + 1) (by omega) (height + 1) (by rw [UInt64.toNat_add, UInt64.toNat_one]; omega)]

variable {m : GetBlocksMessage}

/-- The response has sixteen consecutive blocks of the chain or fewer. -/
theorem served_of_serves (h : Serves p fromHeight blocks) (hall : ¬ AllHeights m)
    (hfrom : fromHeight.toNat ≤ m.fromHeight.toNat) :
    served p m = (blocks.drop (m.fromHeight.toNat - fromHeight.toNat)).take
      (min (m.toHeight.toNat + 1 - m.fromHeight.toNat) 16) := by
  have hbest := h.best
  rw [served_eq_window hall, window]
  by_cases hinside : m.fromHeight.toNat ≤ p.getBestHeight.toNat
  · have hlength : windowLength p m = min (min (m.toHeight.toNat + 1 - m.fromHeight.toNat) 16)
        (blocks.drop (m.fromHeight.toNat - fromHeight.toNat)).length := by
      rw [windowLength, List.length_drop]
      omega
    rw [readBlocks_of_serves h _ (m.fromHeight.toNat - fromHeight.toNat)
      (by rw [windowLength]; omega) _ (by omega), hlength]
    exact List.take_eq_take_min.symm
  · have hzero : windowLength p m = 0 := by
      rw [windowLength]
      omega
    rw [hzero, BlockProvider.readBlocks, List.drop_of_length_le (by omega), List.take_nil]

end Served

variable {config v} {s t : SyncState ext}

/-! ### The tip does not go back -/

/-- Blocks have been applied and the tip is no lower, or it is the same. -/
structure Grows (s t : SyncState ext) : Prop where
  applied : s.applied <+: t.applied
  height : s.chain.bestHeight ≤ t.chain.bestHeight
  same : t.applied = s.applied → t.chain.bestHash = s.chain.bestHash ∧ t.chain.bestHeight = s.chain.bestHeight

theorem Grows.of_chain (happlied : t.applied = s.applied) (hchain : t.chain = s.chain) : Grows s t :=
  ⟨happlied ▸ List.prefix_rfl, hchain ▸ UInt64.le_refl _, fun _ => ⟨by rw [hchain], by rw [hchain]⟩⟩

theorem Grows.refl (s : SyncState ext) : Grows s s := .of_chain rfl rfl

theorem Grows.trans {u : SyncState ext} (h : Grows s t) (h' : Grows t u) : Grows s u where
  applied := h.applied.trans h'.applied
  height := UInt64.le_trans h.height h'.height
  same hsame := by
    have hback : t.applied <+: s.applied := hsame ▸ h'.applied
    have happlied : t.applied = s.applied := List.IsPrefix.eq_of_length hback
      (Nat.le_antisymm hback.length_le h.applied.length_le)
    obtain ⟨hhash, hheight⟩ := h.same happlied
    obtain ⟨hhash', hheight'⟩ := h'.same (hsame.trans happlied.symm)
    exact ⟨hhash'.trans hhash, hheight'.trans hheight⟩

theorem bestHash_of_not_stored {block : Block} {chain : ChainState ext}
    (h : (run (storeBlock block) chain).1 ≠ .ok true) :
    (run (storeBlock block) chain).2.bestHash = chain.bestHash := by
  rw [run_storeBlock] at h ⊢
  split_ifs at h ⊢ with hmax hextends
  · rfl
  · exact absurd rfl h
  · rfl

theorem grows_storeAndApply (clock : ℕ → Int64) (block : Block) : Grows s (s.storeAndApply clock block) := by
  by_cases hstored : (run (storeBlock block) s.chain).1 = .ok true
  · obtain ⟨happlied, -, hchain⟩ := storeAndApply_of_stored (s := s) clock hstored
    obtain ⟨-, hbest, hlt, -⟩ := tip_of_stored hstored
    refine ⟨happlied ▸ List.prefix_append _ _, ?_, fun hsame => ?_⟩
    · rw [hchain, hbest]
      exact UInt64.le_of_lt hlt
    · rw [happlied] at hsame
      exact absurd hsame (by simp)
  · obtain ⟨happlied, -, hchain⟩ := storeAndApply_of_not_stored (s := s) clock hstored
    have hheight := bestHeight_of_not_stored hstored
    rw [← hchain] at hheight
    refine ⟨happlied ▸ List.prefix_rfl, hheight ▸ UInt64.le_refl _, fun _ => ⟨?_, hheight⟩⟩
    rw [hchain, bestHash_of_not_stored hstored]

theorem grows_process (b : Batch) (block : Block) : Grows s (processSyncBlock config v b s block) := by
  by_cases hversion : config.shouldAcceptVersion block.header.version = true
  · rcases processSyncBlock_cases (s := s) (v := v) b hversion with hhold | ⟨hsame, -⟩ | ⟨-, -, -, hstore⟩
    · rw [hhold]
      exact .of_chain rfl rfl
    · rw [hsame]
      exact .refl s
    · rw [hstore]
      exact grows_storeAndApply b.clock block
  · have hsame : processSyncBlock config v b s block = s := if_pos (by simpa using hversion)
    rw [hsame]
    exact .refl s

theorem grows_process_all (b : Batch) (blocks : List Block) :
    Grows s (blocks.foldl (processSyncBlock config v b) s) := by
  induction blocks generalizing s with
  | nil => exact .refl s
  | cons c cs ih => exact (grows_process b c).trans ih

theorem grows_drain (now : Int64) (clock : ℕ → Int64) (rounds : ℕ) :
    Grows s (drain config v now clock rounds s) := by
  induction rounds generalizing s with
  | zero => exact .refl s
  | succ rounds ih =>
    rw [drain]
    cases hget : s.blockBuffer.get (s.chain.bestHeight + 1) with
    | none => exact .refl s
    | some block =>
      have hreleased : Grows s (s.release (s.chain.bestHeight + 1)) := .of_chain rfl rfl
      simp only
      split_ifs
      · exact hreleased.trans ih
      · cases checkNext v now block s.chain with
        | error e => exact hreleased.trans ih
        | ok valid =>
          cases valid with
          | true => exact (hreleased.trans (grows_storeAndApply clock block)).trans ih
          | false => exact hreleased.trans ih
      · exact .of_chain rfl rfl

theorem grows_receive (b : Batch) : Grows s (blocksReceived config v s b) :=
  (grows_process_all b b.blocks).trans (grows_drain b.now b.clock DRAIN_ROUNDS)

/-! ### The block at our tip -/

/-- Our tip, and what the peer has behind it. The block before our tip is none of these. -/
structure Behind (s : SyncState ext) (tip : Block) (blocks : List Block) : Prop where
  hash : Block.hash ext tip = s.chain.bestHash
  height : tip.header.height = s.chain.bestHeight
  acyclic : tip.header.prevHash ∉ (tip :: blocks).map (Block.hash ext)

/-- Since `start` the blocks have been applied up to `rest`. -/
structure Caught (config : NodeConfig) (v : BlockValidator) (nows : List Int64) (start : SyncState ext)
    (blocks seen rest : List Block) (s : SyncState ext) : Prop where
  progress : Progress config v nows blocks start.applied seen rest s
  grows : Grows start s

section Tip

variable {nows : List Int64} {start : SyncState ext} {tip : Block} {blocks seen rest : List Block}

/-- The tip is the one that we started from, or the last block that has been applied. -/
theorem Caught.best (h : Caught config v nows start blocks seen rest s) :
    (s.chain.bestHash = start.chain.bestHash ∧ s.chain.bestHeight = start.chain.bestHeight) ∨
      ∃ last ∈ blocks, s.chain.bestHash = Block.hash ext last ∧ s.chain.bestHeight = last.header.height := by
  obtain ⟨done, hsplit, hdone, -, hlast⟩ := h.progress.applied
  rcases List.eq_nil_or_concat done with rfl | ⟨first, last, rfl⟩
  · exact .inl (h.grows.same (hdone.trans (List.append_nil _)))
  · refine .inr ⟨last, ?_, hlast last (by rw [List.concat_eq_append, List.getLast?_concat]; rfl)⟩
    rw [hsplit, List.concat_eq_append]
    exact List.mem_append_left _ (List.mem_append_right _ List.mem_cons_self)

/-- It is held below the tip, where nothing follows it. -/
theorem Caught.hold_tip (h : Caught config v nows start blocks seen rest s) (hbehind : Behind start tip blocks)
    {now : Int64} (hnow : now ∈ nows) : Caught config v nows start blocks seen rest (s.hold tip) where
  grows := h.grows.trans (.of_chain rfl rfl)
  progress :=
    { applied := h.progress.applied
      valid := h.progress.valid
      held := by
        intro b hb hseen
        have habove := ((h.progress.valid.heights hnow).2.1 b hb).1
        have hbelow := hbehind.height ▸ h.grows.height
        have hne : b.header.height ≠ tip.header.height :=
          (UInt64.ne_of_lt (UInt64.lt_of_le_of_lt hbelow habove)).symm
        rw [SyncState.hold, Keyed.get_insert, if_neg hne]
        exact h.progress.held b hb hseen
      clean := by
        intro height b hb hprev
        rw [SyncState.hold, Keyed.get_insert] at hb
        split_ifs at hb
        · obtain rfl := Option.some.inj hb
          refine absurd ?_ hbehind.acyclic
          rw [List.map_cons]
          rcases hprev with hprev | ⟨c, hc, hprev⟩
          · rw [chain_hold] at hprev
            rcases h.best with ⟨hbest, -⟩ | ⟨last, hlast, hbest, -⟩
            · rw [hprev, hbest, hbehind.hash]
              exact List.mem_cons_self
            · rw [hprev, hbest]
              exact List.mem_cons_of_mem _ (List.mem_map_of_mem hlast)
          · rw [hprev]
            exact List.mem_cons_of_mem _ (List.mem_map_of_mem (h.progress.mem_of_mem_rest hc))
        · exact h.progress.clean height b hb hprev
      ascending := h.progress.ascending
      bounded := h.progress.bounded }

theorem ne_add_one (a : UInt64) : a ≠ a + 1 := by
  intro h
  have hnat := congrArg UInt64.toNat h
  rw [UInt64.toNat_add, UInt64.toNat_one] at hnat
  have hlt := a.toNat_lt
  omega

/-- Our tip comes with the answer when it was not found on the peer's chain, and is not applied again. -/
theorem Caught.process_tip (h : Caught config v nows start blocks seen rest s) (hbehind : Behind start tip blocks)
    {b : Batch} (hnow : b.now ∈ nows) :
    Caught config v nows start blocks seen rest (processSyncBlock config v b s tip) := by
  by_cases hversion : config.shouldAcceptVersion tip.header.version = true
  · rcases processSyncBlock_cases (s := s) (v := v) b hversion with hhold | ⟨hsame, -⟩ | ⟨hheight, -⟩
    · rw [hhold]
      exact h.hold_tip hbehind hnow
    · rw [hsame]
      exact h
    · rw [hbehind.height] at hheight
      rcases h.best with ⟨-, hbest⟩ | ⟨last, hlast, -, hbest⟩
      · rw [hbest] at hheight
        exact absurd hheight (ne_add_one _)
      · have hmax := h.progress.bounded last hlast
        have hgrows := h.grows.height
        have hnat := congrArg UInt64.toNat hheight
        have hlimit : MAX_REASONABLE_HEIGHT.toNat = 10000000 := rfl
        rw [← hbest, UInt64.le_iff_toNat_le] at hmax
        rw [UInt64.le_iff_toNat_le] at hgrows
        rw [UInt64.toNat_add, UInt64.toNat_one] at hnat
        omega
  · have hsame : processSyncBlock config v b s tip = s := if_pos (by simpa using hversion)
    rw [hsame]
    exact h

theorem Caught.process (h : Caught config v nows start blocks seen rest s) (hbehind : Behind start tip blocks)
    {b : Batch} (hnow : b.now ∈ nows) {block : Block} (hmem : block ∈ tip :: blocks) : ∃ seen' rest',
      Caught config v nows start blocks seen' rest' (processSyncBlock config v b s block) ∧
        (block ∈ blocks → block ∈ seen') ∧ ∀ c ∈ seen, c ∈ seen' := by
  by_cases hblock : block ∈ blocks
  · obtain ⟨rest', h'⟩ := SyncConvergence.process hnow hblock h.progress
    exact ⟨block :: seen, rest', ⟨h', h.grows.trans (grows_process b block)⟩, fun _ => List.mem_cons_self,
      fun c hc => List.mem_cons_of_mem _ hc⟩
  · obtain rfl : block = tip := (List.mem_cons.mp hmem).resolve_right hblock
    exact ⟨seen, rest, h.process_tip hbehind hnow, fun hmem' => absurd hmem' hblock, fun c hc => hc⟩

theorem Caught.process_all (h : Caught config v nows start blocks seen rest s) (hbehind : Behind start tip blocks)
    {b : Batch} (hnow : b.now ∈ nows) {received : List Block} (hmem : ∀ c ∈ received, c ∈ tip :: blocks) :
    ∃ seen' rest', Caught config v nows start blocks seen' rest' (received.foldl (processSyncBlock config v b) s) ∧
      (∀ c ∈ received, c ∈ blocks → c ∈ seen') ∧ ∀ c ∈ seen, c ∈ seen' := by
  induction received generalizing seen rest s with
  | nil => exact ⟨seen, rest, h, nofun, fun c hc => hc⟩
  | cons c cs ih =>
    obtain ⟨seen₁, rest₁, h₁, hfirst, hmono₁⟩ := h.process hbehind hnow (hmem c List.mem_cons_self)
    obtain ⟨seen₂, rest₂, h₂, hothers, hmono₂⟩ := ih h₁ fun d hd => hmem d (List.mem_cons_of_mem _ hd)
    refine ⟨seen₂, rest₂, h₂, fun d hd hblock => ?_, fun d hd => hmono₂ d (hmono₁ d hd)⟩
    rcases List.mem_cons.mp hd with rfl | hd
    · exact hmono₂ d (hfirst hblock)
    · exact hothers d hd hblock

/-- A batch with blocks of the extension, and our tip perhaps. -/
theorem Caught.receive (h : Caught config v nows start blocks seen rest s) (hbehind : Behind start tip blocks)
    {b : Batch} (hnow : b.now ∈ nows) (hmem : ∀ c ∈ b.blocks, c ∈ tip :: blocks) : ∃ seen' rest',
      Caught config v nows start blocks seen' rest' (blocksReceived config v s b) ∧ Settled seen' rest' ∧
        (∀ c ∈ b.blocks, c ∈ blocks → c ∈ seen') ∧ ∀ c ∈ seen, c ∈ seen' := by
  obtain ⟨seen', rest', h', hseen, hmono⟩ := h.process_all hbehind hnow hmem
  have hlength := (h'.progress.valid.heights hnow).1
  have hlimit : DRAIN_ROUNDS = 4 * 2 ^ 64 := rfl
  obtain ⟨rest'', h'', hsettled⟩ := drain_settles hnow b.clock DRAIN_ROUNDS h'.progress (by
    split_ifs
    · omega
    · omega)
  exact ⟨seen', rest'', ⟨h'', h'.grows.trans (grows_drain b.now b.clock DRAIN_ROUNDS)⟩, hsettled, hseen, hmono⟩

end Tip

/-! ### The window that is planned -/

theorem toNat_saturatingAdd (a b : UInt64) : (saturatingAdd a b).toNat = min (a.toNat + b.toNat) (2 ^ 64 - 1) := by
  rw [saturatingAdd, UInt64.toNat_ofNat']
  omega

section Plan

variable (chain : ChainState ext) (peerTip : PeerTip) (suspectFork : Bool)

/-- The plan of a node for its own tip. -/
abbrev planned : SyncBatchPlan :=
  planSyncBatch chain chain.bestHeight chain.bestHash peerTip suspectFork SYNC_BATCH_BLOCKS

theorem toNat_planned : (planned chain peerTip suspectFork).toHeight.toNat =
    max (planned chain peerTip suspectFork).fromHeight.toNat
      (min peerTip.height.toNat (min ((planned chain peerTip suspectFork).fromHeight.toNat + 15) (2 ^ 64 - 1))) := by
  have hbatch : (max SYNC_BATCH_BLOCKS 1 - 1).toNat = 15 := rfl
  have hpeer := peerTip.height.toNat_lt
  simp only [planned, planSyncBatch, Words.toNat_max]
  split_ifs with hstart
  · rw [Words.toNat_min, toNat_saturatingAdd, hbatch]
    exact Nat.max_comm _ _
  · rw [UInt64.not_le, UInt64.lt_iff_toNat_lt] at hstart
    omega

/-- It starts with the height of our tip or the one behind it. -/
theorem fromHeight_planned : (planned chain peerTip suspectFork).fromHeight.toNat = chain.bestHeight.toNat ∨
    (planned chain peerTip suspectFork).fromHeight.toNat = min (chain.bestHeight.toNat + 1) (2 ^ 64 - 1) := by
  simp only [planned, planSyncBatch, syncFromHeightForHeavierPeer]
  split_ifs
  · exact .inr (toNat_saturatingAdd _ 1)
  · exact .inl rfl
  · exact .inr (toNat_saturatingAdd _ 1)

/-- No request goes below our tip, and none is for all heights. -/
theorem mem_requests {m : GetBlocksMessage} {requestId forkRequestId : UInt64}
    (hm : m ∈ requestHashAnchoredSync chain peerTip suspectFork requestId forkRequestId) :
    chain.bestHeight.toNat ≤ m.fromHeight.toNat ∧ ¬ AllHeights m := by
  have hto := toNat_planned chain peerTip suspectFork
  have hfrom := fromHeight_planned chain peerTip suspectFork
  have hbest := chain.bestHeight.toNat_lt
  have hlow : chain.bestHeight.toNat ≤ (planned chain peerTip suspectFork).fromHeight.toNat := by omega
  have hall : ∀ id, ¬ AllHeights
      ⟨(planned chain peerTip suspectFork).fromHeight, (planned chain peerTip suspectFork).toHeight, id⟩ := by
    rintro id ⟨hzero, hlast⟩
    simp only at hzero hlast
    omega
  simp only [requestHashAnchoredSync] at hm
  split_ifs at hm with hempty hfork
  · cases hm
  · rcases List.mem_cons.mp hm with rfl | hm
    · exact ⟨hlow, hall requestId⟩
    · rw [List.mem_singleton.mp hm]
      refine ⟨le_rfl, ?_⟩
      rintro ⟨hzero, hlast⟩
      simp only at hzero hlast
      omega
  · rw [List.mem_singleton.mp hm]
    exact ⟨hlow, hall requestId⟩

end Plan

section Requests

variable (r : Round) (chain : ChainState ext)

/-- A window is never empty, so there is always a request. -/
theorem request_mem : r.request chain ∈
    requestHashAnchoredSync chain r.peerTip r.suspectFork r.requestId r.forkRequestId := by
  have hle := fromHeight_le_toHeight chain chain.bestHeight chain.bestHash r.peerTip r.suspectFork SYNC_BATCH_BLOCKS
  simp only [requestHashAnchoredSync]
  rw [if_neg (UInt64.not_lt.mpr hle)]
  exact List.mem_cons_self

/-- The first and the last height of the request of a node below the peer's height. -/
theorem toNat_request (h : chain.bestHeight.toNat < r.peerTip.height.toNat) :
    ((r.request chain).fromHeight.toNat = chain.bestHeight.toNat ∨
      (r.request chain).fromHeight.toNat = chain.bestHeight.toNat + 1) ∧
    (r.request chain).toHeight.toNat = max (r.request chain).fromHeight.toNat
      (min r.peerTip.height.toNat ((r.request chain).fromHeight.toNat + 15)) := by
  have hfrom := fromHeight_planned chain r.peerTip r.suspectFork
  have hto := toNat_planned chain r.peerTip r.suspectFork
  have hpeer := r.peerTip.height.toNat_lt
  simp only [planned] at hfrom hto
  simp only [Round.request]
  constructor
  · omega
  · rw [hto]
    omega

end Requests

/-! ### Runs -/

/-- The heights of the blocks, counted from the tip. -/
theorem height_of_valid {nows : List Int64} {now : Int64} (hnow : now ∈ nows) {blocks : List Block}
    {chain : ChainState ext} (h : ValidInOrder config v nows blocks chain) {i : ℕ} {b : Block}
    (hget : blocks[i]? = some b) : b.header.height.toNat = chain.bestHeight.toNat + (i + 1) := by
  induction blocks generalizing chain i with
  | nil => cases hget
  | cons c cs ih =>
    have hnext := toNat_next (h.1 now hnow)
    cases i with
    | zero =>
      obtain rfl := Option.some.inj hget
      exact hnext
    | succ i =>
      obtain ⟨-, hbest, -⟩ := tip_of_stored (h.1 now hnow).stored
      have hheight := ih h.2 hget
      rw [hbest] at hheight
      omega

section Runs

variable {peer : ChainState ext} {nows : List Int64} {start : SyncState ext} {tip : Block} {blocks : List Block}

/-- `k` blocks of the extension have been applied. -/
structure Reached (config : NodeConfig) (v : BlockValidator) (nows : List Int64) (start : SyncState ext)
    (blocks : List Block) (k : ℕ) (net : Net ext) : Prop where
  caught : ∃ seen, Caught config v nows start blocks seen (blocks.drop k) net.node ∧
    Settled seen (blocks.drop k)
  bound : k ≤ blocks.length
  sent : ∀ m ∈ net.sent, start.chain.bestHeight.toNat ≤ m.fromHeight.toNat ∧ ¬ AllHeights m

variable {k : ℕ} {net : Net ext}

theorem Reached.applied (h : Reached config v nows start blocks k net) :
    net.node.applied = start.applied ++ blocks.take k ∧
      ∀ last ∈ (blocks.take k).getLast?, net.node.chain.bestHash = Block.hash ext last ∧
        net.node.chain.bestHeight = last.header.height := by
  obtain ⟨seen, hcaught, -⟩ := h.caught
  obtain ⟨done, hsplit, happlied, -, hlast⟩ := hcaught.progress.applied
  have hdone : done = blocks.take k :=
    List.append_cancel_right (hsplit.symm.trans (List.take_append_drop k blocks).symm)
  rw [← hdone]
  exact ⟨happlied, hlast⟩

theorem Reached.height (h : Reached config v nows start blocks k net)
    (hvalid : ValidInOrder config v nows blocks start.chain) {now : Int64} (hnow : now ∈ nows) :
    net.node.chain.bestHeight.toNat = start.chain.bestHeight.toNat + k := by
  obtain ⟨seen, hcaught, -⟩ := h.caught
  obtain ⟨happlied, hlast⟩ := h.applied
  cases k with
  | zero =>
    rw [List.take_zero, List.append_nil] at happlied
    rw [(hcaught.grows.same happlied).2, Nat.add_zero]
  | succ k =>
    have hlt : k < blocks.length := h.bound
    have hget : blocks[k]? = some blocks[k] := List.getElem?_eq_getElem hlt
    have hgetLast : (blocks.take (k + 1)).getLast? = some blocks[k] := by
      rw [List.take_succ_eq_append_getElem hlt, List.getLast?_concat]
    rw [(hlast _ hgetLast).2, height_of_valid hnow hvalid hget]

theorem Reached.le {k' : ℕ} {net' : Net ext} (h : Reached config v nows start blocks k net)
    (h' : Reached config v nows start blocks k' net') (hgrows : Grows net.node net'.node) : k ≤ k' := by
  have hlength := hgrows.applied.length_le
  rw [h.applied.1, h'.applied.1, List.length_append, List.length_append, List.length_take, List.length_take] at hlength
  have hbound := h.bound
  omega

/-- The answer to a request. The next block is not among those that have been served. -/
theorem Reached.answer (h : Reached config v nows start blocks k net) (hbehind : Behind start tip blocks)
    (hserves : Serves (chainBlockProvider peer) start.chain.bestHeight (tip :: blocks)) {m : GetBlocksMessage}
    {now : Int64} (hnow : now ∈ nows) (clock : ℕ → Int64) (peerTip : PeerTip) : ∃ k' ≥ k,
      Reached config v nows start blocks k' (net.step config v peer (.answer m now clock peerTip)) ∧
        (m ∈ net.sent → FitsFrame (served (chainBlockProvider peer) m) →
          ∀ b ∈ blocks[k']?, b ∉ served (chainBlockProvider peer) m) := by
  by_cases hsent : m ∈ net.sent
  · by_cases hframe : ∃ frame, handleGetBlocks ext (chainBlockProvider peer) true m = .ok (some frame)
    · obtain ⟨frame, hframe⟩ := hframe
      obtain ⟨seen, hcaught, -⟩ := h.caught
      obtain ⟨hfrom, hall⟩ := h.sent m hsent
      have hmem : ∀ c ∈ served (chainBlockProvider peer) m, c ∈ tip :: blocks := by
        intro c hc
        rw [served_of_serves hserves hall hfrom] at hc
        exact List.mem_of_mem_drop (List.mem_of_mem_take hc)
      obtain ⟨seen', rest', hcaught', hsettled', hseen, -⟩ := hcaught.receive
        (b := ⟨now, clock, peerTip, served (chainBlockProvider peer) m⟩) hbehind hnow hmem
      have hstep : net.step config v peer (.answer m now clock peerTip) = { net with
          node := blocksReceived config v net.node
            ⟨now, clock, peerTip, served (chainBlockProvider peer) m⟩ } := by
        simp only [Net.step, if_pos hsent, hframe]
      obtain ⟨done, hsplit, -⟩ := hcaught'.progress.applied
      have hrest : rest' = blocks.drop done.length := by rw [hsplit, List.drop_left]
      have hreached : Reached config v nows start blocks done.length
          (net.step config v peer (.answer m now clock peerTip)) := by
        rw [hstep]
        refine ⟨⟨seen', hrest ▸ hcaught', hrest ▸ hsettled'⟩, ?_, h.sent⟩
        rw [hsplit, List.length_append]
        exact Nat.le_add_right _ _
      refine ⟨done.length, h.le hreached (by rw [hstep]; exact grows_receive _), hreached, fun _ _ b hb hin => ?_⟩
      have hnext : b ∈ rest'.head? := by rw [hrest, List.head?_drop]; exact hb
      exact hsettled' b hnext (hseen b hin (List.mem_of_getElem? hb))
    · have hstep : net.step config v peer (.answer m now clock peerTip) = net := by
        simp only [Net.step, if_pos hsent]
        split
        · exact absurd ⟨_, ‹_›⟩ hframe
        · rfl
      rw [hstep]
      exact ⟨k, le_rfl, h, fun _ hfits => absurd ((sent_iff ext _ m).mpr hfits) hframe⟩
  · have hstep : net.step config v peer (.answer m now clock peerTip) = net := if_neg hsent
    rw [hstep]
    exact ⟨k, le_rfl, h, fun hsent' => absurd hsent' hsent⟩

theorem Reached.ask (h : Reached config v nows start blocks k net) (peerTip : PeerTip) (suspectFork : Bool)
    (requestId forkRequestId : UInt64) : Reached config v nows start blocks k
      (net.step config v peer (.ask peerTip suspectFork requestId forkRequestId)) where
  caught := h.caught
  bound := h.bound
  sent := by
    intro m hm
    rcases List.mem_append.mp hm with hold | hnew
    · exact h.sent m hold
    · obtain ⟨hfrom, hall⟩ := mem_requests _ _ _ hnew
      obtain ⟨seen, hcaught, -⟩ := h.caught
      have hgrows := hcaught.grows.height
      rw [UInt64.le_iff_toNat_le] at hgrows
      exact ⟨hgrows.trans hfrom, hall⟩

/-- Whatever happens, nothing is lost. -/
theorem Reached.run (h : Reached config v nows start blocks k net) (hbehind : Behind start tip blocks)
    (hserves : Serves (chainBlockProvider peer) start.chain.bestHeight (tip :: blocks)) {events : List Event}
    (hnows : ∀ now ∈ events.filterMap Event.now?, now ∈ nows) : ∃ k' ≥ k,
      Reached config v nows start blocks k' (events.foldl (Net.step config v peer) net) := by
  induction events generalizing k net with
  | nil => exact ⟨k, le_rfl, h⟩
  | cons e es ih =>
    have hstep : ∃ k' ≥ k, Reached config v nows start blocks k' (net.step config v peer e) := by
      cases e with
      | ask peerTip suspectFork requestId forkRequestId =>
        exact ⟨k, le_rfl, h.ask peerTip suspectFork requestId forkRequestId⟩
      | answer m now clock peerTip =>
        obtain ⟨k', hk, h', -⟩ := h.answer (m := m) hbehind hserves
          (hnows now List.mem_cons_self) clock peerTip
        exact ⟨k', hk, h'⟩
    obtain ⟨k₁, hk₁, h₁⟩ := hstep
    obtain ⟨k₂, hk₂, h₂⟩ := ih h₁ fun now hnow => hnows now (by
      cases e with
      | ask => exact hnow
      | answer => exact List.mem_cons_of_mem _ hnow)
    exact ⟨k₂, hk₁.trans hk₂, h₂⟩

theorem sent_run {events : List Event} {m : GetBlocksMessage} (h : m ∈ net.sent) :
    m ∈ (events.foldl (Net.step config v peer) net).sent := by
  induction events generalizing net with
  | nil => exact h
  | cons e es ih =>
    refine ih ?_
    cases e with
    | ask => exact List.mem_append_left _ h
    | answer =>
      simp only [Net.step]
      split_ifs
      · split
        · exact h
        · exact h
      · exact h

theorem fitsFrame_of_sublist {few blocks : List Block} (hfew : few.Sublist blocks) (h : FitsFrame blocks) :
    FitsFrame few := by
  have hsum : (few.map fun b => (encode b).length).sum ≤ (blocks.map fun b => (encode b).length).sum :=
    (hfew.map _).sum_le_sum fun _ _ => Nat.zero_le _
  unfold FitsFrame at h ⊢
  omega

/-- The next block is one of the first fifteen behind the tip that was asked from. -/
theorem next_in_window {a f t top k k₁ length : ℕ} (htop : top = a + length) (hf : f = a + k₁ ∨ f = a + k₁ + 1)
    (ht : t = max f (min top (f + 15))) (hle : k₁ ≤ k) (hk : k < min (k₁ + 15) length) :
    k + 1 - (f - a) < min (t + 1 - f) 16 ∧ f - a + (k + 1 - (f - a)) = k + 1 := by
  omega

/-- A request that is planned and answered moves the tip on by 15 blocks, or to the end. -/
theorem Reached.round (h : Reached config v nows start blocks k net) (hbehind : Behind start tip blocks)
    (hserves : Serves (chainBlockProvider peer) start.chain.bestHeight (tip :: blocks))
    (hvalid : ValidInOrder config v nows blocks start.chain)
    (hfits : ∀ i, FitsFrame (((tip :: blocks).drop i).take 16)) {r : Round}
    (hadvert : r.peerTip.height = peer.bestHeight) (hnows : ∀ now ∈ r.nows, now ∈ nows) :
    ∃ k', Reached config v nows start blocks k' (net.round config v peer r) ∧ min (k + 15) blocks.length ≤ k' := by
  simp only [Round.nows, List.filterMap_append, List.forall_mem_cons, List.forall_mem_append] at hnows
  obtain ⟨hnow, hbefore, hmeanwhile⟩ := hnows
  obtain ⟨k₁, hk₁, h₁⟩ := h.run hbehind hserves hbefore
  set asking := r.before.foldl (Net.step config v peer) net with hasking
  have hasked : Reached config v nows start blocks k₁
      (asking.step config v peer (.ask r.peerTip r.suspectFork r.requestId r.forkRequestId)) :=
    h₁.ask r.peerTip r.suspectFork r.requestId r.forkRequestId
  obtain ⟨k₂, hk₂, h₂⟩ := hasked.run hbehind hserves hmeanwhile
  obtain ⟨k₃, hk₃, h₃, hnext⟩ := h₂.answer (m := r.request asking.node.chain) hbehind hserves hnow r.clock
    r.answerTip
  refine ⟨k₃, h₃, ?_⟩
  by_cases hend : k₁ = blocks.length
  · omega
  have hlt : k₁ < blocks.length := lt_of_le_of_ne h₁.bound hend
  -- the plan: from our tip, or behind it, to the peer's height or sixteen blocks
  set m := r.request asking.node.chain with hm
  have hheight := h₁.height hvalid hnow
  have hbest : peer.bestHeight.toNat + 1 = start.chain.bestHeight.toNat + (tip :: blocks).length := hserves.best
  rw [List.length_cons] at hbest
  have hpeer := peer.bestHeight.toNat_lt
  obtain ⟨hfrom, hto⟩ := toNat_request r asking.node.chain (by rw [hadvert]; omega)
  rw [hheight] at hfrom
  rw [hadvert] at hto
  have hsent : m ∈ (r.meanwhile.foldl (Net.step config v peer) (asking.step config v peer
      (.ask r.peerTip r.suspectFork r.requestId r.forkRequestId))).sent :=
    sent_run (List.mem_append_right _ (request_mem r asking.node.chain))
  obtain ⟨hlow, hall⟩ := h₂.sent m hsent
  have hserved := served_of_serves hserves hall hlow
  have hframe : FitsFrame (served (chainBlockProvider peer) m) := by
    rw [hserved, ← List.take_take]
    exact fitsFrame_of_sublist (List.take_sublist _ _) (hfits _)
  by_contra hshort
  have hk : k₃ < min (k₁ + 15) blocks.length := by omega
  have hlast : k₃ < blocks.length := by omega
  have hget : blocks[k₃]? = some blocks[k₃] := List.getElem?_eq_getElem hlast
  obtain ⟨hinside, hindex⟩ := next_in_window (by omega) hfrom hto (hk₂.trans hk₃) hk
  refine hnext hsent hframe _ hget ?_
  rw [hserved]
  refine List.mem_of_getElem? (i := k₃ + 1 - (m.fromHeight.toNat - start.chain.bestHeight.toNat)) ?_
  rw [List.getElem?_take_of_lt hinside, List.getElem?_drop, hindex]
  exact hget

theorem Reached.rounds (h : Reached config v nows start blocks k net) (hbehind : Behind start tip blocks)
    (hserves : Serves (chainBlockProvider peer) start.chain.bestHeight (tip :: blocks))
    (hvalid : ValidInOrder config v nows blocks start.chain)
    (hfits : ∀ i, FitsFrame (((tip :: blocks).drop i).take 16)) {rounds : List Round}
    (hadvert : ∀ r ∈ rounds, r.peerTip.height = peer.bestHeight) (hnows : ∀ now ∈ rounds.flatMap Round.nows, now ∈ nows) :
    ∃ k', Reached config v nows start blocks k' (rounds.foldl (Net.round config v peer) net) ∧
      min (k + 15 * rounds.length) blocks.length ≤ k' := by
  induction rounds generalizing k net with
  | nil => exact ⟨k, h, min_le_left _ _⟩
  | cons r rs ih =>
    rw [List.flatMap_cons, List.forall_mem_append] at hnows
    obtain ⟨k₁, h₁, hk₁⟩ := h.round hbehind hserves hvalid hfits (hadvert r List.mem_cons_self) hnows.1
    obtain ⟨k₂, h₂, hk₂⟩ := ih h₁ (fun r hr => hadvert r (List.mem_cons_of_mem _ hr)) hnows.2
    refine ⟨k₂, h₂, ?_⟩
    rw [List.length_cons]
    omega

end Runs

/-- The peer has advertised its tip, and the request is answered at once. -/
def sampleRound : Round where
  before := []
  peerTip := ⟨1, laterHash, 1⟩
  suspectFork := false
  requestId := 7
  forkRequestId := 8
  meanwhile := []
  now := 1767225660
  clock _ := 0
  answerTip := ⟨1, laterHash, 1⟩

theorem serves_laterChain : Serves (chainBlockProvider laterChain) 0 [block0, laterBlock] where
  best := by decide +kernel
  block i b hget height hheight := by
    have hlt : i < 2 := (List.getElem?_eq_some_iff.mp hget).1
    have hzero : (chainBlockProvider laterChain).getBlockByHeight 0 = some block0 := by decide +kernel
    have hone : (chainBlockProvider laterChain).getBlockByHeight 1 = some laterBlock := by decide +kernel
    interval_cases i
    · obtain rfl : height = 0 := UInt64.toNat_inj.mp hheight
      exact hzero.trans hget
    · obtain rfl : height = 1 := UInt64.toNat_inj.mp hheight
      exact hone.trans hget

end Coinjecture.Node.SyncRounds
