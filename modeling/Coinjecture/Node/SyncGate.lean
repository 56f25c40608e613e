import Coinjecture.Node.SyncConvergence

/-! # The gate in front of an extension

A block that extends the tip is held back if it is not on the chain of the peer's advertised tip as far as
that chain is stored. It waits under its height in the buffer, which is drained after the batch, and there
nobody asks for the peer's tip: it is applied then.

* `anchored_iff` : unless another block of its height comes after it in the batch, a block that extends the tip
  is applied exactly if it is on the peer's chain only where it is on that chain and valid. -/

namespace Coinjecture.Node.SyncGate

open Lib.Effect Lib.Table
open Core.Types Core.Blocks Core.Extern Core.Crypto
open Node.Validator Node.Chain Node.Chain.ChainState
open Node.Service Node.ChainMetadata Node.ChainRules
open Node.ServiceCalls
open Node.Sync Node.SyncConvergence

variable {ext : Ext}

/-- The block extends the tip. -/
structure IsNext (block : Block) (chain : ChainState ext) : Prop where
  height : block.header.height.toNat = chain.bestHeight.toNat + 1
  prevHash : block.header.prevHash = chain.bestHash

/-- From `s` to `t` the block has been applied if and only if it is on the chain, and else it waits in `t`. -/
structure Anchored (s t : SyncState ext) (block : Block) (chain : List Block) : Prop where
  applied : block ∈ t.applied.drop s.applied.length ↔ block ∈ chain
  buffered : block ∉ chain → t.blockBuffer.get block.header.height = some block

variable {config : NodeConfig} {v : BlockValidator} {s t : SyncState ext} {block : Block}

theorem IsNext.eq_add_one {chain : ChainState ext} (h : IsNext block chain) :
    block.header.height = chain.bestHeight + 1 := by
  refine UInt64.toNat_inj.mp ?_
  have hlt := block.header.height.toNat_lt
  have hheight := h.height
  rw [UInt64.toNat_add, UInt64.toNat_one]
  omega

/-- No other block of this height comes. -/
def Alone (config : NodeConfig) (block : Block) (blocks : List Block) : Prop :=
  ∀ b ∈ blocks, config.shouldAcceptVersion b.header.version = true →
    b.header.height = block.header.height → b = block

/-! ### What is applied stays applied -/

/-- The block has been applied since `s`. -/
def AppliedSince (s t : SyncState ext) (block : Block) : Prop :=
  ∃ new, t.applied = s.applied ++ new ∧ block ∈ new

theorem applied_storeAndApply (clock : ℕ → Int64) (b : Block) :
    ∃ new, (t.storeAndApply clock b).applied = t.applied ++ new := by
  by_cases hstored : (run (storeBlock b) t.chain).1 = .ok true
  · exact ⟨[b], (storeAndApply_of_stored clock hstored).1⟩
  · exact ⟨[], (storeAndApply_of_not_stored clock hstored).1.trans (List.append_nil _).symm⟩

theorem AppliedSince.append (h : AppliedSince s t block) {u : SyncState ext} {new : List Block}
    (hu : u.applied = t.applied ++ new) : AppliedSince s u block := by
  obtain ⟨old, hold, hmem⟩ := h
  refine ⟨old ++ new, ?_, List.mem_append_left _ hmem⟩
  rw [hu, hold, List.append_assoc]

theorem AppliedSince.process (h : AppliedSince s t block) (b : Batch) (c : Block) :
    AppliedSince s (processSyncBlock config v b t c) block := by
  by_cases hversion : config.shouldAcceptVersion c.header.version = true
  · rcases processSyncBlock_cases (s := t) (v := v) b hversion with hhold | ⟨hsame, -⟩ | ⟨-, -, -, hstore⟩
    · rw [hhold]
      exact h
    · rw [hsame]
      exact h
    · obtain ⟨new, hnew⟩ := applied_storeAndApply (t := t) b.clock c
      rw [hstore]
      exact h.append hnew
  · have hsame : processSyncBlock config v b t c = t := if_pos (by simpa using hversion)
    rw [hsame]
    exact h

theorem AppliedSince.process_all {blocks : List Block} (h : AppliedSince s t block) (b : Batch) :
    AppliedSince s (blocks.foldl (processSyncBlock config v b) t) block := by
  induction blocks generalizing t with
  | nil => exact h
  | cons c cs ih => exact ih (h.process b c)

theorem AppliedSince.drain {now : Int64} {clock : ℕ → Int64} (rounds : ℕ) (h : AppliedSince s t block) :
    AppliedSince s (drain config v now clock rounds t) block := by
  induction rounds generalizing t with
  | zero => exact h
  | succ rounds ih =>
    rw [Sync.drain]
    cases hget : t.blockBuffer.get (t.chain.bestHeight + 1) with
    | none => exact h
    | some c =>
      have hreleased : AppliedSince s (t.release (t.chain.bestHeight + 1)) block := h
      simp only
      split_ifs
      · exact ih hreleased
      · cases checkNext v now c t.chain with
        | error e => exact ih hreleased
        | ok valid =>
          cases valid with
          | true =>
            obtain ⟨new, hnew⟩ := applied_storeAndApply (t := t.release (t.chain.bestHeight + 1)) clock c
            exact ih (hreleased.append hnew)
          | false => exact ih hreleased
      · exact hreleased

/-! ### A block that is ready is applied -/

section Ready

variable {b : Batch} (hready : Ready config v b.now block s.chain)

/-- The block waits, and the tip is what it was. -/
structure Waiting (s t : SyncState ext) (block : Block) : Prop where
  chain : t.chain = s.chain
  applied : t.applied = s.applied
  held : t.blockBuffer.get block.header.height = some block

include hready

theorem applied_of_stored (hchain : t.chain = s.chain) (happlied : t.applied = s.applied) (clock : ℕ → Int64) :
    AppliedSince s (t.storeAndApply clock block) block := by
  have hstored : (run (storeBlock block) t.chain).1 = .ok true := hchain ▸ hready.stored
  refine ⟨[block], ?_, List.mem_singleton_self _⟩
  rw [(storeAndApply_of_stored clock hstored).1, happlied]

theorem processed (hchain : t.chain = s.chain) (happlied : t.applied = s.applied) :
    Waiting s (processSyncBlock config v b t block) block ∨
      AppliedSince s (processSyncBlock config v b t block) block := by
  rcases processSyncBlock_cases (s := t) (v := v) b hready.version with hhold | ⟨-, hwhy⟩ | ⟨-, -, -, hstore⟩
  · rw [hhold]
    exact .inl ⟨hchain, happlied, Keyed.get_insert_self ..⟩
  · rw [hchain] at hwhy
    rcases hwhy with hlow | ⟨-, e, herror⟩
    · rw [hready.height] at hlow
      exact absurd hlow (UInt64.lt_irrefl _)
    · rw [hready.valid] at herror
      cases herror
  · rw [hstore]
    exact .inr (applied_of_stored hready hchain happlied b.clock)

theorem waits {blocks : List Block} (halone : Alone config block blocks) (h : Waiting s t block) :
    Waiting s (blocks.foldl (processSyncBlock config v b) t) block ∨
      AppliedSince s (blocks.foldl (processSyncBlock config v b) t) block := by
  induction blocks generalizing t with
  | nil => exact .inl h
  | cons c cs ih =>
    have halone' : Alone config block cs := fun d hd => halone d (List.mem_cons_of_mem _ hd)
    rw [List.foldl_cons]
    by_cases hversion : config.shouldAcceptVersion c.header.version = true
    · by_cases heq : c.header.height = block.header.height
      · rw [halone c List.mem_cons_self hversion heq]
        rcases processed hready h.chain h.applied with hwaiting | happlied
        · exact ih halone' hwaiting
        · exact .inr (happlied.process_all b)
      · rcases processSyncBlock_cases (s := t) (v := v) b hversion with hhold | ⟨hsame, -⟩ | ⟨hheight, -⟩
        · rw [hhold]
          refine ih halone' ⟨h.chain, h.applied, ?_⟩
          rw [SyncState.hold, Keyed.get_insert, if_neg (Ne.symm heq)]
          exact h.held
        · rw [hsame]
          exact ih halone' h
        · rw [h.chain, ← hready.height] at hheight
          exact absurd hheight heq
    · have hsame : processSyncBlock config v b t c = t := if_pos (by simpa using hversion)
      rw [hsame]
      exact ih halone' h

theorem drained (h : Waiting s t block) (clock : ℕ → Int64) (rounds : ℕ) :
    AppliedSince s (drain config v b.now clock (rounds + 1) t) block := by
  have hget : t.blockBuffer.get (t.chain.bestHeight + 1) = some block := by
    rw [h.chain, ← hready.height]
    exact h.held
  have hversion : ¬ config.shouldAcceptVersion block.header.version = false := by
    rw [hready.version]
    exact Bool.noConfusion
  have hprev : block.header.prevHash = t.chain.bestHash := by
    rw [h.chain]
    exact hready.prevHash
  have hvalid : checkNext v b.now block t.chain = .ok true := by
    rw [h.chain]
    exact hready.valid
  rw [Sync.drain, hget]
  simp only
  rw [if_neg hversion, if_pos hprev, hvalid]
  have hstored := applied_of_stored (t := t.release (t.chain.bestHeight + 1)) hready h.chain h.applied clock
  exact hstored.drain rounds

/-- It is applied while the batch is handled. -/
theorem applied_of_ready {blocks : List Block} (halone : Alone config block blocks) :
    AppliedSince s (drain config v b.now b.clock DRAIN_ROUNDS
      ((block :: blocks).foldl (processSyncBlock config v b) s)) block := by
  have hrounds : DRAIN_ROUNDS = (2 ^ 66 - 1) + 1 := rfl
  rw [List.foldl_cons]
  rcases processed hready rfl rfl with hwaiting | happlied
  · rcases waits hready halone hwaiting with hwaiting | happlied
    · rw [hrounds]
      exact drained hready hwaiting b.clock _
    · exact happlied.drain _
  · exact (happlied.process_all b).drain _

end Ready

/-! ### A block that is not ready is neither applied nor held -/

section NotReady

variable {b : Batch} (hnext : IsNext block s.chain) (hnot : ¬ Ready config v b.now block s.chain)

/-- Since `s` nothing has been stored. -/
structure Idle (s t : SyncState ext) : Prop where
  chain : t.chain = s.chain
  applied : t.applied = s.applied

/-- The block has not been applied since `s`, and it does not wait. -/
def Dropped (s t : SyncState ext) (block : Block) : Prop :=
  (∃ new, t.applied = s.applied ++ new ∧ block ∉ new) ∧ t.blockBuffer.get block.header.height ≠ some block

/-- What does not become the tip leaves the tip where it was. -/
theorem bestHeight_of_not_stored {c : Block} {chain : ChainState ext}
    (h : (run (storeBlock c) chain).1 ≠ .ok true) : (run (storeBlock c) chain).2.bestHeight = chain.bestHeight := by
  rw [run_storeBlock] at h ⊢
  by_cases hmax : MAX_REASONABLE_HEIGHT < c.header.height
  · rw [if_pos hmax]
  · by_cases hextends : Extends c chain
    · rw [if_neg hmax, if_pos hextends] at h
      exact absurd rfl h
    · rw [if_neg hmax, if_neg hextends]
      rfl

/-- Above the height of the block the loop over the buffer does not come back to it. -/
theorem drain_above {now : Int64} {clock : ℕ → Int64} (rounds : ℕ)
    (habove : block.header.height ≤ t.chain.bestHeight) (hnone : t.blockBuffer.get block.header.height = none) :
    (∃ new, (drain config v now clock rounds t).applied = t.applied ++ new ∧ block ∉ new) ∧
      (drain config v now clock rounds t).blockBuffer.get block.header.height = none := by
  induction rounds generalizing t with
  | zero => exact ⟨⟨[], (List.append_nil _).symm, List.not_mem_nil⟩, hnone⟩
  | succ rounds ih =>
    have hstop : (∃ new, t.applied = t.applied ++ new ∧ block ∉ new) ∧
        t.blockBuffer.get block.header.height = none :=
      ⟨⟨[], (List.append_nil _).symm, List.not_mem_nil⟩, hnone⟩
    rw [Sync.drain]
    cases hget : t.blockBuffer.get (t.chain.bestHeight + 1) with
    | none => exact hstop
    | some c =>
      have hne : c ≠ block := by
        rintro rfl
        have hkey : c.header.height = t.chain.bestHeight + 1 := t.blockBuffer.keyed hget
        rw [hkey, hget] at hnone
        cases hnone
      have hreleased : (t.release (t.chain.bestHeight + 1)).blockBuffer.get block.header.height = none := by
        rw [SyncState.release, Keyed.get_erase]
        split_ifs
        · rfl
        · exact hnone
      have hskip := ih (t := t.release (t.chain.bestHeight + 1)) habove hreleased
      simp only
      split_ifs
      · exact hskip
      · cases checkNext v now c t.chain with
        | error e => exact hskip
        | ok valid =>
          cases valid with
          | false => exact hskip
          | true =>
            by_cases hstored : (run (storeBlock c) (t.release (t.chain.bestHeight + 1)).chain).1 = .ok true
            · obtain ⟨happlied, hbuffer, hchain⟩ := storeAndApply_of_stored clock hstored
              obtain ⟨-, hbest, hlt, -⟩ := tip_of_stored hstored
              obtain ⟨⟨new, hnew, hmem⟩, hnone'⟩ := ih
                (t := (t.release (t.chain.bestHeight + 1)).storeAndApply clock c)
                (by
                  rw [hchain, hbest]
                  exact UInt64.le_of_lt (UInt64.lt_of_le_of_lt habove hlt))
                (by rw [hbuffer]; exact hreleased)
              refine ⟨⟨c :: new, ?_, ?_⟩, hnone'⟩
              · rw [hnew, happlied, List.append_assoc]
                rfl
              · rw [List.mem_cons, not_or]
                exact ⟨hne.symm, hmem⟩
            · obtain ⟨happlied, hbuffer, hchain⟩ := storeAndApply_of_not_stored clock hstored
              have hrest := ih (t := (t.release (t.chain.bestHeight + 1)).storeAndApply clock c)
                (by
                  rw [hchain, bestHeight_of_not_stored hstored]
                  exact habove)
                (by rw [hbuffer]; exact hreleased)
              rw [happlied] at hrest
              exact hrest
      · rw [hold_release hget]
        exact hstop

/-- A block that extends the tip and does not become the tip is too high, and nothing is stored. -/
theorem chain_of_not_stored {c : Block} {chain : ChainState ext} (hextends : Extends c chain)
    (h : (run (storeBlock c) chain).1 ≠ .ok true) : (run (storeBlock c) chain).2 = chain := by
  rw [run_storeBlock] at h ⊢
  by_cases hmax : MAX_REASONABLE_HEIGHT < c.header.height
  · rw [if_pos hmax]
  · rw [if_neg hmax, if_pos hextends] at h
    exact absurd rfl h

theorem IsNext.extends {chain : ChainState ext} (h : IsNext block chain) {c : Block}
    (hheight : c.header.height = chain.bestHeight + 1) (hprev : c.header.prevHash = chain.bestHash) :
    Extends c chain := by
  refine ⟨?_, hprev⟩
  rw [hheight, ← h.eq_add_one, UInt64.lt_iff_toNat_lt, h.height]
  exact Nat.lt_succ_self _

include hnext hnot

theorem not_stored (hversion : config.shouldAcceptVersion block.header.version = true)
    (hvalid : checkNext v b.now block s.chain = .ok true) : (run (storeBlock block) s.chain).1 ≠ .ok true :=
  fun hstored => hnot ⟨hversion, hnext.eq_add_one, hnext.prevHash, hvalid, hstored⟩

theorem idle_process {c : Block} (halone : Alone config block [c]) (h : Idle s t) :
    Idle s (processSyncBlock config v b t c) := by
  by_cases hversion : config.shouldAcceptVersion c.header.version = true
  · rcases processSyncBlock_cases (s := t) (v := v) b hversion with hhold | ⟨hsame, -⟩ |
      ⟨hheight, hprev, hvalid, hstore⟩
    · rw [hhold]
      exact ⟨h.chain, h.applied⟩
    · rw [hsame]
      exact h
    · rw [h.chain] at hheight hprev hvalid
      obtain rfl : c = block := halone c (List.mem_singleton_self c) hversion (hheight.trans hnext.eq_add_one.symm)
      have hstored := not_stored hnext hnot hversion hvalid
      have hkept := chain_of_not_stored (hnext.extends hheight hprev) hstored
      rw [← h.chain] at hstored
      obtain ⟨happlied, -, hchain⟩ := storeAndApply_of_not_stored b.clock hstored
      rw [hstore]
      refine ⟨?_, happlied.trans h.applied⟩
      rw [hchain, h.chain, hkept]
  · have hsame : processSyncBlock config v b t c = t := if_pos (by simpa using hversion)
    rw [hsame]
    exact h

theorem idle_process_all {blocks : List Block} (halone : Alone config block blocks) (h : Idle s t) :
    Idle s (blocks.foldl (processSyncBlock config v b) t) := by
  induction blocks generalizing t with
  | nil => exact h
  | cons c cs ih =>
    refine ih (fun d hd => halone d (List.mem_cons_of_mem _ hd)) (idle_process hnext hnot ?_ h)
    intro d hd
    exact halone d (List.mem_singleton.mp hd ▸ List.mem_cons_self)

omit hnot in
/-- With nothing at the next height the loop ends. -/
theorem dropped_of_none (clock : ℕ → Int64) (rounds : ℕ) (h : Idle s t)
    (hnone : t.blockBuffer.get (t.chain.bestHeight + 1) = none) :
    Dropped s (drain config v b.now clock rounds t) block := by
  have hstop : drain config v b.now clock rounds t = t := by
    cases rounds with
    | zero => rfl
    | succ rounds => rw [Sync.drain, hnone]
  rw [hstop]
  refine ⟨⟨[], ?_, List.not_mem_nil⟩, ?_⟩
  · rw [h.applied, List.append_nil]
  · rw [hnext.eq_add_one, ← h.chain, hnone]
    intro hwaits
    cases hwaits

theorem dropped_of_idle (clock : ℕ → Int64) (rounds : ℕ) (h : Idle s t) :
    Dropped s (drain config v b.now clock (rounds + 1) t) block := by
  cases hget : t.blockBuffer.get (t.chain.bestHeight + 1) with
  | none => exact dropped_of_none hnext clock _ h hget
  | some c =>
    have hheight : c.header.height = t.chain.bestHeight + 1 := t.blockBuffer.keyed hget
    have hnone : (t.release (t.chain.bestHeight + 1)).blockBuffer.get (t.chain.bestHeight + 1) = none := by
      rw [SyncState.release, Keyed.get_erase, if_pos rfl]
    have hskip : Dropped s (drain config v b.now clock rounds (t.release (t.chain.bestHeight + 1))) block :=
      dropped_of_none hnext clock rounds ⟨h.chain, h.applied⟩ hnone
    rw [Sync.drain, hget]
    simp only
    split_ifs with hversion hprev
    · exact hskip
    · cases hvalid : checkNext v b.now c t.chain with
      | error e => exact hskip
      | ok valid =>
        cases valid with
        | false => exact hskip
        | true =>
          have hextends : Extends c t.chain := by
            rw [h.chain] at hheight hprev ⊢
            exact hnext.extends hheight hprev
          by_cases hstored : (run (storeBlock c) (t.release (t.chain.bestHeight + 1)).chain).1 = .ok true
          · -- another block becomes the tip
            have hne : block ≠ c := by
              rintro rfl
              rw [h.chain] at hvalid
              refine not_stored hnext hnot (by simpa using hversion) hvalid ?_
              rw [← h.chain]
              exact hstored
            obtain ⟨happlied, hbuffer, hchain⟩ := storeAndApply_of_stored clock hstored
            obtain ⟨-, hbest, -⟩ := tip_of_stored hstored
            have hsame : block.header.height = t.chain.bestHeight + 1 := by
              rw [h.chain]
              exact hnext.eq_add_one
            have habove : block.header.height ≤
                ((t.release (t.chain.bestHeight + 1)).storeAndApply clock c).chain.bestHeight := by
              rw [hchain, hbest, hsame, hheight]
              exact UInt64.le_refl _
            have hfree : ((t.release (t.chain.bestHeight + 1)).storeAndApply clock c).blockBuffer.get
                block.header.height = none := by
              rw [hbuffer, hsame]
              exact hnone
            obtain ⟨⟨new, hnew, hmem⟩, hnone'⟩ := @drain_above _ config v _ block b.now clock rounds habove hfree
            refine ⟨⟨c :: new, ?_, ?_⟩, ?_⟩
            · have hreleased : (t.release (t.chain.bestHeight + 1)).applied = s.applied := h.applied
              rw [hnew, happlied, hreleased, List.append_assoc]
              rfl
            · rw [List.mem_cons, not_or]
              exact ⟨hne, hmem⟩
            · rw [hnone']
              intro hwaits
              cases hwaits
          · obtain ⟨happlied, hbuffer, hchain⟩ := storeAndApply_of_not_stored clock hstored
            have hkept := chain_of_not_stored hextends hstored
            refine dropped_of_none hnext clock rounds ⟨?_, happlied.trans h.applied⟩ ?_
            · rw [hchain]
              exact hkept.trans h.chain
            · rw [hchain, hbuffer]
              have hsame : (run (storeBlock c) (t.release (t.chain.bestHeight + 1)).chain).2 = t.chain := hkept
              rw [hsame]
              exact hnone
    · rw [hold_release hget]
      refine ⟨⟨[], ?_, List.not_mem_nil⟩, fun hheld => ?_⟩
      · rw [h.applied, List.append_nil]
      · rw [hnext.eq_add_one, ← h.chain, hget] at hheld
        obtain rfl := Option.some.inj hheld
        rw [h.chain] at hprev
        exact hprev hnext.prevHash

end NotReady

/-- A block that extends the tip when its turn comes in the batch, and after which no other one of its height
comes: that it is applied if and only if it is on the chain of the peer's tip, and else waits, is the case
exactly if it is on that chain and ready. -/
theorem anchored_iff (ext : Ext) (config : NodeConfig) (v : BlockValidator) (b : Batch) (peerChain : List Block)
    (s : SyncState ext) (before : List Block) (block : Block) (after : List Block)
    (hblocks : b.blocks = before ++ block :: after)
    (hnext : IsNext block (before.foldl (processSyncBlock config v b) s).chain)
    (halone : Alone config block after) :
    Anchored (before.foldl (processSyncBlock config v b) s) (blocksReceived config v s b) block peerChain ↔
      block ∈ peerChain ∧ Ready config v b.now block (before.foldl (processSyncBlock config v b) s).chain := by
  have hreceived : blocksReceived config v s b = drain config v b.now b.clock DRAIN_ROUNDS
      ((block :: after).foldl (processSyncBlock config v b) (before.foldl (processSyncBlock config v b) s)) := by
    rw [blocksReceived, hblocks, List.foldl_append]
  rw [hreceived]
  generalize before.foldl (processSyncBlock config v b) s = t at hnext ⊢
  by_cases hready : Ready config v b.now block t.chain
  · obtain ⟨new, hnew, hmem⟩ := applied_of_ready hready halone
    have happlied : block ∈ (drain config v b.now b.clock DRAIN_ROUNDS
        ((block :: after).foldl (processSyncBlock config v b) t)).applied.drop t.applied.length := by
      rw [hnew, List.drop_left]
      exact hmem
    refine ⟨fun h => ⟨h.applied.mp happlied, hready⟩, fun h => ⟨⟨fun _ => h.1, fun _ => happlied⟩, ?_⟩⟩
    exact fun hoff => absurd h.1 hoff
  · have hself : Alone config block [block] := fun c hc _ _ => List.mem_singleton.mp hc
    have hidle := idle_process_all hnext hready halone
      (idle_process (t := t) hnext hready hself ⟨rfl, rfl⟩)
    have hrounds : DRAIN_ROUNDS = (2 ^ 66 - 1) + 1 := rfl
    obtain ⟨⟨new, hnew, hmem⟩, hwaits⟩ := dropped_of_idle hnext hready b.clock (2 ^ 66 - 1) hidle
    rw [← hrounds] at hnew hwaits
    refine ⟨fun h => ?_, fun h => absurd h.2 hready⟩
    by_cases hon : block ∈ peerChain
    · have happlied := h.applied.mpr hon
      rw [List.foldl_cons, hnew, List.drop_left] at happlied
      exact absurd happlied hmem
    · exact absurd (h.buffered hon) hwaits

/-! ### Two blocks on genesis -/

/-- The block from a peer that has it on its chain. -/
theorem anchored_laterBlock : Anchored sampleState (blocksReceived sampleConfig Sample.validator sampleState sampleBatch)
    laterBlock [block0, laterBlock] :=
  (anchored_iff ext0 sampleConfig Sample.validator sampleBatch [block0, laterBlock] sampleState [] laterBlock
    [laterBlock] rfl ⟨by decide +kernel, by decide +kernel⟩ fun c hc _ _ => List.mem_singleton.mp hc).mpr
      ⟨by decide +kernel, by decide +kernel⟩

def twiceHash : Hash := ⟨0x000083ce1a8bc754c8757bb983806e41f72b5ba2f11d0a5f9715bc919673f512⟩

def tipHash : Hash := ⟨0x359b9cc6ba5dbdb80c381806470e19a045d175da1c5fef0273a750c00f56400d⟩

/-- A header on the other block. -/
def tipHeader : BlockHeader :=
  { Sample.header Hash.ZERO 0 with
    height := 2
    prevHash := twiceHash
    timestamp := 1767225601 }

def otherChain : List Block := [block0, twiceBlock, blockOn0 tipHeader []]

/-- The block from a peer that has another chain of three blocks. -/
def otherBatch : Batch := ⟨1767225660, fun _ => 0, ⟨2, tipHash, 3⟩, [laterBlock]⟩

/-- The gate holds the block back, and it is applied. -/
theorem off_chain_applied : laterBlock ∉ otherChain ∧
    sampleState.chain.bestHeight < otherBatch.peerTip.height ∧
    sampleState.chain.metadata.cumWork < otherBatch.peerTip.cumulativeWork ∧
    shouldApplySyncExtension sampleState.chain (Block.hash ext0 laterBlock) 1 otherBatch.peerTip = false ∧
    laterBlock ∈ (blocksReceived sampleConfig Sample.validator sampleState otherBatch).applied := by
  decide +kernel

end Coinjecture.Node.SyncGate
