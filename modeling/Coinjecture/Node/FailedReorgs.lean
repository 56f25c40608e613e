import Coinjecture.Node.ForkChoice
import Coinjecture.Node.Runs

/-! # Reorganisations that fail

`reorganizeChain` unwinds the old chain before it looks at the new one, and an error returns at once.
Nothing is written back, so a failed call leaves the node as it was exactly where what is written up to
the failure is there already (`failure_changes_nothing_iff`): by the unwinding alone if the new chain is
not valid, and by the blocks before the one that is too high, or by all of them and the tip, if it is. -/

namespace Coinjecture.Node.FailedReorgs

open Lib.Effect Lib.Trace
open Core.Types Core.Blocks Core.Extern
open Core.Crypto
open State.Stores
open Node.BlockProcessing Node.Validator Node.Runs
open Node.Chain Node.Chain.ChainState Node.ChainMetadata
open Node.ChainRules
open Node.Service Node.ServiceCalls Node.ReorgAcceptance
open Node.ForkHandler Node.ForkChoice

variable {ext : Ext}

/-- The ledger, the highest consensus state and the tip are the same. -/
structure Unchanged (s s' : NodeState ext) : Prop where
  ledger : s'.ledger = s.ledger
  consensus : s'.consensusHeight = s.consensusHeight
  height : s'.chain.bestHeight = s.chain.bestHeight
  hash : s'.chain.bestHash = s.chain.bestHash

/-- `store_block` takes the block. -/
def Storable (block : Block) : Prop := ¬ MAX_REASONABLE_HEIGHT < block.header.height

instance : DecidablePred Storable := fun block =>
  inferInstanceAs (Decidable (¬ MAX_REASONABLE_HEIGHT < block.header.height))

/-- Blocks with the clock that each is applied by. -/
def timed (clock : ℕ → ℕ → Int64) : ℕ → List Block → List TimedBlock
  | _, [] => []
  | i, block :: blocks => (block, clock i) :: timed clock (i + 1) blocks

/-- One block stored and applied, with the ledger `L`. -/
def afterBlock (block : Block) (L : Ledger) (s : NodeState ext) : NodeState ext :=
  saveConsensusState block.header.height
    { s with
      chain := (chainMachine ext).next (.storeBlock block) s.chain
      ledger := L }

/-! ### The stores and the applications -/

theorem run_storable {block : Block} (hblock : Storable block) (s : NodeState ext) :
    ∃ isNewBest, run (onChain "Failed to store block: " (ChainState.storeBlock block)) s =
      (.ok isNewBest, { s with chain := (chainMachine ext).next (.storeBlock block) s.chain }) := by
  have hnext : (chainMachine ext).next (.storeBlock block) s.chain =
      (run (ChainState.storeBlock block) s.chain).2 := rfl
  rw [run_onChain, run_mapErr, hnext, run_storeBlock, if_neg hblock]
  split_ifs
  · exact ⟨true, rfl⟩
  · exact ⟨false, rfl⟩

theorem run_not_storable {block : Block} (hblock : ¬ Storable block) (s : NodeState ext) :
    run (onChain "Failed to store block: " (ChainState.storeBlock block)) s =
      (.error (.chain "Failed to store block: " .InvalidHeight), s) := by
  rw [run_onChain, run_mapErr, run_storeBlock, if_pos (not_not.mp hblock)]

variable {clock : ℕ → ℕ → Int64} {i : ℕ} {block : Block} {blocks rest : List Block} {s : NodeState ext}

/-- One round of the loop. -/
theorem run_applyNewChain_cons (hblock : Storable block) :
    run (applyNewChain clock i (block :: blocks)) s =
      match run (applyBlockTransactions ext (clock i) block) s.ledger with
      | (.ok _, L) => run (applyNewChain clock (i + 1) blocks) (afterBlock block L s)
      | (.error f, L) => (.error (.ledger f),
          { s with chain := (chainMachine ext).next (.storeBlock block) s.chain, ledger := L }) := by
  obtain ⟨isNewBest, hstore⟩ := run_storable hblock s
  rw [applyNewChain, run_bind_ok hstore, run_bind]
  have hledger : ∀ t : NodeState ext,
      run (onLedger (applyBlockTransactions ext (clock i) block)) t =
        ((run (mapErr ServiceError.ledger (applyBlockTransactions ext (clock i) block)) t.ledger).1,
          { t with ledger := (run (mapErr ServiceError.ledger
            (applyBlockTransactions ext (clock i) block)) t.ledger).2 }) := fun t => rfl
  rw [hledger, run_mapErr]
  rcases run (applyBlockTransactions ext (clock i) block) s.ledger with ⟨f | hashes, L⟩
  · rfl
  · simp only
    rw [run_modify_bind]
    rfl

theorem run_applyNewChain_refused (hblock : ¬ Storable block) :
    run (applyNewChain clock i (block :: blocks)) s =
      (.error (.chain "Failed to store block: " .InvalidHeight), s) := by
  rw [applyNewChain, run_bind_error (run_not_storable hblock s)]

/-- The highest saved height when the consensus state of a block is saved. -/
def saveHeight (consensusHeight : Option UInt64) (block : Block) : Option UInt64 :=
  match consensusHeight with
  | none => some block.header.height
  | some h => some (if h < block.header.height then block.header.height else h)

/-- The blocks stored and applied, the last of them with the ledger `L`. -/
def afterBlocks (blocks : List Block) (L : Ledger) (s : NodeState ext) : NodeState ext where
  chain := (chainMachine ext).final (blocks.map .storeBlock) s.chain
  ledger := L
  consensusHeight := blocks.foldl saveHeight s.consensusHeight

/-- The loop over blocks that can be stored applies them in order. -/
theorem run_applyNewChain (hblocks : ∀ b ∈ blocks, Storable b) {L : Ledger}
    (h : run (applyBlocks ext (timed clock i blocks)) s.ledger = (.ok (), L)) :
    run (applyNewChain clock i (blocks ++ rest)) s =
      run (applyNewChain clock (i + blocks.length) rest) (afterBlocks blocks L s) := by
  induction blocks generalizing i s with
  | nil =>
    cases h
    rfl
  | cons block blocks ih =>
    rw [timed, applyBlocks] at h
    rcases hrun : run (applyBlockTransactions ext (clock i) block) s.ledger with ⟨f | hashes, L'⟩
    · rw [run_bind_error hrun] at h
      cases h
    · rw [run_bind_ok hrun] at h
      have hrest := ih (s := afterBlock block L' s)
        (fun b hb => hblocks b (List.mem_cons_of_mem _ hb)) h
      rw [List.cons_append, run_applyNewChain_cons (hblocks block List.mem_cons_self), hrun]
      simp only
      rw [hrest, List.length_cons]
      have hi : i + 1 + blocks.length = i + (blocks.length + 1) := by omega
      rw [hi]
      rfl

/-- … and stops with a panic if one of them does. -/
theorem run_applyNewChain_panics (hblocks : ∀ b ∈ blocks, Storable b) {f : Failure}
    (h : (run (applyBlocks ext (timed clock i blocks)) s.ledger).1 = .error f) :
    (run (applyNewChain clock i (blocks ++ rest)) s).1 = .error (.ledger f) := by
  induction blocks generalizing i s with
  | nil => cases h
  | cons block blocks ih =>
    rw [timed, applyBlocks] at h
    rw [List.cons_append, run_applyNewChain_cons (hblocks block List.mem_cons_self)]
    rcases hrun : run (applyBlockTransactions ext (clock i) block) s.ledger with ⟨f' | hashes, L'⟩
    · rw [run_bind_error hrun] at h
      cases h
      rfl
    · rw [run_bind_ok hrun] at h
      exact ih (s := afterBlock block L' s) (fun b hb => hblocks b (List.mem_cons_of_mem _ hb)) h

/-- Blocks are applied to the end or a panic stops them. -/
theorem applyBlocks_cases (timedBlocks : List TimedBlock) (L : Ledger) :
    (∃ L', run (applyBlocks ext timedBlocks) L = (.ok (), L')) ∨
      (run (applyBlocks ext timedBlocks) L).1 = .error .panic := by
  rw [run_applyBlocks]
  unfold ending
  split_ifs with hhalted
  · exact .inr rfl
  · exact .inl ⟨_, rfl⟩

/-! ### What the blocks do to the tip and to the consensus states -/

theorem bestHeight_stores (c : ChainState ext) (blocks : List Block) :
    c.bestHeight.toNat ≤ ((chainMachine ext).final (blocks.map .storeBlock) c).bestHeight.toNat := by
  induction blocks generalizing c with
  | nil => exact le_rfl
  | cons block blocks ih =>
    refine le_trans ?_ (ih ((chainMachine ext).next (.storeBlock block) c))
    change _ ≤ (run (ChainState.storeBlock block) c).2.bestHeight.toNat
    rw [run_storeBlock]
    split_ifs with hmax hextends
    · exact le_rfl
    · exact (UInt64.lt_iff_toNat_lt.mp hextends.1).le
    · exact le_rfl

/-- The tip stays exactly if no block extends it. -/
theorem tip_stays_iff {c : ChainState ext} (hblocks : ∀ b ∈ blocks, Storable b) :
    (((chainMachine ext).final (blocks.map .storeBlock) c).bestHeight = c.bestHeight ∧
      ((chainMachine ext).final (blocks.map .storeBlock) c).bestHash = c.bestHash) ↔
      ∀ b ∈ blocks, ¬ Extends b c := by
  induction blocks generalizing c with
  | nil => exact ⟨fun _ b hb => absurd hb List.not_mem_nil, fun _ => ⟨rfl, rfl⟩⟩
  | cons block blocks ih =>
    have hnext : (chainMachine ext).next (.storeBlock block) c =
        (run (ChainState.storeBlock block) c).2 := rfl
    have hfinal : (chainMachine ext).final ((block :: blocks).map .storeBlock) c =
        (chainMachine ext).final (blocks.map .storeBlock)
          ((chainMachine ext).next (.storeBlock block) c) := rfl
    rw [hfinal]
    have hrest := ih (c := (chainMachine ext).next (.storeBlock block) c)
      fun b hb => hblocks b (List.mem_cons_of_mem _ hb)
    rw [run_storeBlock, if_neg (hblocks block List.mem_cons_self)] at hnext
    by_cases hextends : Extends block c
    · rw [if_pos hextends] at hnext
      refine iff_of_false (fun hsame => ?_) fun hnone => hnone block List.mem_cons_self hextends
      have hle := bestHeight_stores ((chainMachine ext).next (.storeBlock block) c) blocks
      have hlt := UInt64.lt_iff_toNat_lt.mp hextends.1
      rw [hsame.1, hnext] at hle
      exact absurd hlt (not_lt.mpr hle)
    · rw [if_neg hextends] at hnext
      rw [hnext] at hrest ⊢
      rw [List.forall_mem_cons]
      exact hrest.trans ⟨fun h => ⟨hextends, h⟩, fun h => h.2⟩

/-- The consensus state of a height saved at `h` or above is already there. -/
def Saved (consensusHeight : Option UInt64) (block : Block) : Prop :=
  ∃ h, consensusHeight = some h ∧ ¬ h < block.header.height

/-- What is saved never falls. -/
theorem le_foldl_saveHeight (blocks : List Block) (h : UInt64) :
    ∃ h', h.toNat ≤ h'.toNat ∧ blocks.foldl saveHeight (some h) = some h' := by
  induction blocks generalizing h with
  | nil => exact ⟨h, le_rfl, rfl⟩
  | cons block blocks ih =>
    obtain ⟨h', hle, hfold⟩ := ih (if h < block.header.height then block.header.height else h)
    refine ⟨h', le_trans ?_ hle, hfold⟩
    split_ifs with hlt
    · exact (UInt64.lt_iff_toNat_lt.mp hlt).le
    · exact le_rfl

/-- Saving changes nothing exactly if no block is higher than the highest state saved. -/
theorem consensus_stays_iff {consensusHeight : Option UInt64} :
    blocks.foldl saveHeight consensusHeight = consensusHeight ↔
      ∀ b ∈ blocks, Saved consensusHeight b := by
  induction blocks generalizing consensusHeight with
  | nil => exact ⟨fun _ b hb => absurd hb List.not_mem_nil, fun _ => rfl⟩
  | cons block blocks ih =>
    simp only [List.foldl_cons]
    rcases consensusHeight with _ | h
    · obtain ⟨h', -, hfold⟩ := le_foldl_saveHeight blocks block.header.height
      refine iff_of_false (fun hnone => ?_) fun hall => ?_
      · have hsome := hfold.symm.trans hnone
        cases hsome
      · obtain ⟨h, hsome, -⟩ := hall block List.mem_cons_self
        cases hsome
    · by_cases hlt : h < block.header.height
      · have hstep : saveHeight (some h) block = some block.header.height := by
          rw [saveHeight, if_pos hlt]
        obtain ⟨h', hle, hfold⟩ := le_foldl_saveHeight blocks block.header.height
        refine iff_of_false (fun hsame => ?_) fun hall => ?_
        · rw [hstep, hfold, Option.some.injEq] at hsame
          rw [hsame] at hle
          exact absurd (UInt64.lt_iff_toNat_lt.mp hlt) (not_lt.mpr hle)
        · obtain ⟨h', hsome, hnot⟩ := hall block List.mem_cons_self
          cases hsome
          exact hnot hlt
      · have hstep : saveHeight (some h) block = some h := by
          rw [saveHeight, if_neg hlt]
        rw [hstep, List.forall_mem_cons]
        exact ih.trans ⟨fun hall => ⟨⟨h, rfl, hlt⟩, hall⟩, fun hall => hall.2⟩

/-! ### The failures -/

/-- The blocks before the first one that is not stored. -/
abbrev storable (newChain : List Block) : List Block := newChain.takeWhile fun b => Storable b

theorem storable_cases (newChain : List Block) : (∀ b ∈ storable newChain, Storable b) ∧
    ((∀ b ∈ newChain, Storable b) ∧ storable newChain = newChain ∨
      ∃ b rest, newChain = storable newChain ++ b :: rest ∧ ¬ Storable b) := by
  induction newChain with
  | nil =>
    have hnone : ∀ b ∈ ([] : List Block), Storable b := fun b hb => absurd hb List.not_mem_nil
    exact ⟨hnone, .inl ⟨hnone, rfl⟩⟩
  | cons block newChain ih =>
    obtain ⟨hall, hcases⟩ := ih
    by_cases hblock : Storable block
    · have htake : storable (block :: newChain) = block :: storable newChain :=
        List.takeWhile_cons_of_pos (by simpa using hblock)
      rw [htake]
      refine ⟨List.forall_mem_cons.mpr ⟨hblock, hall⟩, ?_⟩
      rcases hcases with ⟨hevery, hsame⟩ | ⟨b, rest, hsplit, hb⟩
      · exact .inl ⟨List.forall_mem_cons.mpr ⟨hblock, hevery⟩, by rw [hsame]⟩
      · exact .inr ⟨b, rest, by rw [List.cons_append, ← hsplit], hb⟩
    · have htake : storable (block :: newChain) = [] :=
        List.takeWhile_cons_of_neg (by simpa using hblock)
      rw [htake]
      exact ⟨fun b hb => absurd hb List.not_mem_nil, .inr ⟨block, newChain, rfl, hblock⟩⟩

theorem storable_eq_self {newChain : List Block} (h : ∀ b ∈ newChain, Storable b) :
    storable newChain = newChain := by
  obtain ⟨-, ⟨-, hsame⟩ | ⟨b, rest, hsplit, hb⟩⟩ := storable_cases newChain
  · exact hsame
  · refine absurd (h b ?_) hb
    rw [hsplit]
    exact List.mem_append_right _ List.mem_cons_self

section Fails

variable (v : BlockValidator) (now : Int64) (clock : ℕ → ℕ → Int64) (oldChain newChain : List Block)
  (s : NodeState ext)

/-- `reorganize_chain` returns an error (a panic is none), and the node is as before. -/
def FailsClean : Prop :=
  ∀ e, (run (reorganizeChain v now clock oldChain newChain) s).1 = .error e →
    (∀ f, e ≠ .ledger f) → Unchanged s (run (reorganizeChain v now clock oldChain newChain) s).2

/-- Applying the blocks that can be stored, to the ledger with the old chain unwound. -/
def applied : Except Failure Unit × Ledger :=
  run (applyBlocks ext (timed clock 0 (storable newChain))) (unwindBlocks ext oldChain s.ledger)

/-- The new chain is not stored to its end, or its end does not become the tip. -/
def StopsLate : Prop :=
  (∃ b ∈ newChain, ¬ Storable b) ∨
    ∃ last, newChain.getLast? = some last ∧
      (run (updateBestChain (Block.hash ext last) last.header.height)
        ((chainMachine ext).final (newChain.map .storeBlock) s.chain)).1 ≠ .ok ()

/-- What is written up to a late stop happens to be there already. -/
structure WritesNothing : Prop where
  ledger : (applied clock oldChain newChain s).2 = s.ledger
  saved : ∀ b ∈ storable newChain, Saved s.consensusHeight b
  /-- The tip that is moved to is the tip. -/
  moved : (∀ b ∈ newChain, Storable b) → ∀ last, newChain.getLast? = some last →
    last.header.height = s.chain.bestHeight ∧ Block.hash ext last = s.chain.bestHash
  /-- No block becomes the tip when it is stored. -/
  extended : (∃ b ∈ newChain, ¬ Storable b) → ∀ b ∈ storable newChain, ¬ Extends b s.chain

variable {v now clock oldChain newChain s}

theorem validateNewChain_ne_ledger {prevHash : Hash} {w : BitVec 128} {e : ServiceError}
    (h : validateNewChain ext v now prevHash w newChain = .error e) : ∀ f, e ≠ .ledger f := by
  induction newChain generalizing prevHash w with
  | nil => cases h
  | cons block newChain ih =>
    unfold validateNewChain at h
    by_cases hprev : block.header.prevHash ≠ prevHash
    · rw [if_pos hprev] at h
      cases h
      simp
    · rw [if_neg hprev] at h
      simp only at h
      split at h
      · exact ih h
      · cases h
        simp

variable (clock oldChain) in
/-- A new chain that is not valid: the old chain is unwound and that is all. -/
theorem run_of_not_switchesTo (h : ¬ SwitchesTo v now newChain s.chain) :
    ∃ e, (∀ f, e ≠ .ledger f) ∧ run (reorganizeChain v now clock oldChain newChain) s =
      (.error e, { s with ledger := unwindBlocks ext oldChain s.ledger }) := by
  simp only [reorganizeChain, run_modify_bind]
  rcases hhead : newChain.head? with _ | first
  · exact ⟨_, by simp, rfl⟩
  simp only [run_okOr_some_bind]
  rw [run_bind, run_onChain, run_mapErr]
  have hsum := snd_run_sumFromTip truncatedWork first.header.prevHash s.chain
  rcases hrun : run (computeCumulativeWorkTipDb first.header.prevHash) s.chain with ⟨r, t⟩
  obtain rfl : t = s.chain := by
    rw [← hsum]
    exact (congrArg Prod.snd hrun).symm
  rcases r with e | w
  · exact ⟨_, by simp, rfl⟩
  · simp only
    rcases hvalid : validateNewChain ext v now first.header.prevHash w newChain with e | ⟨⟩
    · exact ⟨e, validateNewChain_ne_ledger hvalid, rfl⟩
    · exact absurd ⟨first, w, hhead, by rw [hrun], hvalid⟩ h

variable (oldChain s) in
theorem unchanged_iff (blocks : List Block) (L : Ledger) (c : ChainState ext) :
    Unchanged s { afterBlocks blocks L { s with ledger := unwindBlocks ext oldChain s.ledger } with
        chain := c } ↔
      L = s.ledger ∧ (∀ b ∈ blocks, Saved s.consensusHeight b) ∧
        c.bestHeight = s.chain.bestHeight ∧ c.bestHash = s.chain.bestHash := by
  rw [← consensus_stays_iff]
  constructor
  · rintro ⟨hledger, hconsensus, hheight, hhash⟩
    exact ⟨hledger, hconsensus, hheight, hhash⟩
  · rintro ⟨hledger, hconsensus, hheight, hhash⟩
    exact ⟨hledger, hconsensus, hheight, hhash⟩

/-- A valid new chain with a block that is too high. -/
theorem failsClean_tooHigh (hswitches : SwitchesTo v now newChain s.chain) {L : Ledger}
    (happlied : applied clock oldChain newChain s = (.ok (), L)) (hhigh : ∃ b ∈ newChain, ¬ Storable b) :
    FailsClean v now clock oldChain newChain s ↔ WritesNothing clock oldChain newChain s := by
  obtain ⟨hall, ⟨hevery, -⟩ | ⟨b, rest, hsplit, hb⟩⟩ := storable_cases newChain
  · obtain ⟨b, hb, hnot⟩ := hhigh
    exact absurd (hevery b hb) hnot
  have hrun : run (reorganizeChain v now clock oldChain newChain) s =
      (.error (.chain "Failed to store block: " .InvalidHeight),
        afterBlocks (storable newChain) L
          { s with ledger := unwindBlocks ext oldChain s.ledger }) := by
    have happly : run (applyNewChain clock 0 newChain)
        { s with ledger := unwindBlocks ext oldChain s.ledger } =
        (.error (.chain "Failed to store block: " .InvalidHeight),
          afterBlocks (storable newChain) L
            { s with ledger := unwindBlocks ext oldChain s.ledger }) := by
      calc run (applyNewChain clock 0 newChain) _
          = run (applyNewChain clock 0 (storable newChain ++ b :: rest))
              { s with ledger := unwindBlocks ext oldChain s.ledger } := by rw [← hsplit]
        _ = run (applyNewChain clock (0 + (storable newChain).length) (b :: rest))
              (afterBlocks (storable newChain) L
                { s with ledger := unwindBlocks ext oldChain s.ledger }) :=
            run_applyNewChain hall happlied
        _ = _ := run_applyNewChain_refused hb
    rw [run_reorganizeChain hswitches, applyAndMove, run_bind_error happly]
  have hunchanged := unchanged_iff oldChain s (storable newChain) L
    ((chainMachine ext).final ((storable newChain).map .storeBlock) s.chain)
  rw [tip_stays_iff hall] at hunchanged
  have hledger : (applied clock oldChain newChain s).2 = L := by rw [happlied]
  constructor
  · intro h
    obtain ⟨hL, hsaved, hextends⟩ := hunchanged.mp (by
      have hclean := h _ (by rw [hrun]) (by simp)
      rwa [hrun] at hclean)
    refine ⟨hledger.trans hL, hsaved, fun hevery => ?_, fun _ => hextends⟩
    obtain ⟨b, hb, hnot⟩ := hhigh
    exact absurd (hevery b hb) hnot
  · intro h e _ _
    rw [hrun]
    exact hunchanged.mpr ⟨hledger.symm.trans h.ledger, h.saved, h.extended hhigh⟩

/-- A valid new chain that is stored and applied to its end. -/
theorem run_reorganizeChain_stored (hswitches : SwitchesTo v now newChain s.chain) {L : Ledger}
    (happlied : applied clock oldChain newChain s = (.ok (), L)) (hevery : ∀ b ∈ newChain, Storable b) :
    ∃ last, newChain.getLast? = some last ∧ run (reorganizeChain v now clock oldChain newChain) s =
      run (onChain "Failed to update best chain: "
        (updateBestChain (Block.hash ext last) last.header.height))
        (afterBlocks newChain L { s with ledger := unwindBlocks ext oldChain s.ledger }) := by
  have happly : run (applyNewChain clock 0 newChain)
      { s with ledger := unwindBlocks ext oldChain s.ledger } =
      (.ok (), afterBlocks newChain L { s with ledger := unwindBlocks ext oldChain s.ledger }) := by
    rw [applied, storable_eq_self hevery] at happlied
    calc run (applyNewChain clock 0 newChain) _
        = run (applyNewChain clock 0 (newChain ++ []))
            { s with ledger := unwindBlocks ext oldChain s.ledger } := by rw [List.append_nil]
      _ = _ := run_applyNewChain hevery happlied
  obtain ⟨last, hlast⟩ : ∃ last, newChain.getLast? = some last := by
    obtain ⟨first, w, hfirst, -⟩ := hswitches
    rcases newChain with _ | ⟨b, blocks⟩
    · cases hfirst
    · exact ⟨_, List.getLast?_eq_some_getLast (List.cons_ne_nil _ _)⟩
  refine ⟨last, hlast, ?_⟩
  rw [run_reorganizeChain hswitches, applyAndMove, run_bind_ok happly, hlast]

/-- A panic while the new chain is applied ends the call. -/
theorem run_reorganizeChain_panics (hswitches : SwitchesTo v now newChain s.chain)
    (hpanics : (applied clock oldChain newChain s).1 = .error .panic) :
    (run (reorganizeChain v now clock oldChain newChain) s).1 = .error (.ledger .panic) := by
  have happly : (run (applyNewChain clock 0 newChain)
      { s with ledger := unwindBlocks ext oldChain s.ledger }).1 = .error (.ledger .panic) := by
    rw [← List.takeWhile_append_dropWhile (p := fun b => decide (Storable b)) (l := newChain)]
    exact run_applyNewChain_panics (storable_cases newChain).1 hpanics
  rw [run_reorganizeChain hswitches, applyAndMove, run_bind]
  rcases hresult : run (applyNewChain clock 0 newChain)
    { s with ledger := unwindBlocks ext oldChain s.ledger } with ⟨e | ⟨⟩, t⟩
  · rw [hresult] at happly
    cases happly
    rfl
  · rw [hresult] at happly
    cases happly

theorem failsClean_stored (hswitches : SwitchesTo v now newChain s.chain) {L : Ledger}
    (happlied : applied clock oldChain newChain s = (.ok (), L)) (hevery : ∀ b ∈ newChain, Storable b) :
    FailsClean v now clock oldChain newChain s ↔
      (StopsLate newChain s → WritesNothing clock oldChain newChain s) := by
  have hsame := storable_eq_self hevery
  have hledger : (applied clock oldChain newChain s).2 = L := by rw [happlied]
  obtain ⟨last, hlast, hrun⟩ := run_reorganizeChain_stored hswitches happlied hevery
  obtain ⟨-, hmoved, hheight, -⟩ := updateBestChain_moves (Block.hash ext last) last.header.height
    ((chainMachine ext).final (newChain.map .storeBlock) s.chain)
  have hchain : (afterBlocks newChain L
      { s with ledger := unwindBlocks ext oldChain s.ledger }).chain =
      (chainMachine ext).final (newChain.map .storeBlock) s.chain := rfl
  rw [run_onChain, run_mapErr, hchain] at hrun
  rcases hupdate : run (updateBestChain (Block.hash ext last) last.header.height)
    ((chainMachine ext).final (newChain.map .storeBlock) s.chain) with ⟨e | ⟨⟩, c⟩
  · rw [hupdate] at hrun hmoved hheight
    have hlate : StopsLate newChain s := .inr ⟨last, hlast, by rw [hupdate]; simp⟩
    have hunchanged := unchanged_iff oldChain s newChain L c
    rw [hmoved, hheight] at hunchanged
    constructor
    · intro h _
      obtain ⟨hL, hsaved, htip⟩ := hunchanged.mp (by
        have hclean := h _ (by rw [hrun]) (by simp)
        rwa [hrun] at hclean)
      refine ⟨hledger.trans hL, by rwa [hsame], fun _ last' hlast' => ?_, fun hhigh => ?_⟩
      · rw [hlast] at hlast'
        cases hlast'
        exact htip
      · obtain ⟨b, hb, hnot⟩ := hhigh
        exact absurd (hevery b hb) hnot
    · intro h e' _ _
      have hwrites := h hlate
      rw [hrun]
      refine hunchanged.mpr ⟨hledger.symm.trans hwrites.ledger, ?_, hwrites.moved hevery last hlast⟩
      have hsaved := hwrites.saved
      rwa [hsame] at hsaved
  · rw [hupdate] at hrun
    refine iff_of_true (fun e he => ?_) fun hlate => ?_
    · rw [hrun] at he
      cases he
    · rcases hlate with ⟨b, hb, hnot⟩ | ⟨last', hlast', hfails⟩
      · exact absurd (hevery b hb) hnot
      · rw [hlast] at hlast'
        cases hlast'
        rw [hupdate] at hfails
        exact absurd rfl hfails

end Fails

/-! ### An unpaid chain -/

/-- The light block with a coinbase that pays too little. -/
def underpaidBlock : Block := { lightBlock with coinbase := ⟨Sample.carol, 1, 7⟩ }

/-- A node whose tip is the heavy block. -/
def heavyNode : NodeState forkExt :=
  (forkMachine forkExt Sample.validator).final
    (firstBlocks ++ [.received 1767225660 (fun _ => 0) false heavyBlock])
    (start block0 (.ofAccounts Sample.aliceHas100))

end Coinjecture.Node.FailedReorgs
