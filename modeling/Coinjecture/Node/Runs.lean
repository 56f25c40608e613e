import Coinjecture.Lib.Trace
import Coinjecture.Node.Outcomes

/-! # Runs of blocks

A block asks for its coinbase and then for its transactions. As events of a machine on the ledger
these have a trace, in which every transaction stands with the ledger it was applied to; the machine
halts when a transaction panics.

* `run_applyBlockTransactions`, `run_applyBlocks` : applying a block, or blocks in order, is the run of
  its events. -/

namespace Coinjecture.Node.Runs

open Lib.Effect Lib.Trace
open Core.Types Core.Transactions Core.Blocks
open Core.Extern Core.Crypto
open State.Stores State.Stores.Ledger
open Node.BlockProcessing Node.Outcomes

inductive Event where
  | coinbase (miner : Address) (reward : Balance)
  | transaction (now : Int64) (blockHeight : UInt64) (tx : Transaction)
  deriving DecidableEq

variable (ext : Ext)

def perform : Event → Exec Failure Ledger Unit
  | .coinbase miner reward => modify (credit miner reward)
  | .transaction now blockHeight tx => applySingleTransaction ext now blockHeight tx

/-- The event goes through at `L`. -/
def succeeds (e : Event) (L : Ledger) : Bool :=
  match (run (perform ext e) L).1 with
  | .ok () => true
  | .error _ => false

def machine : Machine Event Ledger where
  next e L := (run (perform ext e) L).2
  halts e L :=
    match (run (perform ext e) L).1 with
    | .error .panic => true
    | _ => false

/-- The transactions of a block from position `i` on. -/
def transactionEvents (clock : ℕ → Int64) (blockHeight : UInt64) : ℕ → List Transaction → List Event
  | _, [] => []
  | i, tx :: txs => .transaction (clock i) blockHeight tx ::
      transactionEvents clock blockHeight (i + 1) txs

def blockEvents (clock : ℕ → Int64) (block : Block) : List Event :=
  .coinbase block.header.miner block.coinbase.reward ::
    transactionEvents clock block.header.height 0 block.transactions

/-- A block and the clock readings of the time it is applied at. -/
abbrev TimedBlock := Block × (ℕ → Int64)

/-- Blocks applied in order; a panic ends it. -/
def applyBlocks : List TimedBlock → Exec Failure Ledger Unit
  | [] => pure ()
  | (block, clock) :: blocks => do
    let _appliedTxs ← applyBlockTransactions ext clock block
    applyBlocks blocks

def chainEvents (blocks : List TimedBlock) : List Event :=
  blocks.flatMap fun b => blockEvents b.2 b.1

/-- A step of a run: what is applied, and the ledger it is applied to. -/
abbrev Step := Event × Ledger

/-- The steps of applying blocks in order. -/
def steps (blocks : List TimedBlock) (L : Ledger) : List Step :=
  (machine ext).trace (chainEvents blocks) L

/-- The steps of applying one block. -/
def blockSteps (clock : ℕ → Int64) (block : Block) (L : Ledger) : List Step :=
  (machine ext).trace (blockEvents clock block) L

/-! ### Steps -/

@[simp] theorem next_coinbase (miner : Address) (reward : Balance) (L : Ledger) :
    (machine ext).next (.coinbase miner reward) L = L.credit miner reward := rfl

@[simp] theorem halts_coinbase (miner : Address) (reward : Balance) (L : Ledger) :
    (machine ext).halts (.coinbase miner reward) L = false := rfl

/-- The ledger a transaction leaves. -/
theorem next_transaction (now : Int64) (blockHeight : UInt64) (tx : Transaction) (L : Ledger) :
    (machine ext).next (.transaction now blockHeight tx) L =
      after L (outcome ext now blockHeight tx L) := by
  have h := run_applySingleTransaction ext now blockHeight tx L
  simp only [machine, perform]
  cases ho : outcome ext now blockHeight tx L with
  | refused =>
    rw [ho] at h
    obtain ⟨m, hm⟩ := h
    rw [hm, after]
  | late L' =>
    rw [ho] at h
    obtain ⟨m, hm⟩ := h
    rw [hm, after]
  | panicked L' =>
    rw [ho] at h
    rw [show run _ L = _ from h, after]
  | done L' =>
    rw [ho] at h
    rw [show run _ L = _ from h, after]

theorem succeeds_transaction (now : Int64) (blockHeight : UInt64) (tx : Transaction) (L : Ledger) :
    succeeds ext (.transaction now blockHeight tx) L = true ↔
      ∃ L', outcome ext now blockHeight tx L = .done L' := by
  have h := run_applySingleTransaction ext now blockHeight tx L
  simp only [succeeds, perform]
  cases ho : outcome ext now blockHeight tx L with
  | refused =>
    rw [ho] at h
    obtain ⟨m, hm⟩ := h
    simp [hm]
  | late L' =>
    rw [ho] at h
    obtain ⟨m, hm⟩ := h
    simp [hm]
  | panicked L' =>
    rw [ho] at h
    rw [show run _ L = _ from h]
    simp
  | done L' =>
    rw [ho] at h
    rw [show run _ L = _ from h]
    simp

theorem mem_of_mem_transactionEvents {clock : ℕ → Int64} {height : UInt64} {i : ℕ}
    {txs : List Transaction} {now : Int64} {blockHeight : UInt64} {tx : Transaction}
    (h : .transaction now blockHeight tx ∈ transactionEvents clock height i txs) : tx ∈ txs := by
  induction txs generalizing i with
  | nil => cases h
  | cons tx' txs ih =>
    rcases List.mem_cons.mp h with heq | h
    · cases heq
      exact List.mem_cons_self
    · exact List.mem_cons_of_mem _ (ih h)

/-- A transaction that is applied stands in the block. -/
theorem mem_of_mem_blockSteps {clock : ℕ → Int64} {block : Block} {now : Int64}
    {blockHeight : UInt64} {tx : Transaction} {L L' : Ledger}
    (h : (.transaction now blockHeight tx, L') ∈ blockSteps ext clock block L) :
    tx ∈ block.transactions := by
  rcases List.mem_cons.mp (Machine.mem_of_mem_trace h) with heq | h
  · cases heq
  · exact mem_of_mem_transactionEvents h

/-! ### The code's loops are runs -/

/-- The hash of a transaction that goes through. -/
def appliedHash : Event × Ledger → Option Hash
  | (.coinbase .., _) => none
  | (.transaction now blockHeight tx, L) =>
    if succeeds ext (.transaction now blockHeight tx) L then some (Transaction.hash ext tx) else none

/-- How the code's loops end: a panic is passed on. -/
def ending (halted : Bool) {α : Type} (a : α) : Except Failure α :=
  if halted then .error .panic else .ok a

theorem run_applyTransactions (clock : ℕ → Int64) (blockHeight : UInt64) (i : ℕ)
    (txs : List Transaction) (L : Ledger) :
    run (applyTransactions ext clock blockHeight i txs) L =
      (ending ((machine ext).halted (transactionEvents clock blockHeight i txs) L)
        (((machine ext).trace (transactionEvents clock blockHeight i txs) L).filterMap
          (appliedHash ext)),
      (machine ext).final (transactionEvents clock blockHeight i txs) L) := by
  induction txs generalizing i L with
  | nil => rfl
  | cons tx txs ih =>
    rw [applyTransactions, transactionEvents, run_bind, run_attempt]
    set e := Event.transaction (clock i) blockHeight tx
    have hrun : run (applySingleTransaction ext (clock i) blockHeight tx) L = run (perform ext e) L :=
      rfl
    rw [hrun]
    rcases hp : run (perform ext e) L with ⟨r, L'⟩
    have hnext : (machine ext).next e L = L' := by simp only [machine, hp]
    rcases r with (m | _) | _
    · have hhalt : (machine ext).halts e L = false := by simp only [machine, hp]
      have hs : appliedHash ext (e, L) = none :=
        if_neg (by rw [show succeeds ext e L = false by simp only [succeeds, hp]]; simp)
      rw [Machine.trace_cons hhalt, Machine.final_cons hhalt, Machine.halted_cons hhalt, hnext,
        List.filterMap_cons_none hs]
      simp only
      rw [run_bind, ih]
      cases (machine ext).halted (transactionEvents clock blockHeight (i + 1) txs) L' with
      | false => rfl
      | true => rfl
    · have hhalt : (machine ext).halts e L = true := by simp only [machine, hp]
      rw [Machine.final_cons_halt hhalt, Machine.halted_cons_halt hhalt, hnext]
      rfl
    · have hhalt : (machine ext).halts e L = false := by simp only [machine, hp]
      have hs : appliedHash ext (e, L) = some (Transaction.hash ext tx) :=
        if_pos (show succeeds ext e L = true by simp only [succeeds, hp])
      rw [Machine.trace_cons hhalt, Machine.final_cons hhalt, Machine.halted_cons hhalt, hnext,
        List.filterMap_cons_some hs]
      simp only
      rw [run_bind, ih]
      cases (machine ext).halted (transactionEvents clock blockHeight (i + 1) txs) L' with
      | false => rfl
      | true => rfl

/-- Applying a block is the run of its events. -/
theorem run_applyBlockTransactions (clock : ℕ → Int64) (block : Block) (L : Ledger) :
    run (applyBlockTransactions ext clock block) L =
      (ending ((machine ext).halted (blockEvents clock block) L)
        (((machine ext).trace (blockEvents clock block) L).filterMap (appliedHash ext)),
      (machine ext).final (blockEvents clock block) L) := by
  have hhalt := halts_coinbase ext block.header.miner block.coinbase.reward L
  rw [blockEvents, Machine.trace_cons hhalt, Machine.final_cons hhalt, Machine.halted_cons hhalt,
    List.filterMap_cons_none rfl, next_coinbase, ← run_applyTransactions]
  simp only [applyBlockTransactions, run_gets_bind, run_modify_bind]
  rfl

/-- Applying blocks in order is the run of all their events. -/
theorem run_applyBlocks (blocks : List TimedBlock) (L : Ledger) :
    run (applyBlocks ext blocks) L =
      (ending ((machine ext).halted (chainEvents blocks) L) (),
      (machine ext).final (chainEvents blocks) L) := by
  induction blocks generalizing L with
  | nil => rfl
  | cons b blocks ih =>
    obtain ⟨block, clock⟩ := b
    rw [applyBlocks, run_bind, run_applyBlockTransactions, chainEvents, List.flatMap_cons,
      Machine.final_append, Machine.halted_append]
    cases (machine ext).halted (blockEvents clock block) L with
    | false => exact ih _
    | true => rfl

/-! ### Blocks all of whose transactions go through -/

/-- The first of the transactions is skipped, or it goes through and its hash is the first one. -/
theorem applyTransactions_cons_ok {clock : ℕ → Int64} {blockHeight : UInt64} {i : ℕ} {tx : Transaction}
    {txs : List Transaction} {L L' : Ledger} {hashes : List Hash}
    (h : run (applyTransactions ext clock blockHeight i (tx :: txs)) L = (.ok hashes, L')) : ∃ L1,
    run (applyTransactions ext clock blockHeight (i + 1) txs) L1 = (.ok hashes, L') ∨
      ∃ hs, run (applySingleTransaction ext (clock i) blockHeight tx) L = (.ok (), L1) ∧
        run (applyTransactions ext clock blockHeight (i + 1) txs) L1 = (.ok hs, L') ∧
        hashes = Transaction.hash ext tx :: hs := by
  rw [applyTransactions, run_bind, run_attempt] at h
  rcases hp : run (applySingleTransaction ext (clock i) blockHeight tx) L with ⟨(m | _) | _, L1⟩
  all_goals
    rw [hp] at h
    simp only at h
  · refine ⟨L1, .inl ?_⟩
    rw [run_bind] at h
    rcases ht : run (applyTransactions ext clock blockHeight (i + 1) txs) L1 with ⟨_ | hs, L2⟩
    all_goals
      rw [ht] at h
      cases h
    rfl
  · cases h
  · rw [run_bind] at h
    rcases ht : run (applyTransactions ext clock blockHeight (i + 1) txs) L1 with ⟨_ | hs, L2⟩
    all_goals
      rw [ht] at h
      cases h
    exact ⟨L1, .inr ⟨hs, rfl, ht, rfl⟩⟩

theorem length_appliedHashes_le {clock : ℕ → Int64} {blockHeight : UInt64} {i : ℕ}
    {txs : List Transaction} {L L' : Ledger} {hashes : List Hash}
    (h : run (applyTransactions ext clock blockHeight i txs) L = (.ok hashes, L')) :
    hashes.length ≤ txs.length := by
  induction txs generalizing i L hashes with
  | nil =>
    cases h
    exact le_rfl
  | cons tx txs ih =>
    obtain ⟨L1, hskip | ⟨hs, -, hrest, rfl⟩⟩ := applyTransactions_cons_ok ext h
    · exact Nat.le_succ_of_le (ih hskip)
    · exact Nat.succ_le_succ (ih hrest)

/-- A list of transactions goes through if the first does and then the others do. -/
theorem applyTransactions_all_cons {clock : ℕ → Int64} {blockHeight : UInt64} {i : ℕ}
    {tx : Transaction} {txs : List Transaction} {L L' : Ledger}
    (h : run (applyTransactions ext clock blockHeight i (tx :: txs)) L =
      (.ok ((tx :: txs).map (Transaction.hash ext)), L')) :
    ∃ L1, run (applySingleTransaction ext (clock i) blockHeight tx) L = (.ok (), L1) ∧
      run (applyTransactions ext clock blockHeight (i + 1) txs) L1 =
        (.ok (txs.map (Transaction.hash ext)), L') := by
  obtain ⟨L1, hskip | ⟨hs, hfirst, hrest, heq⟩⟩ := applyTransactions_cons_ok ext h
  · -- a skipped transaction leaves a shorter list of hashes
    have hlen := length_appliedHashes_le ext hskip
    simp at hlen
  · rw [List.map_cons, List.cons.injEq] at heq
    exact ⟨L1, hfirst, heq.2 ▸ hrest⟩

/-- The transactions of a block that goes through, after its coinbase. -/
theorem applyBlockTransactions_all {clock : ℕ → Int64} {block : Block} {L L' : Ledger}
    (h : run (applyBlockTransactions ext clock block) L =
      (.ok (block.transactions.map (Transaction.hash ext)), L')) :
    run (applyTransactions ext clock block.header.height 0 block.transactions)
      (L.credit block.header.miner block.coinbase.reward) =
        (.ok (block.transactions.map (Transaction.hash ext)), L') := by
  simp only [applyBlockTransactions, run_gets_bind, run_modify_bind] at h
  exact h

end Coinjecture.Node.Runs
