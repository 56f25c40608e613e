import Coinjecture.Node.Validator
import Coinjecture.Node.Verdicts

/-! # Failing transactions

A failing transaction leaves the ledger alone unless it fails late, and then it depends on what it had
written: a charge of nothing with the nonce that was there already, or credits that add up to nothing,
cannot be seen. A block skips its failing transactions; it is worth its successful ones only
(`final_of_successes`) if every failure in it leaves the ledger alone. -/

namespace Coinjecture.Node.Atomicity

open Lib.Effect Lib.Table Lib.Trace
open Core.Types Core.Transactions Core.Blocks
open Core.Extern
open State.Accounts State.Escrows State.Stores
open Node.BlockProcessing Node.Outcomes Node.Runs
open Node.Verdicts Node.Validator

variable (ext : Ext) (now : Int64) (blockHeight : UInt64)

/-- Where this transaction fails, it leaves the ledger alone. -/
def FailsClean (tx : Transaction) (L : Ledger) : Prop :=
  verdict ext now blockHeight tx L = .late → leavesNoTrace now tx L

/-- A transaction that reports an error has no effect if and only if it is not a late failure, or a
late failure that leaves no trace. -/
theorem no_effect_of_error_iff (tx : Transaction) (L : Ledger) :
    (∀ m L', run (applySingleTransaction ext now blockHeight tx) L = (.error (.err m), L') → L' = L) ↔
      FailsClean ext now blockHeight tx L := by
  have hrun := run_applySingleTransaction ext now blockHeight tx L
  rw [FailsClean, ← verdict_outcome]
  cases ho : outcome ext now blockHeight tx L with
  | refused =>
    rw [ho] at hrun
    obtain ⟨m, hm⟩ := hrun
    simp [hm, kind, eq_comm]
  | late L1 =>
    rw [ho] at hrun
    obtain ⟨m, hm⟩ := hrun
    rw [← late_iff ext now blockHeight ho]
    simp [hm, kind]
  | panicked L1 =>
    rw [ho] at hrun
    rw [show run _ L = _ from hrun]
    simp [kind]
  | done L1 =>
    rw [ho] at hrun
    rw [show run _ L = _ from hrun]
    simp [kind]

/-- Alice opens an escrow of 10 at a fee of 1. -/
def aliceEscrow : EscrowTransaction where
  escrowType := .Create Sample.bob none 10 0 Hash.ZERO
  escrowId := Hash.ZERO
  «from» := Sample.aliceKey.toAddress
  fee := 1
  nonce := 0
  publicKey := Sample.aliceKey
  signature := ⟨0⟩
  additionalSignatures := []

/-- Alice has 100, and there is an escrow with the id of `aliceEscrow`. -/
def escrowTaken : Ledger :=
  (Ledger.ofAccounts Sample.aliceHas100).withEscrows
    (Keyed.empty.insert (escrowOf 0 aliceEscrow Sample.bob none 10 0 Hash.ZERO))

/-- The second escrow of the same id is not opened, but Alice has paid for it. -/
theorem duplicate_escrow_charged :
    (run (applySingleTransaction Sample.ext 0 1 (.Escrow aliceEscrow)) escrowTaken).1 =
      .error (.err "Escrow already exists") ∧
    escrowTaken.balance Sample.aliceKey.toAddress = 100 ∧
    (run (applySingleTransaction Sample.ext 0 1 (.Escrow aliceEscrow)) escrowTaken).2.balance
      Sample.aliceKey.toAddress = 89 ∧
    (run (applySingleTransaction Sample.ext 0 1 (.Escrow aliceEscrow)) escrowTaken).2.nonce
      Sample.aliceKey.toAddress = 1 := by
  decide

/-! ### Blocks -/

/-- The event is a coinbase, or a transaction that goes through or panics. -/
def counts (p : Event × Ledger) : Bool :=
  match p.1 with
  | .coinbase .. => true
  | .transaction now blockHeight tx =>
    verdict ext now blockHeight tx p.2 ≠ .refused ∧ verdict ext now blockHeight tx p.2 ≠ .late

/-- A failing transaction that is clean is an idle step. -/
theorem idle_of_failsClean {now : Int64} {blockHeight : UInt64} {tx : Transaction} {L : Ledger}
    (hclean : FailsClean ext now blockHeight tx L)
    (hfails : counts ext (.transaction now blockHeight tx, L) = false) :
    (machine ext).next (.transaction now blockHeight tx) L = L ∧
      (machine ext).halts (.transaction now blockHeight tx) L = false := by
  have hrun := run_applySingleTransaction ext now blockHeight tx L
  rw [FailsClean] at hclean
  simp only [counts] at hfails
  rw [← verdict_outcome] at hclean hfails
  cases ho : outcome ext now blockHeight tx L with
  | refused =>
    rw [ho] at hrun
    obtain ⟨m, hm⟩ := hrun
    simp only [machine, perform, hm, and_self]
  | late L1 =>
    rw [ho] at hrun hclean
    obtain ⟨m, hm⟩ := hrun
    have hL := (late_iff ext now blockHeight ho).mpr (hclean rfl)
    simp only [machine, perform, hm, hL, and_self]
  | panicked L1 => simp [ho, kind] at hfails
  | done L1 => simp [ho, kind] at hfails

/-- If every failure of a block is clean, the block does to the ledger what its other transactions
do. -/
theorem final_of_successes (clock : ℕ → Int64) (block : Block) (L : Ledger)
    (hclean : ∀ now blockHeight tx L', (Event.transaction now blockHeight tx, L') ∈
      (machine ext).trace (blockEvents clock block) L → FailsClean ext now blockHeight tx L') :
    (run (applyBlockTransactions ext clock block) L).2 =
      (machine ext).final ((((machine ext).trace (blockEvents clock block) L).filter
        (counts ext)).map Prod.fst) L := by
  rw [run_applyBlockTransactions, Machine.final_filter]
  rintro ⟨e, L'⟩ hp hfails
  cases e with
  | coinbase miner reward => cases hfails
  | transaction now blockHeight tx =>
    exact idle_of_failsClean ext (hclean now blockHeight tx L' hp) hfails

end Coinjecture.Node.Atomicity
