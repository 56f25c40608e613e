import Coinjecture.Node.Runs

/-! # The ledger but for the pools

A swap charges its sender whether it is done or not, and no other transaction looks at the pools. So what a
block does to the rest of the ledger does not depend on the pools.

* `ButPools.applyBlockTransactions` : ledgers that differ in the pools at most still do so after a block. -/

namespace Coinjecture.Node.PoolFrame

open Lib.Effect Lib.Trace
open Core.Types Core.Blocks Core.Extern
open Core.Transactions State.DimensionalPools
open State.Stores State.Stores.Ledger
open Node.BlockProcessing Node.Outcomes Node.Runs

/-- The ledgers differ in the pools at most. -/
def ButPools (L L' : Ledger) : Prop := L.withPools L'.pools = L'

theorem ButPools.refl (L : Ledger) : ButPools L L := rfl

theorem ButPools.symm {L L' : Ledger} (h : ButPools L L') : ButPools L' L := by
  rw [ButPools, ← h]
  rfl

theorem ButPools.trans {L L' L'' : Ledger} (h : ButPools L L') (h' : ButPools L' L'') : ButPools L L'' := by
  rw [ButPools, ← h', ← h]
  rfl

theorem ButPools.accounts {L L' : Ledger} (h : ButPools L L') : L.accounts = L'.accounts := by
  rw [← h]
  rfl

theorem ButPools.withPools (L : Ledger) (p : DimensionalPoolState) : ButPools (L.withPools p) L := rfl

/-- The outcome with other pools. -/
def withPoolsAfter (p : DimensionalPoolState) : Outcome → Outcome
  | .refused => .refused
  | .late L => .late (L.withPools p)
  | .panicked L => .panicked (L.withPools p)
  | .done L => .done (L.withPools p)

section Transactions

variable (ext : Ext) (now : Int64) (blockHeight : UInt64) (p : DimensionalPoolState)

/-- A transaction other than a swap does not look at the pools. -/
theorem outcome_withPools {tx : Transaction} (hswap : ∀ swap, tx ≠ .DimensionalPoolSwap swap) (L : Ledger) :
    outcome ext now blockHeight tx (L.withPools p) = withPoolsAfter p (outcome ext now blockHeight tx L) := by
  have hescrows : (L.withPools p).escrows = L.escrows := rfl
  have hchannels : (L.withPools p).channels = L.channels := rfl
  have htrustlines : (L.withPools p).trustlines = L.trustlines := rfl
  have hmarketplace : (L.withPools p).marketplace = L.marketplace := rfl
  cases tx with
  | Transfer tx =>
    simp only [outcome]
    rw [apply_ite (withPoolsAfter p)]
    rfl
  | TimeLock tx =>
    simp only [outcome]
    rw [apply_ite (withPoolsAfter p)]
    rfl
  | Escrow tx =>
    rcases htype : tx.escrowType with ⟨recipient, arbiter, amount, timeout, conditionsHash⟩ | _ | _
    · simp only [outcome, htype]
      rw [apply_ite (withPoolsAfter p), apply_ite (withPoolsAfter p)]
      rfl
    · simp only [outcome, htype, hescrows]
      rcases L.escrows.get tx.escrowId with _ | escrow
      · rfl
      · simp only
        rw [apply_ite (withPoolsAfter p)]
        rfl
    · simp only [outcome, htype, hescrows]
      rcases L.escrows.get tx.escrowId with _ | escrow
      · rfl
      · simp only
        rw [apply_ite (withPoolsAfter p)]
        rfl
  | Channel tx =>
    rcases htype : tx.channelType with ⟨participantA, participantB, depositA, depositB, timeout⟩ |
      ⟨sequence, balanceA, balanceB⟩ | ⟨finalBalanceA, finalBalanceB⟩ |
      ⟨sequence, balanceA, balanceB, disputeProof⟩
    · simp only [outcome, htype]
      rw [apply_ite (withPoolsAfter p), apply_ite (withPoolsAfter p)]
      rfl
    · simp only [outcome, htype, hchannels]
      rcases updated tx sequence balanceA balanceB L.channels with _ | s
      · rfl
      · rfl
    · simp only [outcome, htype, hchannels]
      rcases L.channels.get tx.channelId with _ | channel
      · rfl
      · simp only
        rcases closed blockHeight channel finalBalanceA finalBalanceB L.channels with _ | s
        · rfl
        · rfl
    · simp only [outcome, htype, hchannels]
      rcases disputed now tx sequence balanceA balanceB L.channels with _ | s
      · rfl
      · rfl
  | TrustLine tx =>
    simp only [outcome, htrustlines]
    rw [apply_ite (withPoolsAfter p)]
    rcases trustlineChanged ext blockHeight tx L.trustlines with _ | s
    · rfl
    · rfl
  | DimensionalPoolSwap tx => exact absurd rfl (hswap tx)
  | Marketplace tx =>
    simp only [outcome, hmarketplace]
    rw [apply_ite (withPoolsAfter p)]
    rcases marketOutcome ext now tx L.marketplace with s | _ | ⟨s, payee, amount⟩
    · rfl
    · rfl
    · rfl

/-- A transaction leaves ledgers that differ in the pools at most, and panics at both or at none. -/
theorem ButPools.outcome {L L' : Ledger} (h : ButPools L L') (tx : Transaction) :
    ButPools (after L (outcome ext now blockHeight tx L)) (after L' (outcome ext now blockHeight tx L')) ∧
      ((∃ M, Outcomes.outcome ext now blockHeight tx L = .panicked M) ↔
        ∃ M, Outcomes.outcome ext now blockHeight tx L' = .panicked M) := by
  obtain ⟨p, rfl⟩ : ∃ p, L' = L.withPools p := ⟨L'.pools, Eq.symm h⟩
  by_cases hswap : ∀ swap, tx ≠ .DimensionalPoolSwap swap
  · rw [outcome_withPools ext now blockHeight p hswap]
    rcases Outcomes.outcome ext now blockHeight tx L with _ | M | M | M
    · exact ⟨rfl, by simp [withPoolsAfter]⟩
    · exact ⟨rfl, by simp [withPoolsAfter]⟩
    · exact ⟨rfl, by simp [withPoolsAfter]⟩
    · exact ⟨rfl, by simp [withPoolsAfter]⟩
  · simp only [not_forall, not_not] at hswap
    obtain ⟨swap, rfl⟩ := hswap
    simp only [Outcomes.outcome]
    change ButPools _ (after (L.withPools p) (if L.balance swap.from < swap.fee then _ else _)) ∧
      (_ ↔ ∃ M, (if L.balance swap.from < swap.fee then _ else _) = _)
    split_ifs
    · exact ⟨rfl, by simp⟩
    · rcases swapDone ext blockHeight swap L.pools with _ | s
      · rcases swapDone ext blockHeight swap (L.withPools p).pools with _ | s
        · exact ⟨rfl, by simp⟩
        · exact ⟨rfl, by simp⟩
      · rcases swapDone ext blockHeight swap (L.withPools p).pools with _ | s'
        · exact ⟨rfl, by simp⟩
        · exact ⟨rfl, by simp⟩

theorem halts_transaction (tx : Transaction) (L : Ledger) :
    (machine ext).halts (.transaction now blockHeight tx) L = true ↔
      ∃ M, outcome ext now blockHeight tx L = .panicked M := by
  have h := run_applySingleTransaction ext now blockHeight tx L
  simp only [machine, perform]
  cases ho : outcome ext now blockHeight tx L with
  | refused =>
    rw [ho] at h
    obtain ⟨m, hm⟩ := h
    simp [hm]
  | late M =>
    rw [ho] at h
    obtain ⟨m, hm⟩ := h
    simp [hm]
  | panicked M =>
    rw [ho] at h
    rw [show run _ L = _ from h]
    simp
  | done M =>
    rw [ho] at h
    rw [show run _ L = _ from h]
    simp

end Transactions

/-! ### Runs -/

section Runs

variable (ext : Ext) {L L' : Ledger}

theorem ButPools.next (h : ButPools L L') (e : Event) :
    ButPools ((machine ext).next e L) ((machine ext).next e L') ∧
      (machine ext).halts e L = (machine ext).halts e L' := by
  cases e with
  | coinbase miner reward =>
    obtain ⟨p, rfl⟩ : ∃ p, L' = L.withPools p := ⟨L'.pools, Eq.symm h⟩
    exact ⟨rfl, rfl⟩
  | transaction now blockHeight tx =>
    obtain ⟨hafter, hpanics⟩ := h.outcome ext now blockHeight tx
    refine ⟨?_, ?_⟩
    · rw [next_transaction, next_transaction]
      exact hafter
    · rw [Bool.eq_iff_iff, halts_transaction, halts_transaction]
      exact hpanics

theorem ButPools.final (h : ButPools L L') (events : List Event) :
    ButPools ((machine ext).final events L) ((machine ext).final events L') ∧
      (machine ext).halted events L = (machine ext).halted events L' := by
  induction events generalizing L L' with
  | nil => exact ⟨h, rfl⟩
  | cons e events ih =>
    obtain ⟨hnext, hhalts⟩ := h.next ext e
    cases hhalt : (machine ext).halts e L with
    | true =>
      rw [hhalt] at hhalts
      rw [Machine.final_cons_halt hhalt, Machine.final_cons_halt hhalts.symm, Machine.halted_cons_halt hhalt,
        Machine.halted_cons_halt hhalts.symm]
      exact ⟨hnext, rfl⟩
    | false =>
      rw [hhalt] at hhalts
      rw [Machine.final_cons hhalt, Machine.final_cons hhalts.symm, Machine.halted_cons hhalt,
        Machine.halted_cons hhalts.symm]
      exact ih hnext

/-- A block leaves ledgers that differ in the pools at most. -/
theorem ButPools.applyBlockTransactions (h : ButPools L L') (clock : ℕ → Int64) (block : Block) :
    ButPools (run (applyBlockTransactions ext clock block) L).2 (run (applyBlockTransactions ext clock block) L').2 := by
  rw [run_applyBlockTransactions, run_applyBlockTransactions]
  exact (h.final ext (blockEvents clock block)).1

end Runs

end Coinjecture.Node.PoolFrame
