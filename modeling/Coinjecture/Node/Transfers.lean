import Coinjecture.Node.Runs

/-! # Blocks of transfers

A transfer that goes through posts its amount and its cost to the balances and writes the nonce of
its sender; of the seven stores only the accounts change. -/

namespace Coinjecture.Node.Transfers

open Lib.Effect Lib.Postings
open Core.Types Core.Transactions Core.Blocks
open Core.Extern Core.Crypto
open State.Accounts State.Stores State.Stores.Ledger
open Node.BlockProcessing Node.Outcomes Node.Runs

/-- What a transfer adds to the balances. -/
def posting (tx : TransferTransaction) : Address → Balance :=
  Pi.single tx.to tx.amount - Pi.single tx.from (tx.amount + tx.fee)

/-- The accounts after a transfer. -/
def posted (tx : TransferTransaction) (s : AccountState) : AccountState where
  balances := s.balances + posting tx
  nonces := Function.update s.nonces tx.from (tx.nonce + 1)

def withAccounts (s : AccountState) (L : Ledger) : Ledger := { L with accounts := s }

theorem charge_credit (tx : TransferTransaction) (L : Ledger) :
    (charge tx.from (tx.amount + tx.fee) tx.nonce L).credit tx.to tx.amount =
      withAccounts (posted tx L.accounts) L := by
  have hbal : ((charge tx.from (tx.amount + tx.fee) tx.nonce L).credit tx.to
      tx.amount).accounts.balances = L.accounts.balances + posting tx := by
    rw [balances_credit]
    change (L.debit tx.from (tx.amount + tx.fee)).accounts.balances + _ = _
    rw [balances_debit, posting]
    abel
  ext : 1
  · ext1
    · exact hbal
    · rfl
  all_goals rfl

/-- A transfer goes through if the balance covers its cost. -/
theorem run_transfer_ok (ext : Ext) (now : Int64) (blockHeight : UInt64) (tx : TransferTransaction)
    (L L' : Ledger) :
    run (applySingleTransaction ext now blockHeight (.Transfer tx)) L = (.ok (), L') ↔
      tx.amount + tx.fee ≤ L.balance tx.from ∧ L' = withAccounts (posted tx L.accounts) L := by
  have h := run_applySingleTransaction ext now blockHeight (.Transfer tx) L
  rw [outcome, charge_credit] at h
  rw [← BitVec.not_lt]
  split_ifs at h with hlow
  · obtain ⟨m, hm⟩ := h
    simp [hm, hlow]
  · rw [show run _ L = _ from h]
    simp [hlow, eq_comm]

end Coinjecture.Node.Transfers
