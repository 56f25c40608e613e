import Coinjecture.State.Accounts

/-! # The two account stores

Both hold the balances that `AccountState` describes. The redb store writes both balances of a transfer
in one database transaction, and leaves them as they were if it does not commit. The ADZDB store changes
the maps in memory, which every read goes to, and then saves them to a file. -/

namespace Coinjecture.State.AdzdbAccounts

open Lib.Effect
open Core.Types
open State.Accounts

/-- `StateError` of either store: a check failed, or a write (of the database, or of the file). -/
inductive TransferError where
  | Check (e : StateError)
  | Write
  deriving DecidableEq

/-- `AccountState::transfer`, with what becomes of its database transaction. -/
def transferRedb (commits : Bool) (src dst : Address) (amount : Balance) :
    Exec TransferError AccountState Unit := do
  let fromBalance ← gets (AccountState.getBalance src)
  throwIf (fromBalance < amount) (.Check (.InsufficientBalance src fromBalance amount))
  let toBalance ← gets (AccountState.getBalance dst)
  throwIf (!commits) .Write
  modify (AccountState.setBalance src (fromBalance - amount))
  modify (AccountState.setBalance dst (toBalance + amount))

/-- `AdzdbAccountState`: the maps in memory, and the balances in the file. -/
@[ext] structure AdzdbAccountState where
  memory : AccountState
  file : Address → Balance

namespace AdzdbAccountState

/-- `balances.insert`. -/
def insert (address : Address) (balance : Balance) (s : AdzdbAccountState) : AdzdbAccountState :=
  { s with memory := s.memory.setBalance address balance }

/-- `save_balances`. -/
def saveBalances (saves : Bool) : Exec TransferError AdzdbAccountState Unit := do
  throwIf (!saves) .Write
  modify fun s => { s with file := s.memory.balances }

/-- `AdzdbAccountState::transfer`. -/
def transfer (saves : Bool) (src dst : Address) (amount : Balance) :
    Exec TransferError AdzdbAccountState Unit := do
  let fromBalance ← gets fun s => s.memory.getBalance src
  throwIf (fromBalance < amount) (.Check (.InsufficientBalance src fromBalance amount))
  let toBalance ← gets fun s => s.memory.getBalance dst
  modify (insert src (fromBalance - amount))
  modify (insert dst (toBalance + amount))
  saveBalances saves

end AdzdbAccountState

/-- The balances after a transfer that writes. -/
def transferred (src dst : Address) (amount : Balance) (s : AccountState) : AccountState :=
  (s.setBalance src (s.getBalance src - amount)).setBalance dst (s.getBalance dst + amount)

theorem run_transferRedb (commits : Bool) (src dst : Address) (amount : Balance) (s : AccountState) :
    run (transferRedb commits src dst amount) s =
      if s.getBalance src < amount then
        (.error (.Check (.InsufficientBalance src (s.getBalance src) amount)), s)
      else if commits then (.ok (), transferred src dst amount s) else (.error .Write, s) := by
  simp only [transferRedb, run_gets_bind, run_throwIf_bind, run_modify_bind, run_modify]
  cases commits <;> rfl

/-- The redb transfer is the one of the model of the accounts, where the database commits. -/
theorem run_transferRedb_commits (src dst : Address) (amount : Balance) (s : AccountState) :
    run (transferRedb true src dst amount) s =
      ((run (AccountState.transfer src dst amount) s).1.mapError .Check,
        (run (AccountState.transfer src dst amount) s).2) := by
  rw [run_transferRedb, AccountState.run_transfer, if_pos rfl]
  split_ifs <;> rfl

theorem run_transfer (saves : Bool) (src dst : Address) (amount : Balance) (s : AdzdbAccountState) :
    run (AdzdbAccountState.transfer saves src dst amount) s =
      if s.memory.getBalance src < amount then
        (.error (.Check (.InsufficientBalance src (s.memory.getBalance src) amount)), s)
      else if saves then (.ok (),
        ⟨transferred src dst amount s.memory, (transferred src dst amount s.memory).balances⟩)
      else (.error .Write, ⟨transferred src dst amount s.memory, s.file⟩) := by
  simp only [AdzdbAccountState.transfer, AdzdbAccountState.saveBalances, run_gets_bind,
    run_throwIf_bind, run_modify_bind, run_modify]
  cases saves <;> rfl

/-! ### The balances after a transfer -/

theorem balances_transferred_of_ne {src dst x : Address} (amount : Balance) (s : AccountState)
    (hsrc : x ≠ src) (hdst : x ≠ dst) : (transferred src dst amount s).balances x = s.balances x := by
  rw [transferred, AccountState.balances_setBalance, Function.update_of_ne hdst,
    AccountState.balances_setBalance, Function.update_of_ne hsrc]

theorem balances_transferred_dst (src dst : Address) (amount : Balance) (s : AccountState) :
    (transferred src dst amount s).balances dst = s.balances dst + amount := by
  rw [transferred, AccountState.balances_setBalance, Function.update_self]

/-- Both balances are read first, so a transfer to oneself only adds the amount. -/
theorem transferred_self (a : Address) (amount : Balance) (s : AccountState) :
    transferred a a amount s = s.setBalance a (s.getBalance a + amount) := by
  refine AccountState.ext ?_ rfl
  rw [transferred, AccountState.balances_setBalance, AccountState.balances_setBalance,
    Function.update_idem]
  rfl

theorem transferred_eq_self_iff {src dst : Address} {amount : Balance} {s : AccountState} :
    transferred src dst amount s = s ↔ amount = 0 := by
  constructor
  · intro h
    have hdst := balances_transferred_dst src dst amount s
    rw [h] at hdst
    exact (left_eq_add).mp hdst
  · rintro rfl
    refine AccountState.ext ?_ rfl
    rw [transferred, AccountState.balances_setBalance, AccountState.balances_setBalance, sub_zero,
      add_zero, Function.update_eq_self, Function.update_eq_self]

end Coinjecture.State.AdzdbAccounts
