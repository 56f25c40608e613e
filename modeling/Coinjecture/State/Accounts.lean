import Coinjecture.Core.Types
import Coinjecture.Lib.Effect
import Mathlib.Logic.Function.Basic

/-! # The account store

Balances and nonces by address; an address that was never written has balance 0 and nonce 0. Every
write of the code is a database transaction of its own; it is taken to commit, so `set_balance` and
`set_nonce` do not fail here. -/

namespace Coinjecture.State.Accounts

open Lib.Effect
open Core.Types

/-- `AccountState`. -/
@[ext] structure AccountState where
  balances : Address → Balance
  nonces : Address → UInt64

/-- Accounts with the listed balances, none of which has sent anything. -/
def AccountState.ofBalances (entries : List (Address × Balance)) : AccountState where
  balances a := (entries.lookup a).getD 0
  nonces _ := 0

/-- `StateError`, without the database errors. -/
inductive StateError where
  | InsufficientBalance (address : Address) (balance required : Balance)
  deriving DecidableEq

namespace AccountState

abbrev getBalance (address : Address) (s : AccountState) : Balance := s.balances address

def setBalance (address : Address) (balance : Balance) (s : AccountState) : AccountState :=
  { s with balances := Function.update s.balances address balance }

abbrev getNonce (address : Address) (s : AccountState) : UInt64 := s.nonces address

def setNonce (address : Address) (nonce : UInt64) (s : AccountState) : AccountState :=
  { s with nonces := Function.update s.nonces address nonce }

/-- `AccountState::increment_nonce`. -/
def incrementNonce (address : Address) (s : AccountState) : AccountState :=
  s.setNonce address (s.getNonce address + 1)

/-- `AccountState::transfer`: both balances are read before either is written. -/
def transfer (src dst : Address) (amount : Balance) : Exec StateError AccountState Unit := do
  let fromBalance ← gets (getBalance src)
  throwIf (fromBalance < amount) (.InsufficientBalance src fromBalance amount)
  let toBalance ← gets (getBalance dst)
  modify (setBalance src (fromBalance - amount))
  modify (setBalance dst (toBalance + amount))

theorem run_transfer (src dst : Address) (amount : Balance) (s : AccountState) :
    run (transfer src dst amount) s =
      if s.getBalance src < amount then
        (.error (.InsufficientBalance src (s.getBalance src) amount), s)
      else (.ok (), (s.setBalance src (s.getBalance src - amount)).setBalance dst
        (s.getBalance dst + amount)) := by
  simp only [transfer, run_gets_bind, run_throwIf_bind, run_modify_bind, run_modify]

@[simp] theorem balances_setBalance (a : Address) (v : Balance) (s : AccountState) :
    (s.setBalance a v).balances = Function.update s.balances a v := rfl

@[simp] theorem nonces_setBalance (a : Address) (v : Balance) (s : AccountState) :
    (s.setBalance a v).nonces = s.nonces := rfl

@[simp] theorem balances_setNonce (a : Address) (n : UInt64) (s : AccountState) :
    (s.setNonce a n).balances = s.balances := rfl

@[simp] theorem nonces_setNonce (a : Address) (n : UInt64) (s : AccountState) :
    (s.setNonce a n).nonces = Function.update s.nonces a n := rfl

end AccountState

end Coinjecture.State.Accounts
