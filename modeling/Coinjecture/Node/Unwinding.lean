import Coinjecture.Lib.Saturating
import Coinjecture.Node.Outcomes

/-! # What an unwind takes back

The two writes of an unwind, as writes of one value: a credit is taken back by `satSub`, which stops
at zero, and a nonce by `nonceBack`, which stops at zero too. `refund` undoes a charge except for the
nonce, which it restores if the charge followed the sender's (`refund_charge`). -/

namespace Coinjecture.Node.Unwinding

open Lib.Saturating
open Core.Types
open State.Accounts State.Stores State.Stores.Ledger
open Node.BlockProcessing Node.Outcomes

variable {a b : Address} {v cost : Balance} {nonce : UInt64} {L : Ledger}

/-! ### Writes that change nothing -/

theorem setNonce_eq_self : L.setNonce a nonce = L ↔ nonce = L.nonce a := by
  constructor
  · intro h
    have hnonce := congrArg (Ledger.nonce a) h
    rwa [show Ledger.nonce a (L.setNonce a nonce) = nonce from Function.update_self ..] at hnonce
  · rintro rfl
    exact setNonce_self a L

theorem setBalance_eq_self : L.setBalance a v = L ↔ v = L.balance a := by
  constructor
  · intro h
    have hbalance := congrArg (balance a) h
    rwa [show balance a (L.setBalance a v) = v from Function.update_self ..] at hbalance
  · rintro rfl
    exact setBalance_self a L

/-- A balance and a nonce are written apart. -/
theorem setBalance_setNonce_eq_self :
    (L.setBalance b v).setNonce a nonce = L ↔ v = L.balance b ∧ nonce = L.nonce a := by
  constructor
  · intro h
    have hbalance := congrArg (balance b) h
    have hnonce := congrArg (Ledger.nonce a) h
    rw [show balance b ((L.setBalance b v).setNonce a nonce) = v from
      Function.update_self ..] at hbalance
    rw [show Ledger.nonce a ((L.setBalance b v).setNonce a nonce) = nonce from
      Function.update_self ..] at hnonce
    exact ⟨hbalance, hnonce⟩
  · rintro ⟨rfl, rfl⟩
    rw [setBalance_self, setNonce_self]

theorem setBalances_eq_self {u : Balance} (hab : a ≠ b) :
    (L.setBalance a u).setBalance b v = L ↔ u = L.balance a ∧ v = L.balance b := by
  constructor
  · intro h
    have ha := congrArg (balance a) h
    have hb := congrArg (balance b) h
    rw [show balance a ((L.setBalance a u).setBalance b v) = (L.setBalance a u).balance a from
      Function.update_of_ne hab ..] at ha
    rw [show (L.setBalance a u).balance a = u from Function.update_self ..] at ha
    rw [show balance b ((L.setBalance a u).setBalance b v) = v from Function.update_self ..] at hb
    exact ⟨ha, hb⟩
  · rintro ⟨rfl, rfl⟩
    rw [setBalance_self, setBalance_self]

/-! ### Credits -/

theorem takeBack_eq (a : Address) (v : Balance) (L : Ledger) :
    takeBack a v L = L.setBalance a (satSub (L.balance a) v) := by
  unfold takeBack satSub
  split_ifs
  · rfl
  · rfl

theorem setBalance_setBalance (a : Address) (u v : Balance) (L : Ledger) :
    (L.setBalance a u).setBalance a v = L.setBalance a v := by
  simp only [setBalance, AccountState.setBalance, Function.update_idem]

theorem takeBack_credit (a : Address) (v : Balance) (L : Ledger) :
    takeBack a v (L.credit a v) = L.setBalance a (satSub (L.balance a + v) v) := by
  have hbalance : (L.credit a v).balance a = L.balance a + v := Function.update_self ..
  rw [takeBack_eq, hbalance, credit, setBalance_setBalance]

/-- A credit is taken back exactly if it did not wrap. -/
theorem takeBack_credit_eq_self : takeBack a v (L.credit a v) = L ↔ NoCarry (L.balance a) v := by
  rw [takeBack_credit, setBalance_eq_self, satSub_add_iff]

/-! ### Charges -/

/-- The nonce before `n`. -/
def nonceBack (n : UInt64) : UInt64 := if 0 < n then n - 1 else n

theorem unwindNonce_eq (a : Address) (L : Ledger) :
    unwindNonce a L = L.setNonce a (nonceBack (L.nonce a)) := by
  unfold unwindNonce nonceBack
  split_ifs
  · rfl
  · exact (setNonce_self a L).symm

theorem nonceBack_eq_self {n : UInt64} : nonceBack n = n ↔ n = 0 := by
  unfold nonceBack
  split_ifs with h
  · constructor
    · intro heq
      exact absurd (sub_eq_self.mp heq) (by decide)
    · rintro rfl
      exact absurd h (by decide)
  · have hzero : n.toNat = 0 := by
      have hlt : ¬ 0 < n.toNat := fun hpos => h (UInt64.lt_iff_toNat_lt.mpr hpos)
      omega
    simp only [true_iff]
    exact UInt64.toNat_inj.mp hzero

/-- The nonce is the sender's; or it is the last one there is and the sender's is the first. -/
def NonceFollows (a : Address) (nonce : UInt64) (L : Ledger) : Prop :=
  nonce + 1 ≠ 0 ∧ nonce = L.nonce a ∨ nonce + 1 = 0 ∧ L.nonce a = 0

theorem nonceBack_succ_iff : nonceBack (nonce + 1) = L.nonce a ↔ NonceFollows a nonce L := by
  unfold nonceBack NonceFollows
  by_cases h : nonce + 1 = 0
  · simp only [h, ne_eq, not_true_eq_false, false_and, true_and, false_or]
    exact eq_comm
  · have hpos : 0 < nonce + 1 := by
      rw [UInt64.lt_iff_toNat_lt]
      have hne : (nonce + 1).toNat ≠ 0 := fun hzero => h (UInt64.toNat_inj.mp hzero)
      exact Nat.pos_of_ne_zero hne
    simp only [hpos, if_true, ne_eq, h, not_false_eq_true, true_and, false_and, or_false,
      add_sub_cancel_right]

/-- Pay `cost` back and set the nonce back. -/
def refund (a : Address) (cost : Balance) (L : Ledger) : Ledger := unwindNonce a (L.credit a cost)

theorem refund_eq (a : Address) (cost : Balance) (L : Ledger) :
    refund a cost L = (L.setBalance a (L.balance a + cost)).setNonce a (nonceBack (L.nonce a)) :=
  unwindNonce_eq ..

theorem refund_eq_self : refund a cost L = L ↔ cost = 0 ∧ L.nonce a = 0 := by
  rw [refund_eq, setBalance_setNonce_eq_self, nonceBack_eq_self, add_eq_left]

theorem credit_charge (a : Address) (cost : Balance) (nonce : UInt64) (L : Ledger) :
    (charge a cost nonce L).credit a cost = L.setNonce a (nonce + 1) := by
  have hbalance : (charge a cost nonce L).balance a = L.balance a - cost := balance_debit_self ..
  rw [credit, hbalance, sub_add_cancel]
  change ((L.setBalance a (L.balance a - cost)).setBalance a (L.balance a)).setNonce a _ = _
  rw [setBalance_setBalance, setBalance_self]

theorem refund_charge (a : Address) (cost : Balance) (nonce : UInt64) (L : Ledger) :
    refund a cost (charge a cost nonce L) = L.setNonce a (nonceBack (nonce + 1)) := by
  have hnonce : (L.setNonce a (nonce + 1)).nonce a = nonce + 1 := Function.update_self ..
  rw [refund, credit_charge, unwindNonce_eq, hnonce]
  simp only [setNonce, AccountState.setNonce, Function.update_idem]

/-- A charge is paid back exactly if its nonce followed the sender's. -/
theorem refund_charge_eq_self :
    refund a cost (charge a cost nonce L) = L ↔ NonceFollows a nonce L := by
  rw [refund_charge, setNonce_eq_self, nonceBack_succ_iff]

/-! ### The two together -/

theorem credit_comm (a b : Address) (u v : Balance) (L : Ledger) :
    (L.credit a u).credit b v = (L.credit b v).credit a u := by
  ext1
  · ext1
    · rw [balances_credit, balances_credit, balances_credit, balances_credit, add_right_comm]
    · rfl
  all_goals rfl

theorem unwindNonce_credit (a b : Address) (v : Balance) (L : Ledger) :
    unwindNonce a (L.credit b v) = (unwindNonce a L).credit b v := by
  rw [unwindNonce_eq, unwindNonce_eq]
  rfl

theorem refund_credit (a b : Address) (cost v : Balance) (L : Ledger) :
    refund a cost (L.credit b v) = (refund a cost L).credit b v := by
  rw [refund, credit_comm, unwindNonce_credit, refund]

/-- A refund and a credit taken back at one account. -/
theorem takeBack_refund (a : Address) (cost v : Balance) (L : Ledger) :
    takeBack a v (refund a cost L) =
      (L.setBalance a (satSub (L.balance a + cost) v)).setNonce a (nonceBack (L.nonce a)) := by
  rw [refund_eq, takeBack_eq]
  have hbalance : ((L.setBalance a (L.balance a + cost)).setNonce a (nonceBack (L.nonce a))).balance a =
      L.balance a + cost := Function.update_self ..
  rw [hbalance]
  change ((L.setBalance a _).setBalance a _).setNonce a _ = _
  rw [setBalance_setBalance]

end Coinjecture.Node.Unwinding
