import Coinjecture.Node.Conservation
import Coinjecture.State.AdzdbAccounts

/-! # Transfers between accounts

A transfer that goes through moves money: the sum of all balances stays, and so does every other account.
One that fails leaves the store as it was, and the two stores do the same.

* `transferConserves_iff` : this is so unless an amount is sent to its own sender, the receiver's balance
  leaves the 128 bits, or the write fails.
-/

namespace Coinjecture.Node.AccountTransfers

open Lib.Effect
open Core.Types
open State.Accounts State.AdzdbAccounts
open Node.Conservation

/-- What a transfer keeps of a store `s`, whose accounts are read by `view`. -/
structure KeepsMoney {σ : Type} (view : σ → AccountState) (src dst : Address) (s : σ)
    (outcome : Except TransferError Unit × σ) : Prop where
  sum : outcome.1 = .ok () → coins (view outcome.2) = coins (view s)
  frame : outcome.1 = .ok () → ∀ x, x ≠ src → x ≠ dst →
    (view outcome.2).balances x = (view s).balances x
  failed : outcome.1 ≠ .ok () → outcome.2 = s

/-- The transfer conserves money in both stores, and they agree. -/
def TransferConserves (persists : Bool) (src dst : Address) (amount : Balance) (s : AdzdbAccountState) :
    Prop :=
  KeepsMoney id src dst s.memory (run (transferRedb persists src dst amount) s.memory) ∧
  KeepsMoney AdzdbAccountState.memory src dst s (run (AdzdbAccountState.transfer persists src dst amount) s) ∧
  (run (transferRedb persists src dst amount) s.memory).1 =
    (run (AdzdbAccountState.transfer persists src dst amount) s).1 ∧
  (run (transferRedb persists src dst amount) s.memory).2 =
    (run (AdzdbAccountState.transfer persists src dst amount) s).2.memory

/-- The transfer is refused, moves nothing, or is written between two accounts that can hold it. -/
def Harmless (persists : Bool) (src dst : Address) (amount : Balance) (s : AccountState) : Prop :=
  s.getBalance src < amount ∨ amount = 0 ∨
    (persists = true ∧ src ≠ dst ∧ (s.getBalance dst).toNat + amount.toNat < 2 ^ 128)

variable {src dst : Address} {amount : Balance} {persists : Bool}

/-! ### The sum -/

theorem coins_transferred {s : AccountState} (hne : src ≠ dst) (h : amount ≤ s.getBalance src) :
    coins (transferred src dst amount s) + amount.toNat + (s.getBalance dst).toNat =
      coins s + (s.getBalance dst + amount).toNat := by
  have hsrc : _ + (s.getBalance src).toNat = _ := coins_setBalance src (s.getBalance src - amount) s
  have hdst := coins_setBalance dst (s.getBalance dst + amount)
    (s.setBalance src (s.getBalance src - amount))
  rw [AccountState.balances_setBalance, Function.update_of_ne hne.symm] at hdst
  change _ + (s.getBalance dst).toNat = _ at hdst
  have hsub : (s.getBalance src - amount).toNat = (s.getBalance src).toNat - amount.toNat :=
    BitVec.toNat_sub_of_le h
  have hle : amount.toNat ≤ (s.getBalance src).toNat := h
  unfold transferred
  omega

theorem coins_transferred_self (a : Address) (s : AccountState) :
    coins (transferred a a amount s) + (s.getBalance a).toNat =
      coins s + (s.getBalance a + amount).toNat := by
  rw [transferred_self]
  exact coins_setBalance a _ s

theorem coins_transferred_eq_iff {s : AccountState} (h : amount ≤ s.getBalance src) :
    coins (transferred src dst amount s) = coins s ↔
      amount = 0 ∨ (src ≠ dst ∧ (s.getBalance dst).toNat + amount.toNat < 2 ^ 128) := by
  have hamount : amount = 0 ↔ amount.toNat = 0 :=
    ⟨fun hzero => hzero ▸ rfl, fun hzero => BitVec.eq_of_toNat_eq hzero⟩
  have hlt : amount.toNat < 2 ^ 128 := amount.isLt
  have hdst : (s.getBalance dst).toNat < 2 ^ 128 := (s.getBalance dst).isLt
  have hadd : (s.getBalance dst + amount).toNat =
      ((s.getBalance dst).toNat + amount.toNat) % 2 ^ 128 := BitVec.toNat_add _ _
  by_cases hself : src = dst
  · subst hself
    have hsum := @coins_transferred_self amount src s
    simp only [ne_eq, not_true_eq_false, false_and, or_false, hamount]
    omega
  · have hsum := coins_transferred hself h
    simp only [ne_eq, hself, not_false_eq_true, true_and, hamount]
    omega

/-! ### Both stores -/

theorem error_ne_ok (e : TransferError) : (.error e : Except TransferError Unit) ≠ .ok () := by simp

theorem keepsMoney_refused {σ : Type} {view : σ → AccountState} {s : σ} {e : TransferError} :
    KeepsMoney view src dst s (.error e, s) where
  sum h := absurd h (error_ne_ok e)
  frame h := absurd h (error_ne_ok e)
  failed _ := rfl

theorem keepsMoney_done {σ : Type} {view : σ → AccountState} {s t : σ}
    (ht : view t = transferred src dst amount (view s)) :
    KeepsMoney view src dst s (.ok (), t) ↔ coins (transferred src dst amount (view s)) = coins (view s) := by
  constructor
  · intro h
    rw [← ht]
    exact h.sum rfl
  · intro h
    refine ⟨fun _ => ?_, fun _ x hsrc hdst => ?_, fun hfailed => absurd rfl hfailed⟩
    · rw [ht, h]
    · rw [ht]
      exact balances_transferred_of_ne amount (view s) hsrc hdst

theorem transferConserves_refused {s : AdzdbAccountState} (h : s.memory.getBalance src < amount) :
    TransferConserves persists src dst amount s := by
  rw [TransferConserves, run_transferRedb, run_transfer, if_pos h, if_pos h]
  exact ⟨keepsMoney_refused, keepsMoney_refused, rfl, rfl⟩

theorem transferConserves_written {s : AdzdbAccountState} (h : ¬ s.memory.getBalance src < amount) :
    TransferConserves true src dst amount s ↔
      coins (transferred src dst amount s.memory) = coins s.memory := by
  rw [TransferConserves, run_transferRedb, run_transfer, if_neg h, if_neg h, if_pos rfl, if_pos rfl]
  constructor
  · exact fun hkeeps => (@keepsMoney_done src dst amount _ id s.memory _ rfl).mp hkeeps.1
  · intro hsum
    exact ⟨(@keepsMoney_done src dst amount _ id s.memory _ rfl).mpr hsum,
      (@keepsMoney_done src dst amount _ AdzdbAccountState.memory s _ rfl).mpr hsum, rfl, rfl⟩

/-- A transfer that is not written stays in the memory of the ADZDB store. -/
theorem transferConserves_unwritten {s : AdzdbAccountState} (h : ¬ s.memory.getBalance src < amount) :
    TransferConserves false src dst amount s ↔ amount = 0 := by
  rw [TransferConserves, run_transferRedb, run_transfer, if_neg h, if_neg h, if_neg Bool.false_ne_true,
    if_neg Bool.false_ne_true, ← @transferred_eq_self_iff src dst amount s.memory]
  constructor
  · intro hkeeps
    have hsame : AdzdbAccountState.mk (transferred src dst amount s.memory) s.file = s :=
      hkeeps.2.1.failed (error_ne_ok _)
    exact congrArg AdzdbAccountState.memory hsame
  · intro hsame
    rw [hsame]
    exact ⟨keepsMoney_refused, keepsMoney_refused, rfl, rfl⟩

/-- Exactly the harmless transfers conserve money in both stores. -/
theorem transferConserves_iff (persists : Bool) (src dst : Address) (amount : Balance)
    (s : AdzdbAccountState) :
    TransferConserves persists src dst amount s ↔ Harmless persists src dst amount s.memory := by
  by_cases hshort : s.memory.getBalance src < amount
  · exact iff_of_true (transferConserves_refused hshort) (.inl hshort)
  have hdrop : Harmless persists src dst amount s.memory ↔ amount = 0 ∨ (persists = true ∧ src ≠ dst ∧
      (s.memory.getBalance dst).toNat + amount.toNat < 2 ^ 128) := or_iff_right hshort
  rw [hdrop]
  cases persists with
  | true =>
    rw [transferConserves_written hshort, coins_transferred_eq_iff (BitVec.not_lt.mp hshort)]
    simp
  | false =>
    rw [transferConserves_unwritten hshort]
    simp

/-- A transfer of 5 by an account of 10 to itself leaves it with 15. -/
theorem transfer_mints : ¬ ∀ (persists : Bool) (src dst : Address) (amount : Balance)
    (s : AdzdbAccountState), TransferConserves persists src dst amount s := by
  intro h
  have hshort : ¬ (AccountState.ofBalances [(⟨1⟩, 10)]).getBalance ⟨1⟩ < 5 := by decide
  have hsum := (transferConserves_written hshort).mp
    (h true ⟨1⟩ ⟨1⟩ 5 ⟨AccountState.ofBalances [(⟨1⟩, 10)], fun _ => 0⟩)
  exact absurd ((coins_transferred_eq_iff (BitVec.not_lt.mp hshort)).mp hsum) (by decide)

end Coinjecture.Node.AccountTransfers
