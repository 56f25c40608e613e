import Coinjecture.Node.Transfers
import Coinjecture.Node.Validator

/-! # The two block appliers

`Validator.applyBlock` and the service's `applyBlockTransactions` run the same block of transfers on
the same accounts. They write the same nonces, but not the same balances: the validator pays the fees
to the miner where the service burns them, and it reads both balances of a transfer before it writes
either, so that a transfer to oneself adds the amount. `surplus` is the difference. -/

namespace Coinjecture.Node.Appliers

open Lib.Effect Lib.Postings
open Core.Types Core.Transactions Core.Blocks
open Core.Extern Core.Crypto
open State.Accounts State.Accounts.AccountState
open State.Stores
open Node.BlockProcessing Node.Runs Node.Transfers
open Node.Validator

/-- What the validator adds to the balances beyond what the service does. -/
def surplus (miner : Address) (tx : TransferTransaction) : Address → Balance :=
  Pi.single miner tx.fee + if tx.from = tx.to then Pi.single tx.from tx.amount else 0

/-- The balances after `transfer`. -/
theorem balances_transfer (src dst : Address) (amount : Balance) (s : AccountState) :
    ((s.setBalance src (s.getBalance src - amount)).setBalance dst
      (s.getBalance dst + amount)).balances =
      s.balances + if src = dst then Pi.single src amount
        else Pi.single dst amount - Pi.single src amount := by
  split_ifs with h
  · subst h
    simp only [balances_setBalance, Function.update_idem]
    exact update_add ..
  · have hread : s.getBalance dst =
        (Function.update s.balances src (s.getBalance src - amount)) dst := by
      rw [Function.update_of_ne (Ne.symm h)]
    simp only [balances_setBalance]
    rw [hread, update_add, update_sub]
    abel

/-- A transfer the validator runs checks the nonce and posts what the service posts, and the
surplus. -/
theorem validator_applyTransfer {miner : Address} {tx : TransferTransaction} {s s' : AccountState}
    (h : run (Validator.applyTransfer miner tx) s = (.ok (), s')) :
    tx.nonce = s.nonces tx.from ∧ s' =
      ⟨s.balances + posting tx + surplus miner tx, Function.update s.nonces tx.from (tx.nonce + 1)⟩ := by
  simp only [Validator.applyTransfer, run_coveringBalance_bind, run_verifyNonce_bind] at h
  split_ifs at h with hlow hnonce
  · cases h
  · cases h
  rw [run_bind, run_mapErr, run_transfer] at h
  split_ifs at h with hshort
  · cases h
  simp only [run_gets_bind, run_modify_bind, run_payMiner, Prod.mk.injEq, true_and] at h
  push Not at hnonce
  refine ⟨hnonce, ?_⟩
  rw [← h]
  set moved := (s.setBalance tx.from (s.getBalance tx.from - tx.amount)).setBalance tx.to
    (s.getBalance tx.to + tx.amount) with hmoved
  ext1
  · change Function.update (Function.update moved.balances tx.from (moved.balances tx.from - tx.fee))
      miner (Function.update moved.balances tx.from (moved.balances tx.from - tx.fee) miner + tx.fee) = _
    rw [update_add, update_sub, hmoved, balances_transfer, posting, surplus, Pi.single_add]
    split_ifs with hself
    · rw [hself]
      ring
    · ring
  · change Function.update s.nonces tx.from (s.nonces tx.from + 1) = _
    rw [hnonce]

/-- Two runs of the same transfers, from accounts that differ by `d`: the nonces stay equal, and the
difference of the balances grows by the surpluses. -/
theorem runs_of_transfers {ext : Ext} {clock : ℕ → Int64} {blockHeight : UInt64} {miner : Address}
    {txs : List TransferTransaction} {i : ℕ} {s s' : AccountState} {L L' : Ledger}
    {d : Address → Balance}
    (hvalidator : run (Validator.applyTransactions miner (txs.map .Transfer)) s = (.ok (), s'))
    (hservice : run (BlockProcessing.applyTransactions ext clock blockHeight i (txs.map .Transfer)) L =
      (.ok ((txs.map .Transfer).map (Transaction.hash ext)), L'))
    (hbal : s.balances = L.accounts.balances + d) (hnonce : s.nonces = L.accounts.nonces) :
    s'.balances = L'.accounts.balances + (d + (txs.map (surplus miner)).sum) ∧
      s'.nonces = L'.accounts.nonces := by
  induction txs generalizing i s L d with
  | nil =>
    cases hvalidator
    cases hservice
    simp [hbal, hnonce]
  | cons tx txs ih =>
    obtain ⟨L1, hstep, hrest⟩ := applyTransactions_all_cons ext hservice
    obtain ⟨-, rfl⟩ := (run_transfer_ok ext _ _ tx L L1).mp hstep
    rw [List.map_cons, Validator.applyTransactions, run_bind, applyTransaction] at hvalidator
    rcases hv : run (Validator.applyTransfer miner tx) s with ⟨_ | _, s1⟩
    all_goals rw [hv] at hvalidator
    · cases hvalidator
    obtain ⟨-, rfl⟩ := validator_applyTransfer hv
    rw [List.map_cons, List.sum_cons, ← add_assoc d]
    refine ih hvalidator hrest ?_ ?_
    · change s.balances + posting tx + surplus miner tx =
        L.accounts.balances + posting tx + (d + surplus miner tx)
      rw [hbal]
      abel
    · change Function.update s.nonces _ _ = Function.update L.accounts.nonces _ _
      rw [hnonce]

/-- The balances of an applied block differ by the surpluses; the nonces agree. -/
theorem appliers_differ {ext : Ext} {clock : ℕ → Int64} {block : Block}
    {txs : List TransferTransaction} {s : AccountState} {L L' : Ledger}
    (hkind : block.transactions = txs.map .Transfer)
    (hvalidator : run (applyBlock block) L.accounts = (.ok (), s))
    (hservice : run (applyBlockTransactions ext clock block) L =
      (.ok (block.transactions.map (Transaction.hash ext)), L')) :
    s.balances = L'.accounts.balances + (txs.map (surplus block.header.miner)).sum ∧
      s.nonces = L'.accounts.nonces := by
  simp only [applyBlock, run_gets_bind, run_modify_bind] at hvalidator
  have hservice' := applyBlockTransactions_all ext hservice
  rw [hkind] at hvalidator hservice'
  have h := runs_of_transfers (d := 0) hvalidator hservice' (add_zero _).symm rfl
  rwa [zero_add] at h

/-- The surplus of an account over a block: the fees if it is the miner's, and what it sent to
itself. -/
theorem sum_surplus_apply (miner x : Address) (txs : List TransferTransaction) :
    (txs.map (surplus miner)).sum x =
      (if x = miner then (txs.map TransferTransaction.fee).sum else 0) +
        ((txs.filter fun tx => tx.from = x ∧ tx.to = x).map TransferTransaction.amount).sum := by
  induction txs with
  | nil => simp
  | cons tx txs ih =>
    rw [List.map_cons, List.sum_cons, Pi.add_apply, ih, surplus, Pi.add_apply, Pi.single_apply]
    have hself : (if tx.from = tx.to then Pi.single tx.from tx.amount else 0 : Address → Balance) x =
        if tx.from = x ∧ tx.to = x then tx.amount else 0 := by
      split_ifs with h1 h2 h2
      · simp [h2.1]
      · rw [Pi.single_apply, if_neg]
        exact fun h => h2 ⟨h.symm, h1 ▸ h.symm⟩
      · exact absurd (h2.1.trans h2.2.symm) h1
      · rfl
    have hlist : (((tx :: txs).filter fun tx => tx.from = x ∧ tx.to = x).map
        TransferTransaction.amount).sum = (if tx.from = x ∧ tx.to = x then tx.amount else 0) +
          ((txs.filter fun tx => tx.from = x ∧ tx.to = x).map TransferTransaction.amount).sum := by
      by_cases h : tx.from = x ∧ tx.to = x
      · rw [List.filter_cons_of_pos (by simpa using h), List.map_cons, List.sum_cons, if_pos h]
      · rw [List.filter_cons_of_neg (by simpa using h), if_neg h, zero_add]
    rw [hself, hlist, List.map_cons, List.sum_cons]
    by_cases h : x = miner
    · simp only [if_pos h]
      abel
    · simp only [if_neg h]
      abel

/-- The two appliers leave the same accounts if and only if no account has a surplus: the miner's
fees, and what an account sent to itself, add up to zero modulo `2 ^ 128` for every account. -/
theorem appliers_agree_iff {ext : Ext} {clock : ℕ → Int64} {block : Block}
    {txs : List TransferTransaction} {s : AccountState} {L L' : Ledger}
    (hkind : block.transactions = txs.map .Transfer)
    (hvalidator : run (applyBlock block) L.accounts = (.ok (), s))
    (hservice : run (applyBlockTransactions ext clock block) L =
      (.ok (block.transactions.map (Transaction.hash ext)), L')) :
    s = L'.accounts ↔ ∀ x,
      (if x = block.header.miner then (txs.map TransferTransaction.fee).sum else 0) +
        ((txs.filter fun tx => tx.from = x ∧ tx.to = x).map TransferTransaction.amount).sum = 0 := by
  obtain ⟨hbal, hnonce⟩ := appliers_differ hkind hvalidator hservice
  constructor
  · rintro rfl x
    rw [← sum_surplus_apply]
    have hx := congrFun hbal x
    rwa [Pi.add_apply, left_eq_add] at hx
  · intro h
    have hzero : (txs.map (surplus block.header.miner)).sum = 0 := by
      funext x
      rw [sum_surplus_apply, h x]
      rfl
    rw [hzero, add_zero] at hbal
    ext1
    · exact hbal
    · exact hnonce

/-- Alice's transfer without the fee. -/
def freeBlock : Block :=
  Sample.block Sample.emptyHeader [.Transfer { Sample.aliceTransfer with fee := 0 }]

/-- A transfer without a fee between two accounts: the appliers agree. -/
theorem appliers_agree_freeTransfer :
    (run (applyBlock freeBlock) Sample.aliceHas100).2 =
      (run (applyBlockTransactions Sample.ext (fun _ => 0) freeBlock)
        (.ofAccounts Sample.aliceHas100)).2.accounts := by
  have hvalidator : (run (applyBlock freeBlock) Sample.aliceHas100).1 = .ok () := by decide
  have hservice : (run (applyBlockTransactions Sample.ext (fun _ => 0) freeBlock)
      (.ofAccounts Sample.aliceHas100)).1 =
        .ok (freeBlock.transactions.map (Transaction.hash Sample.ext)) := by decide
  have hfrom : Sample.aliceTransfer.from ≠ Sample.aliceTransfer.to := by decide
  have hkind : freeBlock.transactions = [{ Sample.aliceTransfer with fee := 0 }].map .Transfer := rfl
  refine (appliers_agree_iff (L := .ofAccounts Sample.aliceHas100) hkind
    (Prod.ext hvalidator rfl) (Prod.ext hservice rfl)).mpr fun x => ?_
  have hself : ¬ (Sample.aliceTransfer.from = x ∧ Sample.aliceTransfer.to = x) :=
    fun h => hfrom (h.1.trans h.2.symm)
  rw [List.filter_cons_of_neg (by simpa using hself)]
  simp

/-- The accepted block with one transfer at a fee of 1: the validator leaves the fee with the miner,
the service does not. -/
theorem appliers_disagree :
    Sample.accepts Sample.aliceBlock = true ∧
    (run (applyBlock Sample.aliceBlock) Sample.aliceHas100).1 = .ok () ∧
    (run (applyBlockTransactions Sample.ext (fun _ => 0) Sample.aliceBlock)
      (.ofAccounts Sample.aliceHas100)).1 =
        .ok (Sample.aliceBlock.transactions.map (Transaction.hash Sample.ext)) ∧
    (run (applyBlock Sample.aliceBlock) Sample.aliceHas100).2 ≠
      (run (applyBlockTransactions Sample.ext (fun _ => 0) Sample.aliceBlock)
        (.ofAccounts Sample.aliceHas100)).2.accounts := by
  refine ⟨by decide +kernel, by decide +kernel, by decide +kernel, fun h => ?_⟩
  have hminer := congrArg (AccountState.getBalance Sample.carol) h
  exact absurd hminer (by decide +kernel)

end Coinjecture.Node.Appliers
