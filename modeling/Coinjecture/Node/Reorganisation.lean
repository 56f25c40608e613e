import Coinjecture.Node.FailedReorgs
import Coinjecture.Node.Transfers
import Coinjecture.Node.UnwindApply

/-! # Reorganisations that succeed

The old chain is handed over with its last block first, and `reorganizeChain` reverses it once more,
so its oldest block is unwound first. A credit is then taken back while what was spent of it in a
later block is still gone, and the balance stops at zero. What is missing there stays on the balance in
the end (`unwind_eq`); where nothing is missing and no nonce runs over, the accounts are those of the
common ancestor with the new chain applied (`reorganised_iff`). -/

namespace Coinjecture.Node.Reorganisation

open Lib.Effect Lib.Trace Lib.Postings
open Lib.Saturating Lib.Bincode
open Core.Types Core.Transactions Core.Blocks
open Core.Extern Core.Crypto
open State.Accounts State.Stores State.Stores.Ledger
open Node.BlockProcessing Node.Validator Node.Outcomes
open Node.Runs
open Node.Transfers Node.Unwinding Node.UnwindApply
open Node.Chain Node.ChainMetadata Node.ChainRules
open Node.Service Node.ServiceCalls Node.ReorgAcceptance
open Node.ForkHandler Node.ForkChoice Node.FailedReorgs

variable (ext : Ext)

/-! ### Events of blocks of transfers -/

/-- What an event adds to the balances. -/
def added : Event → Address → Balance
  | .coinbase miner reward => Pi.single miner reward
  | .transaction _ _ (.Transfer tx) => posting tx
  | .transaction .. => 0

/-- What its unwind pays back. -/
def paidBack : Event → Address → Balance
  | .transaction _ _ (.Transfer tx) => Pi.single tx.from (tx.amount + tx.fee)
  | _ => 0

/-- Whom its unwind takes from, and how much. -/
def takenBack : Event → Option (Address × Balance)
  | .coinbase miner reward => some (miner, reward)
  | .transaction _ _ (.Transfer tx) => some (tx.to, tx.amount)
  | .transaction .. => none

def sender : Event → Option Address
  | .transaction _ _ (.Transfer tx) => some tx.from
  | _ => none

/-- The nonce that is written, and whose. -/
def nonceAfter : Event → Option (Address × UInt64)
  | .transaction _ _ (.Transfer tx) => some (tx.from, tx.nonce + 1)
  | _ => none

/-- The nonces after an event, with nonces that match. -/
def countUp (nonces : Address → UInt64) (e : Event) : Address → UInt64 :=
  match sender e with
  | none => nonces
  | some a => Function.update nonces a (nonces a + 1)

/-- The nonces after its unwind. -/
def countDown (nonces : Address → UInt64) (e : Event) : Address → UInt64 :=
  match sender e with
  | none => nonces
  | some a => Function.update nonces a (nonceBack (nonces a))

/-- The number of transfers of an account. -/
def sentBy (a : Address) (events : List Event) : ℕ := events.countP fun e => sender e = some a

/-- A coinbase, or a transfer that goes through with the nonce of its sender. -/
def GoesThrough (p : Step) : Prop :=
  match p.1 with
  | .coinbase .. => True
  | .transaction now height (.Transfer tx) =>
    Runs.succeeds ext (.transaction now height (.Transfer tx)) p.2 = true ∧
      tx.nonce = p.2.nonce tx.from
  | .transaction .. => False

instance : DecidablePred (GoesThrough ext) := fun p => by
  unfold GoesThrough
  split
  · exact inferInstanceAs (Decidable True)
  · exact inferInstanceAs (Decidable (_ ∧ _))
  · exact inferInstanceAs (Decidable False)

variable {ext}

theorem succeeds_transfer {now : Int64} {height : UInt64} {tx : TransferTransaction} {L : Ledger} :
    Runs.succeeds ext (.transaction now height (.Transfer tx)) L = true ↔
      tx.amount + tx.fee ≤ L.balance tx.from := by
  rw [succeeds_transaction, outcome, ← BitVec.not_lt]
  split_ifs with hlow
  · simp [hlow]
  · simp [hlow]

/-- A coinbase or a transfer that its sender can pay. -/
theorem next_of_pays {e : Event} {L : Ledger} (hkind : takenBack e ≠ none)
    (hpays : Runs.succeeds ext e L = true) :
    (machine ext).halts e L = false ∧ (machine ext).next e L = withAccounts
      ⟨L.accounts.balances + added e, (nonceAfter e).elim L.accounts.nonces
        fun w => Function.update L.accounts.nonces w.1 w.2⟩ L := by
  rcases e with ⟨miner, reward⟩ | ⟨now, height, tx⟩
  · refine ⟨rfl, ?_⟩
    rw [next_coinbase, added, ← update_add]
    rfl
  · cases tx with
    | Transfer tx =>
      have hrun := (run_transfer_ok ext now height tx L _).mpr ⟨succeeds_transfer.mp hpays, rfl⟩
      refine ⟨?_, congrArg Prod.snd hrun⟩
      simp only [machine, perform, hrun]
    | _ => exact absurd rfl hkind

theorem takenBack_of_goesThrough {p : Step} (h : GoesThrough ext p) : takenBack p.1 ≠ none := by
  rcases p with ⟨⟨miner, reward⟩ | ⟨now, height, tx⟩, L⟩
  · simp [takenBack]
  · cases tx with
    | Transfer tx => simp [takenBack]
    | _ => exact absurd h id

theorem succeeds_of_goesThrough {p : Step} (h : GoesThrough ext p) :
    Runs.succeeds ext p.1 p.2 = true := by
  rcases p with ⟨⟨miner, reward⟩ | ⟨now, height, tx⟩, L⟩
  · rfl
  · cases tx with
    | Transfer tx => exact h.1
    | _ => exact absurd h id

/-- With matching nonces the nonce of the sender counts up. -/
theorem countUp_of_goesThrough {p : Step} (h : GoesThrough ext p) :
    (nonceAfter p.1).elim p.2.accounts.nonces
      (fun w => Function.update p.2.accounts.nonces w.1 w.2) = countUp p.2.accounts.nonces p.1 := by
  rcases p with ⟨⟨miner, reward⟩ | ⟨now, height, tx⟩, L⟩
  · rfl
  · cases tx with
    | Transfer tx =>
      obtain ⟨-, hnonce⟩ := h
      change Function.update L.accounts.nonces tx.from (tx.nonce + 1) =
        Function.update L.accounts.nonces tx.from (L.accounts.nonces tx.from + 1)
      rw [hnonce]
    | _ => exact absurd h id

theorem next_of_goesThrough {e : Event} {L : Ledger} (h : GoesThrough ext (e, L)) :
    (machine ext).halts e L = false ∧ (machine ext).next e L =
      withAccounts ⟨L.accounts.balances + added e, countUp L.accounts.nonces e⟩ L := by
  rw [← countUp_of_goesThrough h]
  exact next_of_pays (takenBack_of_goesThrough h) (succeeds_of_goesThrough h)

/-- The steps of a run that goes through, one at a time. -/
theorem trace_of_goesThrough {e : Event} {events : List Event} {L : Ledger}
    (h : ∀ p ∈ (machine ext).trace (e :: events) L, GoesThrough ext p) :
    GoesThrough ext (e, L) ∧ (machine ext).trace (e :: events) L =
      (e, L) :: (machine ext).trace events ((machine ext).next e L) := by
  have hfirst : GoesThrough ext (e, L) := h _ (by
    unfold Machine.trace
    exact List.mem_cons_self)
  exact ⟨hfirst, Machine.trace_cons (next_of_goesThrough hfirst).1⟩

/-- Blocks of transfers that go through. -/
theorem final_of_goesThrough {events : List Event} {L : Ledger}
    (h : ∀ p ∈ (machine ext).trace events L, GoesThrough ext p) :
    (machine ext).halted events L = false ∧ (machine ext).final events L =
      withAccounts ⟨L.accounts.balances + (events.map added).sum,
        events.foldl countUp L.accounts.nonces⟩ L := by
  induction events generalizing L with
  | nil => exact ⟨rfl, by simp [withAccounts]⟩
  | cons e events ih =>
    obtain ⟨hfirst, htrace⟩ := trace_of_goesThrough h
    rw [htrace] at h
    obtain ⟨hhalt, hnext⟩ := next_of_goesThrough hfirst
    obtain ⟨hhalted, hfinal⟩ := ih fun p hp => h p (List.mem_cons_of_mem _ hp)
    rw [Machine.halted_cons hhalt, Machine.final_cons hhalt]
    refine ⟨hhalted, ?_⟩
    rw [hfinal, hnext]
    simp only [withAccounts, List.map_cons, List.sum_cons, List.foldl_cons, add_assoc]

theorem takenBack_of_mem {events : List Event} {L : Ledger}
    (h : ∀ p ∈ (machine ext).trace events L, GoesThrough ext p) :
    ∀ e ∈ events, takenBack e ≠ none := by
  induction events generalizing L with
  | nil => exact fun e he => absurd he List.not_mem_nil
  | cons e events ih =>
    obtain ⟨hfirst, htrace⟩ := trace_of_goesThrough h
    rw [htrace] at h
    exact List.forall_mem_cons.mpr ⟨takenBack_of_goesThrough hfirst,
      ih fun p hp => h p (List.mem_cons_of_mem _ hp)⟩

/-! ### Nonces -/

theorem sentBy_cons (a : Address) (e : Event) (events : List Event) :
    sentBy a (e :: events) = sentBy a events + if sender e = some a then 1 else 0 := by
  simp only [sentBy, List.countP_cons, decide_eq_true_eq]

theorem toNat_countUp (events : List Event) (nonces : Address → UInt64) (a : Address) :
    (events.foldl countUp nonces a).toNat = ((nonces a).toNat + sentBy a events) % 2 ^ 64 := by
  induction events generalizing nonces with
  | nil => exact (Nat.mod_eq_of_lt (nonces a).toNat_lt).symm
  | cons e events ih =>
    have hstep : (countUp nonces e a).toNat =
        ((nonces a).toNat + if sender e = some a then 1 else 0) % 2 ^ 64 := by
      unfold countUp
      rcases sender e with _ | b
      · exact (Nat.mod_eq_of_lt (nonces a).toNat_lt).symm
      · by_cases hb : b = a
        · subst hb
          simp only [Function.update_self, if_true]
          exact UInt64.toNat_add ..
        · simp only [Option.some.injEq, hb, if_false, Nat.add_zero]
          rw [Function.update_of_ne (Ne.symm hb), Nat.mod_eq_of_lt (nonces a).toNat_lt]
    simp only [List.foldl_cons]
    rw [ih, hstep, sentBy_cons]
    omega

theorem toNat_nonceBack (n : UInt64) : (nonceBack n).toNat = n.toNat - 1 := by
  unfold nonceBack
  split_ifs with h
  · have hpos : 1 ≤ n.toNat := UInt64.lt_iff_toNat_lt.mp h
    have hle : (1 : UInt64) ≤ n := UInt64.le_iff_toNat_le.mpr (by simpa using hpos)
    rw [UInt64.toNat_sub_of_le _ _ hle]
    rfl
  · have hzero : ¬ 0 < n.toNat := fun hpos => h (UInt64.lt_iff_toNat_lt.mpr hpos)
    omega

theorem toNat_countDown (events : List Event) (nonces : Address → UInt64) (a : Address) :
    (events.foldl countDown nonces a).toNat = (nonces a).toNat - sentBy a events := by
  induction events generalizing nonces with
  | nil => rfl
  | cons e events ih =>
    have hstep : (countDown nonces e a).toNat =
        (nonces a).toNat - if sender e = some a then 1 else 0 := by
      unfold countDown
      rcases sender e with _ | b
      · rfl
      · by_cases hb : b = a
        · subst hb
          simp only [Function.update_self, if_true]
          exact toNat_nonceBack _
        · simp only [Option.some.injEq, hb, if_false, Nat.sub_zero]
          rw [Function.update_of_ne (Ne.symm hb)]
    simp only [List.foldl_cons]
    rw [ih, hstep, sentBy_cons]
    omega

/-! ### Unwinding in some order -/

/-- The balance covers what the unwind takes from it, after what it pays back. -/
def CoveredAt (balances : Address → Balance) (e : Event) : Prop :=
  ∃ a v, takenBack e = some (a, v) ∧ v ≤ (balances + paidBack e) a

/-- Every unwind of the list is covered, where the balances are those given without what the events
before it had added. -/
def Covered (balances : Address → Balance) (events : List Event) : Prop :=
  ∀ before e after, events = before ++ e :: after →
    CoveredAt (balances - (before.map added).sum) e

/-- What is missing where a balance does not cover it. -/
def shortfall (balances : Address → Balance) (e : Event) : Address → Balance :=
  (takenBack e).elim 0 fun w => Pi.single w.1 (satSub w.2 ((balances + paidBack e) w.1))

/-- What is missing in all. -/
def shortfalls : (Address → Balance) → List Event → Address → Balance
  | _, [] => 0
  | balances, e :: events =>
    shortfall balances e + shortfalls (balances - added e + shortfall balances e) events

theorem takeBack_eq_withAccounts (a : Address) (v : Balance) (L : Ledger) :
    takeBack a v L = withAccounts ⟨L.accounts.balances - Pi.single a v +
      Pi.single a (satSub v (L.balance a)), L.accounts.nonces⟩ L := by
  have hbalances : L.accounts.balances - Pi.single a v + Pi.single a (satSub v (L.balance a)) =
      Function.update L.accounts.balances a (satSub (L.balance a) v) := by
    calc _ = L.accounts.balances - Pi.single a (v - satSub v (L.balance a)) := by
          rw [Pi.single_sub]
          abel
      _ = Function.update L.accounts.balances a
            (L.accounts.balances a - (v - satSub v (L.balance a))) := (update_sub ..).symm
      _ = _ := by
          rw [← sub_add]
          exact congrArg (Function.update L.accounts.balances a) (satSub_eq_sub_add ..).symm
  rw [takeBack_eq, hbalances]
  rfl

theorem refund_eq_withAccounts (a : Address) (cost : Balance) (L : Ledger) :
    refund a cost L = withAccounts ⟨L.accounts.balances + Pi.single a cost,
      Function.update L.accounts.nonces a (nonceBack (L.nonce a))⟩ L := by
  rw [refund_eq, ← update_add]
  rfl

theorem unwindEvent_eq {e : Event} (hkind : takenBack e ≠ none) (L : Ledger) :
    unwindEvent ext e L = withAccounts ⟨L.accounts.balances - added e +
      shortfall L.accounts.balances e, countDown L.accounts.nonces e⟩ L := by
  rcases e with ⟨miner, reward⟩ | ⟨now, height, tx⟩
  · have hshortfall : shortfall L.accounts.balances (.coinbase miner reward) =
        Pi.single miner (satSub reward (L.balance miner)) := by
      change (Pi.single miner (satSub reward ((L.accounts.balances + 0) miner)) :
        Address → Balance) = _
      rw [add_zero]
    rw [hshortfall]
    exact takeBack_eq_withAccounts ..
  · cases tx with
    | Transfer tx =>
      have hunwind : unwindEvent ext (.transaction now height (.Transfer tx)) L =
          takeBack tx.to tx.amount (refund tx.from (tx.amount + tx.fee) L) := unwindTransfer_eq ..
      rw [hunwind, refund_eq_withAccounts, takeBack_eq_withAccounts, added, posting]
      simp only [withAccounts]
      have hbalances : L.accounts.balances + Pi.single tx.from (tx.amount + tx.fee) -
          Pi.single tx.to tx.amount = L.accounts.balances -
            (Pi.single tx.to tx.amount - Pi.single tx.from (tx.amount + tx.fee)) := by abel
      rw [hbalances]
      rfl
    | _ => exact absurd rfl hkind

/-- Unwinding takes back what the events added, and what was missing stays. -/
theorem unwind_eq {events : List Event} (hkind : ∀ e ∈ events, takenBack e ≠ none)
    (L : Ledger) :
    events.foldl (fun L e => unwindEvent ext e L) L =
      withAccounts ⟨L.accounts.balances - (events.map added).sum +
        shortfalls L.accounts.balances events, events.foldl countDown L.accounts.nonces⟩ L := by
  induction events generalizing L with
  | nil => simp [withAccounts, shortfalls]
  | cons e events ih =>
    have hrest := ih (fun e he => hkind e (List.mem_cons_of_mem _ he))
      (withAccounts ⟨L.accounts.balances - added e + shortfall L.accounts.balances e,
        countDown L.accounts.nonces e⟩ L)
    simp only [List.foldl_cons]
    rw [unwindEvent_eq (hkind e List.mem_cons_self), hrest]
    simp only [withAccounts, List.map_cons, List.sum_cons, shortfalls]
    have hbalances : L.accounts.balances - added e + shortfall L.accounts.balances e -
        (events.map added).sum = L.accounts.balances - (added e + (events.map added).sum) +
          shortfall L.accounts.balances e := by abel
    rw [hbalances, add_assoc]

/-- All that unwinding takes. -/
def total (events : List Event) : ℕ :=
  (events.map fun e => (takenBack e).elim 0 fun w => w.2.toNat).sum

theorem toNat_shortfall_le (balances : Address → Balance) (e : Event) (a : Address) :
    (shortfall balances e a).toNat ≤ (takenBack e).elim 0 fun w => w.2.toNat := by
  unfold shortfall
  rcases takenBack e with _ | ⟨b, v⟩
  · exact le_rfl
  · simp only [Option.elim]
    by_cases hb : a = b
    · subst hb
      rw [Pi.single_eq_same, toNat_satSub]
      omega
    · rw [Pi.single_eq_of_ne hb]
      exact Nat.zero_le _

theorem shortfall_eq_zero_iff {balances : Address → Balance} {e : Event}
    (hkind : takenBack e ≠ none) : shortfall balances e = 0 ↔ CoveredAt balances e := by
  unfold shortfall CoveredAt
  rcases htaken : takenBack e with _ | ⟨a, v⟩
  · exact absurd htaken hkind
  · simp only [Option.elim, Pi.single_eq_zero_iff]
    rw [BitVec.toNat_eq, toNat_satSub, toNat_zero']
    constructor
    · intro hzero
      refine ⟨a, v, rfl, BitVec.le_def.mpr ?_⟩
      omega
    · rintro ⟨a', v', hsame, hle⟩
      cases hsame
      have hle' := BitVec.le_def.mp hle
      omega

theorem toNat_shortfalls_le (events : List Event) (balances : Address → Balance) (a : Address) :
    (shortfalls balances events a).toNat ≤ total events := by
  induction events generalizing balances with
  | nil => exact Nat.zero_le _
  | cons e events ih =>
    have hfirst := toNat_shortfall_le balances e a
    have hrest := ih (balances - added e + shortfall balances e)
    rw [shortfalls, Pi.add_apply, BitVec.toNat_add]
    refine le_trans (Nat.mod_le _ _) ?_
    rw [total, List.map_cons, List.sum_cons]
    exact Nat.add_le_add hfirst hrest

theorem covered_cons {balances : Address → Balance} {e : Event} {events : List Event} :
    Covered balances (e :: events) ↔
      CoveredAt balances e ∧ Covered (balances - added e) events := by
  constructor
  · intro h
    refine ⟨?_, fun before e' after hsplit => ?_⟩
    · have hstep := h [] e events rfl
      rwa [List.map_nil, List.sum_nil, sub_zero] at hstep
    · have hstep := h (e :: before) e' after (by rw [hsplit]; rfl)
      rwa [List.map_cons, List.sum_cons, ← sub_sub] at hstep
  · rintro ⟨hfirst, hrest⟩ before e' after hsplit
    rcases before with _ | ⟨e'', before⟩
    · cases hsplit
      rwa [List.map_nil, List.sum_nil, sub_zero]
    · cases hsplit
      rw [List.map_cons, List.sum_cons, ← sub_sub]
      exact hrest before e' after rfl

/-- Nothing is missing where every unwind is covered. -/
theorem shortfalls_of_covered {events : List Event} {balances : Address → Balance}
    (hkind : ∀ e ∈ events, takenBack e ≠ none) (h : Covered balances events) :
    shortfalls balances events = 0 := by
  induction events generalizing balances with
  | nil => rfl
  | cons e events ih =>
    obtain ⟨hfirst, hrest⟩ := covered_cons.mp h
    rw [shortfalls, (shortfall_eq_zero_iff (hkind e List.mem_cons_self)).mpr hfirst, add_zero,
      zero_add]
    exact ih (fun e he => hkind e (List.mem_cons_of_mem _ he)) hrest

/-- … and nowhere else, if what is missing does not add up to a whole word. -/
theorem covered_of_shortfalls {events : List Event} {balances : Address → Balance}
    (hkind : ∀ e ∈ events, takenBack e ≠ none) (htotal : total events < 2 ^ 128)
    (h : shortfalls balances events = 0) : Covered balances events := by
  induction events generalizing balances with
  | nil =>
    intro before e after hsplit
    cases before <;> cases hsplit
  | cons e events ih =>
    rw [total, List.map_cons, List.sum_cons] at htotal
    have hboth : ∀ a, shortfall balances e a = 0 ∧
        shortfalls (balances - added e + shortfall balances e) events a = 0 := by
      intro a
      have hfirst := toNat_shortfall_le balances e a
      have hrest := toNat_shortfalls_le events (balances - added e + shortfall balances e) a
      have hsum := congrArg BitVec.toNat (congrFun h a)
      rw [shortfalls, Pi.add_apply, BitVec.toNat_add, Nat.mod_eq_of_lt (by
        unfold total at hrest
        omega)] at hsum
      have hzero : ((0 : Address → Balance) a).toNat = 0 := rfl
      rw [hzero] at hsum
      refine ⟨BitVec.eq_of_toNat_eq ?_, BitVec.eq_of_toNat_eq ?_⟩
      · rw [toNat_zero']
        omega
      · rw [toNat_zero']
        omega
    have hnone : shortfall balances e = 0 := funext fun a => (hboth a).1
    refine covered_cons.mpr ⟨(shortfall_eq_zero_iff (hkind e List.mem_cons_self)).mp hnone,
      ih (fun e he => hkind e (List.mem_cons_of_mem _ he)) (by unfold total; omega) ?_⟩
    have hrest : shortfalls (balances - added e + shortfall balances e) events = 0 :=
      funext fun a => (hboth a).2
    rwa [hnone, add_zero] at hrest

/-! ### The old chain -/

/-- The events of blocks in the order in which a reorganisation unwinds them: the oldest block
first, and each block from its last event back. -/
def oldestFirst (blocks : List TimedBlock) : List Event :=
  blocks.flatMap fun b => (blockEvents b.2 b.1).reverse

theorem oldestFirst_perm (blocks : List TimedBlock) :
    (oldestFirst blocks).Perm (chainEvents blocks) := by
  induction blocks with
  | nil => exact .refl _
  | cons b blocks ih =>
    rw [oldestFirst, chainEvents, List.flatMap_cons, List.flatMap_cons]
    exact (List.reverse_perm _).append ih

/-- The old chain is handed over with its last block first, and that order is reversed again. -/
theorem unwindBlocks_oldestFirst (blocks : List TimedBlock) (L : Ledger) :
    unwindBlocks ext (blocks.map Prod.fst).reverse L =
      (oldestFirst blocks).foldl (fun L e => unwindEvent ext e L) L := by
  rw [unwindBlocks, List.reverse_reverse]
  induction blocks generalizing L with
  | nil => rfl
  | cons b blocks ih =>
    rw [oldestFirst, List.flatMap_cons, List.foldl_append, List.foldl_reverse, List.map_cons]
    simp only [List.foldl_cons]
    rw [unwindBlock_eq b.2]
    exact ih _

/-! ### Nonces that are kept -/

/-- The old chain did not run the nonce over, or the new chain writes it anyway. -/
def NonceKept (nonces : Address → UInt64) (old new : List Event) (a : Address) : Prop :=
  sentBy a new ≠ 0 ∨ nonces a = 0 ∨ (nonces a).toNat + sentBy a old < 2 ^ 64

theorem nonce_back_iff {old old' : List Event} (hperm : old'.Perm old) {nonces : Address → UInt64}
    {a : Address} : old'.foldl countDown (old.foldl countUp nonces) a = nonces a ↔
      nonces a = 0 ∨ (nonces a).toNat + sentBy a old < 2 ^ 64 := by
  have hcount : sentBy a old' = sentBy a old := hperm.countP_eq _
  have hzero : (0 : UInt64).toNat = 0 := rfl
  have hbound := (nonces a).toNat_lt
  rw [← UInt64.toNat_inj, ← UInt64.toNat_inj, toNat_countDown, toNat_countUp, hcount, hzero]
  omega

theorem foldl_countUp_of_not_sent {events : List Event} {nonces : Address → UInt64} {a : Address}
    (h : sentBy a events = 0) : events.foldl countUp nonces a = nonces a := by
  rw [← UInt64.toNat_inj, toNat_countUp, h, Nat.add_zero, Nat.mod_eq_of_lt (nonces a).toNat_lt]

/-! ### The new chain on the old ledger and on the unwound one -/

/-- Accounts with more on their balances and with other nonces. -/
def raised (D : Address → Balance) (nonces : Address → UInt64) (L : Ledger) : Ledger :=
  withAccounts ⟨L.accounts.balances + D, nonces⟩ L

theorem next_raised {e : Event} {L : Ledger} {D : Address → Balance} (nonces : Address → UInt64)
    (h : GoesThrough ext (e, L)) (hroom : ∀ a, NoCarry (L.balance a) (D a)) :
    (machine ext).halts e (raised D nonces L) = false ∧
      (machine ext).next e (raised D nonces L) =
        raised D (fun a => if sender e = some a then ((machine ext).next e L).nonce a else nonces a)
          ((machine ext).next e L) := by
  have hkind := takenBack_of_goesThrough h
  have hpays : Runs.succeeds ext e (raised D nonces L) = true := by
    rcases e with ⟨miner, reward⟩ | ⟨now, height, tx⟩
    · rfl
    · cases tx with
      | Transfer tx =>
        have hcost := succeeds_transfer.mp (succeeds_of_goesThrough h)
        refine succeeds_transfer.mpr (BitVec.le_def.mpr ?_)
        have hfits := hroom tx.from
        rw [NoCarry] at hfits
        have hbalance : (raised D nonces L).balance tx.from = L.balance tx.from + D tx.from := rfl
        have hsum : (L.balance tx.from + D tx.from).toNat =
            (L.balance tx.from).toNat + (D tx.from).toNat := by
          rw [BitVec.toNat_add, Nat.mod_eq_of_lt hfits]
        rw [hbalance, hsum]
        exact (BitVec.le_def.mp hcost).trans (Nat.le_add_right _ _)
      | _ => exact absurd rfl hkind
  obtain ⟨hhalt, hnext⟩ := next_of_pays hkind hpays
  refine ⟨hhalt, ?_⟩
  obtain ⟨-, hnext'⟩ := next_of_pays hkind (succeeds_of_goesThrough h)
  rw [hnext, hnext']
  have hbalances : L.accounts.balances + D + added e = L.accounts.balances + added e + D := by abel
  simp only [raised, withAccounts]
  rw [hbalances]
  have hnonces : ((nonceAfter e).elim nonces fun w => Function.update nonces w.1 w.2) =
      fun a => if sender e = some a then ((nonceAfter e).elim L.accounts.nonces
        fun w => Function.update L.accounts.nonces w.1 w.2) a else nonces a := by
    funext a
    rcases e with ⟨miner, reward⟩ | ⟨now, height, tx⟩
    · exact (if_neg (by simp [sender])).symm
    · cases tx with
      | Transfer tx =>
        simp only [nonceAfter, sender, Option.elim, Option.some.injEq]
        by_cases ha : tx.from = a
        · subst ha
          rw [if_pos rfl, Function.update_self, Function.update_self]
        · rw [if_neg ha, Function.update_of_ne (Ne.symm ha)]
      | _ => exact absurd rfl hkind
  rw [hnonces]

/-- The new chain does on raised accounts what it does without, and writes the nonces of its
senders. -/
theorem final_raised {events : List Event} {L : Ledger} {D : Address → Balance}
    (nonces : Address → UInt64) (h : ∀ p ∈ (machine ext).trace events L, GoesThrough ext p)
    (hroom : ∀ p ∈ (machine ext).trace events L, ∀ a, NoCarry (p.2.balance a) (D a)) :
    (machine ext).halted events (raised D nonces L) = false ∧
      (machine ext).final events (raised D nonces L) = raised D
        (fun a => if sentBy a events = 0 then nonces a else ((machine ext).final events L).nonce a)
        ((machine ext).final events L) := by
  induction events generalizing L nonces with
  | nil => exact ⟨rfl, rfl⟩
  | cons e events ih =>
    obtain ⟨hfirst, htrace⟩ := trace_of_goesThrough h
    rw [htrace] at h hroom
    obtain ⟨hhalt, hnext⟩ := next_raised nonces hfirst (hroom _ List.mem_cons_self)
    obtain ⟨hhalt', hnext'⟩ := next_of_goesThrough hfirst
    obtain ⟨hhalted, hfinal⟩ := ih (fun a => if sender e = some a
      then ((machine ext).next e L).nonce a else nonces a)
      (fun p hp => h p (List.mem_cons_of_mem _ hp)) fun p hp => hroom p (List.mem_cons_of_mem _ hp)
    obtain ⟨-, hposted⟩ := final_of_goesThrough fun p hp => h p (List.mem_cons_of_mem _ hp)
    rw [Machine.halted_cons hhalt, Machine.final_cons hhalt, hnext, Machine.final_cons hhalt']
    refine ⟨hhalted, hfinal.trans (congrArg (fun n => raised D n _) (funext fun a => ?_))⟩
    rw [sentBy_cons]
    by_cases hsender : sender e = some a
    · rw [if_pos hsender, if_pos hsender, if_neg (Nat.succ_ne_zero _)]
      split_ifs with hsent
      · rw [hposted]
        exact (foldl_countUp_of_not_sent hsent).symm
      · rfl
    · rw [if_neg hsender, if_neg hsender, Nat.add_zero]

theorem raised_accounts_iff {D : Address → Balance} {nonces : Address → UInt64} {L : Ledger} :
    (raised D nonces L).accounts = L.accounts ↔ D = 0 ∧ ∀ a, nonces a = L.nonce a := by
  constructor
  · intro h
    have hbalances : L.accounts.balances + D = L.accounts.balances :=
      congrArg AccountState.balances h
    exact ⟨add_eq_left.mp hbalances, fun a => congrFun (congrArg AccountState.nonces h) a⟩
  · rintro ⟨rfl, hnonces⟩
    have hsame : nonces = L.accounts.nonces := funext hnonces
    rw [raised, add_zero, hsame]
    rfl

/-! ### The reorganisation -/

section Reorganised

variable {v : BlockValidator} {now : Int64} {clock : ℕ → ℕ → Int64} {O : List TimedBlock}
  {oldChain newChain : List Block} {A : Ledger} {s : NodeState ext}

/-- A reorganisation that succeeds applies the new chain to the unwound ledger. -/
theorem ledger_of_ok (h : (run (reorganizeChain v now clock oldChain newChain) s).1 = .ok ()) :
    newChain ≠ [] ∧ (run (reorganizeChain v now clock oldChain newChain) s).2.ledger =
      (run (applyBlocks ext (timed clock 0 newChain)) (unwindBlocks ext oldChain s.ledger)).2 := by
  obtain ⟨first, w, hfirst, hwork, hvalid, hmax, -⟩ := reorganizeChain_ok h
  have hswitches : SwitchesTo v now newChain s.chain := ⟨first, w, hfirst, hwork, hvalid⟩
  refine ⟨?_, ?_⟩
  · rintro rfl
    cases hfirst
  have hsame := storable_eq_self hmax
  rcases applyBlocks_cases (timed clock 0 (storable newChain)) (unwindBlocks ext oldChain s.ledger)
    with ⟨L, happlied⟩ | hpanics
  · obtain ⟨last, -, hrun⟩ := run_reorganizeChain_stored hswitches happlied hmax
    rw [hsame] at happlied
    rw [hrun, happlied]
    rfl
  · rw [run_reorganizeChain_panics hswitches hpanics] at h
    cases h

theorem sum_oldestFirst (blocks : List TimedBlock) :
    ((oldestFirst blocks).map added).sum = ((chainEvents blocks).map added).sum :=
  ((oldestFirst_perm blocks).map added).sum_eq

theorem total_oldestFirst (blocks : List TimedBlock) :
    total (oldestFirst blocks) = total (chainEvents blocks) :=
  ((oldestFirst_perm blocks).map _).sum_eq

/-- The old chain unwound: what is missing stays, and the nonces are counted back. -/
theorem unwound_eq (hold : ∀ p ∈ steps ext O A, GoesThrough ext p)
    (hs : s.ledger = (run (applyBlocks ext O) A).2) :
    unwindBlocks ext (O.map Prod.fst).reverse s.ledger =
      raised (shortfalls s.ledger.accounts.balances (oldestFirst O))
        ((oldestFirst O).foldl countDown ((chainEvents O).foldl countUp A.accounts.nonces)) A := by
  obtain ⟨-, hfinal⟩ := final_of_goesThrough hold
  rw [run_applyBlocks] at hs
  have hledger := hs.trans hfinal
  have hkind : ∀ e ∈ oldestFirst O, takenBack e ≠ none := fun e he =>
    takenBack_of_mem hold e ((oldestFirst_perm O).mem_iff.mp he)
  rw [unwindBlocks_oldestFirst, unwind_eq hkind, sum_oldestFirst, hledger]
  simp only [raised, withAccounts, add_sub_cancel_right]

/-- Where the new chain goes through with what is missing on the balances too, the accounts are
those of the new chain exactly if nothing is missing and the nonces are kept. -/
theorem accounts_iff (hold : ∀ p ∈ steps ext O A, GoesThrough ext p)
    (hnew : ∀ p ∈ steps ext (timed clock 0 newChain) A, GoesThrough ext p)
    (hs : s.ledger = (run (applyBlocks ext O) A).2)
    (hok : (run (reorganizeChain v now clock (O.map Prod.fst).reverse newChain) s).1 = .ok ())
    (hroom : ∀ p ∈ steps ext (timed clock 0 newChain) A, ∀ a, NoCarry (p.2.balance a)
      (shortfalls s.ledger.accounts.balances (oldestFirst O) a)) :
    (run (reorganizeChain v now clock (O.map Prod.fst).reverse newChain) s).2.ledger.accounts =
        (run (applyBlocks ext (timed clock 0 newChain)) A).2.accounts ↔
      shortfalls s.ledger.accounts.balances (oldestFirst O) = 0 ∧
        ∀ a, NonceKept A.accounts.nonces (chainEvents O)
          (chainEvents (timed clock 0 newChain)) a := by
  obtain ⟨-, hledger⟩ := ledger_of_ok hok
  obtain ⟨-, hfinal⟩ := final_raised ((oldestFirst O).foldl countDown
    ((chainEvents O).foldl countUp A.accounts.nonces)) hnew hroom
  obtain ⟨-, happlied⟩ := final_of_goesThrough hnew
  rw [hledger, unwound_eq hold hs, run_applyBlocks, run_applyBlocks]
  simp only
  rw [hfinal, raised_accounts_iff]
  refine and_congr Iff.rfl (forall_congr' fun a => ?_)
  unfold NonceKept
  by_cases hsent : sentBy a (chainEvents (timed clock 0 newChain)) = 0
  · have hkept : ((machine ext).final (chainEvents (timed clock 0 newChain)) A).nonce a =
        A.accounts.nonces a := by
      rw [happlied]
      exact foldl_countUp_of_not_sent hsent
    rw [if_pos hsent, hkept, nonce_back_iff (oldestFirst_perm O)]
    exact ⟨.inr, fun h => h.resolve_left fun hne => hne hsent⟩
  · rw [if_neg hsent]
    exact iff_of_true rfl (.inl hsent)

/-- The ancestor's accounts, with room on every balance for all that the old chain moved. -/
def Room (old : List Event) (taken : List Step) : Prop :=
  ∀ p ∈ taken, ∀ a, (p.2.balance a).toNat + total old < 2 ^ 128

variable (ext) in
/-- Unwinding the old chain oldest first restores the accounts. -/
structure Restores (O : List TimedBlock) (A : Ledger) (new : List Event) : Prop where
  /-- Each balance covers what is taken from it, in the order of unwinding. -/
  covered : Covered ((run (applyBlocks ext O) A).2).accounts.balances (oldestFirst O)
  nonces : ∀ a, NonceKept A.accounts.nonces (chainEvents O) new a

end Reorganised

section

variable (v : BlockValidator) (now : Int64) (clock : ℕ → ℕ → Int64) (O : List TimedBlock)
  (newChain : List Block) (A : Ledger) (s : NodeState ext)

/-- A reorganisation that succeeds leaves the accounts of the common ancestor with the new chain
applied if unwinding the old chain oldest first restores them; and only then, where the balances have
room for all that the old chain moved. -/
theorem reorganised_iff (hold : ∀ p ∈ steps ext O A, GoesThrough ext p)
    (hnew : ∀ p ∈ steps ext (timed clock 0 newChain) A, GoesThrough ext p)
    (hs : s.ledger = (run (applyBlocks ext O) A).2)
    (hok : (run (reorganizeChain v now clock (O.map Prod.fst).reverse newChain) s).1 = .ok ()) :
    (Restores ext O A (chainEvents (timed clock 0 newChain)) →
      (run (reorganizeChain v now clock (O.map Prod.fst).reverse newChain) s).2.ledger.accounts =
        (run (applyBlocks ext (timed clock 0 newChain)) A).2.accounts) ∧
    (Room (chainEvents O) (steps ext (timed clock 0 newChain) A) →
      (run (reorganizeChain v now clock (O.map Prod.fst).reverse newChain) s).2.ledger.accounts =
        (run (applyBlocks ext (timed clock 0 newChain)) A).2.accounts →
      Restores ext O A (chainEvents (timed clock 0 newChain))) := by
  have hkind : ∀ e ∈ oldestFirst O, takenBack e ≠ none := fun e he =>
    takenBack_of_mem hold e ((oldestFirst_perm O).mem_iff.mp he)
  constructor
  · rintro ⟨hcovered, hnonces⟩
    rw [← hs] at hcovered
    have hnone := shortfalls_of_covered hkind hcovered
    refine (accounts_iff hold hnew hs hok fun p _ a => ?_).mpr ⟨hnone, hnonces⟩
    rw [hnone]
    exact (p.2.balance a).isLt
  · intro hroom haccounts
    have hfits : ∀ p ∈ steps ext (timed clock 0 newChain) A, ∀ a, NoCarry (p.2.balance a)
        (shortfalls s.ledger.accounts.balances (oldestFirst O) a) := fun p hp a => by
      refine lt_of_le_of_lt (Nat.add_le_add_left (toNat_shortfalls_le _ _ a) _) ?_
      rw [total_oldestFirst]
      exact hroom p hp a
    obtain ⟨hnone, hnonces⟩ := (accounts_iff hold hnew hs hok hfits).mp haccounts
    have htotal : total (oldestFirst O) < 2 ^ 128 := by
      obtain ⟨hne, -⟩ := ledger_of_ok hok
      obtain ⟨block, blocks, rfl⟩ := List.exists_cons_of_ne_nil hne
      have hmem : (Event.coinbase block.header.miner block.coinbase.reward, A) ∈
          steps ext (timed clock 0 (block :: blocks)) A := List.mem_cons_self
      have hlt := hroom _ hmem block.header.miner
      rw [total_oldestFirst]
      omega
    refine ⟨?_, hnonces⟩
    rw [← hs]
    exact covered_of_shortfalls hkind htotal hnone

end

/-! ### What is received and passed on -/

/-- Alice pays 50 to Mallory. -/
def aliceToMallory : TransferTransaction where
  «from» := Sample.aliceKey.toAddress
  «to» := Sample.malloryKey.toAddress
  amount := 50
  fee := 1
  nonce := 0
  publicKey := Sample.aliceKey
  signature := ⟨0xfebebbdcd5e8bff0f51096c08022507bea4fea5cd29408ea2dacfa002afdaabe78e84a452429e44b0f30eaeadc3b5842b058d013de350fe4ff4b0a16165eb408⟩

/-- Mallory pays 49 of them to Bob. -/
def malloryToBob : TransferTransaction where
  «from» := Sample.malloryKey.toAddress
  «to» := Sample.bob
  amount := 49
  fee := 1
  nonce := 0
  publicKey := Sample.malloryKey
  signature := ⟨0xbf066b4b5bd6afc20a35d5c22e8cc5e4f9791a5950866e6d3747c35310f3d586c6f449bf260dfa3c3bb57fea13ff5019ef9eafe2ded423fe88984ffb7b048f07⟩

def transferBlock (block : Block) (transactionsRoot : Hash) (tx : TransferTransaction) : Block :=
  { block with
    header := { block.header with transactionsRoot := transactionsRoot }
    transactions := [.Transfer tx] }

/-- On block 6. -/
def payBlock : Block := transferBlock (minedBlock 7 hash6 commitmentHash7 23701)
  ⟨0x115fca8d717af138138b695524a8c7af41b98823b1b3161e0dc40bfe15015b38⟩ aliceToMallory

def payHash : Hash := ⟨0x0000c2c1ec139b1a49acf08c9ea2d2a3c13a01fa453dbc744c15d28b24e69db9⟩

/-- On the block in which Alice pays. -/
def spendBlock : Block := transferBlock
  (minedBlock 8 payHash ⟨0xc03e108ed0276c7ea9985a1a78063ca9c48a230f42d92ab8979f5bc90f2c412b⟩ 39755)
  ⟨0xf3c208ec27dff80a62f463f8e37e43c3ff11b12103f2651710202115043cf5ec⟩ malloryToBob

def reorgExt : Ext := Ext.ofTables
  [(encode Sample.problem, Sample.problemHash.bytes),
    (encode Sample.solution, Sample.solutionHash.bytes),
    (Sample.problemHash.asBytes ++ hash6.asBytes ++ Sample.solutionHash.asBytes,
      commitmentHash7.bytes),
    (encode (headerAt 0 Hash.ZERO), hash0.bytes), (encode (headerAt 1 hash0), hash1.bytes),
    (encode (headerAt 2 hash1), hash2.bytes), (encode (headerAt 3 hash2), hash3.bytes),
    (encode (headerAt 4 hash3), hash4.bytes), (encode (headerAt 5 hash4), hash5.bytes),
    (encode (headerAt 6 hash5), hash6.bytes), (encode lightBlock.header, lightHash.bytes),
    (encode payBlock.header, payHash.bytes),
    (encode spendBlock.header,
      0x000067badcb4d410e488ac3e326ca70459d33fa753277acf561e8fe30f7139d8)] []

/-- A node at block 6. -/
def sixNode : NodeState reorgExt :=
  (forkMachine reorgExt Sample.validator).final firstBlocks
    (start block0 (.ofAccounts Sample.aliceHas100))

/-- The node after blocks on block 6, where the ledger was `A`. -/
def nodeAfter (A : Ledger) (blocks : List Block) : NodeState reorgExt :=
  { sixNode with
    chain := (chainMachine reorgExt).final (blocks.map .storeBlock) sixNode.chain
    ledger := (run (applyBlocks reorgExt (timed (fun _ _ => 0) 0 blocks)) A).2 }

theorem ledger_nodeAfter (A : Ledger) (blocks : List Block) : (nodeAfter A blocks).ledger =
    (run (applyBlocks reorgExt (timed (fun _ _ => 0) 0 blocks)) A).2 := rfl

/-- Only Alice has a balance. -/
def firstLedger : Ledger := .ofAccounts Sample.aliceHas100

theorem nonce_firstLedger (a : Address) : firstLedger.accounts.nonces a = 0 := rfl

theorem covered_payBlock : Covered
    ((run (applyBlocks reorgExt (timed (fun _ _ => 0) 0 [payBlock])) firstLedger).2).accounts.balances
    (oldestFirst (timed (fun _ _ => 0) 0 [payBlock])) := by
  refine covered_cons.mpr ⟨⟨Sample.malloryKey.toAddress, 50, rfl, by decide +kernel⟩, ?_⟩
  refine covered_cons.mpr ⟨⟨Sample.carol, 25000000000000, rfl, by decide +kernel⟩, ?_⟩
  intro before e after hsplit
  cases before <;> cases hsplit

/-- From the block in which Alice pays to the light one. -/
theorem reorganised_iff_payBlock :
    (run (reorganizeChain Sample.validator 1767225660 (fun _ _ => 0)
      ((timed (fun _ _ => 0) 0 [payBlock]).map Prod.fst).reverse [lightBlock])
      (nodeAfter firstLedger [payBlock])).2.ledger.accounts =
        (run (applyBlocks reorgExt (timed (fun _ _ => 0) 0 [lightBlock])) firstLedger).2.accounts :=
  (reorganised_iff Sample.validator 1767225660 (fun _ _ => 0) (timed (fun _ _ => 0) 0 [payBlock])
    [lightBlock] firstLedger (nodeAfter firstLedger [payBlock]) (by decide +kernel)
    (by decide +kernel) (ledger_nodeAfter ..) (by decide +kernel)).1
    ⟨covered_payBlock, fun a => .inr (.inl (nonce_firstLedger a))⟩

/-- Where Mallory has spent in the second block what he got in the first, he keeps it. -/
theorem spent_is_kept : ¬ ∀ (v : BlockValidator) (now : Int64) (clock : ℕ → ℕ → Int64)
    (O : List TimedBlock) (newChain : List Block) (A : Ledger) (s : NodeState reorgExt),
    (∀ p ∈ steps reorgExt O A, GoesThrough reorgExt p) →
    (∀ p ∈ steps reorgExt (timed clock 0 newChain) A, GoesThrough reorgExt p) →
    s.ledger = (run (applyBlocks reorgExt O) A).2 →
    (run (reorganizeChain v now clock (O.map Prod.fst).reverse newChain) s).1 = .ok () →
    (run (reorganizeChain v now clock (O.map Prod.fst).reverse newChain) s).2.ledger.accounts =
      (run (applyBlocks reorgExt (timed clock 0 newChain)) A).2.accounts := by
  intro h
  obtain ⟨hok, hkept⟩ :
      (run (reorganizeChain Sample.validator 1767225660 (fun _ _ => 0)
        ((timed (fun _ _ => 0) 0 [payBlock, spendBlock]).map Prod.fst).reverse [lightBlock])
        (nodeAfter sixNode.ledger [payBlock, spendBlock])).1 = .ok () ∧
      (run (reorganizeChain Sample.validator 1767225660 (fun _ _ => 0)
        ((timed (fun _ _ => 0) 0 [payBlock, spendBlock]).map Prod.fst).reverse [lightBlock])
        (nodeAfter sixNode.ledger [payBlock, spendBlock])).2.ledger.accounts.balances
          Sample.malloryKey.toAddress ≠
        (run (applyBlocks reorgExt (timed (fun _ _ => 0) 0 [lightBlock]))
          sixNode.ledger).2.accounts.balances Sample.malloryKey.toAddress := by decide +kernel
  have hsame := h Sample.validator 1767225660 (fun _ _ => 0)
    (timed (fun _ _ => 0) 0 [payBlock, spendBlock]) [lightBlock] sixNode.ledger
    (nodeAfter sixNode.ledger [payBlock, spendBlock]) (by decide +kernel) (by decide +kernel)
    (ledger_nodeAfter ..) hok
  rw [hsame] at hkept
  exact hkept rfl

end Coinjecture.Node.Reorganisation
