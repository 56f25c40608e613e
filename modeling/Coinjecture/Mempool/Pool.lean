import Coinjecture.Core.Crypto
import Coinjecture.Lib.Heaps

/-! # The transaction pool

A priority queue by fee, a map and a set of hashes, and counters that are kept by hand. `Platform` is
what the pool takes from its platform: the binary heaps of the standard library and the size of a
`Transaction` in memory. -/

namespace Coinjecture.Mempool.Pool

open Lib.Heaps
open Core.Types Core.Transactions Core.Extern
open Core.Crypto

structure PooledTransaction where
  tx : Transaction
  txHash : Hash
  fee : Balance
  /-- Unix timestamp. -/
  receivedAt : Int64
  deriving DecidableEq

/-- `a.cmp(b)` is not `Greater`: a lower fee, or the same and received no earlier. -/
def cmpLe (a b : PooledTransaction) : Bool :=
  a.fee < b.fee ∨ (a.fee = b.fee ∧ b.receivedAt ≤ a.receivedAt)

structure Platform where
  queues : BinaryHeap cmpLe
  /-- Heaps of `Reverse<PooledTransaction>`. -/
  minQueues : BinaryHeap fun a b => cmpLe b a
  /-- `size_of::<Transaction>()`. -/
  txSize : ℕ
  txSize_pos : 0 < txSize

theorem cmpLe_iff {a b : PooledTransaction} :
    cmpLe a b = true ↔ a.fee < b.fee ∨ (a.fee = b.fee ∧ b.receivedAt ≤ a.receivedAt) := decide_eq_true_iff

theorem cmpLe_trans (a b c : PooledTransaction) (hab : cmpLe a b = true) (hbc : cmpLe b c = true) :
    cmpLe a c = true := by
  rw [cmpLe_iff] at *
  rcases hab with hab | ⟨hab, hab'⟩
  · rcases hbc with hbc | ⟨hbc, -⟩
    · exact .inl (BitVec.lt_trans hab hbc)
    · exact .inl (hbc ▸ hab)
  · rcases hbc with hbc | ⟨hbc, hbc'⟩
    · exact .inl (hab ▸ hbc)
    · exact .inr ⟨hab.trans hbc, Int64.le_trans hbc' hab'⟩

theorem cmpLe_total (a b : PooledTransaction) : (cmpLe a b || cmpLe b a) = true := by
  rw [Bool.or_eq_true, cmpLe_iff, cmpLe_iff]
  rcases Nat.lt_trichotomy a.fee.toNat b.fee.toNat with hlt | heq | hlt
  · exact .inl (.inl hlt)
  · have hfee : a.fee = b.fee := BitVec.eq_of_toNat_eq heq
    exact (Int64.le_total b.receivedAt a.receivedAt).imp (fun h => .inr ⟨hfee, h⟩)
      fun h => .inr ⟨hfee.symm, h⟩
  · exact .inr (.inl hlt)

/-- A platform on which the heaps are sorted lists. -/
def sortedPlatform : Platform where
  queues := sortedHeap cmpLe_trans cmpLe_total
  minQueues := sortedHeap (fun a b c hab hbc => cmpLe_trans c b a hbc hab) fun a b => cmpLe_total b a
  txSize := 500
  txSize_pos := by decide

structure PoolConfig where
  maxTransactions : ℕ
  maxSizeBytes : ℕ
  minFee : Balance

structure PoolStats where
  totalTransactions : ℕ
  totalBytes : ℕ
  transactionsAdded : ℕ
  transactionsRemoved : ℕ
  transactionsRejected : ℕ

inductive PoolError where
  | DuplicateTransaction
  | FeeTooLow
  | PoolFull
  | InvalidTransaction (message : String)
  deriving DecidableEq

structure TransactionPool (P : Platform) where
  queue : P.queues.Heap
  byHash : Hash → Option Transaction
  seen : Hash → Bool
  config : PoolConfig
  stats : PoolStats
  currentSize : ℕ

namespace TransactionPool

variable (ext : Ext) {P : Platform}

/-- `TransactionPool::with_config`. -/
def withConfig (config : PoolConfig) : TransactionPool P where
  queue := P.queues.new
  byHash _ := none
  seen _ := false
  config := config
  stats := ⟨0, 0, 0, 0, 0⟩
  currentSize := 0

/-- What is queued, in the order of the heap. -/
abbrev queued (s : TransactionPool P) : List PooledTransaction := P.queues.iter s.queue

/-- `transactions_rejected += 1`. -/
def rejected (s : TransactionPool P) : TransactionPool P :=
  { s with stats := { s.stats with transactionsRejected := s.stats.transactionsRejected + 1 } }

/-- The check of the capacity limits. -/
def isFull (s : TransactionPool P) : Prop :=
  s.config.maxTransactions ≤ s.stats.totalTransactions ∨ s.config.maxSizeBytes < s.currentSize + P.txSize

instance (s : TransactionPool P) : Decidable s.isFull := inferInstanceAs (Decidable (_ ∨ _))

/-- `evict_lowest`. -/
def evictLowest (s : TransactionPool P) : TransactionPool P :=
  let minHeap := P.minQueues.ofList s.queued
  match P.minQueues.pop minHeap with
  | some (lowest, minHeap) =>
    let queue := P.queues.ofList (P.minQueues.iter minHeap)
    { s with
      queue := queue
      byHash := Function.update s.byHash lowest.txHash none
      seen := Function.update s.seen lowest.txHash false
      stats := { s.stats with
        transactionsRemoved := s.stats.transactionsRemoved + 1
        totalTransactions := (P.queues.iter queue).length }
      currentSize := s.currentSize - P.txSize }
  | none =>
    let queue := P.queues.ofList (P.minQueues.iter minHeap)
    { s with
      queue := queue
      stats := { s.stats with totalTransactions := (P.queues.iter queue).length } }

/-- The entry of a transaction. -/
def pooled (now : Int64) (tx : Transaction) : PooledTransaction :=
  ⟨tx, Transaction.hash ext tx, tx.fee, now⟩

/-- The end of `add`. -/
def insert (now : Int64) (tx : Transaction) (s : TransactionPool P) : TransactionPool P :=
  let txHash := Transaction.hash ext tx
  let queue := P.queues.push (pooled ext now tx) s.queue
  { s with
    queue := queue
    byHash := Function.update s.byHash txHash (some tx)
    seen := Function.update s.seen txHash true
    stats := { s.stats with
      totalTransactions := (P.queues.iter queue).length
      totalBytes := s.stats.totalBytes + P.txSize
      transactionsAdded := s.stats.transactionsAdded + 1 }
    currentSize := s.currentSize + P.txSize }

/-- `TransactionPool::add`, `now` being what the clock says. -/
def add (now : Int64) (tx : Transaction) (s : TransactionPool P) :
    Except PoolError Hash × TransactionPool P :=
  let txHash := Transaction.hash ext tx
  if s.seen txHash then (.error .DuplicateTransaction, s.rejected)
  else if tx.fee < tx.requiredMinimumFee s.config.minFee then (.error .FeeTooLow, s.rejected)
  else if !Transaction.verifySignature ext tx then
    (.error (.InvalidTransaction "Invalid signature"), s.rejected)
  else if s.isFull then
    match P.queues.peek s.queue with
    | some lowest =>
      if lowest.fee < tx.fee then (.ok txHash, s.evictLowest.insert ext now tx)
      else (.error .PoolFull, s.rejected)
    | none => (.error .PoolFull, s.rejected)
  else (.ok txHash, s.insert ext now tx)

/-- `TransactionPool::remove`. -/
def remove (hash : Hash) (s : TransactionPool P) : Option Transaction × TransactionPool P :=
  match s.byHash hash with
  | some tx =>
    let queue := P.queues.ofList (s.queued.filter fun p => p.txHash ≠ hash)
    (some tx,
      { s with
        queue := queue
        byHash := Function.update s.byHash hash none
        seen := Function.update s.seen hash false
        stats := { s.stats with
          totalTransactions := (P.queues.iter queue).length
          totalBytes := s.stats.totalBytes - P.txSize
          transactionsRemoved := s.stats.transactionsRemoved + 1 }
        currentSize := s.currentSize - P.txSize })
  | none => (none, s)

/-- `TransactionPool::remove_batch`. -/
def removeBatch (hashes : List Hash) (s : TransactionPool P) : TransactionPool P :=
  hashes.foldl (fun s hash => (s.remove hash).2) s

/-- `sort_by_key(|tx| Reverse(tx.fee()))`: by fee, the highest first, and stable. -/
def byFee (txs : List Transaction) : List Transaction := txs.mergeSort fun a b => b.fee ≤ a.fee

/-- The loop of `add_batch`; `clock` says what time it is at each insertion. -/
def addAll (clock : ℕ → Int64) : ℕ → List Transaction → TransactionPool P →
    List (Hash × Except PoolError Unit) × TransactionPool P
  | _, [], s => ([], s)
  | k, tx :: rest, s =>
    let hash := Transaction.hash ext tx
    let (outcome, s) := s.add ext (clock k) tx
    let result := match outcome with
      | .ok h => (h, .ok ())
      | .error e => (hash, .error e)
    let (results, s) := addAll clock (k + 1) rest s
    (result :: results, s)

/-- `TransactionPool::add_batch`. -/
def addBatch (clock : ℕ → Int64) (txs : List Transaction) (s : TransactionPool P) :
    List (Hash × Except PoolError Unit) × TransactionPool P :=
  addAll ext clock 0 (byFee txs) s

/-- `TransactionPool::clear`. -/
def clear (s : TransactionPool P) : TransactionPool P :=
  { s with
    queue := P.queues.new
    byHash := fun _ => none
    seen := fun _ => false
    stats := { s.stats with totalTransactions := 0, totalBytes := 0 }
    currentSize := 0 }

/-! ### The pool is consistent -/

/-- The queue, the map and the set hold the same transactions, each once, and as many as they may; the
size and the count are right. -/
structure Consistent (s : TransactionPool P) : Prop where
  nodup : (s.queued.map PooledTransaction.txHash).Nodup
  entry : ∀ p ∈ s.queued, p.txHash = Transaction.hash ext p.tx ∧ p.fee = p.tx.fee
  byHash : ∀ hash tx, s.byHash hash = some tx ↔ ∃ p ∈ s.queued, p.txHash = hash ∧ p.tx = tx
  seen : ∀ hash, s.seen hash = true ↔ ∃ p ∈ s.queued, p.txHash = hash
  bounded : s.queued.length ≤ s.config.maxTransactions
  size : s.currentSize = (s.queued.map fun _ => P.txSize).sum
  count : s.stats.totalTransactions = s.queued.length

variable {ext} {s : TransactionPool P}

theorem sum_txSize (l : List PooledTransaction) : (l.map fun _ => P.txSize).sum = l.length * P.txSize := by
  rw [List.map_const', List.sum_replicate, smul_eq_mul]

theorem consistent_of_empty (hqueue : s.queued = []) (hbyHash : s.byHash = fun _ => none)
    (hseen : s.seen = fun _ => false) (hsize : s.currentSize = 0) (hcount : s.stats.totalTransactions = 0) :
    Consistent ext s where
  nodup := by simp [hqueue]
  entry p hp := by simp [hqueue] at hp
  byHash hash tx := by simp [hqueue, hbyHash]
  seen hash := by simp [hqueue, hseen]
  bounded := by simp [hqueue]
  size := by simp [hqueue, hsize]
  count := by simp [hqueue, hcount]

theorem consistent_withConfig (config : PoolConfig) :
    Consistent ext (withConfig config : TransactionPool P) :=
  consistent_of_empty P.queues.iter_new rfl rfl rfl rfl

theorem consistent_clear (s : TransactionPool P) : Consistent ext s.clear :=
  consistent_of_empty P.queues.iter_new rfl rfl rfl rfl

theorem consistent_rejected (h : Consistent ext s) : Consistent ext s.rejected :=
  ⟨h.nodup, h.entry, h.byHash, h.seen, h.bounded, h.size, h.count⟩

theorem currentSize_eq (h : Consistent ext s) : s.currentSize = s.queued.length * P.txSize :=
  h.size.trans (sum_txSize _)

/-- A transaction that was not there is entered everywhere. -/
theorem consistent_insert (h : Consistent ext s) {tx : Transaction}
    (hnew : s.seen (Transaction.hash ext tx) = false) (hroom : s.queued.length < s.config.maxTransactions)
    (now : Int64) : Consistent ext (s.insert ext now tx) := by
  have hperm : (s.insert ext now tx).queued.Perm (pooled ext now tx :: s.queued) :=
    P.queues.iter_push _ _
  have hlength : (s.insert ext now tx).queued.length = s.queued.length + 1 := hperm.length_eq
  have habsent : ∀ p ∈ s.queued, p.txHash ≠ Transaction.hash ext tx := fun p hp heq =>
    Bool.false_ne_true (hnew.symm.trans ((h.seen _).mpr ⟨p, hp, heq⟩))
  constructor
  · refine (hperm.map _).nodup_iff.mpr (List.nodup_cons.mpr ⟨fun hmem => ?_, h.nodup⟩)
    obtain ⟨p, hp, heq⟩ := List.mem_map.mp hmem
    exact habsent p hp heq
  · intro p hp
    rcases List.mem_cons.mp (hperm.mem_iff.mp hp) with rfl | hp
    · exact ⟨rfl, rfl⟩
    · exact h.entry p hp
  · intro hash tx'
    change Function.update s.byHash (Transaction.hash ext tx) (some tx) hash = some tx' ↔ _
    simp only [hperm.mem_iff, List.mem_cons, exists_eq_or_imp]
    by_cases hhash : hash = Transaction.hash ext tx
    · subst hhash
      rw [Function.update_self, Option.some.injEq]
      refine ⟨fun heq => .inl ⟨rfl, heq⟩, fun hor => hor.elim And.right fun ⟨p, hp, heq, _⟩ => ?_⟩
      exact absurd heq (habsent p hp)
    · rw [Function.update_of_ne hhash, h.byHash]
      exact ⟨.inr, fun hor => hor.elim (fun heq => absurd heq.1.symm hhash) id⟩
  · intro hash
    change Function.update s.seen (Transaction.hash ext tx) true hash = true ↔ _
    simp only [hperm.mem_iff, List.mem_cons, exists_eq_or_imp]
    by_cases hhash : hash = Transaction.hash ext tx
    · subst hhash
      rw [Function.update_self]
      exact iff_of_true rfl (.inl rfl)
    · rw [Function.update_of_ne hhash, h.seen]
      exact ⟨.inr, fun hor => hor.elim (fun heq => absurd heq.symm hhash) id⟩
  · rw [hlength]
    exact hroom
  · rw [sum_txSize, hlength, Nat.succ_mul, ← currentSize_eq h]
    rfl
  · rfl

/-- A transaction that was there is taken out everywhere. -/
theorem consistent_without {t : TransactionPool P} {p : PooledTransaction} (h : Consistent ext s)
    (hperm : s.queued.Perm (p :: t.queued)) (hbyHash : t.byHash = Function.update s.byHash p.txHash none)
    (hseen : t.seen = Function.update s.seen p.txHash false) (hconfig : t.config = s.config)
    (hsize : t.currentSize = s.currentSize - P.txSize)
    (hcount : t.stats.totalTransactions = t.queued.length) : Consistent ext t := by
  have hnodup := (hperm.map PooledTransaction.txHash).nodup_iff.mp h.nodup
  rw [List.map_cons, List.nodup_cons] at hnodup
  have hother : ∀ q ∈ t.queued, q.txHash ≠ p.txHash := fun q hq heq =>
    hnodup.1 (heq ▸ List.mem_map_of_mem hq)
  have hlength : s.queued.length = t.queued.length + 1 := hperm.length_eq
  constructor
  · exact hnodup.2
  · exact fun q hq => h.entry q (hperm.mem_iff.mpr (List.mem_cons_of_mem _ hq))
  · intro hash tx
    rw [hbyHash]
    by_cases hhash : hash = p.txHash
    · subst hhash
      rw [Function.update_self]
      exact iff_of_false (by simp) fun ⟨q, hq, heq, _⟩ => hother q hq heq
    · rw [Function.update_of_ne hhash, h.byHash]
      simp only [hperm.mem_iff, List.mem_cons, exists_eq_or_imp]
      exact ⟨fun hor => hor.elim (fun heq => absurd heq.1.symm hhash) id, .inr⟩
  · intro hash
    rw [hseen]
    by_cases hhash : hash = p.txHash
    · subst hhash
      rw [Function.update_self]
      exact iff_of_false Bool.false_ne_true fun ⟨q, hq, heq⟩ => hother q hq heq
    · rw [Function.update_of_ne hhash, h.seen]
      simp only [hperm.mem_iff, List.mem_cons, exists_eq_or_imp]
      exact ⟨fun hor => hor.elim (fun heq => absurd heq.symm hhash) id, .inr⟩
  · rw [hconfig]
    have hbounded := h.bounded
    omega
  · rw [sum_txSize, hsize, currentSize_eq h, hlength, Nat.succ_mul, Nat.add_sub_cancel]
  · exact hcount

/-! ### What the operations do -/

theorem fee_le_of_cmpLe {p q : PooledTransaction} (h : cmpLe p q = true) : p.fee ≤ q.fee := by
  rw [cmpLe_iff] at h
  exact h.elim (fun hlt => BitVec.le_of_lt hlt) fun heq => heq.1 ▸ BitVec.le_refl _

/-- What eviction takes out of a pool that is not empty: an entry of the lowest fee. -/
theorem evictLowest_spec (h : Consistent ext s) (hne : s.queued ≠ []) :
    Consistent ext s.evictLowest ∧ (∃ p ∈ s.queued, (∀ q ∈ s.queued, p.fee ≤ q.fee) ∧
      s.queued.Perm (p :: s.evictLowest.queued)) ∧ s.evictLowest.config = s.config ∧
      s.evictLowest.stats.totalBytes = s.stats.totalBytes ∧
      s.evictLowest.currentSize = s.currentSize - P.txSize := by
  have hheap : (P.minQueues.iter (P.minQueues.ofList s.queued)).Perm s.queued := P.minQueues.iter_ofList _
  obtain ⟨⟨p, rest⟩, hpop⟩ : ∃ r, P.minQueues.pop (P.minQueues.ofList s.queued) = some r := by
    refine Option.ne_none_iff_exists'.mp fun hnone => hne ?_
    have hnil := (P.minQueues.pop_none _).mp hnone
    exact List.Perm.nil_eq (hnil ▸ hheap) |>.symm
  obtain ⟨hgreatest, hrest⟩ := P.minQueues.pop_some _ _ _ hpop
  have hleast := hgreatest.perm hheap
  have hevict : s.evictLowest = { s with
      queue := P.queues.ofList (P.minQueues.iter rest)
      byHash := Function.update s.byHash p.txHash none
      seen := Function.update s.seen p.txHash false
      stats := { s.stats with
        transactionsRemoved := s.stats.transactionsRemoved + 1
        totalTransactions := (P.queues.iter (P.queues.ofList (P.minQueues.iter rest))).length }
      currentSize := s.currentSize - P.txSize } := by
    unfold evictLowest
    simp only [hpop]
  have hperm : s.queued.Perm (p :: s.evictLowest.queued) := by
    rw [hevict]
    exact hheap.symm.trans (hrest.trans ((P.queues.iter_ofList _).symm.cons p))
  have hfee : ∀ q ∈ s.queued, p.fee ≤ q.fee := fun q hq => fee_le_of_cmpLe (hleast.2 q hq)
  refine ⟨consistent_without h hperm ?_ ?_ ?_ ?_ ?_, ⟨p, hleast.1, hfee, hperm⟩, ?_, ?_, ?_⟩
  all_goals rw [hevict]

/-- A list without the entry of one hash. -/
theorem perm_cons_filter {l : List PooledTransaction} {p : PooledTransaction}
    (hnodup : (l.map PooledTransaction.txHash).Nodup) (hp : p ∈ l) :
    l.Perm (p :: l.filter fun q => q.txHash ≠ p.txHash) := by
  have hfilter : l.filter (fun q => q.txHash ≠ p.txHash) = l.erase p := by
    rw [(List.Nodup.of_map _ hnodup).erase_eq_filter]
    refine List.filter_congr fun q hq => ?_
    have hinj : q.txHash = p.txHash ↔ q = p :=
      ⟨fun heq => List.inj_on_of_nodup_map hnodup hq hp heq, fun heq => heq ▸ rfl⟩
    by_cases heq : q = p <;> simp [hinj, heq]
  rw [hfilter]
  exact List.perm_cons_erase hp

theorem remove_spec (h : Consistent ext s) (hash : Hash) : Consistent ext (s.remove hash).2 ∧
    (s.remove hash).2.config = s.config ∧
    ((s.remove hash).2 = s ∨ (P.txSize ≤ s.currentSize ∧
      (s.remove hash).2.stats.totalBytes = s.stats.totalBytes - P.txSize ∧
      (s.remove hash).2.currentSize = s.currentSize - P.txSize)) := by
  rcases hget : s.byHash hash with _ | tx
  · have hsame : (s.remove hash).2 = s := by
      unfold remove
      simp only [hget]
    rw [hsame]
    exact ⟨h, rfl, .inl rfl⟩
  · obtain ⟨p, hp, rfl, rfl⟩ := (h.byHash hash tx).mp hget
    have hremove : (s.remove p.txHash).2 = { s with
        queue := P.queues.ofList (s.queued.filter fun q => q.txHash ≠ p.txHash)
        byHash := Function.update s.byHash p.txHash none
        seen := Function.update s.seen p.txHash false
        stats := { s.stats with
          totalTransactions :=
            (P.queues.iter (P.queues.ofList (s.queued.filter fun q => q.txHash ≠ p.txHash))).length
          totalBytes := s.stats.totalBytes - P.txSize
          transactionsRemoved := s.stats.transactionsRemoved + 1 }
        currentSize := s.currentSize - P.txSize } := by
      unfold remove
      simp only [hget]
    have hperm : s.queued.Perm (p :: (s.remove p.txHash).2.queued) := by
      rw [hremove]
      exact (perm_cons_filter h.nodup hp).trans ((P.queues.iter_ofList _).symm.cons p)
    have hlarge : P.txSize ≤ s.currentSize := by
      rw [currentSize_eq h]
      exact Nat.le_mul_of_pos_left _ (List.length_pos_of_mem hp)
    refine ⟨consistent_without h hperm ?_ ?_ ?_ ?_ ?_, ?_, .inr ⟨hlarge, ?_, ?_⟩⟩
    all_goals rw [hremove]

end TransactionPool

end Coinjecture.Mempool.Pool
