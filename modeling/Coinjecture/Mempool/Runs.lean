import Coinjecture.Mempool.Admission

/-! # Runs of the pool

The pool under any sequence of operations. What it holds is consistent in every state; its statistics say
how many bytes that is until a transaction is evicted, since `evict_lowest` does not take them off.

* `bookkeeping_iff` : the books are right in every state exactly of the runs that evict nothing.
* `evictsByLowestFee_iff` : a full pool admits what pays more than its lowest fee exactly if that pays
  more than its highest fee, too.
-/

namespace Coinjecture.Mempool.Runs

open Core.Types Core.Transactions Core.Extern
open Core.Crypto
open Mempool.Pool Mempool.Pool.TransactionPool
open Mempool.Admission

/-- A call of an operation, with what the clock says where it is read. -/
inductive PoolOp where
  | add (now : Int64) (tx : Transaction)
  | addBatch (clock : ℕ → Int64) (txs : List Transaction)
  | remove (hash : Hash)
  | removeBatch (hashes : List Hash)
  | clear

variable (ext : Ext) {P : Platform}

def next (s : TransactionPool P) : PoolOp → TransactionPool P
  | .add now tx => (s.add ext now tx).2
  | .addBatch clock txs => (s.addBatch ext clock txs).2
  | .remove hash => (s.remove hash).2
  | .removeBatch hashes => s.removeBatch hashes
  | .clear => s.clear

variable (P) in
/-- The pool after these operations on a new one. -/
def after (config : PoolConfig) (ops : List PoolOp) : TransactionPool P :=
  ops.foldl (next ext) (withConfig config)

/-- The transaction is entered in place of another. -/
def Evicts (tx : Transaction) (s : TransactionPool P) : Prop := Valid ext tx s ∧ s.isFull ∧ Outbids tx s

/-- … by an operation, alone or in a batch. -/
def EvictsIn (s : TransactionPool P) : PoolOp → Prop
  | .add _ tx => Evicts ext tx s
  | .addBatch clock txs => ∃ turn ∈ turns ext clock 0 (byFee txs) s, Evicts ext turn.tx turn.before
  | .remove _ | .removeBatch _ | .clear => False

/-- The pool is consistent, and the statistics have its size. -/
def Bookkeeping (s : TransactionPool P) : Prop :=
  Consistent ext s ∧ s.stats.totalBytes = (s.queued.map fun _ => P.txSize).sum

/-- The pool is consistent, and the statistics have `d` bytes too many. -/
def Excess (s : TransactionPool P) (d : ℕ) : Prop :=
  Consistent ext s ∧ s.stats.totalBytes = s.currentSize + d

variable {ext} {s : TransactionPool P} {tx : Transaction} {d : ℕ}

theorem bookkeeping_iff_excess : Bookkeeping ext s ↔ Excess ext s 0 :=
  and_congr_right fun h => by rw [h.size, Nat.add_zero]

theorem Excess.unique {d' : ℕ} (h : Excess ext s d) (h' : Excess ext s d') : d = d' := by
  have heq := h.2.symm.trans h'.2
  omega

/-! ### One operation -/

theorem length_lt_of_not_isFull (h : Consistent ext s) (hroom : ¬ s.isFull) :
    s.queued.length < s.config.maxTransactions := by
  rw [← h.count]
  exact not_le.mp (not_or.mp hroom).1

/-- An insertion in place of another transaction. -/
theorem excess_evict (h : Excess ext s d) (hevicts : Evicts ext tx s) (now : Int64) :
    Excess ext (s.evictLowest.insert ext now tx) (d + P.txSize) := by
  obtain ⟨hvalid, -, houtbids⟩ := hevicts
  obtain ⟨hne, -⟩ := outbids_iff.mp houtbids
  obtain ⟨hconsistent, ⟨p, hp, -, hperm⟩, hconfig, hbytes, hsize⟩ := evictLowest_spec h.1 hne
  have hlength : s.queued.length = s.evictLowest.queued.length + 1 := hperm.length_eq
  have hlarge : P.txSize ≤ s.currentSize := by
    rw [currentSize_eq h.1]
    exact Nat.le_mul_of_pos_left _ (List.length_pos_of_mem hp)
  have hnew : s.evictLowest.seen (Transaction.hash ext tx) = false := by
    refine Bool.eq_false_iff.mpr fun hseen => Bool.false_ne_true (hvalid.1.symm.trans ?_)
    obtain ⟨q, hq, hhash⟩ := (hconsistent.seen _).mp hseen
    exact (h.1.seen _).mpr ⟨q, hperm.mem_iff.mpr (List.mem_cons_of_mem _ hq), hhash⟩
  have hroom : s.evictLowest.queued.length < s.evictLowest.config.maxTransactions := by
    have hbounded := h.1.bounded
    rw [hconfig]
    omega
  refine ⟨consistent_insert hconsistent hnew hroom now, ?_⟩
  have htotal := h.2
  change s.evictLowest.stats.totalBytes + P.txSize = s.evictLowest.currentSize + P.txSize + (d + P.txSize)
  omega

theorem excess_add (h : Excess ext s d) (hnot : ¬ Evicts ext tx s) (now : Int64) :
    Excess ext (s.add ext now tx).2 d := by
  rcases add_cases ext now tx s with ⟨e, hadd⟩ | ⟨hvalid, hroom, hadd⟩ | ⟨hvalid, hfull, houtbids, -⟩
  · rw [hadd]
    exact ⟨consistent_rejected h.1, h.2⟩
  · rw [hadd]
    refine ⟨consistent_insert h.1 hvalid.1 (length_lt_of_not_isFull h.1 hroom) now, ?_⟩
    have htotal := h.2
    change s.stats.totalBytes + P.txSize = s.currentSize + P.txSize + d
    omega
  · exact absurd ⟨hvalid, hfull, houtbids⟩ hnot

/-- The excess grows exactly by evictions. -/
theorem exists_excess_add (h : Excess ext s d) (now : Int64) (tx : Transaction) :
    ∃ d', Excess ext (s.add ext now tx).2 d' ∧ d ≤ d' ∧ (d' = d ↔ ¬ Evicts ext tx s) := by
  by_cases hevicts : Evicts ext tx s
  · refine ⟨d + P.txSize, ?_, Nat.le_add_right _ _, ?_⟩
    · rw [add_of_outbids hevicts.1 hevicts.2.1 hevicts.2.2]
      exact excess_evict h hevicts now
    · have hpos := P.txSize_pos
      exact iff_of_false (by omega) (not_not_intro hevicts)
  · exact ⟨d, excess_add h hevicts now, le_rfl, iff_of_true rfl hevicts⟩

theorem exists_excess_addAll (h : Excess ext s d) (clock : ℕ → Int64) (k : ℕ) (txs : List Transaction) :
    ∃ d', Excess ext (addAll ext clock k txs s).2 d' ∧ d ≤ d' ∧
      (d' = d ↔ ¬ ∃ turn ∈ turns ext clock k txs s, Evicts ext turn.tx turn.before) := by
  induction txs generalizing k s d with
  | nil => exact ⟨d, h, le_rfl, iff_of_true rfl fun ⟨turn, hturn, _⟩ => List.not_mem_nil hturn⟩
  | cons tx rest ih =>
    obtain ⟨d₁, h₁, hle₁, heq₁⟩ := exists_excess_add h (clock k) tx
    obtain ⟨d₂, h₂, hle₂, heq₂⟩ := ih h₁ (k + 1)
    refine ⟨d₂, h₂, hle₁.trans hle₂, ?_⟩
    simp only [turns, List.mem_cons, exists_eq_or_imp]
    rw [not_or, ← heq₁, ← heq₂]
    omega

theorem excess_remove (h : Excess ext s d) (hash : Hash) : Excess ext (s.remove hash).2 d := by
  obtain ⟨hconsistent, -, hsame | ⟨hlarge, hbytes, hsize⟩⟩ := remove_spec h.1 hash
  · rw [hsame]
    exact h
  · refine ⟨hconsistent, ?_⟩
    have htotal := h.2
    omega

theorem excess_removeBatch (h : Excess ext s d) (hashes : List Hash) :
    Excess ext (s.removeBatch hashes) d := by
  induction hashes generalizing s with
  | nil => exact h
  | cons hash hashes ih => exact ih (excess_remove h hash)

/-- Every operation keeps the pool consistent. -/
theorem exists_excess_next (h : Excess ext s d) (op : PoolOp) : ∃ d', Excess ext (next ext s op) d' := by
  cases op with
  | add now tx =>
    obtain ⟨d', hd, -⟩ := exists_excess_add h now tx
    exact ⟨d', hd⟩
  | addBatch clock txs =>
    obtain ⟨d', hd, -⟩ := exists_excess_addAll h clock 0 (byFee txs)
    exact ⟨d', hd⟩
  | remove hash => exact ⟨d, excess_remove h hash⟩
  | removeBatch hashes => exact ⟨d, excess_removeBatch h hashes⟩
  | clear => exact ⟨0, consistent_clear s, rfl⟩

/-- … and keeps right books right exactly if it evicts nothing. -/
theorem bookkeeping_next_iff (h : Bookkeeping ext s) (op : PoolOp) :
    Bookkeeping ext (next ext s op) ↔ ¬ EvictsIn ext s op := by
  rw [bookkeeping_iff_excess] at h ⊢
  have hunique : ∀ {t : TransactionPool P} {d : ℕ}, Excess ext t d → (Excess ext t 0 ↔ d = 0) :=
    fun hd => ⟨fun hzero => hd.unique hzero, fun hzero => hzero ▸ hd⟩
  cases op with
  | add now tx =>
    obtain ⟨d', hd, -, heq⟩ := exists_excess_add h now tx
    exact (hunique hd).trans heq
  | addBatch clock txs =>
    obtain ⟨d', hd, -, heq⟩ := exists_excess_addAll h clock 0 (byFee txs)
    exact (hunique hd).trans heq
  | remove hash => exact iff_of_true (excess_remove h hash) id
  | removeBatch hashes => exact iff_of_true (excess_removeBatch h hashes) id
  | clear => exact iff_of_true ⟨consistent_clear s, rfl⟩ id

/-! ### All operations -/

theorem after_concat (config : PoolConfig) (ops : List PoolOp) (op : PoolOp) :
    after ext P config (ops ++ [op]) = next ext (after ext P config ops) op := by
  rw [after, List.foldl_append]
  rfl

theorem bookkeeping_nil (config : PoolConfig) : Bookkeeping ext (after ext P config []) :=
  bookkeeping_iff_excess.mpr ⟨consistent_withConfig config, rfl⟩

/-- The pool is consistent in every state of every run. -/
theorem consistent_after (ext : Ext) (P : Platform) (config : PoolConfig) (ops : List PoolOp) :
    Consistent ext (after ext P config ops) := by
  have hexcess : ∃ d, Excess ext (after ext P config ops) d := by
    induction ops using List.reverseRecOn with
    | nil => exact ⟨0, bookkeeping_iff_excess.mp (bookkeeping_nil config)⟩
    | append_singleton ops op ih =>
      obtain ⟨d, hd⟩ := ih
      rw [after_concat]
      exact exists_excess_next hd op
  obtain ⟨d, hd⟩ := hexcess
  exact hd.1

/-- The books are right in every state of a run exactly if none of its operations evicts. -/
theorem bookkeeping_iff (ext : Ext) (P : Platform) (config : PoolConfig) (ops : List PoolOp) :
    (∀ early rest, ops = early ++ rest → Bookkeeping ext (after ext P config early)) ↔
      ∀ early op rest, ops = early ++ op :: rest → ¬ EvictsIn ext (after ext P config early) op := by
  constructor
  · intro hbooks early op rest hops
    have hops' : ops = early ++ [op] ++ rest := by rw [hops, List.append_assoc, List.singleton_append]
    have hnext := hbooks (early ++ [op]) rest hops'
    rw [after_concat] at hnext
    exact (bookkeeping_next_iff (hbooks early _ hops) op).mp hnext
  · intro hnone early
    induction early using List.reverseRecOn with
    | nil => exact fun _ _ => bookkeeping_nil config
    | append_singleton early op ih =>
      intro rest hops
      rw [List.append_assoc, List.singleton_append] at hops
      rw [after_concat]
      exact (bookkeeping_next_iff (ih _ hops) op).mpr (hnone early op rest hops)

/-! ### Eviction -/

variable (ext) in
/-- No fee is reached by fewer transactions. -/
def FeesNoWorse (s t : TransactionPool P) : Prop :=
  ∀ fee : Balance, s.queued.countP (fun p => fee ≤ p.fee) ≤ t.queued.countP (fun p => fee ≤ p.fee)

/-- What pays more than the lowest fee is admitted and one entry of the lowest fee is removed; anything
else is refused. -/
def EvictsByLowestFee (ext : Ext) (now : Int64) (tx : Transaction) (s : TransactionPool P) : Prop :=
  ((∃ p ∈ s.queued, p.fee < tx.fee) →
    (s.add ext now tx).1 = .ok (Transaction.hash ext tx) ∧
    ∃ lowest ∈ s.queued, (∀ p ∈ s.queued, lowest.fee ≤ p.fee) ∧
      (s.add ext now tx).2.queued.Perm (pooled ext now tx :: s.queued.erase lowest)) ∧
  ((∀ p ∈ s.queued, tx.fee ≤ p.fee) →
    (∃ e, (s.add ext now tx).1 = .error e) ∧ (s.add ext now tx).2 = s.rejected) ∧
  FeesNoWorse s (s.add ext now tx).2

/-- The fee is not between the lowest and the highest in the pool. -/
def Clear (tx : Transaction) (s : TransactionPool P) : Prop :=
  (∀ p ∈ s.queued, tx.fee ≤ p.fee) ∨ ∀ p ∈ s.queued, p.fee < tx.fee

theorem add_evicting (h : Consistent ext s) (hvalid : Valid ext tx s) (hfull : s.isFull)
    (houtbids : Outbids tx s) (now : Int64) :
    (s.add ext now tx).1 = .ok (Transaction.hash ext tx) ∧
    ∃ lowest ∈ s.queued, (∀ p ∈ s.queued, lowest.fee ≤ p.fee) ∧
      (s.add ext now tx).2.queued.Perm (pooled ext now tx :: s.queued.erase lowest) := by
  obtain ⟨hne, -⟩ := outbids_iff.mp houtbids
  obtain ⟨-, ⟨lowest, hlowest, hleast, hperm⟩, -⟩ := evictLowest_spec h hne
  rw [add_of_outbids hvalid hfull houtbids]
  refine ⟨rfl, lowest, hlowest, hleast, (P.queues.iter_push _ _).trans (.cons _ ?_)⟩
  have herase := hperm.erase lowest
  rw [List.erase_cons_head] at herase
  exact herase.symm

theorem feesNoWorse_of_eq {t : TransactionPool P} (h : t.queued = s.queued) : FeesNoWorse s t :=
  fun fee => le_of_eq (by rw [h])

/-- No addition makes the fees worse. -/
theorem feesNoWorse_add (h : Consistent ext s) (now : Int64) (tx : Transaction) :
    FeesNoWorse s (s.add ext now tx).2 := by
  rcases add_cases ext now tx s with ⟨e, hadd⟩ | ⟨-, -, hadd⟩ | ⟨hvalid, hfull, houtbids, -⟩
  · exact feesNoWorse_of_eq (by rw [hadd]; rfl)
  · intro fee
    have hperm : (s.add ext now tx).2.queued.Perm (pooled ext now tx :: s.queued) := by
      rw [hadd]
      exact P.queues.iter_push _ _
    rw [hperm.countP_eq]
    exact (List.sublist_cons_self _ _).countP_le
  · obtain ⟨-, lowest, hlowest, -, hperm⟩ := add_evicting h hvalid hfull houtbids now
    have hpays := (outbids_iff.mp houtbids).2 lowest hlowest
    intro fee
    rw [hperm.countP_eq, (List.perm_cons_erase hlowest).countP_eq, List.countP_cons, List.countP_cons]
    refine Nat.add_le_add_left ?_ _
    by_cases hfee : fee ≤ lowest.fee
    · have hfee' : fee ≤ (pooled ext now tx).fee := BitVec.le_trans hfee (BitVec.le_of_lt hpays)
      simp [hfee, hfee']
    · simp [hfee]

/-- What a full pool refuses pays no more than any entry, if it admits by its lowest fee. -/
theorem clear_of_evictsByLowestFee (hvalid : Valid ext tx s) (hfull : s.isFull) {now : Int64}
    (h : EvictsByLowestFee ext now tx s) : Clear tx s := by
  by_cases houtbids : Outbids tx s
  · exact .inr (outbids_iff.mp houtbids).2
  · refine .inl fun p hp => BitVec.not_lt.mp fun hlt => ?_
    have hok := (h.1 ⟨p, hp, hlt⟩).1
    rw [add_of_not_outbids hvalid hfull houtbids now] at hok
    cases hok

/-- A full pool admits by its lowest fee exactly where the highest one decides the same. -/
theorem evictsByLowestFee_iff (ext : Ext) (P : Platform) (config : PoolConfig) (ops : List PoolOp)
    (now : Int64) (tx : Transaction) (hfull : (after ext P config ops).isFull)
    (hvalid : Valid ext tx (after ext P config ops)) :
    EvictsByLowestFee ext now tx (after ext P config ops) ↔ Clear tx (after ext P config ops) := by
  have h := consistent_after ext P config ops
  have hworse := feesNoWorse_add h now tx
  generalize after ext P config ops = s at *
  refine ⟨clear_of_evictsByLowestFee hvalid hfull, fun hclear => ?_⟩
  by_cases houtbids : Outbids tx s
  · obtain ⟨hne, hall⟩ := outbids_iff.mp houtbids
    refine ⟨fun _ => add_evicting h hvalid hfull houtbids now, fun hlow => ?_, hworse⟩
    obtain ⟨p, hp⟩ := List.exists_mem_of_ne_nil _ hne
    exact absurd (hall p hp) (BitVec.not_lt.mpr (hlow p hp))
  · have hlow : ∀ p ∈ s.queued, tx.fee ≤ p.fee := hclear.elim id fun hall p hp =>
      absurd (outbids_iff.mpr ⟨List.ne_nil_of_mem hp, hall⟩) houtbids
    refine ⟨fun ⟨p, hp, hlt⟩ => absurd hlt (BitVec.not_lt.mpr (hlow p hp)), fun _ => ?_, hworse⟩
    rw [add_of_not_outbids hvalid hfull houtbids now]
    exact ⟨⟨_, rfl⟩, rfl⟩

/-! ### Pools for one and for two payments -/

/-- A new pool for `n` transactions, after these payments. -/
def afterPayments (n : ℕ) (fees : List Balance) : TransactionPool sortedPlatform :=
  after signingExt sortedPlatform ⟨n, 10000, 0⟩ (fees.map fun fee => .add 0 (payment fee))

theorem evictsByLowestFee_payment : EvictsByLowestFee signingExt 0 (payment 2) (afterPayments 1 [1]) :=
  (evictsByLowestFee_iff signingExt sortedPlatform ⟨1, 10000, 0⟩ [.add 0 (payment 1)] 0 (payment 2)
    (by decide +kernel) (by decide +kernel)).mpr (.inr (by decide +kernel))

/-- A payment of 2 is refused by a full pool with payments of 1 and 3. -/
theorem middle_fee_is_refused : ¬ ∀ (ext : Ext) (P : Platform) (config : PoolConfig) (ops : List PoolOp)
    (now : Int64) (tx : Transaction), (after ext P config ops).isFull → Valid ext tx (after ext P config ops) →
      EvictsByLowestFee ext now tx (after ext P config ops) := by
  intro h
  obtain ⟨hfull, hvalid, hlow, hhigh⟩ : (afterPayments 2 [1, 3]).isFull ∧
      Valid signingExt (payment 2) (afterPayments 2 [1, 3]) ∧
      (¬ ∀ p ∈ (afterPayments 2 [1, 3]).queued, (payment 2).fee ≤ p.fee) ∧
      ¬ ∀ p ∈ (afterPayments 2 [1, 3]).queued, p.fee < (payment 2).fee := by decide +kernel
  exact (clear_of_evictsByLowestFee hvalid hfull (h signingExt sortedPlatform ⟨2, 10000, 0⟩
    [.add 0 (payment 1), .add 0 (payment 3)] 0 (payment 2) hfull hvalid)).elim hlow hhigh

/-- After an eviction the statistics have the bytes of both payments. -/
theorem eviction_leaks : ¬ ∀ (ext : Ext) (P : Platform) (config : PoolConfig) (ops : List PoolOp),
    ∀ early rest, ops = early ++ rest → Bookkeeping ext (after ext P config early) := by
  intro h
  obtain ⟨hvalid, hfull, hne, hall⟩ : Valid signingExt (payment 2) (afterPayments 1 [1]) ∧
      (afterPayments 1 [1]).isFull ∧ (afterPayments 1 [1]).queued ≠ [] ∧
      ∀ p ∈ (afterPayments 1 [1]).queued, p.fee < (payment 2).fee := by decide +kernel
  have hbooks := h signingExt sortedPlatform ⟨1, 10000, 0⟩ [.add 0 (payment 1), .add 0 (payment 2)]
  have hnext := (bookkeeping_next_iff (hbooks [.add 0 (payment 1)] [.add 0 (payment 2)] rfl)
    (.add 0 (payment 2))).mp (hbooks [.add 0 (payment 1), .add 0 (payment 2)] [] rfl)
  exact hnext ⟨hvalid, hfull, outbids_iff.mpr ⟨hne, hall⟩⟩

end Coinjecture.Mempool.Runs
