import Coinjecture.Mempool.Runs

/-! # Block templates

A template takes the transactions that pay the most, as many as are not reserved; then the oldest
transfers without a fee that are not among them, up to the reserved slots; and fills what is left by fee.

* `template_selection` : whatever the pool holds, the template is as long as it can be, lists nothing
  twice, has its transfers without a fee, and leaves out only what pays no more.
-/

namespace Coinjecture.Mempool.Template

open Lib.Heaps
open Core.Types Core.Transactions Core.Extern
open Core.Crypto
open Mempool.Pool Mempool.Pool.TransactionPool Mempool.Runs

variable (ext : Ext) {P : Platform}

/-- `matches!(tx, Transaction::Transfer(_))`. -/
def isTransfer : Transaction → Bool
  | .Transfer _ => true
  | _ => false

/-- `get_top_n`. -/
def getTopN (n : ℕ) (s : TransactionPool P) : List Transaction :=
  ((descending cmpLe s.queued).take n).map PooledTransaction.tx

/-- `get_block_template_transactions`, which only reads the pool. -/
def getBlockTemplateTransactions (maxTotal zeroFeeTransferSlots : ℕ) (s : TransactionPool P) :
    List Transaction :=
  if maxTotal = 0 then []
  else
    let feePriorityCap := maxTotal - zeroFeeTransferSlots
    let out := getTopN feePriorityCap s
    let selectedHashes := out.map (Transaction.hash ext)
    let zeroCandidates := s.queued.filter fun p =>
      isTransfer p.tx ∧ p.fee = 0 ∧ p.txHash ∉ selectedHashes
    let zeroCandidates := zeroCandidates.mergeSort fun a b => a.receivedAt ≤ b.receivedAt
    let slotBudget := maxTotal - out.length
    let takeZero := min (min zeroFeeTransferSlots slotBudget) zeroCandidates.length
    let zero := zeroCandidates.take takeZero
    let selectedHashes := selectedHashes ++ zero.map PooledTransaction.txHash
    let out := out ++ zero.map PooledTransaction.tx
    if out.length < maxTotal then
      let rest := descending cmpLe (s.queued.filter fun p => p.txHash ∉ selectedHashes)
      out ++ (rest.take (maxTotal - out.length)).map PooledTransaction.tx
    else out

/-! ### The entries of a template -/

/-- A transfer without a fee. -/
def zeroFeeTransfer (tx : Transaction) : Bool := isTransfer tx ∧ tx.fee = 0

/-- What is not among the entries `l`. -/
def others (q l : List PooledTransaction) : List PooledTransaction :=
  q.filter fun p => p.txHash ∉ l.map PooledTransaction.txHash

/-- The first entries by fee. -/
def topOf (n : ℕ) (q : List PooledTransaction) : List PooledTransaction := (descending cmpLe q).take n

/-- The transfers without a fee among `q`, the oldest first. -/
def zeroFees (q : List PooledTransaction) : List PooledTransaction :=
  (q.filter fun p => isTransfer p.tx ∧ p.fee = 0).mergeSort fun a b => a.receivedAt ≤ b.receivedAt

/-- The entries in the reserved slots. -/
def reservedOf (maxTotal slots : ℕ) (q top : List PooledTransaction) : List PooledTransaction :=
  (zeroFees (others q top)).take (min (min slots (maxTotal - top.length)) (zeroFees (others q top)).length)

/-- All entries of a template. -/
def entries (maxTotal slots : ℕ) (q : List PooledTransaction) : List PooledTransaction :=
  let top := topOf (maxTotal - slots) q
  let taken := top ++ reservedOf maxTotal slots q top
  taken ++ topOf (maxTotal - taken.length) (others q taken)

variable {ext} {s : TransactionPool P} {q l : List PooledTransaction}

theorem topOf_subset (n : ℕ) (q : List PooledTransaction) : topOf n q ⊆ q := fun _ hp =>
  (descending_perm q).mem_iff.mp (List.mem_of_mem_take hp)

theorem topOf_zero (q : List PooledTransaction) : topOf 0 q = [] := List.take_zero

theorem mem_others {p : PooledTransaction} :
    p ∈ others q l ↔ p ∈ q ∧ p.txHash ∉ l.map PooledTransaction.txHash := by
  rw [others, List.mem_filter, decide_eq_true_eq]

theorem others_subset (q l : List PooledTransaction) : others q l ⊆ q := fun _ hp => (List.mem_filter.mp hp).1

theorem zeroFees_perm (q : List PooledTransaction) :
    (zeroFees q).Perm (q.filter fun p => isTransfer p.tx ∧ p.fee = 0) := List.mergeSort_perm _ _

theorem reservedOf_subset (maxTotal slots : ℕ) (q top : List PooledTransaction) :
    reservedOf maxTotal slots q top ⊆ others q top := fun _ hp =>
  (List.mem_filter.mp ((zeroFees_perm _).mem_iff.mp (List.mem_of_mem_take hp))).1

theorem map_hash_tx (h : Consistent ext s) (hsub : l ⊆ s.queued) :
    (l.map PooledTransaction.tx).map (Transaction.hash ext) = l.map PooledTransaction.txHash := by
  rw [List.map_map]
  exact List.map_congr_left fun p hp => ((h.entry p (hsub hp)).1).symm

/-- The template of the pool, entry by entry. -/
theorem template_eq (h : Consistent ext s) (maxTotal slots : ℕ) :
    getBlockTemplateTransactions ext maxTotal slots s =
      (entries maxTotal slots s.queued).map PooledTransaction.tx := by
  unfold getBlockTemplateTransactions
  split_ifs with hzero
  · subst hzero
    have hnil : entries 0 slots s.queued = [] := by
      simp [entries, topOf, reservedOf]
    rw [hnil]
    rfl
  have hhashes := map_hash_tx h (topOf_subset (maxTotal - slots) s.queued)
  have hcandidates : (s.queued.filter fun p => isTransfer p.tx ∧ p.fee = 0 ∧
      p.txHash ∉ (topOf (maxTotal - slots) s.queued).map PooledTransaction.txHash) =
      (others s.queued (topOf (maxTotal - slots) s.queued)).filter fun p =>
        isTransfer p.tx ∧ p.fee = 0 := by
    rw [others, List.filter_filter]
    refine List.filter_congr fun p _ => ?_
    simp only [Bool.decide_and, Bool.and_assoc]
  have htop : getTopN (maxTotal - slots) s =
      (topOf (maxTotal - slots) s.queued).map PooledTransaction.tx := rfl
  have hreserved : ∀ top, ((zeroFees (others s.queued top)).take
      (min (min slots (maxTotal - top.length)) (zeroFees (others s.queued top)).length)) =
      reservedOf maxTotal slots s.queued top := fun _ => rfl
  have hzeroFees : ∀ l : List PooledTransaction, ((l.filter fun p => isTransfer p.tx ∧ p.fee = 0).mergeSort
      fun a b => a.receivedAt ≤ b.receivedAt) = zeroFees l := fun _ => rfl
  simp only [htop, hhashes, hcandidates, List.length_map, hzeroFees, hreserved, ← List.map_append]
  rw [← others, ← topOf]
  by_cases hroom : (topOf (maxTotal - slots) s.queued ++
      reservedOf maxTotal slots s.queued (topOf (maxTotal - slots) s.queued)).length < maxTotal
  · rw [if_pos hroom]
    rfl
  · have hfull : maxTotal - (topOf (maxTotal - slots) s.queued ++
        reservedOf maxTotal slots s.queued (topOf (maxTotal - slots) s.queued)).length = 0 := by omega
    simp only [if_neg hroom, entries, hfull]
    rw [topOf_zero, List.append_nil]

/-! ### What a template holds -/

/-- Entries with different hashes are all of `q` together with the others. -/
theorem perm_append_others (hq : (q.map PooledTransaction.txHash).Nodup)
    (hl : (l.map PooledTransaction.txHash).Nodup) (hsub : l ⊆ q) : q.Perm (l ++ others q l) := by
  have hnodup : (l ++ others q l).Nodup := by
    refine List.Nodup.append (List.Nodup.of_map _ hl) ((List.Nodup.of_map _ hq).filter _) ?_
    intro p hp hother
    exact (mem_others.mp hother).2 (List.mem_map_of_mem hp)
  refine (List.perm_ext_iff_of_nodup (List.Nodup.of_map _ hq) hnodup).mpr fun p => ?_
  rw [List.mem_append]
  constructor
  · intro hp
    by_cases hmem : p.txHash ∈ l.map PooledTransaction.txHash
    · obtain ⟨r, hr, heq⟩ := List.mem_map.mp hmem
      exact .inl (List.inj_on_of_nodup_map hq (hsub hr) hp heq ▸ hr)
    · exact .inr (mem_others.mpr ⟨hp, hmem⟩)
  · exact fun hor => hor.elim (fun hp => hsub hp) fun hp => others_subset q l hp

theorem nodup_others (hq : (q.map PooledTransaction.txHash).Nodup) (l : List PooledTransaction) :
    ((others q l).map PooledTransaction.txHash).Nodup :=
  hq.sublist (List.filter_sublist.map _)

theorem nodup_topOf (hq : (q.map PooledTransaction.txHash).Nodup) (n : ℕ) :
    ((topOf n q).map PooledTransaction.txHash).Nodup :=
  (((descending_perm q).map _).nodup_iff.mpr hq).sublist ((List.take_sublist _ _).map _)

theorem nodup_reservedOf (hq : (q.map PooledTransaction.txHash).Nodup) (maxTotal slots : ℕ)
    (top : List PooledTransaction) :
    ((reservedOf maxTotal slots q top).map PooledTransaction.txHash).Nodup := by
  have hfilter : (((others q top).filter fun p => isTransfer p.tx ∧ p.fee = 0).map
      PooledTransaction.txHash).Nodup := (nodup_others hq top).sublist (List.filter_sublist.map _)
  exact (((zeroFees_perm _).map _).nodup_iff.mpr hfilter).sublist ((List.take_sublist _ _).map _)

/-- Lists of entries of which one is among the others of the other. -/
theorem nodup_append {l' : List PooledTransaction} (hl : (l.map PooledTransaction.txHash).Nodup)
    (hl' : (l'.map PooledTransaction.txHash).Nodup) (hother : l' ⊆ others q l) :
    ((l ++ l').map PooledTransaction.txHash).Nodup := by
  rw [List.map_append]
  refine List.Nodup.append hl hl' fun hash hmem hmem' => ?_
  obtain ⟨p, hp, rfl⟩ := List.mem_map.mp hmem'
  exact (mem_others.mp (hother hp)).2 hmem

/-- Among the first by fee are those that pay no less than the rest. -/
theorem fee_le_of_not_mem_topOf {n : ℕ} {p u : PooledTransaction} (hp : p ∈ q) (hout : p ∉ topOf n q)
    (hu : u ∈ topOf n q) : p.fee ≤ u.fee := by
  have hsorted := pairwise_descending cmpLe_trans cmpLe_total q
  have hmem : p ∈ descending cmpLe q := (descending_perm q).mem_iff.mpr hp
  rw [← List.take_append_drop n (descending cmpLe q)] at hsorted hmem
  have hdrop : p ∈ (descending cmpLe q).drop n := (List.mem_append.mp hmem).resolve_left hout
  exact fee_le_of_cmpLe ((List.pairwise_append.mp hsorted).2.2 u hu p hdrop)

theorem length_topOf (n : ℕ) (q : List PooledTransaction) : (topOf n q).length = min n q.length := by
  rw [topOf, List.length_take, (descending_perm q).length_eq]

/-- The first entries by fee and those in the reserved slots. -/
def takenOf (maxTotal slots : ℕ) (q : List PooledTransaction) : List PooledTransaction :=
  topOf (maxTotal - slots) q ++ reservedOf maxTotal slots q (topOf (maxTotal - slots) q)

theorem entries_eq (maxTotal slots : ℕ) (q : List PooledTransaction) : entries maxTotal slots q =
    takenOf maxTotal slots q ++ topOf (maxTotal - (takenOf maxTotal slots q).length)
      (others q (takenOf maxTotal slots q)) := rfl

theorem takenOf_subset (maxTotal slots : ℕ) (q : List PooledTransaction) : takenOf maxTotal slots q ⊆ q :=
  List.append_subset.mpr ⟨topOf_subset _ q, fun _ hp => others_subset q _ (reservedOf_subset _ _ q _ hp)⟩

theorem nodup_takenOf (hq : (q.map PooledTransaction.txHash).Nodup) (maxTotal slots : ℕ) :
    ((takenOf maxTotal slots q).map PooledTransaction.txHash).Nodup :=
  nodup_append (nodup_topOf hq _) (nodup_reservedOf hq _ _ _) (reservedOf_subset _ _ q _)

theorem length_takenOf_le (maxTotal slots : ℕ) (q : List PooledTransaction) :
    (takenOf maxTotal slots q).length ≤ maxTotal := by
  have htop := length_topOf (maxTotal - slots) q
  rw [takenOf, List.length_append, reservedOf, List.length_take]
  omega

theorem entries_subset (maxTotal slots : ℕ) (q : List PooledTransaction) : entries maxTotal slots q ⊆ q :=
  List.append_subset.mpr ⟨takenOf_subset _ _ q, fun _ hp => others_subset q _ (topOf_subset _ _ hp)⟩

theorem nodup_entries (hq : (q.map PooledTransaction.txHash).Nodup) (maxTotal slots : ℕ) :
    ((entries maxTotal slots q).map PooledTransaction.txHash).Nodup := by
  rw [entries_eq]
  exact nodup_append (nodup_takenOf hq _ _) (nodup_topOf (nodup_others hq _) _) (topOf_subset _ _)

/-- A template is as long as it can be. -/
theorem length_entries (hq : (q.map PooledTransaction.txHash).Nodup) (maxTotal slots : ℕ) :
    (entries maxTotal slots q).length = min maxTotal q.length := by
  have hall := (perm_append_others hq (nodup_takenOf hq maxTotal slots)
    (takenOf_subset maxTotal slots q)).length_eq
  have hle := length_takenOf_le maxTotal slots q
  rw [List.length_append] at hall
  rw [entries_eq, List.length_append, length_topOf]
  omega

/-- The transfers without a fee are there, as far as there are slots. -/
theorem zeroFees_in_entries (hq : (q.map PooledTransaction.txHash).Nodup) (maxTotal slots : ℕ) :
    min (min slots maxTotal) (q.countP fun p => isTransfer p.tx ∧ p.fee = 0) ≤
      (entries maxTotal slots q).countP fun p => isTransfer p.tx ∧ p.fee = 0 := by
  rw [entries_eq, takenOf, List.countP_append, List.countP_append]
  have hsplit := (perm_append_others hq (nodup_topOf hq (maxTotal - slots)) (topOf_subset _ q)).countP_eq
    fun p => isTransfer p.tx ∧ p.fee = 0
  set top := topOf (maxTotal - slots) q
  have hcandidates : (zeroFees (others q top)).length =
      (others q top).countP fun p => isTransfer p.tx ∧ p.fee = 0 := by
    rw [(zeroFees_perm _).length_eq, List.countP_eq_length_filter]
  have hreserved : ((reservedOf maxTotal slots q top).countP fun p => isTransfer p.tx ∧ p.fee = 0) =
      (reservedOf maxTotal slots q top).length := by
    refine List.countP_eq_length.mpr fun p hp => ?_
    exact (List.mem_filter.mp ((zeroFees_perm _).mem_iff.mp (List.mem_of_mem_take hp))).2
  have hlength : (reservedOf maxTotal slots q top).length =
      min (min (min slots (maxTotal - top.length)) (zeroFees (others q top)).length)
        (zeroFees (others q top)).length := List.length_take
  have htop : top.length = min (maxTotal - slots) q.length := length_topOf _ q
  rw [List.countP_append] at hsplit
  rw [hreserved]
  omega

/-- What is left out pays no more than what is in and not reserved. -/
theorem fee_le_of_left_out (hq : (q.map PooledTransaction.txHash).Nodup) {maxTotal slots : ℕ}
    {p u : PooledTransaction} (hp : p ∈ q) (hout : p ∉ entries maxTotal slots q)
    (hu : u ∈ entries maxTotal slots q)
    (hnot : u ∉ reservedOf maxTotal slots q (topOf (maxTotal - slots) q)) : p.fee ≤ u.fee := by
  rw [entries_eq, List.mem_append, takenOf, List.mem_append] at hu
  rw [entries_eq, List.mem_append, not_or] at hout
  rcases hu with (hu | hu) | hu
  · exact fee_le_of_not_mem_topOf hp (fun hmem => hout.1 (List.mem_append_left _ hmem)) hu
  · exact absurd hu hnot
  · refine fee_le_of_not_mem_topOf (mem_others.mpr ⟨hp, fun hmem => hout.1 ?_⟩) hout.2 hu
    obtain ⟨r, hr, heq⟩ := List.mem_map.mp hmem
    exact List.inj_on_of_nodup_map hq (takenOf_subset _ _ q hr) hp heq ▸ hr

/-! ### What a template lists -/

theorem nodup_map_tx (h : Consistent ext s) (hl : (l.map PooledTransaction.txHash).Nodup)
    (hsub : l ⊆ s.queued) : (l.map PooledTransaction.tx).Nodup := by
  refine List.Nodup.of_map (Transaction.hash ext) ?_
  rwa [map_hash_tx h hsub]

theorem countP_map_tx (h : Consistent ext s) (hsub : l ⊆ s.queued) :
    (l.map PooledTransaction.tx).countP zeroFeeTransfer =
      l.countP fun p => isTransfer p.tx ∧ p.fee = 0 := by
  rw [List.countP_map]
  refine List.countP_congr fun p hp => ?_
  rw [Function.comp_apply, zeroFeeTransfer, (h.entry p (hsub hp)).2]

/-- A template of any pool. What is reserved is told apart from the rest; it is free of charge and no more
than the slots. -/
theorem template_selection (ext : Ext) (P : Platform) (config : PoolConfig) (ops : List PoolOp)
    (maxTotal slots : ℕ) :
    let s := after ext P config ops
    let out := getBlockTemplateTransactions ext maxTotal slots s
    out.Nodup ∧ (∀ tx ∈ out, ∃ p ∈ s.queued, p.tx = tx) ∧ out.length = min maxTotal s.queued.length ∧
    min (min slots maxTotal) ((s.queued.map PooledTransaction.tx).countP zeroFeeTransfer) ≤
      out.countP zeroFeeTransfer ∧
    ∃ reserved : List Transaction, reserved.Sublist out ∧ reserved.length ≤ slots ∧
      (∀ tx ∈ reserved, zeroFeeTransfer tx = true) ∧
      ∀ p ∈ s.queued, p.tx ∉ out → ∀ tx ∈ out, tx ∉ reserved → p.fee ≤ tx.fee := by
  intro s out
  have h : Consistent ext s := consistent_after ext P config ops
  have hout : out = (entries maxTotal slots s.queued).map PooledTransaction.tx := template_eq h _ _
  have hsub := entries_subset maxTotal slots s.queued
  set reserved := reservedOf maxTotal slots s.queued (topOf (maxTotal - slots) s.queued) with hreserved
  rw [hout]
  refine ⟨nodup_map_tx h (nodup_entries h.nodup _ _) hsub, fun tx htx => ?_, ?_, ?_,
    reserved.map PooledTransaction.tx, ?_, ?_, fun tx htx => ?_, fun p hp hleft tx htx hnot => ?_⟩
  · obtain ⟨p, hp, rfl⟩ := List.mem_map.mp htx
    exact ⟨p, hsub hp, rfl⟩
  · rw [List.length_map, length_entries h.nodup]
  · rw [countP_map_tx h hsub, countP_map_tx h (List.Subset.refl _)]
    exact zeroFees_in_entries h.nodup _ _
  · refine List.Sublist.map _ ?_
    rw [entries_eq, takenOf]
    exact (List.sublist_append_right _ _).trans (List.sublist_append_left _ _)
  · rw [List.length_map, hreserved, reservedOf, List.length_take]
    omega
  · obtain ⟨p, hp, rfl⟩ := List.mem_map.mp htx
    have hmem := List.mem_of_mem_take hp
    obtain ⟨hother, hzero⟩ := List.mem_filter.mp ((zeroFees_perm _).mem_iff.mp hmem)
    rw [zeroFeeTransfer, ← (h.entry p (others_subset _ _ hother)).2]
    exact hzero
  · obtain ⟨u, hu, rfl⟩ := List.mem_map.mp htx
    rw [← (h.entry u (hsub hu)).2]
    exact fee_le_of_left_out h.nodup hp (fun hmem => hleft (List.mem_map_of_mem hmem)) hu
      fun hmem => hnot (List.mem_map_of_mem hmem)

end Coinjecture.Mempool.Template
