import Coinjecture.Core.MerkleTree
import Coinjecture.Mempool.Pool

/-! # Adding to the pool

`add` refuses, enters, or evicts and enters; which of them, `Valid`, `isFull` and `Outbids` tell. A batch
is added by descending fee, and its results come in that order.

* `batchMatches_iff` : the results are those of the input, entry by entry, exactly for the batches that
  come by descending fee.
-/

namespace Coinjecture.Mempool.Admission

open Lib.Heaps
open Core.Types Core.Transactions Core.Extern
open Core.Crypto Core.MerkleTree
open Mempool.Pool Mempool.Pool.TransactionPool

variable (ext : Ext) {P : Platform}

/-! ### One transaction -/

/-- The checks of `add` before the capacity. -/
def Valid (tx : Transaction) (s : TransactionPool P) : Prop :=
  s.seen (Transaction.hash ext tx) = false ∧ tx.requiredMinimumFee s.config.minFee ≤ tx.fee ∧
    Transaction.verifySignature ext tx = true

instance (tx : Transaction) (s : TransactionPool P) : Decidable (Valid ext tx s) :=
  inferInstanceAs (Decidable (_ ∧ _ ∧ _))

/-- The transaction pays more than the entry at the front of the queue. -/
def Outbids (tx : Transaction) (s : TransactionPool P) : Prop :=
  ∃ front, P.queues.peek s.queue = some front ∧ front.fee < tx.fee

variable {ext} {tx : Transaction} {s : TransactionPool P}

theorem add_of_not_valid (h : ¬ Valid ext tx s) (now : Int64) :
    ∃ e, s.add ext now tx = (.error e, s.rejected) := by
  unfold add
  by_cases hseen : s.seen (Transaction.hash ext tx) = true
  · exact ⟨_, if_pos hseen⟩
  simp only [if_neg hseen]
  by_cases hfee : tx.fee < tx.requiredMinimumFee s.config.minFee
  · exact ⟨_, if_pos hfee⟩
  simp only [if_neg hfee]
  have hsignature : (!Transaction.verifySignature ext tx) = true := by
    by_contra hverified
    exact h ⟨by simpa using hseen, BitVec.not_lt.mp hfee, by simpa using hverified⟩
  exact ⟨_, if_pos hsignature⟩

theorem add_of_valid (h : Valid ext tx s) (now : Int64) : s.add ext now tx =
    if s.isFull then
      match P.queues.peek s.queue with
      | some lowest =>
        if lowest.fee < tx.fee then (.ok (Transaction.hash ext tx), s.evictLowest.insert ext now tx)
        else (.error .PoolFull, s.rejected)
      | none => (.error .PoolFull, s.rejected)
    else (.ok (Transaction.hash ext tx), s.insert ext now tx) := by
  obtain ⟨hseen, hfee, hsignature⟩ := h
  have hunseen : ¬ s.seen (Transaction.hash ext tx) = true := by
    rw [hseen]
    decide
  have hverified : ¬ (!Transaction.verifySignature ext tx) = true := by
    rw [hsignature]
    decide
  exact (if_neg hunseen).trans ((if_neg (BitVec.not_lt.mpr hfee)).trans (if_neg hverified))

theorem add_of_room (h : Valid ext tx s) (hroom : ¬ s.isFull) (now : Int64) :
    s.add ext now tx = (.ok (Transaction.hash ext tx), s.insert ext now tx) := by
  rw [add_of_valid h, if_neg hroom]

theorem add_of_outbids (h : Valid ext tx s) (hfull : s.isFull) (houtbids : Outbids tx s) (now : Int64) :
    s.add ext now tx = (.ok (Transaction.hash ext tx), s.evictLowest.insert ext now tx) := by
  obtain ⟨front, hfront, hlt⟩ := houtbids
  rw [add_of_valid h, if_pos hfull, hfront]
  exact if_pos hlt

theorem add_of_not_outbids (h : Valid ext tx s) (hfull : s.isFull) (hnot : ¬ Outbids tx s)
    (now : Int64) : s.add ext now tx = (.error .PoolFull, s.rejected) := by
  rw [add_of_valid h, if_pos hfull]
  rcases hfront : P.queues.peek s.queue with _ | front
  · rfl
  · exact if_neg fun hlt => hnot ⟨front, hfront, hlt⟩

/-- A transaction is refused, entered, or entered in place of another. -/
theorem add_cases (ext : Ext) (now : Int64) (tx : Transaction) (s : TransactionPool P) :
    (∃ e, s.add ext now tx = (.error e, s.rejected)) ∨
    (Valid ext tx s ∧ ¬ s.isFull ∧
      s.add ext now tx = (.ok (Transaction.hash ext tx), s.insert ext now tx)) ∨
    (Valid ext tx s ∧ s.isFull ∧ Outbids tx s ∧
      s.add ext now tx = (.ok (Transaction.hash ext tx), s.evictLowest.insert ext now tx)) := by
  by_cases hvalid : Valid ext tx s
  swap
  · exact .inl (add_of_not_valid hvalid now)
  by_cases hfull : s.isFull
  swap
  · exact .inr (.inl ⟨hvalid, hfull, add_of_room hvalid hfull now⟩)
  by_cases houtbids : Outbids tx s
  · exact .inr (.inr ⟨hvalid, hfull, houtbids, add_of_outbids hvalid hfull houtbids now⟩)
  · exact .inl ⟨_, add_of_not_outbids hvalid hfull houtbids now⟩

/-- The front of the queue pays the most. -/
theorem outbids_iff : Outbids tx s ↔ s.queued ≠ [] ∧ ∀ p ∈ s.queued, p.fee < tx.fee := by
  constructor
  · rintro ⟨front, hfront, hlt⟩
    have hgreatest := P.queues.peek_some _ _ hfront
    refine ⟨List.ne_nil_of_mem hgreatest.1, fun p hp => ?_⟩
    exact BitVec.lt_def.mpr (Nat.lt_of_le_of_lt (fee_le_of_cmpLe (hgreatest.2 p hp)) hlt)
  · rintro ⟨hne, hall⟩
    obtain ⟨front, hfront⟩ := Option.ne_none_iff_exists'.mp (mt (P.queues.peek_none s.queue).mp hne)
    exact ⟨front, hfront, hall front (P.queues.peek_some _ _ hfront).1⟩

/-! ### A batch -/

/-- One insertion of a batch. -/
structure Turn (P : Platform) where
  tx : Transaction
  before : TransactionPool P
  outcome : Except PoolError Hash
  after : TransactionPool P

variable (ext) in
/-- The insertions of a batch, one after the other. -/
def turns (clock : ℕ → Int64) : ℕ → List Transaction → TransactionPool P → List (Turn P)
  | _, [], _ => []
  | k, tx :: rest, s =>
    ⟨tx, s, (s.add ext (clock k) tx).1, (s.add ext (clock k) tx).2⟩ ::
      turns clock (k + 1) rest (s.add ext (clock k) tx).2

variable (ext) in
/-- What a batch reports of an insertion. -/
def report (turn : Turn P) : Hash × Except PoolError Unit :=
  match turn.outcome with
  | .ok h => (h, .ok ())
  | .error e => (Transaction.hash ext turn.tx, .error e)

/-- The transaction was not in the pool before, and is after. -/
def Inserted (ext : Ext) (turn : Turn P) : Prop :=
  turn.before.seen (Transaction.hash ext turn.tx) = false ∧
    turn.after.seen (Transaction.hash ext turn.tx) = true

theorem addAll_fst (clock : ℕ → Int64) (k : ℕ) (txs : List Transaction) (s : TransactionPool P) :
    (addAll ext clock k txs s).1 = (turns ext clock k txs s).map (report ext) := by
  induction txs generalizing k s with
  | nil => rfl
  | cons tx rest ih =>
    rw [turns, List.map_cons, addAll]
    simp only [← ih]
    rfl

theorem map_tx_turns (clock : ℕ → Int64) (k : ℕ) (txs : List Transaction) (s : TransactionPool P) :
    (turns ext clock k txs s).map Turn.tx = txs := by
  induction txs generalizing k s with
  | nil => rfl
  | cons tx rest ih =>
    rw [turns, List.map_cons]
    simp only [ih]

/-- An insertion is reported as accepted exactly if the transaction was inserted. -/
theorem accepted_iff_inserted {clock : ℕ → Int64} {k : ℕ} {txs : List Transaction}
    {s : TransactionPool P} {turn : Turn P} (h : turn ∈ turns ext clock k txs s) :
    ((report ext turn).2 = .ok () ↔ Inserted ext turn) ∧
      (report ext turn).1 = Transaction.hash ext turn.tx := by
  induction txs generalizing k s with
  | nil => exact absurd h List.not_mem_nil
  | cons tx rest ih =>
    rw [turns] at h
    rcases List.mem_cons.mp h with hfirst | h
    swap
    · exact ih h
    rw [hfirst]
    rcases add_cases ext (clock k) tx s with ⟨e, hadd⟩ | ⟨hvalid, _, hadd⟩ | ⟨hvalid, _, _, hadd⟩
    · rw [hadd]
      refine ⟨iff_of_false (by simp [report]) fun hins => ?_, rfl⟩
      exact Bool.false_ne_true (hins.1.symm.trans hins.2)
    · rw [hadd]
      exact ⟨iff_of_true rfl ⟨hvalid.1, Function.update_self ..⟩, rfl⟩
    · rw [hadd]
      exact ⟨iff_of_true rfl ⟨hvalid.1, Function.update_self ..⟩, rfl⟩

/-! ### The order of the results -/

/-- The batch in the order it is added in, each transaction with its place in the input. -/
def places (txs : List Transaction) : List (Transaction × ℕ) :=
  txs.zipIdx.mergeSort fun a b => b.1.fee ≤ a.1.fee

theorem map_fst_places (txs : List Transaction) : (places txs).map Prod.fst = byFee txs := by
  have hmap := List.map_mergeSort (f := Prod.fst) (l := txs.zipIdx)
    (r := fun a b => decide (b.1.fee ≤ a.1.fee)) (s := fun a b => decide (b.fee ≤ a.fee)) fun _ _ _ _ => rfl
  rwa [List.zipIdx_map_fst] at hmap

variable (ext) in
/-- There are as many results as transactions, the result at a place is that of the transaction given
there, and those are accepted that were inserted. -/
def BatchMatches (clock : ℕ → Int64) (txs : List Transaction) (s : TransactionPool P) : Prop :=
  (s.addBatch ext clock txs).1.length = txs.length ∧
  (∀ p ∈ (places txs).zip (turns ext clock 0 (byFee txs) s),
    (s.addBatch ext clock txs).1[p.1.2]? = some (report ext p.2)) ∧
  ∀ turn ∈ turns ext clock 0 (byFee txs) s, (report ext turn).2 = .ok () ↔ Inserted ext turn

theorem byFee_eq_iff {txs : List Transaction} :
    byFee txs = txs ↔ txs.Pairwise fun a b => b.fee ≤ a.fee := by
  constructor
  · intro h
    have hsorted : (byFee txs).Pairwise fun a b => decide (b.fee ≤ a.fee) = true :=
      List.pairwise_mergeSort (fun a b c hab hbc => by
        simp only [decide_eq_true_eq] at *
        exact BitVec.le_trans hbc hab) (fun a b => by simpa using BitVec.le_total b.fee a.fee) txs
    rw [h] at hsorted
    exact hsorted.imp (by simp)
  · intro h
    exact List.mergeSort_of_pairwise (h.imp (by simp))

theorem length_byFee (txs : List Transaction) : (byFee txs).length = txs.length :=
  List.length_mergeSort _

theorem places_eq {txs : List Transaction} (h : txs.Pairwise fun a b => b.fee ≤ a.fee) :
    places txs = txs.zipIdx := by
  refine List.mergeSort_of_pairwise ?_
  have hpairs : (txs.zipIdx.map Prod.fst).Pairwise fun a b => b.fee ≤ a.fee := by
    rwa [List.zipIdx_map_fst]
  exact (List.pairwise_map.mp hpairs).imp (by simp)

theorem tx_of_getElem? {clock : ℕ → Int64} {k i : ℕ} {txs : List Transaction} {turn : Turn P}
    (h : (turns ext clock k txs s)[i]? = some turn) : txs[i]? = some turn.tx := by
  rw [← @map_tx_turns ext P clock k txs s, List.getElem?_map, h]
  rfl

/-- Where the results are in the order of the input, so are the transactions. -/
theorem byFee_eq_of_matches {clock : ℕ → Int64} {txs : List Transaction}
    (hdistinct : ∀ a ∈ txs, ∀ b ∈ txs, Transaction.hash ext a = Transaction.hash ext b → a = b)
    (h : BatchMatches ext clock txs s) : byFee txs = txs := by
  have hmem : ∀ tx, tx ∈ byFee txs → tx ∈ txs := fun tx => (List.mergeSort_perm txs _).mem_iff.mp
  have hlength : (turns ext clock 0 (byFee txs) s).length = txs.length := by
    rw [← length_byFee, ← List.length_map (f := Turn.tx), map_tx_turns]
  refine List.ext_getElem? fun i => ?_
  by_cases hi : i < txs.length
  swap
  · rw [List.getElem?_eq_none (by rw [length_byFee]; omega), List.getElem?_eq_none (by omega)]
  -- the turn of the transaction at place `i`
  have hplace : (txs[i], i) ∈ places txs :=
    (List.mergeSort_perm _ _).mem_iff.mpr (List.mk_mem_zipIdx_iff_getElem?.mpr (List.getElem?_eq_getElem hi))
  obtain ⟨k, hk⟩ := List.mem_iff_getElem?.mp hplace
  have hkfst : (byFee txs)[k]? = some txs[i] := by
    rw [← map_fst_places, List.getElem?_map, hk]
    rfl
  obtain ⟨hklt, -⟩ := List.getElem?_eq_some_iff.mp hkfst
  obtain ⟨turn, hturn⟩ : ∃ turn, (turns ext clock 0 (byFee txs) s)[k]? = some turn :=
    ⟨_, List.getElem?_eq_getElem (by rw [hlength, ← length_byFee]; exact hklt)⟩
  have hturntx : some turn.tx = some txs[i] := (tx_of_getElem? hturn).symm.trans hkfst
  have hzip : ((txs[i], i), turn) ∈ (places txs).zip (turns ext clock 0 (byFee txs) s) :=
    List.mem_iff_getElem?.mpr ⟨k, List.getElem?_zip_eq_some.mpr ⟨hk, hturn⟩⟩
  -- the turn whose result stands at place `i`
  obtain ⟨turn', hturn', hreport⟩ : ∃ turn', (turns ext clock 0 (byFee txs) s)[i]? = some turn' ∧
      report ext turn' = report ext turn := by
    have hresult := h.2.1 _ hzip
    rwa [addBatch, addAll_fst, List.getElem?_map, Option.map_eq_some_iff] at hresult
  have hhash : Transaction.hash ext turn'.tx = Transaction.hash ext turn.tx := by
    rw [← (accepted_iff_inserted (List.mem_of_getElem? hturn')).2,
      ← (accepted_iff_inserted (List.mem_of_getElem? hturn)).2, hreport]
  have hsame : turn'.tx = turn.tx := by
    refine hdistinct _ (hmem _ (List.mem_of_getElem? (tx_of_getElem? hturn'))) _ ?_ hhash
    exact hmem _ (List.mem_of_getElem? (tx_of_getElem? hturn))
  rw [tx_of_getElem? hturn', hsame, hturntx, List.getElem?_eq_getElem hi]

theorem batchMatches_of_sorted (ext : Ext) (clock : ℕ → Int64) {txs : List Transaction}
    (s : TransactionPool P) (h : txs.Pairwise fun a b => b.fee ≤ a.fee) : BatchMatches ext clock txs s := by
  have hresults : (s.addBatch ext clock txs).1 = (turns ext clock 0 (byFee txs) s).map (report ext) :=
    addAll_fst ..
  refine ⟨?_, fun p hp => ?_, fun turn hturn => (accepted_iff_inserted hturn).1⟩
  · rw [hresults, List.length_map, ← List.length_map (f := Turn.tx), map_tx_turns, length_byFee]
  · rw [places_eq h] at hp
    obtain ⟨k, hk⟩ := List.mem_iff_getElem?.mp hp
    obtain ⟨hplace, hturn⟩ := List.getElem?_zip_eq_some.mp hk
    have hindex : p.1.2 = k := by
      rw [List.getElem?_zipIdx] at hplace
      obtain ⟨tx, -, htx⟩ := Option.map_eq_some_iff.mp hplace
      rw [← htx]
      exact Nat.zero_add k
    rw [hresults, hindex, List.getElem?_map, hturn]
    rfl

/-- The results come in the order of the input exactly if that is the order of the fees. -/
theorem batchMatches_iff (ext : Ext) (clock : ℕ → Int64) (txs : List Transaction) (s : TransactionPool P)
    (hdistinct : ∀ a ∈ txs, ∀ b ∈ txs, Transaction.hash ext a = Transaction.hash ext b → a = b) :
    BatchMatches ext clock txs s ↔ txs.Pairwise fun a b => b.fee ≤ a.fee :=
  ⟨fun h => byFee_eq_iff.mp (byFee_eq_of_matches hdistinct h), batchMatches_of_sorted ext clock s⟩

/-! ### Two payments -/

/-- Every signature verifies. -/
def signingExt : Ext := { numberExt with ed25519Verify := fun _ _ _ => true }

def payment (fee : Balance) : Transaction :=
  .Transfer ⟨⟨1⟩, ⟨2⟩, 1000, fee, 0, ⟨1⟩, ⟨0⟩⟩

def newPool (maxTransactions : ℕ) : TransactionPool sortedPlatform := withConfig ⟨maxTransactions, 10000, 0⟩

theorem batchMatches_payments :
    BatchMatches signingExt (fun _ => 0) [payment 2, payment 1] (newPool 5) :=
  (batchMatches_iff signingExt (fun _ => 0) [payment 2, payment 1] (newPool 5) (by decide +kernel)).mpr
    (by decide)

/-- The results of two payments, the second of which pays more, are swapped. -/
theorem batch_is_reordered : ¬ ∀ (P : Platform) (ext : Ext) (clock : ℕ → Int64) (txs : List Transaction)
    (s : TransactionPool P), BatchMatches ext clock txs s := by
  intro h
  have horder := byFee_eq_of_matches (by decide +kernel)
    (h sortedPlatform signingExt (fun _ => 0) [payment 1, payment 2] (newPool 5))
  exact absurd (byFee_eq_iff.mp horder) (by decide)

end Coinjecture.Mempool.Admission
