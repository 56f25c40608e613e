import Coinjecture.Mempool.TemplateOrder
import Coinjecture.Node.Transfers
import Coinjecture.Node.Validator
import Mathlib.Data.Nat.Digits.Defs

/-! # Templates and nonces

A template goes by fee, a block by nonce. The pool is taken to be `Ready`: it holds transfers only, those of
each sender numbered from its nonce on and covered by its balance together. A template is then a block that
`validate_nonces` passes, and of which nothing is skipped, in the bounds given here.

* `validateNonces_iff` : the nonces are in order exactly where lower nonces go before higher ones.
* `applied_iff` : nothing is skipped exactly where every cost is there at its turn; a balance is missing only
  after it has wrapped (`funded_of_lt`). -/

namespace Coinjecture.Node.TemplateNonces

open Lib.Bincode Lib.Effect Lib.Sorting
open Core.Types Core.Transactions Core.Blocks
open Core.Extern Core.Crypto
open State.Accounts State.Stores State.Stores.Ledger
open Mempool.Pool Mempool.Pool.TransactionPool Mempool.Admission
open Mempool.Runs Mempool.Template
open Mempool.TemplateOrder
open Node.BlockProcessing Node.Runs Node.Transfers
open Node.Validator (ValidationError)

/-! ### The check of the nonces -/

def base58Alphabet : List Char := "123456789ABCDEFGHJKLMNPQRSTUVWXYZabcdefghijkmnopqrstuvwxyz".toList

/-- `bs58::encode`: a leading zero byte is a `1`, the rest is the number to the base 58. -/
def toBase58 (bytes : Bytes) : List Char :=
  let number := bytes.foldl (fun n b => n * 256 + b.toNat) 0
  List.replicate (bytes.takeWhile (· == 0)).length '1' ++
    ((Nat.digits 58 number).reverse.map fun d => base58Alphabet.getD d '1')

/-- `{:?}` of an address. -/
def debugAddress (a : Address) : String := "Address(" ++ String.ofList ((toBase58 a.asBytes).take 8) ++ "...)"

/-- The loop of `validate_nonces`, with the nonces that the block has used up. -/
def validateNoncesFrom (state : AccountState) :
    (Address → Option UInt64) → List Transaction → Except ValidationError Unit
  | _, [] => .ok ()
  | pendingNonces, tx :: txs =>
    let sender := tx.sender
    let expected := (pendingNonces sender).getD (state.getNonce sender)
    if tx.nonce ≠ expected then
      .error (.InvalidTransaction
        s!"Nonce mismatch for {debugAddress sender}: expected {expected.toNat}, got {tx.nonce.toNat}")
    else validateNoncesFrom state (Function.update pendingNonces sender (some (expected + 1))) txs

/-- `validate_nonces`. -/
def validateNonces (block : Block) (state : AccountState) : Except ValidationError Unit :=
  validateNoncesFrom state (fun _ => none) block.transactions

variable {ext : Ext} {P : Platform} {clock : ℕ → Int64} {block : Block} {L : Ledger} {txs : List Transaction}
  {q : List PooledTransaction} {maxTotal slots : ℕ}

/-- A nonce that is used up counts for the next one of its sender. -/
theorem expected_update (pending : Address → Option UInt64) (state : AccountState) (a b : Address) (k : ℕ) :
    ((Function.update pending a (some ((pending a).getD (state.getNonce a) + 1))) b).getD (state.getNonce b) +
        UInt64.ofNat k =
      (pending b).getD (state.getNonce b) + UInt64.ofNat (k + if a = b then 1 else 0) := by
  by_cases hab : a = b
  · subst hab
    rw [Function.update_self, Option.getD_some, if_pos rfl, UInt64.ofNat_add]
    change _ + 1 + _ = _ + (_ + 1)
    ac_rfl
  · rw [Function.update_of_ne (Ne.symm hab), if_neg hab, Nat.add_zero]

theorem validateNoncesFrom_ok {state : AccountState} {pending : Address → Option UInt64} :
    validateNoncesFrom state pending txs = .ok () ↔ ∀ pre tx post, txs = pre ++ tx :: post →
      tx.nonce = (pending tx.sender).getD (state.getNonce tx.sender) +
        UInt64.ofNat (pre.countP fun u => u.sender = tx.sender) := by
  induction txs generalizing pending with
  | nil => exact iff_of_true rfl fun pre tx post h => by simp at h
  | cons t txs ih =>
    rw [validateNoncesFrom]
    simp only [ne_eq, ite_not]
    constructor
    · intro h
      split_ifs at h with ht
      intro pre tx post heq
      cases pre with
      | nil =>
        obtain ⟨rfl, rfl⟩ := List.cons.inj heq
        simpa using ht
      | cons t' pre =>
        obtain ⟨rfl, hrest⟩ := List.cons.inj heq
        rw [ih.mp h pre tx post hrest, List.countP_cons, expected_update]
        simp only [decide_eq_true_eq]
    · intro h
      have ht := h [] t txs rfl
      rw [if_pos (by simpa using ht)]
      refine ih.mpr fun pre tx post heq => ?_
      have htx := h (t :: pre) tx post (by rw [heq, List.cons_append])
      rw [htx, List.countP_cons, expected_update]
      simp only [decide_eq_true_eq]

/-! ### What the pool holds -/

/-- What a transfer moves; the transactions of the other kinds are not considered. -/
def movement : Transaction → Address → Balance
  | .Transfer tx => posting tx
  | _ => 0

/-- What a transfer costs its sender. -/
def cost : Transaction → ℕ
  | .Transfer tx => tx.amount.toNat + tx.fee.toNat
  | _ => 0

/-- The pool holds transfers; those of each sender are numbered from its nonce on, and its balance covers
all of them. -/
structure Ready (q : List PooledTransaction) (L : Ledger) : Prop where
  transfers : ∀ p ∈ q, isTransfer p.tx
  nonces : Gapless (fun p => p.tx.sender) (fun p => p.tx.nonce.toNat) (fun a => (L.nonce a).toNat) q
  covered : ∀ a, ((q.filter fun p => p.tx.sender = a).map fun p => cost p.tx).sum ≤ (L.balance a).toNat

/-- All transactions of the block go through, and it passes the check of the nonces. -/
def Applicable (ext : Ext) (clock : ℕ → Int64) (block : Block) (L : Ledger) : Prop :=
  (run (applyBlockTransactions ext clock block) L).1 = .ok (block.transactions.map (Transaction.hash ext)) ∧
    validateNonces block L.accounts = .ok ()

/-- Of one sender what has a lower nonce goes before what is listed. -/
structure InNonceOrder (maxTotal slots : ℕ) (q : List PooledTransaction) : Prop where
  goes : ∀ u ∈ q, ∀ p ∈ q, u.tx.sender = p.tx.sender → u.tx.nonce < p.tx.nonce → Listed maxTotal slots q p →
    Goes maxTotal slots q u p

/-- What the coinbase and the entries that go before `p` leave on its sender's account, in 128 bits. -/
def balanceBefore (maxTotal slots : ℕ) (q : List PooledTransaction) (block : Block) (L : Ledger)
    (p : PooledTransaction) : Balance :=
  ((L.credit block.header.miner block.coinbase.reward).accounts.balances +
    ((q.filter fun u => Goes maxTotal slots q u p).map fun u => movement u.tx).sum) p.tx.sender

/-- This covers whatever is listed. -/
def Funded (maxTotal slots : ℕ) (q : List PooledTransaction) (block : Block) (L : Ledger) : Prop :=
  ∀ p ∈ q, Listed maxTotal slots q p → cost p.tx ≤ (balanceBefore maxTotal slots q block L p).toNat

instance : Decidable (InNonceOrder maxTotal slots q) := decidable_of_iff (∀ u ∈ q, ∀ p ∈ q, _ → _ → _ → _)
  ⟨InNonceOrder.mk, InNonceOrder.goes⟩

instance : Decidable (Funded maxTotal slots q block L) := by unfold Funded; infer_instance

/-! ### The nonces of a template -/

theorem Ready.perm {q' : List PooledTransaction} (hq : q.Perm q') (h : Ready q L) : Ready q' L where
  transfers p hp := h.transfers p (hq.mem_iff.mpr hp)
  nonces := h.nonces.perm hq
  covered a := by
    rw [← ((hq.filter _).map _).sum_eq]
    exact h.covered a

theorem validateNonces_iff (hq : (q.map PooledTransaction.txHash).Nodup) (hready : Ready q L)
    (hblock : block.transactions = (entries maxTotal slots q).map PooledTransaction.tx) :
    validateNonces block L.accounts = .ok () ↔ InNonceOrder maxTotal slots q := by
  have hperm := @lineUp_perm maxTotal slots _ hq
  have hgapless : Gapless _ _ _ (lineUp maxTotal slots q) := hready.nonces.perm hperm.symm
  have hnumbered := numbered_take_iff (n := maxTotal) (pairwise_lineUp hq)
    (strict_goes (List.Nodup.of_map _ hq) _) hgapless
  rw [← entries_eq_take] at hnumbered
  have hlist : InNonceOrder maxTotal slots q ↔ ∀ u ∈ lineUp maxTotal slots q, ∀ p ∈ entries maxTotal slots q,
      u.tx.sender = p.tx.sender → u.tx.nonce.toNat < p.tx.nonce.toNat → Goes maxTotal slots q u p := by
    constructor
    · intro h u hu p hp
      have hpq := entries_subset _ _ q hp
      exact fun hkey hlt => h.goes u (hperm.mem_iff.mp hu) p hpq hkey hlt ((listed_iff hq hpq).mp hp)
    · refine fun h => ⟨fun u hu p hp hkey hlt hlisted => ?_⟩
      exact h u (hperm.mem_iff.mpr hu) p ((listed_iff hq hp).mpr hlisted) hkey hlt
  rw [hlist, ← hnumbered, validateNonces, hblock, validateNoncesFrom_ok]
  simp only [Option.getD_none]
  -- the numbers do not leave the 64 bits, as there are nonces that large
  have hcast : ∀ {pre post : List PooledTransaction} {p}, entries maxTotal slots q = pre ++ p :: post →
      (p.tx.nonce = L.nonce p.tx.sender + UInt64.ofNat (pre.countP fun u => u.tx.sender = p.tx.sender) ↔
        p.tx.nonce.toNat = (L.nonce p.tx.sender).toNat + pre.countP fun u => u.tx.sender = p.tx.sender) := by
    intro pre post p heq
    have hp : p ∈ q := entries_subset _ _ q (by rw [heq]; simp)
    have hend := hready.nonces.end_le (fun u _ => u.tx.nonce.toNat_lt) hp
    have hcount : pre.countP (fun u => u.tx.sender = p.tx.sender) + 1 ≤
        q.countP fun u => u.tx.sender = p.tx.sender := by
      have hle := (List.take_sublist maxTotal (lineUp maxTotal slots q)).countP_le
        (p := fun u => decide (u.tx.sender = p.tx.sender))
      rw [← entries_eq_take, hperm.countP_eq, heq, List.countP_append, List.countP_cons,
        if_pos (by simp)] at hle
      omega
    rw [← UInt64.toNat_inj, UInt64.toNat_add, UInt64.toNat_ofNat', Nat.add_mod_mod, Nat.mod_eq_of_lt (by omega)]
  constructor
  · intro h pre p post heq
    refine (hcast heq).mp ?_
    have hp := h (pre.map PooledTransaction.tx) p.tx (post.map PooledTransaction.tx) (by rw [heq]; simp)
    rwa [List.countP_map] at hp
  · intro h pre tx post heq
    obtain ⟨pre, post', heq', rfl, hpost⟩ := List.map_eq_append_iff.mp heq
    obtain ⟨p, post, rfl, rfl, rfl⟩ := List.map_eq_cons_iff.mp hpost
    rw [List.countP_map]
    exact (hcast heq').mpr (h pre p post heq')

/-! ### The costs of a template -/

/-- What a transfer asks for is its cost, as long as that fits. -/
theorem covers_iff {transfer : TransferTransaction} (hlt : cost (.Transfer transfer) < 2 ^ 128) :
    transfer.amount + transfer.fee ≤ L.balance transfer.from ↔
      cost (.Transfer transfer) ≤ (L.accounts.balances (Transaction.sender (.Transfer transfer))).toNat := by
  have hsum : (transfer.amount + transfer.fee).toNat = cost (.Transfer transfer) := by
    rw [BitVec.toNat_add]
    exact Nat.mod_eq_of_lt hlt
  rw [BitVec.le_def, hsum]
  rfl

/-- The transfers go through exactly where each finds its cost at its turn. -/
theorem applied_iff {blockHeight : UInt64} {i : ℕ} (htransfers : ∀ tx ∈ txs, isTransfer tx)
    (hcost : ∀ tx ∈ txs, cost tx < 2 ^ 128) :
    (run (applyTransactions ext clock blockHeight i txs) L).1 = .ok (txs.map (Transaction.hash ext)) ↔
      ∀ pre tx post, txs = pre ++ tx :: post →
        cost tx ≤ ((L.accounts.balances + (pre.map movement).sum) tx.sender).toNat := by
  induction txs generalizing i L with
  | nil => exact iff_of_true rfl fun pre tx post h => by simp at h
  | cons t txs ih =>
    obtain ⟨htransfer, hrest⟩ := List.forall_mem_cons.mp htransfers
    obtain ⟨hlt, hcosts⟩ := List.forall_mem_cons.mp hcost
    cases t with
    | Transfer transfer =>
      have hnext : ∀ (pre : List Transaction) (tx : Transaction),
          ((withAccounts (posted transfer L.accounts) L).accounts.balances + (pre.map movement).sum) tx.sender =
            (L.accounts.balances + ((Transaction.Transfer transfer :: pre).map movement).sum) tx.sender := by
        intro pre tx
        rw [List.map_cons, List.sum_cons, ← add_assoc]
        rfl
      constructor
      · intro h pre tx post heq
        have hpair : run (applyTransactions ext clock blockHeight i (.Transfer transfer :: txs)) L =
            (.ok ((.Transfer transfer :: txs).map (Transaction.hash ext)),
              (run (applyTransactions ext clock blockHeight i (.Transfer transfer :: txs)) L).2) := Prod.ext h rfl
        obtain ⟨L1, hfirst, hlater⟩ := applyTransactions_all_cons ext hpair
        obtain ⟨henough, rfl⟩ := (run_transfer_ok ext (clock i) blockHeight transfer L L1).mp hfirst
        cases pre with
        | nil =>
          obtain ⟨rfl, rfl⟩ := List.cons.inj heq
          simpa using (covers_iff hlt).mp henough
        | cons t pre =>
          obtain ⟨rfl, rfl⟩ := List.cons.inj heq
          rw [← hnext]
          exact (ih hrest hcosts).mp (congrArg Prod.fst hlater) pre tx post rfl
      · intro h
        have henough := (covers_iff hlt).mpr (by simpa using h [] _ txs rfl)
        have hfirst := (run_transfer_ok ext (clock i) blockHeight transfer L _).mpr ⟨henough, rfl⟩
        have hlater := (ih (i := i + 1) (L := withAccounts (posted transfer L.accounts) L) hrest hcosts).mpr
          fun pre tx post heq => by
            rw [hnext]
            exact h (_ :: pre) tx post (by rw [heq, List.cons_append])
        rw [applyTransactions, run_bind_ok (a := .ok ()) (by rw [run_attempt, hfirst]),
          run_bind_ok (Prod.ext hlater rfl)]
        rfl
    | _ => cases htransfer

theorem cost_le (hready : Ready q L) {p : PooledTransaction} (hp : p ∈ q) :
    cost p.tx ≤ (L.balance p.tx.sender).toNat :=
  (List.single_le_sum (fun _ _ => Nat.zero_le _) _ (List.mem_map_of_mem
    (List.mem_filter.mpr ⟨hp, decide_eq_true rfl⟩))).trans (hready.covered p.tx.sender)

/-- What is before an entry of the template is what goes before it. -/
theorem sum_before (hq : (q.map PooledTransaction.txHash).Nodup) {pre post : List PooledTransaction}
    {p : PooledTransaction} (heq : entries maxTotal slots q = pre ++ p :: post) :
    ((q.filter fun u => Goes maxTotal slots q u p).map fun u => movement u.tx).sum =
      ((pre.map PooledTransaction.tx).map movement).sum := by
  have hperm := @lineUp_perm maxTotal slots _ hq
  have hl : lineUp maxTotal slots q = pre ++ p :: (post ++ (lineUp maxTotal slots q).drop maxTotal) := by
    rw [← List.cons_append, ← List.append_assoc, ← heq, entries_eq_take, List.take_append_drop]
  have hfilter := filter_rel (hl ▸ pairwise_lineUp hq) (hl ▸ strict_goes (List.Nodup.of_map _ hq) _)
  rw [← hl] at hfilter
  rw [((hperm.symm.filter _).map _).sum_eq, hfilter, List.map_map]
  rfl

theorem funded_iff (hq : (q.map PooledTransaction.txHash).Nodup) (hready : Ready q L)
    (hblock : block.transactions = (entries maxTotal slots q).map PooledTransaction.tx) :
    (run (applyBlockTransactions ext clock block) L).1 = .ok (block.transactions.map (Transaction.hash ext)) ↔
      Funded maxTotal slots q block L := by
  have hsub := entries_subset maxTotal slots q
  rw [applyBlockTransactions, run_gets_bind, run_modify_bind, hblock, applied_iff]
  · constructor
    · intro h p hp hlisted
      obtain ⟨pre, post, heq⟩ := List.append_of_mem ((listed_iff hq hp).mpr hlisted)
      rw [balanceBefore, sum_before hq heq]
      exact h (pre.map PooledTransaction.tx) p.tx (post.map PooledTransaction.tx) (by rw [heq]; simp)
    · intro h pre tx post heq
      obtain ⟨pre, post', heq', rfl, hpost⟩ := List.map_eq_append_iff.mp heq
      obtain ⟨p, post, rfl, rfl, rfl⟩ := List.map_eq_cons_iff.mp hpost
      have hmem : p ∈ entries maxTotal slots q := by rw [heq']; simp
      have hp := h p (hsub hmem) ((listed_iff hq (hsub hmem)).mp hmem)
      rwa [balanceBefore, sum_before hq heq'] at hp
  · intro tx htx
    obtain ⟨p, hp, rfl⟩ := List.mem_map.mp htx
    exact hready.transfers p (hsub hp)
  · intro tx htx
    obtain ⟨p, hp, rfl⟩ := List.mem_map.mp htx
    exact (cost_le hready (hsub hp)).trans_lt (BitVec.isLt _)

/-! ### Balances that do not wrap -/

/-- What a transaction brings to an account. -/
def received (a : Address) : Transaction → ℕ
  | .Transfer tx => if tx.to = a then tx.amount.toNat else 0
  | _ => 0

/-- What it takes from it. -/
def paid (a : Address) (tx : Transaction) : ℕ := if tx.sender = a then cost tx else 0

theorem sum_movement (a : Address) (txs : List Transaction) :
    (txs.map movement).sum a + BitVec.ofNat 128 (txs.map (paid a)).sum =
      BitVec.ofNat 128 (txs.map (received a)).sum := by
  have hone : ∀ tx, movement tx a + BitVec.ofNat 128 (paid a tx) = BitVec.ofNat 128 (received a tx) := by
    intro tx
    cases tx with
    | Transfer tx =>
      change (Pi.single tx.to tx.amount - Pi.single tx.from (tx.amount + tx.fee) : Address → Balance) a +
        BitVec.ofNat 128 (if tx.from = a then tx.amount.toNat + tx.fee.toNat else 0) =
          BitVec.ofNat 128 (if tx.to = a then tx.amount.toNat else 0)
      have hsingle : ∀ (x : Address) (v : Balance),
          (Pi.single x v : Address → Balance) a = BitVec.ofNat 128 (if x = a then v.toNat else 0) := by
        intro x v
        by_cases hx : x = a
        · rw [if_pos hx, hx, Pi.single_eq_same, BitVec.ofNat_toNat, BitVec.setWidth_eq]
        · rw [if_neg hx, Pi.single_eq_of_ne (Ne.symm hx)]
          rfl
      have hcost : BitVec.ofNat 128 (if tx.from = a then tx.amount.toNat + tx.fee.toNat else 0) =
          (Pi.single tx.from (tx.amount + tx.fee) : Address → Balance) a := by
        rw [Pi.single_add, Pi.add_apply, hsingle, hsingle, ← BitVec.ofNat_add]
        split_ifs
        all_goals rfl
      rw [hcost, Pi.sub_apply, sub_add_cancel, hsingle]
    | _ => simp [movement, paid, received, cost]
  induction txs with
  | nil => rfl
  | cons tx txs ih =>
    rw [List.map_cons, List.map_cons, List.map_cons, List.sum_cons, List.sum_cons, List.sum_cons,
      BitVec.ofNat_add, BitVec.ofNat_add, ← ih, ← hone, Pi.add_apply]
    abel

theorem sum_paid (a : Address) (q : List PooledTransaction) : (q.map (paid a ∘ PooledTransaction.tx)).sum =
    ((q.filter fun p => p.tx.sender = a).map fun p => cost p.tx).sum := by
  induction q with
  | nil => rfl
  | cons p q ih =>
    by_cases hp : p.tx.sender = a
    · rw [List.filter_cons_of_pos (by simpa using hp), List.map_cons, List.map_cons, List.sum_cons, List.sum_cons,
        ih, Function.comp_apply, paid, if_pos hp]
    · rw [List.filter_cons_of_neg (by simpa using hp), List.map_cons, List.sum_cons, ih, Function.comp_apply,
        paid, if_neg hp, Nat.zero_add]

/-- What the sender has paid before an entry and what it pays for it are covered. -/
theorem paid_before_le (hq : q.Nodup) (hready : Ready q L) {p : PooledTransaction} (hp : p ∈ q) :
    ((q.filter fun u => Goes maxTotal slots q u p).map (paid p.tx.sender ∘ PooledTransaction.tx)).sum + cost p.tx ≤
      (L.balance p.tx.sender).toNat := by
  refine le_trans ?_ (hready.covered p.tx.sender)
  have hsplit : (((q.filter fun u => Goes maxTotal slots q u p).map (paid p.tx.sender ∘ PooledTransaction.tx)) ++
      (q.filter fun u => !decide (Goes maxTotal slots q u p)).map (paid p.tx.sender ∘ PooledTransaction.tx)).sum =
      (q.map (paid p.tx.sender ∘ PooledTransaction.tx)).sum := by
    rw [← List.map_append]
    exact ((List.filter_append_perm _ q).map _).sum_eq
  have hself : cost p.tx ≤
      ((q.filter fun u => !decide (Goes maxTotal slots q u p)).map (paid p.tx.sender ∘ PooledTransaction.tx)).sum := by
    have hnot : ¬ Goes maxTotal slots q p p := fun h => strict_goes hq q p hp p hp h h
    have hmem : p ∈ q.filter fun u => !decide (Goes maxTotal slots q u p) :=
      List.mem_filter.mpr ⟨hp, by simp [hnot]⟩
    have hle := List.single_le_sum (fun _ _ => Nat.zero_le _) _
      (List.mem_map_of_mem (f := paid p.tx.sender ∘ PooledTransaction.tx) hmem)
    rwa [Function.comp_apply, paid, if_pos rfl] at hle
  rw [List.sum_append] at hsplit
  rw [← sum_paid]
  omega

/-- The coinbase takes nothing from anybody. -/
theorem balance_le_credit {miner a : Address} {reward : Balance}
    (h : (L.balance miner).toNat + reward.toNat < 2 ^ 128) :
    (L.balance a).toNat ≤ ((L.credit miner reward).balance a).toNat := by
  rw [balance_credit, BitVec.toNat_add]
  split_ifs with hminer
  · rw [← hminer, Nat.mod_eq_of_lt h]
    exact Nat.le_add_right _ _
  · rw [show BitVec.toNat (0 : Balance) = 0 from rfl, Nat.add_zero, Nat.mod_eq_of_lt (BitVec.isLt _)]

/-- Where no account can come to `2 ^ 128`, a template is funded. -/
theorem funded_of_lt (hq : q.Nodup) (hready : Ready q L)
    (hroom : ∀ a, ((L.credit block.header.miner block.coinbase.reward).balance a).toNat +
      (q.map fun p => received a p.tx).sum < 2 ^ 128)
    (hreward : (L.balance block.header.miner).toNat + block.coinbase.reward.toNat < 2 ^ 128) :
    Funded maxTotal slots q block L := by
  intro p hp _
  set a := p.tx.sender with ha
  set before := q.filter fun u => Goes maxTotal slots q u p
  set balance := (L.credit block.header.miner block.coinbase.reward).balance a with hbalance
  have hbal : balanceBefore maxTotal slots q block L p =
      balance + ((before.map PooledTransaction.tx).map movement).sum a := by
    rw [balanceBefore, List.map_map]
    rfl
  have hsum := sum_movement a (before.map PooledTransaction.tx)
  rw [List.map_map (g := paid a), List.map_map (g := received a)] at hsum
  have hpaid : (before.map (paid a ∘ PooledTransaction.tx)).sum + cost p.tx ≤ (L.balance a).toNat :=
    paid_before_le hq hready hp
  have hin : (before.map (received a ∘ PooledTransaction.tx)).sum ≤ (q.map fun p => received a p.tx).sum :=
    (List.filter_sublist.map _).sum_le_sum fun _ _ => Nat.zero_le _
  have hle : (L.balance a).toNat ≤ balance.toNat := balance_le_credit hreward
  have hfinal : balance + ((before.map PooledTransaction.tx).map movement).sum a = BitVec.ofNat 128
      (balance.toNat + (before.map (received a ∘ PooledTransaction.tx)).sum -
        (before.map (paid a ∘ PooledTransaction.tx)).sum) := by
    refine add_right_cancel (b := BitVec.ofNat 128 (before.map (paid a ∘ PooledTransaction.tx)).sum) ?_
    rw [add_assoc, hsum, ← BitVec.ofNat_add, Nat.sub_add_cancel (by omega), BitVec.ofNat_add, BitVec.ofNat_toNat,
      BitVec.setWidth_eq]
  have hlt := hroom a
  rw [← hbalance] at hlt
  rw [hbal, hfinal, BitVec.toNat_ofNat, Nat.mod_eq_of_lt (by omega)]
  omega

/-! ### Applicable templates -/

/-- A template of a pool that is ready is a block of which nothing is skipped and whose nonces are in order,
exactly where lower nonces go before higher ones and no balance is missing. -/
theorem applicable_iff (ext : Ext) (P : Platform) (config : PoolConfig) (ops : List PoolOp)
    (maxTotal slots : ℕ) (clock : ℕ → Int64) (block : Block) (L : Ledger)
    (hready : Ready (after ext P config ops).queued L)
    (hblock : block.transactions =
      getBlockTemplateTransactions ext maxTotal slots (after ext P config ops)) :
    Applicable ext clock block L ↔
      InNonceOrder maxTotal slots (after ext P config ops).queued ∧
        Funded maxTotal slots (after ext P config ops).queued block L := by
  have h := consistent_after ext P config ops
  have hentries := hblock.trans (template_eq h maxTotal slots)
  rw [Applicable, funded_iff h.nodup hready hentries, validateNonces_iff h.nodup hready hentries, and_comm]

/-! ### Two transfers of one sender -/

namespace Sample

/-- A payment of 10. -/
def payment (nonce : UInt64) (fee : Balance) : Transaction :=
  .Transfer ⟨⟨1⟩, ⟨2⟩, 10, fee, nonce, ⟨1⟩, ⟨0⟩⟩

/-- The first two payments. -/
def payments (first second : Balance) : List PoolOp := [.add 0 (payment 0 first), .add 0 (payment 1 second)]

def config : PoolConfig := ⟨10, 10000, 0⟩

def funds : Ledger := .ofAccounts (.ofBalances [(⟨1⟩, 100)])

def templateBlock (first second : Balance) : Block :=
  Validator.Sample.block (Validator.Sample.header .ZERO 0)
    (getBlockTemplateTransactions signingExt 100 10 (after signingExt sortedPlatform config (payments first second)))

theorem notMem_of_ne {a : Address} (ha : ⟨1⟩ ≠ a) (first second : Balance) :
    ∀ p ∈ [pooled signingExt 0 (payment 0 first), pooled signingExt 0 (payment 1 second)],
      ¬ decide (p.tx.sender = a) = true := by
  intro p hp
  rcases List.mem_pair.mp hp with rfl | rfl
  all_goals exact fun h => ha (of_decide_eq_true h)

theorem ready_payments (first second : Balance) (hfees : first.toNat + second.toNat ≤ 80) :
    Ready [pooled signingExt 0 (payment 0 first), pooled signingExt 0 (payment 1 second)] funds where
  transfers p hp := by
    rcases List.mem_pair.mp hp with rfl | rfl
    all_goals rfl
  nonces a := by
    by_cases ha : (⟨1⟩ : Address) = a
    · subst ha
      exact List.Perm.refl _
    · rw [List.filter_eq_nil_iff.mpr (notMem_of_ne ha first second), List.countP_eq_zero.mpr
        (notMem_of_ne ha first second)]
      exact List.Perm.refl _
  covered a := by
    by_cases ha : (⟨1⟩ : Address) = a
    · subst ha
      change 10 + first.toNat + (10 + second.toNat + 0) ≤ 100
      omega
    · rw [List.filter_eq_nil_iff.mpr (notMem_of_ne ha first second)]
      exact Nat.zero_le _

theorem ready_pool {first second : Balance} (hfees : first.toNat + second.toNat ≤ 80)
    (hqueued : [pooled signingExt 0 (payment 0 first), pooled signingExt 0 (payment 1 second)].Perm
      (after signingExt sortedPlatform config (payments first second)).queued) :
    Ready (after signingExt sortedPlatform config (payments first second)).queued funds :=
  (ready_payments first second hfees).perm hqueued

end Sample

/-- Of two payments of one sender the second pays more and is listed first. -/
theorem later_nonce_first : ¬ ∀ (ext : Ext) (P : Platform) (config : PoolConfig) (ops : List PoolOp)
    (maxTotal slots : ℕ) (clock : ℕ → Int64) (block : Block) (L : Ledger),
    Ready (after ext P config ops).queued L →
    block.transactions = getBlockTemplateTransactions ext maxTotal slots (after ext P config ops) →
    Applicable ext clock block L := by
  intro h
  have hready := Sample.ready_pool (by decide : (1 : Balance).toNat + (2 : Balance).toNat ≤ 80) (by decide +kernel)
  have hpasses := (h signingExt sortedPlatform Sample.config (Sample.payments 1 2) 100 10 (fun _ => 0)
    (Sample.templateBlock 1 2) Sample.funds hready rfl).2
  have hconsistent := consistent_after signingExt sortedPlatform Sample.config (Sample.payments 1 2)
  have hnot : ¬ InNonceOrder 100 10 (after signingExt sortedPlatform Sample.config (Sample.payments 1 2)).queued := by
    decide +kernel
  have htemplate : (Sample.templateBlock 1 2).transactions = _ := template_eq hconsistent 100 10
  exact hnot ((validateNonces_iff hconsistent.nodup hready htemplate).mp hpasses)

theorem applicable_payments : Applicable signingExt (fun _ => 0) (Sample.templateBlock 2 1) Sample.funds := by
  have hready := Sample.ready_pool (by decide : (2 : Balance).toNat + (1 : Balance).toNat ≤ 80) (by decide +kernel)
  have horder : InNonceOrder 100 10 (after signingExt sortedPlatform Sample.config (Sample.payments 2 1)).queued := by
    decide +kernel
  have hfunded : Funded 100 10 (after signingExt sortedPlatform Sample.config (Sample.payments 2 1)).queued
      (Sample.templateBlock 2 1) Sample.funds := by decide +kernel
  have hiff := applicable_iff signingExt sortedPlatform Sample.config (Sample.payments 2 1) 100 10 (fun _ => 0)
    (Sample.templateBlock 2 1) Sample.funds hready rfl
  exact hiff.mpr ⟨horder, hfunded⟩

end Coinjecture.Node.TemplateNonces
