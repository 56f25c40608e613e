import Coinjecture.Lib.Sorting
import Coinjecture.Mempool.Template

/-! # The order of a template

Which of two entries of the pool a template lists first, and which it lists at all, told from the fees and
the times of arrival. It goes by fee, but of two entries outside the top the one in a reserved slot goes
first.

* `entries_eq_take` : a template is the beginning of all entries in that order.
* `listed_iff` : it lists an entry exactly where less than `maxTotal` entries go before it. -/

namespace Coinjecture.Mempool.TemplateOrder

open Lib.Heaps Lib.Sorting
open Core.Transactions
open Mempool.Pool Mempool.Template

variable (maxTotal slots : ℕ) (q : List PooledTransaction) (u p : PooledTransaction)

/-- `u` pays more than `p`, or as much and came earlier, or at the same time and is before it in the queue. -/
def FeeBefore : Prop := Precedes (fun a b => cmpLe b a) q u p

instance : Decidable (FeeBefore q u p) := inferInstanceAs (Decidable (Precedes _ _ _ _))

/-- Less than the slots that are not reserved go before `p` by fee. -/
def AtTop : Prop := q.countP (fun u => FeeBefore q u p) < maxTotal - slots

instance : Decidable (AtTop maxTotal slots q p) := inferInstanceAs (Decidable (_ < _))

/-- A transfer without a fee outside the top. -/
def Waiting : Prop := ¬ AtTop maxTotal slots q p ∧ isTransfer p.tx ∧ p.fee = 0

instance : Decidable (Waiting maxTotal slots q p) := inferInstanceAs (Decidable (_ ∧ _))

/-- … with less than the reserved slots before it. -/
def Reserved : Prop := Waiting maxTotal slots q p ∧
  q.countP (fun u => Waiting maxTotal slots q u ∧ FeeBefore q u p) < min slots (maxTotal - min (maxTotal - slots) q.length)

instance : Decidable (Reserved maxTotal slots q p) := inferInstanceAs (Decidable (_ ∧ _))

/-- `u` goes before `p`: by fee, unless just one of the two is reserved and the other outside the top. -/
def Goes : Prop :=
  if ¬ AtTop maxTotal slots q u ∧ ¬ AtTop maxTotal slots q p ∧
      (Reserved maxTotal slots q u ↔ ¬ Reserved maxTotal slots q p) then Reserved maxTotal slots q u
  else FeeBefore q u p

instance : Decidable (Goes maxTotal slots q u p) := by unfold Goes; infer_instance

/-- Less than `maxTotal` entries go before `p`. -/
def Listed : Prop := q.countP (fun u => Goes maxTotal slots q u p) < maxTotal

instance : Decidable (Listed maxTotal slots q p) := inferInstanceAs (Decidable (_ < _))

/-- All entries, in the order in which a template takes them. -/
def lineUp : List PooledTransaction :=
  takenOf maxTotal slots q ++ descending cmpLe (others q (takenOf maxTotal slots q))

variable {maxTotal slots q u p} {l : List PooledTransaction}

/-! ### The three parts -/

theorem strict_feeBefore (hq : q.Nodup) (l : List PooledTransaction) : Strict (FeeBefore q) l :=
  fun _ _ _ _ h => h.asymm hq

theorem pairwise_feeBefore (hl : l.Sublist q) (hq : q.Nodup) : (descending cmpLe l).Pairwise (FeeBefore q) :=
  (pairwise_mergeSort (fun a b c hab hbc => cmpLe_trans c b a hbc hab) (fun a b => cmpLe_total b a)
    (hq.sublist hl)).imp fun h => h.of_sublist hl

theorem mem_topOf_iff (hq : q.Nodup) (hp : p ∈ q) : p ∈ topOf (maxTotal - slots) q ↔ AtTop maxTotal slots q p := by
  have hperm := @descending_perm _ cmpLe q
  rw [topOf, mem_take_iff (pairwise_feeBefore (List.Sublist.refl q) hq) (strict_feeBefore hq _)
    (hperm.mem_iff.mpr hp), hperm.countP_eq, AtTop]

theorem others_eq_filter (hq : (q.map PooledTransaction.txHash).Nodup) (hl : l ⊆ q) :
    others q l = q.filter fun p => p ∉ l := by
  refine List.filter_congr fun p hp => decide_eq_decide.mpr (not_congr ⟨fun hmem => ?_, List.mem_map_of_mem⟩)
  obtain ⟨u, hu, heq⟩ := List.mem_map.mp hmem
  exact List.inj_on_of_nodup_map hq (hl hu) hp heq ▸ hu

/-- The transfers without a fee outside the top. -/
theorem zeroFees_others (hq : (q.map PooledTransaction.txHash).Nodup) :
    (zeroFees (others q (topOf (maxTotal - slots) q))).Perm (q.filter fun p => Waiting maxTotal slots q p) := by
  refine (zeroFees_perm _).trans (List.Perm.of_eq ?_)
  rw [others_eq_filter hq (topOf_subset _ q), List.filter_filter]
  refine List.filter_congr fun p hp => ?_
  simp only [mem_topOf_iff (List.Nodup.of_map _ hq) hp, Waiting]
  simp [and_comm, Bool.and_assoc]

theorem pairwise_zeroFees (hq : q.Nodup) (hl : l.Sublist q) : (zeroFees l).Pairwise (FeeBefore q) := by
  have hfree := List.filter_sublist (p := fun p => isTransfer p.tx ∧ p.fee = 0) (l := l)
  have hpair := @pairwise_mergeSort _ (fun a b : PooledTransaction => decide (a.receivedAt ≤ b.receivedAt)) _
    (fun a b c hab hbc => decide_eq_true (Int64.le_trans (of_decide_eq_true hab) (of_decide_eq_true hbc)))
    (fun a b => by simpa using Int64.le_total a.receivedAt b.receivedAt) (hq.sublist (hfree.trans hl))
  refine List.Pairwise.imp_of_mem (fun hu hp h => ?_) hpair
  -- without a fee the order is that of arrival
  have hzero : ∀ {x}, x ∈ zeroFees l → x.fee = 0 := fun hx =>
    (of_decide_eq_true (List.mem_filter.mp ((zeroFees_perm l).mem_iff.mp hx)).2).2
  refine ⟨cmpLe_iff.mpr (.inr ⟨(hzero hp).trans (hzero hu).symm, of_decide_eq_true h.1⟩), fun hpu => ?_⟩
  refine (h.2 (decide_eq_true ?_)).trans (hfree.trans hl)
  rcases cmpLe_iff.mp hpu with hlt | ⟨-, hle⟩
  · rw [hzero hu, hzero hp] at hlt
    exact absurd hlt (by decide)
  · exact hle

theorem others_sublist (q l : List PooledTransaction) : (others q l).Sublist q := List.filter_sublist

theorem mem_reservedOf_iff (hq : (q.map PooledTransaction.txHash).Nodup) (hp : p ∈ q) :
    p ∈ reservedOf maxTotal slots q (topOf (maxTotal - slots) q) ↔ Reserved maxTotal slots q p := by
  have hnodup := List.Nodup.of_map _ hq
  have hperm := @zeroFees_others maxTotal slots _ hq
  rw [reservedOf, ← List.take_eq_take_min, length_topOf, Reserved]
  by_cases hwaiting : Waiting maxTotal slots q p
  · rw [mem_take_iff (pairwise_zeroFees hnodup (others_sublist q _)) (strict_feeBefore hnodup _)
      (hperm.mem_iff.mpr (List.mem_filter.mpr ⟨hp, decide_eq_true hwaiting⟩)), hperm.countP_eq,
      List.countP_filter, and_iff_right hwaiting]
    simp only [Bool.decide_and, Bool.and_comm]
  · refine iff_of_false (fun hmem => hwaiting ?_) fun h => hwaiting h.1
    exact of_decide_eq_true (List.mem_filter.mp (hperm.mem_iff.mp (List.mem_of_mem_take hmem))).2

/-! ### The order -/

theorem strict_goes (hq : q.Nodup) (l : List PooledTransaction) : Strict (Goes maxTotal slots q) l := by
  intro u _ p _ hup hpu
  unfold Goes at hup hpu
  by_cases hcase : ¬ AtTop maxTotal slots q u ∧ ¬ AtTop maxTotal slots q p ∧
      (Reserved maxTotal slots q u ↔ ¬ Reserved maxTotal slots q p)
  · rw [if_pos hcase] at hup
    rw [if_pos ⟨hcase.2.1, hcase.1, iff_not_comm.mp hcase.2.2⟩] at hpu
    exact hcase.2.2.mp hup hpu
  · rw [if_neg hcase] at hup
    rw [if_neg fun h => hcase ⟨h.2.1, h.1, iff_not_comm.mp h.2.2⟩] at hpu
    exact hup.asymm hq hpu

theorem goes_of_feeBefore (hregion : AtTop maxTotal slots q u ∨ AtTop maxTotal slots q p ∨
    (Reserved maxTotal slots q u ↔ Reserved maxTotal slots q p)) (h : FeeBefore q u p) :
    Goes maxTotal slots q u p := by
  unfold Goes
  rw [if_neg]
  · exact h
  · rintro ⟨hu, hp, hiff⟩
    rcases hregion with htop | htop | hsame
    · exact hu htop
    · exact hp htop
    · rw [hsame] at hiff
      exact iff_not_self hiff

/-- What is at the top pays more than what is not. -/
theorem feeBefore_of_atTop (hq : q.Nodup) (hu : u ∈ q) (hp : p ∈ q) (htop : AtTop maxTotal slots q u)
    (hnot : ¬ AtTop maxTotal slots q p) : FeeBefore q u p := by
  have hpair := pairwise_feeBefore (List.Sublist.refl q) hq
  have hmem : p ∈ descending cmpLe q := (descending_perm q).mem_iff.mpr hp
  rw [← List.take_append_drop (maxTotal - slots) (descending cmpLe q)] at hpair hmem
  refine (List.pairwise_append.mp hpair).2.2 u ((mem_topOf_iff hq hu).mpr htop) p ?_
  exact (List.mem_append.mp hmem).resolve_left fun h => hnot ((mem_topOf_iff hq hp).mp h)

theorem lineUp_perm (hq : (q.map PooledTransaction.txHash).Nodup) : (lineUp maxTotal slots q).Perm q :=
  ((descending_perm _).append_left _).trans
    (perm_append_others hq (nodup_takenOf hq maxTotal slots) (takenOf_subset maxTotal slots q)).symm

theorem pairwise_lineUp (hq : (q.map PooledTransaction.txHash).Nodup) :
    (lineUp maxTotal slots q).Pairwise (Goes maxTotal slots q) := by
  have hnodup := List.Nodup.of_map _ hq
  have htop : ∀ {x}, x ∈ topOf (maxTotal - slots) q → x ∈ q ∧ AtTop maxTotal slots q x := fun hx =>
    ⟨topOf_subset _ q hx, (mem_topOf_iff hnodup (topOf_subset _ q hx)).mp hx⟩
  have hreserved : ∀ {x}, x ∈ reservedOf maxTotal slots q (topOf (maxTotal - slots) q) →
      x ∈ q ∧ Reserved maxTotal slots q x := fun hx =>
    have hmem := others_subset q _ (reservedOf_subset _ _ q _ hx)
    ⟨hmem, (mem_reservedOf_iff hq hmem).mp hx⟩
  have hrest : ∀ {x}, x ∈ descending cmpLe (others q (takenOf maxTotal slots q)) →
      x ∈ q ∧ ¬ AtTop maxTotal slots q x ∧ ¬ Reserved maxTotal slots q x := by
    intro x hx
    have hother := (descending_perm _).mem_iff.mp hx
    rw [others_eq_filter hq (takenOf_subset maxTotal slots q), List.mem_filter, decide_eq_true_eq, takenOf,
      List.mem_append, not_or] at hother
    obtain ⟨hmem, hnottop, hnotreserved⟩ := hother
    exact ⟨hmem, fun h => hnottop ((mem_topOf_iff hnodup hmem).mpr h),
      fun h => hnotreserved ((mem_reservedOf_iff hq hmem).mpr h)⟩
  rw [lineUp, takenOf]
  refine List.pairwise_append.mpr ⟨List.pairwise_append.mpr ⟨?_, ?_, ?_⟩, ?_, ?_⟩
  · refine List.Pairwise.imp_of_mem (fun hu _ h => goes_of_feeBefore (.inl (htop hu).2) h) ?_
    exact (pairwise_feeBefore (List.Sublist.refl q) hnodup).sublist (List.take_sublist _ _)
  · refine List.Pairwise.imp_of_mem (fun hu hp h => ?_)
      ((pairwise_zeroFees hnodup (others_sublist q _)).sublist (List.take_sublist _ _))
    exact goes_of_feeBefore (.inr (.inr (iff_of_true (hreserved hu).2 (hreserved hp).2))) h
  · intro u hu p hp
    exact goes_of_feeBefore (.inl (htop hu).2)
      (feeBefore_of_atTop hnodup (htop hu).1 (hreserved hp).1 (htop hu).2 (hreserved hp).2.1.1)
  · refine List.Pairwise.imp_of_mem (fun hu hp h => ?_) (pairwise_feeBefore (others_sublist q _) hnodup)
    exact goes_of_feeBefore (.inr (.inr (iff_of_false (hrest hu).2.2 (hrest hp).2.2))) h
  · intro u hu p hp
    obtain ⟨hmem, hnot, hnotreserved⟩ := hrest hp
    rcases List.mem_append.mp hu with hu | hu
    · exact goes_of_feeBefore (.inl (htop hu).2) (feeBefore_of_atTop hnodup (htop hu).1 hmem (htop hu).2 hnot)
    · have hres := (hreserved hu).2
      unfold Goes
      rw [if_pos ⟨hres.1.1, hnot, iff_of_true hres hnotreserved⟩]
      exact hres

theorem entries_eq_take (maxTotal slots : ℕ) (q : List PooledTransaction) :
    entries maxTotal slots q = (lineUp maxTotal slots q).take maxTotal := by
  rw [entries_eq, lineUp, List.take_append, List.take_of_length_le (length_takenOf_le maxTotal slots q)]
  rfl

theorem listed_iff (hq : (q.map PooledTransaction.txHash).Nodup) (hp : p ∈ q) :
    p ∈ entries maxTotal slots q ↔ Listed maxTotal slots q p := by
  have hperm := @lineUp_perm maxTotal slots _ hq
  rw [entries_eq_take, mem_take_iff (pairwise_lineUp hq) (strict_goes (List.Nodup.of_map _ hq) _)
    (hperm.mem_iff.mpr hp), hperm.countP_eq, Listed]

end Coinjecture.Mempool.TemplateOrder
