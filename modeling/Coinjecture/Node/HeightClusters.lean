import Coinjecture.Node.PeerConsensus
import Mathlib.Data.List.GetD
import Mathlib.Order.Interval.Finset.Fin

/-! # The largest cluster of heights

Two indices run over the sorted heights. For each right end the left one stops at the first height within one
block, so the window is the largest cluster that ends there; the best of the windows is the largest cluster of
all, and the height at its middle is reported with it.

* `largest_cluster` : the number is the largest, and the height is one of such a cluster if there are heights. -/

namespace Coinjecture.Node.HeightClusters

open Node.PeerConsensus

/-- The heights of these peers lie within one block of each other. -/
def WithinOneBlock (heights : List UInt64) (peers : Finset (Fin heights.length)) : Prop :=
  ∀ i ∈ peers, ∀ j ∈ peers, (heights.get j).toNat ≤ (heights.get i).toNat + 1

instance (heights : List UInt64) (peers : Finset (Fin heights.length)) :
    Decidable (WithinOneBlock heights peers) := inferInstanceAs (Decidable (∀ i ∈ peers, _))

/-- There is a cluster of so many peers. -/
def HasCluster (heights : List UInt64) (size : ℕ) : Prop :=
  ∃ peers, WithinOneBlock heights peers ∧ peers.card = size

/-- There is one with a peer at this height. -/
def InCluster (heights : List UInt64) (size : ℕ) (height : UInt64) : Prop :=
  ∃ peers, WithinOneBlock heights peers ∧ peers.card = size ∧ ∃ i ∈ peers, heights.get i = height

/-- The height at an index. -/
abbrev heightAt (heights : List UInt64) (i : ℕ) : ℕ := (heights.getD i 0).toNat

theorem toNat_saturatingSub (a b : UInt64) : (saturatingSub a b).toNat = a.toNat - b.toNat := by
  have hlt := a.toNat_lt
  rw [saturatingSub, UInt64.toNat_ofNat']
  omega

theorem one_lt_saturatingSub {a b : UInt64} : 1 < saturatingSub a b ↔ 1 < a.toNat - b.toNat := by
  rw [UInt64.lt_iff_toNat_lt, toNat_saturatingSub]
  exact Iff.rfl

section Windows

variable {heights : List UInt64}

theorem toNat_get (i : Fin heights.length) : (heights.get i).toNat = heightAt heights i := by
  rw [heightAt, List.getD_eq_getElem _ _ i.isLt]
  rfl

theorem heightAt_mono (hsorted : heights.Pairwise (· ≤ ·)) {i j : ℕ} (hij : i ≤ j) (hj : j < heights.length) :
    heightAt heights i ≤ heightAt heights j := by
  rcases Nat.eq_or_lt_of_le hij with rfl | hlt
  · exact le_rfl
  · have hle := List.pairwise_iff_getElem.mp hsorted i j (hlt.trans hj) hj hlt
    rw [heightAt, heightAt, List.getD_eq_getElem _ _ (hlt.trans hj), List.getD_eq_getElem _ _ hj]
    exact UInt64.le_iff_toNat_le.mp hle

/-- The left index passes what is too low, and stops within one block or at the bound. -/
theorem advance_spec (height : UInt64) (n i : ℕ) :
    let r := advance heights height n i
    i ≤ r ∧ r ≤ i + n ∧ (∀ k, i ≤ k → k < r → 1 < height.toNat - heightAt heights k) ∧
      (r < i + n → height.toNat - heightAt heights r ≤ 1) := by
  induction n generalizing i with
  | zero =>
    refine ⟨le_rfl, le_rfl, fun k hi hk => ?_, fun hlt => absurd hlt (lt_irrefl _)⟩
    exact absurd hk (Nat.not_lt.mpr hi)
  | succ n ih =>
    rw [advance]
    split_ifs with hlow
    · obtain ⟨hle, hbound, hpassed, hstop⟩ := ih (i + 1)
      refine ⟨by omega, by omega, fun k hi hk => ?_, fun hlt => hstop (by omega)⟩
      rcases Nat.eq_or_lt_of_le hi with rfl | hlt
      · exact one_lt_saturatingSub.mp hlow
      · exact hpassed k hlt hk
    · refine ⟨le_rfl, by omega, fun k hi hk => absurd hk (Nat.not_lt.mpr hi), fun _ => ?_⟩
      exact Nat.not_lt.mp (mt one_lt_saturatingSub.mpr hlow)

/-- What the loop knows once it has been over the first `m` heights. -/
structure Scanned (heights : List UInt64) (m : ℕ) (acc : ℕ × ℕ × UInt64) : Prop where
  left_le : acc.1 ≤ m
  passed : ∀ k, k < acc.1 → ∀ j, m ≤ j → j < heights.length → 1 < heightAt heights j - heightAt heights k
  largest : ∀ i j, i ≤ j → j < m → heightAt heights j - heightAt heights i ≤ 1 → j - i + 1 ≤ acc.2.1
  found : m ≠ 0 → ∃ i k j, i ≤ k ∧ k ≤ j ∧ j < m ∧ heightAt heights j - heightAt heights i ≤ 1 ∧ j - i + 1 = acc.2.1 ∧
    heights.getD k 0 = acc.2.2
  none : m = 0 → acc.2 = (0, 0)

theorem scanned_zero : Scanned heights 0 (0, 0, 0) where
  left_le := le_rfl
  passed k hk := absurd hk (Nat.not_lt_zero k)
  largest _ j _ hj := absurd hj (Nat.not_lt_zero j)
  found h := absurd rfl h
  none _ := rfl

theorem Scanned.step (hsorted : heights.Pairwise (· ≤ ·)) {m : ℕ} {acc : ℕ × ℕ × UInt64}
    (h : Scanned heights m acc) (hm : m < heights.length) :
    Scanned heights (m + 1) (clusterStep heights acc m) := by
  obtain ⟨hle, hbound, hpassed, hstop⟩ := @advance_spec heights (heights.getD m 0) (m - acc.1) acc.1
  set left := advance heights (heights.getD m 0) (m - acc.1) acc.1 with hleft
  have hleft_le := h.left_le
  have hwithin : heightAt heights m - heightAt heights left ≤ 1 := by
    rcases Nat.eq_or_lt_of_le hbound with heq | hlt
    · rw [show left = m by omega, Nat.sub_self]
      exact Nat.zero_le 1
    · exact hstop hlt
  -- what is left of the window is too low for all heights to come
  have hbelow : ∀ k, k < left → ∀ j, m ≤ j → j < heights.length → 1 < heightAt heights j - heightAt heights k := by
    intro k hk j hmj hj
    by_cases hold : k < acc.1
    · exact h.passed k hold j hmj hj
    · have hlow : 1 < heightAt heights m - heightAt heights k := hpassed k (Nat.not_lt.mp hold) hk
      have hmono := heightAt_mono hsorted hmj hj
      omega
  have hwindow : ∀ i, i ≤ m → heightAt heights m - heightAt heights i ≤ 1 → m - i + 1 ≤ m - left + 1 := by
    intro i him hclose
    have hge : left ≤ i := by
      by_contra hlt
      exact absurd hclose (Nat.not_le.mpr (hbelow i (Nat.not_le.mp hlt) m le_rfl hm))
    omega
  have hnew : ∃ i k j, i ≤ k ∧ k ≤ j ∧ j < m + 1 ∧ heightAt heights j - heightAt heights i ≤ 1 ∧
      j - i + 1 = m - left + 1 ∧ heights.getD k 0 = heights.getD ((left + m) / 2) 0 :=
    ⟨left, (left + m) / 2, m, by omega, by omega, by omega, hwithin, rfl, rfl⟩
  rw [clusterStep, ← hleft]
  split_ifs with hbetter
  · refine ⟨by simp only; omega, fun k hk j hj => hbelow k hk j (by omega), fun i j hij hj hclose => ?_,
      fun _ => hnew, fun hzero => absurd hzero (Nat.succ_ne_zero m)⟩
    rcases Nat.eq_or_lt_of_le (Nat.le_of_lt_succ hj) with rfl | hlt
    · exact hwindow i hij hclose
    · exact (h.largest i j hij hlt hclose).trans hbetter.le
  · refine ⟨by simp only; omega, fun k hk j hj => hbelow k hk j (by omega), fun i j hij hj hclose => ?_,
      fun _ => ?_, fun hzero => absurd hzero (Nat.succ_ne_zero m)⟩
    · rcases Nat.eq_or_lt_of_le (Nat.le_of_lt_succ hj) with rfl | hlt
      · exact (hwindow i hij hclose).trans (Nat.not_lt.mp hbetter)
      · exact h.largest i j hij hlt hclose
    · have hsome : m ≠ 0 := by
        intro hzero
        rw [h.none hzero] at hbetter
        exact hbetter (Nat.succ_pos _)
      obtain ⟨i, k, j, hik, hkj, hj, hrest⟩ := h.found hsome
      exact ⟨i, k, j, hik, hkj, Nat.lt_succ_of_lt hj, hrest⟩

theorem scanned_range (hsorted : heights.Pairwise (· ≤ ·)) {m : ℕ} (hm : m ≤ heights.length) :
    Scanned heights m ((List.range m).foldl (clusterStep heights) (0, 0, 0)) := by
  induction m with
  | zero => exact scanned_zero
  | succ m ih =>
    rw [List.range_succ, List.foldl_append]
    exact (ih (Nat.le_of_succ_le hm)).step hsorted hm

/-! ### Clusters are windows -/

theorem withinOneBlock_Icc (hsorted : heights.Pairwise (· ≤ ·)) {i j : Fin heights.length}
    (hclose : heightAt heights j - heightAt heights i ≤ 1) : WithinOneBlock heights (Finset.Icc i j) := by
  intro a ha b hb
  obtain ⟨hia, -⟩ := Finset.mem_Icc.mp ha
  obtain ⟨-, hbj⟩ := Finset.mem_Icc.mp hb
  have hlow := heightAt_mono hsorted (Fin.le_def.mp hia) a.isLt
  have hhigh := heightAt_mono hsorted (Fin.le_def.mp hbj) j.isLt
  rw [toNat_get, toNat_get]
  omega

/-- A cluster lies in the window from its first to its last peer. -/
theorem card_le_of_withinOneBlock {peers : Finset (Fin heights.length)} (h : WithinOneBlock heights peers)
    (hne : peers.Nonempty) :
    ∃ i j : Fin heights.length, i ≤ j ∧ heightAt heights j - heightAt heights i ≤ 1 ∧ peers.card ≤ j - i + 1 := by
  have hfirst := peers.min'_mem hne
  have hlast := peers.max'_mem hne
  refine ⟨peers.min' hne, peers.max' hne, peers.min'_le _ hlast, ?_, ?_⟩
  · have hclose := h _ hfirst _ hlast
    rw [toNat_get, toNat_get] at hclose
    omega
  · have hsub : peers ⊆ Finset.Icc (peers.min' hne) (peers.max' hne) := fun k hk =>
      Finset.mem_Icc.mpr ⟨peers.min'_le k hk, peers.le_max' k hk⟩
    have hle := Finset.card_le_card hsub
    rw [Fin.card_Icc] at hle
    have hij := Fin.le_def.mp (peers.min'_le _ hlast)
    omega

end Windows

/-- The number is that of a largest cluster, and if there are heights the height is one of such a cluster. -/
theorem largest_cluster (heights : List UInt64) (hsorted : heights.Pairwise (· ≤ ·)) :
    IsGreatest {size | HasCluster heights size} (largestHeightClusterWithinOneBlock heights).1 ∧
      (heights ≠ [] → InCluster heights (largestHeightClusterWithinOneBlock heights).1
        (largestHeightClusterWithinOneBlock heights).2) ∧
      (heights = [] → largestHeightClusterWithinOneBlock heights = (0, 0)) := by
  have hscanned := scanned_range hsorted (le_refl heights.length)
  have hin : heights ≠ [] → InCluster heights (largestHeightClusterWithinOneBlock heights).1
      (largestHeightClusterWithinOneBlock heights).2 := by
    intro hne
    obtain ⟨i, k, j, hik, hkj, hj, hclose, hsize, hheight⟩ := hscanned.found (mt List.length_eq_zero_iff.mp hne)
    have hk : k < heights.length := hkj.trans_lt hj
    have hi : i < heights.length := hik.trans_lt hk
    refine ⟨Finset.Icc ⟨i, hi⟩ ⟨j, hj⟩, withinOneBlock_Icc hsorted hclose, ?_, ⟨k, hk⟩,
      Finset.mem_Icc.mpr ⟨hik, hkj⟩, ?_⟩
    · rw [Fin.card_Icc]
      refine Eq.trans ?_ hsize
      simp only
      omega
    · rw [List.getD_eq_getElem _ _ hk] at hheight
      exact hheight
  have hnone : heights = [] → largestHeightClusterWithinOneBlock heights = (0, 0) := by
    rintro rfl
    rfl
  refine ⟨⟨?_, ?_⟩, hin, hnone⟩
  · by_cases hne : heights = []
    · rw [hnone hne]
      exact ⟨∅, fun i hi => absurd hi (Finset.notMem_empty i), Finset.card_empty⟩
    · obtain ⟨peers, hwithin, hcard, -⟩ := hin hne
      exact ⟨peers, hwithin, hcard⟩
  · rintro size ⟨peers, hwithin, rfl⟩
    rcases peers.eq_empty_or_nonempty with rfl | hne
    · rw [Finset.card_empty]
      exact Nat.zero_le _
    · obtain ⟨i, j, hij, hclose, hle⟩ := card_le_of_withinOneBlock hwithin hne
      exact hle.trans (hscanned.largest i j hij j.isLt hclose)

/-- Heights up to the last one, and some of them twice. -/
theorem largest_cluster_top :
    IsGreatest {size | HasCluster [7, 7, 18446744073709551614, 18446744073709551614, 18446744073709551615] size}
        3 ∧
      InCluster [7, 7, 18446744073709551614, 18446744073709551614, 18446744073709551615] 3
        18446744073709551614 := by
  have hcluster : largestHeightClusterWithinOneBlock
      [7, 7, 18446744073709551614, 18446744073709551614, 18446744073709551615] = (3, 18446744073709551614) := by
    decide +kernel
  have hlargest := largest_cluster [7, 7, 18446744073709551614, 18446744073709551614, 18446744073709551615]
    (by decide +kernel)
  rw [hcluster] at hlargest
  exact ⟨hlargest.1, hlargest.2.1 (by decide)⟩

/-- Of no heights, none is reported. -/
theorem no_heights_no_cluster : ([] : List UInt64).Pairwise (· ≤ ·) ∧
    ¬ InCluster [] (largestHeightClusterWithinOneBlock []).1 (largestHeightClusterWithinOneBlock []).2 := by
  refine ⟨List.Pairwise.nil, ?_⟩
  rintro ⟨-, -, -, i, -, -⟩
  exact i.elim0

/-- The heights that the consensus is taken over are sorted. -/
theorem sorted_activeHeights (now : ℕ) (peers : Peers) : (activeHeights now peers).Pairwise (· ≤ ·) := by
  have htotal : Std.Total fun a b : UInt64 => a ≤ b := ⟨UInt64.le_total⟩
  have htrans : IsTrans UInt64 fun a b => a ≤ b := ⟨fun _ _ _ => UInt64.le_trans⟩
  exact List.pairwise_insertionSort _ _

end Coinjecture.Node.HeightClusters
