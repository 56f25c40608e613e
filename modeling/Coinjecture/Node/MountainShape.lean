import Coinjecture.Core.MessageCodes
import Coinjecture.Lib.Records
import Coinjecture.Node.LightSync
import Mathlib.Data.List.SplitLengths
import Mathlib.Data.Nat.BitIndices

/-! # The shape of the mountain range

After `n` calls of `append` on an empty range, the peaks are the roots of perfect trees over consecutive runs of
the leaves; the sizes of the runs are the powers of two that add up to `n`, the largest first. The loop of
`append` finds a peak to pop whenever it asks for one. Ranges of one length with one root have the same
leaves, if nothing that was hashed for the two collides. -/

namespace Coinjecture.Node.MountainShape

open Lib Lib.Bincode Lib.Codes Lib.MountainRange
open Core.Types Core.Extern
open Node.LightSync

/-- `MerkleMountainRange::new`. -/
def emptyRange : MerkleMountainRange := ⟨0, [], 0⟩

/-- `u64::count_ones`. -/
def countOnes (n : ℕ) : ℕ := n.bitIndices.length

def sizeForLeaves (n : ℕ) : ℕ := if n = 0 then 0 else 2 * n - countOnes n

/-- The powers of two in the binary expansion of the number of leaves, in decreasing order. -/
def runSizes (n : ℕ) : List ℕ := n.bitIndices.reverse.map (2 ^ ·)

/-- The leaves in consecutive runs of these sizes. -/
def runs (leaves : List Hash) : List (List Hash) := (runSizes leaves.length).splitLengths leaves

section Ranges

variable (ext : Ext)

def appendAll (leaves : List Hash) : Option MerkleMountainRange :=
  leaves.foldlM (fun m leaf => m.append ext leaf) emptyRange

/-- The root of the perfect tree of a height over a run of leaves. -/
def perfectRoot : ℕ → List Hash → Hash
  | 0, run => run.headD .ZERO
  | k + 1, run => hashMmrNode ext (perfectRoot k (run.take (2 ^ k))) (perfectRoot k (run.drop (2 ^ k))) k

structure Shape (leaves : List Hash) (m : MerkleMountainRange) : Prop where
  leafCount : m.leafCount = leaves.length
  runs_sizes : (runs leaves).map List.length = runSizes leaves.length
  runs_flatten : (runs leaves).flatten = leaves
  peaks : m.peaks = List.zipWith (perfectRoot ext) leaves.length.bitIndices.reverse (runs leaves)
  peakCount : m.peaks.length = countOnes leaves.length
  mmrSize : m.mmrSize = sizeForLeaves leaves.length
  size_eq : sizeForLeaves leaves.length = 2 * leaves.length - countOnes leaves.length

/-! ### What is hashed -/

def nodeInput (left right : Hash) (height : ℕ) : Bytes :=
  "MMR_NODE".toUTF8.toList ++ leBytes 4 height ++ left.asBytes ++ right.asBytes

def bagInput (left right : Hash) : Bytes := "MMR_BAG".toUTF8.toList ++ left.asBytes ++ right.asBytes

/-- What is hashed for the root of a perfect tree. -/
def hashedPerfect : ℕ → List Hash → List Bytes
  | 0, _ => []
  | k + 1, run =>
    nodeInput (perfectRoot ext k (run.take (2 ^ k))) (perfectRoot ext k (run.drop (2 ^ k))) k ::
      (hashedPerfect k (run.take (2 ^ k)) ++ hashedPerfect k (run.drop (2 ^ k)))

/-- What is hashed to bag the peaks. -/
def hashedBag : List Hash → List Bytes
  | [] => []
  | [_] => []
  | p :: q :: ps => bagInput p (bag (digest ext) .ZERO (q :: ps)) :: hashedBag (q :: ps)

/-- What is hashed for the root of the range of these leaves. -/
def hashedFor (leaves : List Hash) : List Bytes :=
  (List.zipWith (hashedPerfect ext) leaves.length.bitIndices.reverse (runs leaves)).flatten ++
    hashedBag ext (List.zipWith (perfectRoot ext) leaves.length.bitIndices.reverse (runs leaves))

/-- No two different strings of the list have one hash. -/
def Distinguishes (l : List Bytes) : Prop := ∀ x ∈ l, ∀ y ∈ l, ext.sha256 x = ext.sha256 y → x = y

end Ranges

variable {ext : Ext}

/-! ### The loop of `append` -/

section Merging

variable {β : Type} {d : Preimage Hash β → Hash}

/-- `leaf_count - 1` has the bit of a height if the lowest peak has that height. -/
theorem hasPeak_iff {m : MerkleMountainRange} {ts : List (Mountain β)} {t : Mountain β} {low : ℕ}
    (hrow : Row ts) (hle : ∀ u ∈ ts, t.height ≤ u.height) (hlow : low < 2 ^ t.height)
    (hcount : m.leafCount = low + count ts + 1) :
    m.hasPeakAtHeight t.height = true ↔ ∃ u ∈ ts.head?, u.height = t.height := by
  unfold MerkleMountainRange.hasPeakAtHeight
  rw [if_neg (by omega), hcount, Nat.add_sub_cancel]
  exact testBit_count hrow hle hlow

variable (hd : ∀ height left right, d (.node height left right) = hashMmrNode ext left right height)

include hd

/-- The loop merges a tree into a row; each round makes one peak of two. -/
theorem merge_carry {m : MerkleMountainRange} {ts : List (Mountain β)} {t : Mountain β} {low : ℕ}
    (hrow : Row ts) (hle : ∀ u ∈ ts, t.height ≤ u.height) (hlow : low < 2 ^ t.height)
    (hcount : m.leafCount = low + count ts + 1) :
    ∃ j, m.merge ext (ts.map (Mountain.hash d)) (t.hash d) t.height =
      some ((carry t ts).map (Mountain.hash d), j) ∧ j + (carry t ts).length = ts.length + 1 := by
  induction ts generalizing t low with
  | nil =>
    have hno : ¬ m.hasPeakAtHeight t.height = true := by
      rw [hasPeak_iff hrow hle hlow hcount]
      rintro ⟨u, hu, -⟩
      cases hu
    exact ⟨0, if_neg hno, rfl⟩
  | cons u us ih =>
    have hpeak : m.hasPeakAtHeight t.height = true ↔ u.height = t.height := by
      simpa using hasPeak_iff hrow hle hlow hcount
    rw [List.map_cons, MerkleMountainRange.merge, carry]
    by_cases heq : u.height = t.height
    · rw [if_pos (hpeak.mpr heq), if_pos heq]
      have hsum : count (u :: us) = 2 ^ t.height + count us := by
        rw [count, List.map_cons, List.sum_cons, heq]
        rfl
      have hnext : m.leafCount = (low + 2 ^ t.height) + count us + 1 := by
        rw [hcount, hsum]
        omega
      have hless : low + 2 ^ t.height < 2 ^ (Mountain.node t.height u t).height := by
        rw [Mountain.height, pow_succ]
        omega
      have habove : ∀ w ∈ us, (Mountain.node t.height u t).height ≤ w.height := fun w hw => by
        have hlt := hrow.lt w hw
        rw [Mountain.height]
        omega
      obtain ⟨j, hj, hlength⟩ := ih hrow.tail habove hless hnext
      have hnode : (Mountain.node t.height u t).hash d =
          hashMmrNode ext (u.hash d) (t.hash d) t.height := hd ..
      rw [hnode] at hj
      refine ⟨j + 1, ?_, ?_⟩
      · have hj' : m.merge ext (us.map (Mountain.hash d))
            (hashMmrNode ext (u.hash d) (t.hash d) t.height) (t.height + 1) =
              some ((carry (.node t.height u t) us).map (Mountain.hash d), j) := hj
        rw [hj']
        rfl
      · rw [List.length_cons]
        omega
    · rw [if_neg (mt hpeak.mp heq), if_neg heq]
      exact ⟨0, rfl, by rw [Nat.zero_add]; rfl⟩

/-- A leaf comes to a range whose peaks are the roots of a row of trees. -/
theorem append_row {m : MerkleMountainRange} {ts : List (Mountain β)} {b : β} (hrow : Row ts)
    (hpeaks : m.peaks = (ts.map (Mountain.hash d)).reverse) (hcount : m.leafCount = count ts) :
    ∃ m', m.append ext (d (.leaf b)) = some m' ∧ m'.leafCount = m.leafCount + 1 ∧
      m'.peaks = ((carry (.leaf b) ts).map (Mountain.hash d)).reverse ∧
      m'.mmrSize + (carry (.leaf b) ts).length = m.mmrSize + ts.length + 2 := by
  have hlow : 0 < 2 ^ (Mountain.leaf b).height := Nat.one_pos
  obtain ⟨j, hj, hlength⟩ := merge_carry hd
    (m := { m with leafCount := m.leafCount + 1, mmrSize := m.mmrSize + 1 })
    (t := .leaf b) hrow (fun _ _ => Nat.zero_le _) hlow (by rw [hcount, Nat.zero_add])
  have hleaf : (Mountain.leaf b).hash d = d (.leaf b) := rfl
  have hzero : (Mountain.leaf b).height = 0 := rfl
  rw [hleaf, hzero] at hj
  refine ⟨{ leafCount := m.leafCount + 1
            peaks := ((carry (.leaf b) ts).map (Mountain.hash d)).reverse
            mmrSize := m.mmrSize + 1 + j }, ?_, rfl, rfl, ?_⟩
  · unfold MerkleMountainRange.append
    simp only [hpeaks, List.reverse_reverse]
    simp only [hpeaks] at hj
    rw [hj]
    rfl
  · change m.mmrSize + 1 + j + (carry (.leaf b) ts).length = _
    omega

end Merging

/-! ### Runs and trees -/

theorem splitLengths_flatten {α : Type} (ls : List (List α)) :
    (ls.map List.length).splitLengths ls.flatten = ls := by
  induction ls with
  | nil => rfl
  | cons l ls ih =>
    rw [List.map_cons, List.flatten_cons, List.splitLengths_cons, List.take_left, List.drop_left, ih]

/-- The hashes of the range: a leaf is what is appended. -/
def rangeDigest (ext : Ext) : Preimage Hash Hash → Hash
  | .leaf leaf => leaf
  | .node height left right => hashMmrNode ext left right height
  | .bag left right => hashBag ext left right

/-- The hash of a perfect tree is the root over its leaves. -/
theorem hash_perfect {t : Mountain Hash} (h : t.Perfect) :
    t.hash (rangeDigest ext) = perfectRoot ext t.height t.leaves := by
  induction t with
  | leaf b => rfl
  | node k left right ihl ihr =>
    obtain ⟨⟨hleft, hl⟩, hright, hr⟩ := h
    have hwidth : left.leaves.length = 2 ^ k := by rw [hl.length_leaves, hleft]
    rw [Mountain.leaves, Mountain.height, perfectRoot, List.take_left' hwidth, List.drop_left' hwidth,
      ← hleft, ← ihl hl, hleft, ← hright, ← ihr hr, hright]
    rfl

/-- The heights of a row are the binary digits of its number of leaves. -/
theorem heights_row {β : Type} {ts : List (Mountain β)} (h : Row ts) :
    ts.map Mountain.height = (count ts).bitIndices := by
  have hsorted : (ts.map Mountain.height).SortedLT :=
    List.sortedLT_iff_pairwise.mpr (List.pairwise_map.mpr h.ascending)
  rw [← Nat.bitIndices_sum_map_two_pow hsorted, List.map_map]
  rfl

/-- The runs are the leaves of the trees. -/
theorem runs_eq (leaves : List Hash) : runs leaves = (rowOf leaves).reverse.map Mountain.leaves := by
  have hrow := row_rowOf leaves
  have hheights := heights_row hrow
  rw [count_rowOf] at hheights
  have hsizes : runSizes leaves.length = ((rowOf leaves).reverse.map Mountain.leaves).map List.length := by
    rw [runSizes, ← hheights, ← List.map_reverse, List.map_map, List.map_map]
    refine List.map_congr_left fun t ht => ?_
    exact ((hrow.perfect t (List.mem_reverse.mp ht)).length_leaves).symm
  have hflatten : ((rowOf leaves).reverse.map Mountain.leaves).flatten = leaves := leavesOf_rowOf leaves
  have hsplit := splitLengths_flatten ((rowOf leaves).reverse.map Mountain.leaves)
  rw [hflatten] at hsplit
  rw [runs, hsizes, hsplit]

/-- The roots over the runs are the hashes of the trees. -/
theorem zipWith_runs (leaves : List Hash) :
    List.zipWith (perfectRoot ext) leaves.length.bitIndices.reverse (runs leaves) =
      ((rowOf leaves).map (Mountain.hash (rangeDigest ext))).reverse := by
  have hrow := row_rowOf leaves
  have hheights := heights_row hrow
  rw [count_rowOf] at hheights
  rw [runs_eq, ← hheights, ← List.map_reverse, ← List.map_reverse, List.zipWith_map, List.zipWith_self]
  refine List.map_congr_left fun t ht => ?_
  exact (hash_perfect (hrow.perfect t (List.mem_reverse.mp ht))).symm

/-! ### Every append -/

/-- The range of the leaves that were appended. -/
structure Grown (ext : Ext) (leaves : List Hash) (m : MerkleMountainRange) : Prop where
  leafCount : m.leafCount = leaves.length
  peaks : m.peaks = ((rowOf leaves).map (Mountain.hash (rangeDigest ext))).reverse
  mmrSize : m.mmrSize + m.peaks.length = 2 * leaves.length

theorem grown_append {leaves : List Hash} {m : MerkleMountainRange} (h : Grown ext leaves m) (leaf : Hash) :
    ∃ m', m.append ext leaf = some m' ∧ Grown ext (leaves ++ [leaf]) m' := by
  obtain ⟨m', hm', hcount, hpeaks, hsize⟩ := append_row (d := rangeDigest ext) (b := leaf)
    (fun _ _ _ => rfl) (row_rowOf leaves) h.peaks (by rw [h.leafCount, count_rowOf])
  have hlength : m.peaks.length = (rowOf leaves).length := by
    rw [h.peaks, List.length_reverse, List.length_map]
  have htotal := h.mmrSize
  refine ⟨m', hm', by rw [hcount, h.leafCount, List.length_append]; rfl, by rw [hpeaks, rowOf_append], ?_⟩
  rw [hpeaks, List.length_reverse, List.length_map, List.length_append, List.length_singleton]
  omega

theorem exists_grown (ext : Ext) (leaves : List Hash) :
    ∃ m, appendAll ext leaves = some m ∧ Grown ext leaves m := by
  induction leaves using List.reverseRecOn with
  | nil => exact ⟨emptyRange, rfl, rfl, rfl, rfl⟩
  | append_singleton leaves leaf ih =>
    obtain ⟨m, hm, hgrown⟩ := ih
    obtain ⟨m', hm', hgrown'⟩ := grown_append hgrown leaf
    refine ⟨m', ?_, hgrown'⟩
    unfold appendAll at hm ⊢
    rw [List.foldlM_append, hm]
    simpa using hm'

theorem sizeForLeaves_eq (n : ℕ) : sizeForLeaves n = 2 * n - countOnes n := by
  unfold sizeForLeaves
  split_ifs with hn
  · rw [hn]
    rfl
  · rfl

theorem Grown.shape {leaves : List Hash} {m : MerkleMountainRange} (h : Grown ext leaves m) :
    Shape ext leaves m := by
  have hlength : m.peaks.length = countOnes leaves.length := by
    rw [h.peaks, List.length_reverse, List.length_map, countOnes, ← count_rowOf leaves,
      ← heights_row (row_rowOf leaves), List.length_map]
  have hsum : (runSizes leaves.length).sum = leaves.length := by
    rw [runSizes, List.map_reverse, List.sum_reverse, Nat.sum_map_two_pow_bitIndices]
  have htotal := h.mmrSize
  refine ⟨h.leafCount, List.map_splitLengths_length _ _ hsum.le, List.flatten_splitLengths _ _ hsum.ge,
    h.peaks.trans (zipWith_runs leaves).symm, hlength, ?_, sizeForLeaves_eq _⟩
  rw [sizeForLeaves_eq]
  omega

/-! ### One root -/

theorem asBytes_split {a b : Hash} {s t : Bytes} (h : a.asBytes ++ s = b.asBytes ++ t) : a = b ∧ s = t :=
  PrefixCode.split trivial trivial h

theorem nodeInput_inj {left right left' right' : Hash} {height : ℕ}
    (h : nodeInput left right height = nodeInput left' right' height) : left = left' ∧ right = right' := by
  simp only [nodeInput, List.append_assoc] at h
  obtain ⟨hleft, hrest⟩ := asBytes_split (List.append_cancel_left (List.append_cancel_left h))
  rw [← List.append_nil right.asBytes, ← List.append_nil right'.asBytes] at hrest
  exact ⟨hleft, (asBytes_split hrest).1⟩

theorem bagInput_inj {left right left' right' : Hash} (h : bagInput left right = bagInput left' right') :
    left = left' ∧ right = right' := by
  simp only [bagInput, List.append_assoc] at h
  obtain ⟨hleft, hrest⟩ := asBytes_split (List.append_cancel_left h)
  rw [← List.append_nil right.asBytes, ← List.append_nil right'.asBytes] at hrest
  exact ⟨hleft, (asBytes_split hrest).1⟩

/-- Runs of one size with one root are equal. -/
theorem perfectRoot_inj {l : List Bytes} (hfree : Distinguishes ext l) {k : ℕ} {run run' : List Hash}
    (hlength : run.length = 2 ^ k) (hlength' : run'.length = 2 ^ k)
    (hrun : ∀ x ∈ hashedPerfect ext k run, x ∈ l) (hrun' : ∀ x ∈ hashedPerfect ext k run', x ∈ l)
    (h : perfectRoot ext k run = perfectRoot ext k run') : run = run' := by
  induction k generalizing run run' with
  | zero =>
    obtain ⟨a, rfl⟩ := List.length_eq_one_iff.mp hlength
    obtain ⟨b, rfl⟩ := List.length_eq_one_iff.mp hlength'
    rw [show a = b from h]
  | succ k ih =>
    rw [hashedPerfect, List.forall_mem_cons, List.forall_mem_append] at hrun hrun'
    obtain ⟨htop, hleft, hright⟩ := hrun
    obtain ⟨htop', hleft', hright'⟩ := hrun'
    have hinput := hfree _ htop _ htop' (congrArg Hash.bytes h)
    obtain ⟨hl, hr⟩ := nodeInput_inj hinput
    rw [pow_succ] at hlength hlength'
    have htake := ih (by rw [List.length_take]; omega) (by rw [List.length_take]; omega) hleft hleft' hl
    have hdrop := ih (by rw [List.length_drop]; omega) (by rw [List.length_drop]; omega) hright hright' hr
    rw [← List.take_append_drop (2 ^ k) run, ← List.take_append_drop (2 ^ k) run', htake, hdrop]

/-- Peaks of one number that bag to one root are equal. -/
theorem bag_inj {l : List Bytes} (hfree : Distinguishes ext l) {ps qs : List Hash}
    (hlength : ps.length = qs.length) (hps : ∀ x ∈ hashedBag ext ps, x ∈ l)
    (hqs : ∀ x ∈ hashedBag ext qs, x ∈ l)
    (h : bag (digest ext) .ZERO ps = bag (digest ext) .ZERO qs) : ps = qs := by
  induction ps generalizing qs with
  | nil => exact (List.length_eq_zero_iff.mp hlength.symm).symm
  | cons p ps ih =>
    cases qs with
    | nil => cases hlength
    | cons q qs =>
      cases ps with
      | nil =>
        obtain rfl := List.length_eq_zero_iff.mp (Nat.succ.inj hlength).symm
        rw [show p = q from h]
      | cons p' ps =>
        cases qs with
        | nil => cases Nat.succ.inj hlength
        | cons q' qs =>
          rw [hashedBag, List.forall_mem_cons] at hps hqs
          have hinput := hfree _ hps.1 _ hqs.1 (congrArg Hash.bytes h)
          obtain ⟨hp, hrest⟩ := bagInput_inj hinput
          rw [hp, ih (Nat.succ.inj hlength) hps.2 hqs.2 hrest]

/-- Runs over which all roots agree are equal. -/
theorem zipWith_inj {l : List Bytes} (hfree : Distinguishes ext l) {ks : List ℕ} {rs rs' : List (List Hash)}
    (hsizes : rs.map List.length = ks.map (2 ^ ·)) (hsizes' : rs'.map List.length = ks.map (2 ^ ·))
    (hrs : ∀ x ∈ (List.zipWith (hashedPerfect ext) ks rs).flatten, x ∈ l)
    (hrs' : ∀ x ∈ (List.zipWith (hashedPerfect ext) ks rs').flatten, x ∈ l)
    (h : List.zipWith (perfectRoot ext) ks rs = List.zipWith (perfectRoot ext) ks rs') : rs = rs' := by
  induction ks generalizing rs rs' with
  | nil => rw [List.map_eq_nil_iff.mp hsizes, List.map_eq_nil_iff.mp hsizes']
  | cons k ks ih =>
    cases rs with
    | nil => cases hsizes
    | cons r rs =>
      cases rs' with
      | nil => cases hsizes'
      | cons r' rs' =>
        rw [List.map_cons, List.map_cons, List.cons.injEq] at hsizes hsizes'
        rw [List.zipWith_cons_cons, List.zipWith_cons_cons, List.cons.injEq] at h
        rw [List.zipWith_cons_cons, List.flatten_cons, List.forall_mem_append] at hrs hrs'
        rw [perfectRoot_inj hfree hsizes.1 hsizes'.1 hrs.1 hrs'.1 h.1,
          ih hsizes.2 hsizes'.2 hrs.2 hrs'.2 h.2]

/-- Appending never fails; the range has the shape that the binary expansion of the number of leaves gives, and
no other leaves of that number have its root. -/
theorem mountain_shape (ext : Ext) (leaves : List Hash) :
    ∃ m, appendAll ext leaves = some m ∧ Shape ext leaves m ∧
      ∀ leaves' m', appendAll ext leaves' = some m' → leaves'.length = leaves.length →
        Distinguishes ext (hashedFor ext leaves ++ hashedFor ext leaves') →
        m'.root ext = m.root ext → leaves' = leaves := by
  obtain ⟨m, hm, hgrown⟩ := exists_grown ext leaves
  refine ⟨m, hm, hgrown.shape, fun leaves' m' hm' hlength hfree hroot => ?_⟩
  obtain ⟨m₁, hm₁, hgrown'⟩ := exists_grown ext leaves'
  obtain rfl := Option.some.inj (hm'.symm.trans hm₁)
  have hshape := hgrown.shape
  have hshape' := hgrown'.shape
  rw [MerkleMountainRange.root, MerkleMountainRange.root, hshape.peaks, hshape'.peaks] at hroot
  have hpeaks := bag_inj hfree
    (by rw [← hshape'.peaks, ← hshape.peaks, hshape'.peakCount, hshape.peakCount, hlength])
    (fun x hx => List.mem_append_right _ (List.mem_append_right _ hx))
    (fun x hx => List.mem_append_left _ (List.mem_append_right _ hx)) hroot
  have hsizes' := hshape'.runs_sizes
  rw [hlength] at hpeaks hsizes'
  have hruns := zipWith_inj hfree hsizes' hshape.runs_sizes
    (fun x hx => List.mem_append_right _ (List.mem_append_left _ (by rw [hlength]; exact hx)))
    (fun x hx => List.mem_append_left _ (List.mem_append_left _ hx)) hpeaks
  rw [← hshape'.runs_flatten, hruns, hshape.runs_flatten]

namespace Sample

/-- A hash that keeps the last 32 bytes. -/
def lastBytes : Ext := { Ext.ofTables [] [] with sha256 := fun data => .ofNat 256 (Records.ofBeBytes data) }

end Sample

/-- Three leaves with another third one. -/
theorem mountain_shape_three :
    ∃ m m', appendAll Sample.lastBytes [⟨1⟩, ⟨2⟩, ⟨3⟩] = some m ∧ m.peaks.length = 2 ∧ m.mmrSize = 4 ∧
      appendAll Sample.lastBytes [⟨1⟩, ⟨2⟩, ⟨4⟩] = some m' ∧
      m'.root Sample.lastBytes ≠ m.root Sample.lastBytes := by
  obtain ⟨m, hm, hshape, hunique⟩ := mountain_shape Sample.lastBytes [⟨1⟩, ⟨2⟩, ⟨3⟩]
  obtain ⟨m', hm', -, -⟩ := mountain_shape Sample.lastBytes [⟨1⟩, ⟨2⟩, ⟨4⟩]
  have hfree : Distinguishes Sample.lastBytes
      (hashedFor Sample.lastBytes [⟨1⟩, ⟨2⟩, ⟨3⟩] ++ hashedFor Sample.lastBytes [⟨1⟩, ⟨2⟩, ⟨4⟩]) := by
    unfold Distinguishes
    decide +kernel
  refine ⟨m, m', hm, ?_, ?_, hm', fun hroot => ?_⟩
  · rw [hshape.peakCount]
    decide +kernel
  · rw [hshape.mmrSize]
    decide +kernel
  · have heq := hunique _ m' hm' rfl hfree hroot
    exact absurd heq (by decide)

end Coinjecture.Node.MountainShape
