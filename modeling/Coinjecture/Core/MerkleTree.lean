import Coinjecture.Core.Crypto
import Coinjecture.Lib.Codes
import Coinjecture.Lib.Merkle

/-! # The Merkle root of a header

`MerkleTree` hashes its leaves and folds them with the block hash function; a last node without a
partner is hashed alone. The leaves for the transactions of a block are their hashes, hashed again.

* `root_injective` : without a collision a root belongs to one list of hashes, of whatever length.
-/

namespace Coinjecture.Core.MerkleTree

open Lib.Bincode Lib.Codes Lib.Merkle
open Core.Types Core.Transactions Core.Extern
open Core.Crypto

instance : Inhabited Hash := ⟨Hash.ZERO⟩

variable (ext : Ext)

def combinedHash (left right : Hash) : Hash := Hash.new ext (left.asBytes ++ right.asBytes)

def aloneHash (node : Hash) : Hash := Hash.new ext node.asBytes

/-- `MerkleTree::calculate_root`. -/
def calculateRoot (leaves : List Hash) : Hash :=
  match leaves with
  | [] => Hash.ZERO
  | [leaf] => leaf
  | leaves => root (combinedHash ext) (aloneHash ext) leaves

/-- The root of `MerkleTree::new`. -/
def rootOf (data : List Bytes) : Hash := calculateRoot ext (data.map (Hash.new ext))

/-- The transactions root that `Block::verify` recomputes. -/
def calculateTransactionsRoot (transactions : List Transaction) : Hash :=
  rootOf ext (transactions.map fun tx => (Transaction.hash ext tx).asBytes)

theorem calculateRoot_eq {leaves : List Hash} (h : leaves ≠ []) :
    calculateRoot ext leaves = root (combinedHash ext) (aloneHash ext) leaves := by
  match leaves, h with
  | [leaf], _ => exact (root_singleton leaf).symm
  | _ :: _ :: _, _ => rfl

/-- What is hashed last for the root of these hashes: two nodes, or the only hash. -/
def lastHashed (hashes : List Hash) : Bytes :=
  match lastPair (combinedHash ext) (aloneHash ext) hashes.length (hashes.map (aloneHash ext)) with
  | some (left, right) => left.asBytes ++ right.asBytes
  | none => (hashes.headD Hash.ZERO).asBytes

theorem length_lastHashed_le (hashes : List Hash) : (lastHashed ext hashes).length ≤ 64 := by
  have hbytes : ∀ h : Hash, h.asBytes.length = 32 := fun h => by simp [Hash.asBytes, beBytes]
  unfold lastHashed
  split
  · rw [List.length_append, hbytes, hbytes]
  · rw [hbytes]
    decide

theorem rootOf_eq_lastHashed {hashes : List Hash} (h : hashes ≠ []) :
    rootOf ext (hashes.map Hash.asBytes) = Hash.new ext (lastHashed ext hashes) := by
  have hleaves : (hashes.map Hash.asBytes).map (Hash.new ext) = hashes.map (aloneHash ext) := by
    rw [List.map_map]
    rfl
  rw [rootOf, hleaves, calculateRoot_eq ext (by simpa using h)]
  match hashes, h with
  | [hash], _ => exact root_singleton _
  | a :: b :: rest, _ =>
    have htwo : 1 < ((a :: b :: rest).map (aloneHash ext)).length := by simp
    have hfuel : ((a :: b :: rest).map (aloneHash ext)).length ≤ (a :: b :: rest).length := by simp
    obtain ⟨x, y, hlast, hroot⟩ := root_eq_pair htwo hfuel
    rw [hroot, lastHashed, hlast]
    rfl

/-! ### Leaves with one root -/

theorem asBytes_injective : Function.Injective Hash.asBytes := fun a b heq =>
  Hash.ext (BitVec.eq_of_toNat_eq (beBytes_split a.bytes.isLt b.bytes.isLt (congrArg (· ++ []) heq)).1)

theorem eq_of_asBytes_append_eq (a b c d : Hash) (h : a.asBytes ++ b.asBytes = c.asBytes ++ d.asBytes) :
    a = c ∧ b = d := by
  obtain ⟨hfirst, hsecond⟩ := beBytes_split a.bytes.isLt c.bytes.isLt h
  exact ⟨Hash.ext (BitVec.eq_of_toNat_eq hfirst), asBytes_injective hsecond⟩

theorem length_asBytes (h : Hash) : h.asBytes.length = 32 := by simp [Hash.asBytes, beBytes]

/-- All that is hashed for the root of these leaves, as many levels up as `fuel`. -/
def hashedFor (fuel : ℕ) (data : List Bytes) : List Bytes :=
  data ++ climbData (Hash.new ext) (fun left right : Hash => left.asBytes ++ right.asBytes) Hash.asBytes
    fuel (data.map (Hash.new ext))

/-- Equally many leaves with one root are the same, if BLAKE3 takes no two of the strings hashed for them
to one. -/
theorem eq_of_rootOf_eq {data data' : List Bytes} (hlength : data.length = data'.length)
    (hdistinct : ∀ x ∈ hashedFor ext data.length data, ∀ y ∈ hashedFor ext data.length data',
      ext.blake3 x = ext.blake3 y → x = y) (h : rootOf ext data = rootOf ext data') : data = data' := by
  have hinj : ∀ x ∈ hashedFor ext data.length data, ∀ y ∈ hashedFor ext data.length data',
      Hash.new ext x = Hash.new ext y → x = y :=
    fun x hx y hy heq => hdistinct x hx y hy (congrArg Hash.bytes heq)
  by_cases hnil : data = []
  · rw [hnil] at hlength
    rw [hnil, List.length_eq_zero_iff.mp hlength.symm]
  · have hne : data.map (Hash.new ext) ≠ [] := mt List.map_eq_nil_iff.mp hnil
    have hne' : data'.map (Hash.new ext) ≠ [] := by
      refine List.length_pos_iff.mp ?_
      rw [List.length_map, ← hlength]
      exact List.length_pos_iff.mpr hnil
    rw [rootOf, rootOf, calculateRoot_eq ext hne, calculateRoot_eq ext hne'] at h
    refine eq_of_map_eq (fun x hx y hy => hinj x (List.mem_append_left _ hx) y
      (List.mem_append_left _ hy)) (eq_of_root_eq eq_of_asBytes_append_eq asBytes_injective hne
      ?_ ?_ h)
    · rw [List.length_map, List.length_map, hlength]
    · rw [List.length_map]
      exact fun x hx y hy => hinj x (List.mem_append_right _ hx) y (List.mem_append_right _ hy)

/-! ### Leaves of any number -/

/-- All that is hashed for the root over these hashes. -/
def treeData (hashes : List Hash) : List Bytes := hashedFor ext hashes.length (hashes.map Hash.asBytes)

/-- BLAKE3 takes no string hashed for the one root and no string hashed for the other to one, and none of
them to zero. -/
def CollisionFree (hashes hashes' : List Hash) : Prop :=
  (∀ x ∈ treeData ext hashes, ∀ y ∈ treeData ext hashes', ext.blake3 x = ext.blake3 y → x = y) ∧
    (∀ x ∈ treeData ext hashes, ext.blake3 x ≠ 0) ∧ ∀ x ∈ treeData ext hashes', ext.blake3 x ≠ 0

instance (hashes hashes' : List Hash) : Decidable (CollisionFree ext hashes hashes') :=
  inferInstanceAs (Decidable (_ ∧ _ ∧ _))

theorem mem_treeData {hashes : List Hash} {x : Bytes} (h : Hashed (Hash.new ext)
    (fun left right : Hash => left.asBytes ++ right.asBytes) Hash.asBytes (hashes.map Hash.asBytes) x) :
    x ∈ treeData ext hashes := by
  have hmem := mem_of_hashed h hashes.length (by rw [List.length_map])
  rwa [treeData, hashedFor]

theorem leaves_ne_nil {hashes : List Hash} (hne : hashes ≠ []) :
    (hashes.map Hash.asBytes).map (Hash.new ext) ≠ [] := by
  rw [List.map_map]
  exact mt List.map_eq_nil_iff.mp hne

theorem exists_root_eq {hashes : List Hash} (hne : hashes ≠ []) :
    ∃ x ∈ treeData ext hashes, rootOf ext (hashes.map Hash.asBytes) = Hash.new ext x := by
  obtain ⟨x, hx, hroot⟩ := @exists_hashed_root _ _ (Hash.new ext)
    (fun left right : Hash => left.asBytes ++ right.asBytes) Hash.asBytes _ _
    (mt List.map_eq_nil_iff.mp hne)
  rw [rootOf, calculateRoot_eq ext (leaves_ne_nil ext hne)]
  exact ⟨x, mem_treeData ext hx, hroot⟩

theorem eq_of_root_eq_zero {hashes hashes' : List Hash} (hfree : CollisionFree ext hashes hashes')
    (h : rootOf ext (hashes'.map Hash.asBytes) = Hash.ZERO) : hashes' = [] := by
  by_contra hne
  obtain ⟨x, hx, hroot⟩ := exists_root_eq ext hne
  exact hfree.2.2 x hx (congrArg Hash.bytes (hroot.symm.trans h))

theorem collisionFree_symm {hashes hashes' : List Hash} (h : CollisionFree ext hashes hashes') :
    CollisionFree ext hashes' hashes :=
  ⟨fun x hx y hy heq => (h.1 y hy x hx heq.symm).symm, h.2.2, h.2.1⟩

/-- A root belongs to one list, of whatever length. -/
theorem eq_of_collisionFree {hashes hashes' : List Hash} (hfree : CollisionFree ext hashes hashes')
    (h : rootOf ext (hashes.map Hash.asBytes) = rootOf ext (hashes'.map Hash.asBytes)) :
    hashes = hashes' := by
  by_cases hnil : hashes = []
  · subst hnil
    exact (eq_of_root_eq_zero ext hfree h.symm).symm
  by_cases hnil' : hashes' = []
  · subst hnil'
    exact absurd (eq_of_root_eq_zero ext (collisionFree_symm ext hfree) h) hnil
  have hmap : ∀ l : List Hash, l ≠ [] → l.map Hash.asBytes ≠ [] := fun l => mt List.map_eq_nil_iff.mp
  rw [rootOf, rootOf, calculateRoot_eq ext (leaves_ne_nil ext hnil),
    calculateRoot_eq ext (leaves_ne_nil ext hnil')] at h
  -- a pair is of 64 bytes, a leaf and a node alone of 32
  have hsize : ∀ (a b : Hash) (x : Bytes), x.length = 32 → x ≠ a.asBytes ++ b.asBytes := by
    rintro a b x hx rfl
    rw [List.length_append, length_asBytes, length_asBytes] at hx
    omega
  have hleaf : ∀ l : List Hash, ∀ x ∈ l.map Hash.asBytes, ∀ a b : Hash, x ≠ a.asBytes ++ b.asBytes := by
    intro l x hx a b
    obtain ⟨hash, -, rfl⟩ := List.mem_map.mp hx
    exact hsize a b _ (length_asBytes hash)
  refine List.map_injective_iff.mpr asBytes_injective (eq_of_data_root_eq eq_of_asBytes_append_eq
    asBytes_injective (fun a b c heq => hsize a b _ (length_asBytes c) heq.symm) (hmap _ hnil)
    (hmap _ hnil') (hleaf _) (hleaf _) (fun x y hx hy heq => ?_) h)
  exact hfree.1 x (mem_treeData ext hx) y (mem_treeData ext hy) (congrArg Hash.bytes heq)

/-- Equal roots have equal lists, and a last element that is repeated changes the root. -/
theorem root_injective :
    (∀ hashes hashes', CollisionFree ext hashes hashes' →
      rootOf ext (hashes.map Hash.asBytes) = rootOf ext (hashes'.map Hash.asBytes) → hashes = hashes') ∧
    ∀ hashes last, hashes.getLast? = some last → CollisionFree ext (hashes ++ [last]) hashes →
      rootOf ext ((hashes ++ [last]).map Hash.asBytes) ≠ rootOf ext (hashes.map Hash.asBytes) := by
  refine ⟨fun _ _ => eq_of_collisionFree ext, fun hashes last _ hfree h => ?_⟩
  have hlength := congrArg List.length (eq_of_collisionFree ext hfree h)
  rw [List.length_append] at hlength
  exact absurd hlength (by simp)

/-- BLAKE3's part played by a number in base 257. -/
def numberExt : Ext :=
  { Ext.ofTables [] [] with
    blake3 := fun data => BitVec.ofNat 256 (data.foldl (fun n b => 257 * n + b.toNat + 1) 1) }

theorem root_injective_three :
    rootOf numberExt (([⟨1⟩, ⟨2⟩] : List Hash).map Hash.asBytes) ≠
      rootOf numberExt (([⟨1⟩, ⟨2⟩, ⟨3⟩] : List Hash).map Hash.asBytes) ∧
    rootOf numberExt (([⟨1⟩, ⟨2⟩, ⟨3⟩, ⟨3⟩] : List Hash).map Hash.asBytes) ≠
      rootOf numberExt (([⟨1⟩, ⟨2⟩, ⟨3⟩] : List Hash).map Hash.asBytes) :=
  ⟨fun h => absurd ((root_injective numberExt).1 [⟨1⟩, ⟨2⟩] [⟨1⟩, ⟨2⟩, ⟨3⟩] (by decide +kernel) h) (by simp),
    (root_injective numberExt).2 [⟨1⟩, ⟨2⟩, ⟨3⟩] ⟨3⟩ rfl (by decide +kernel)⟩

end Coinjecture.Core.MerkleTree
