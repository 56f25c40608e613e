import Coinjecture.Core.MerkleTree
import Coinjecture.Node.Validator

/-! # Merkle proofs for light clients

`buildMerkleProof` and `verifyMerkleProof` agree on a tree of their own: its leaves are the transaction
hashes themselves, a last node is its own partner, and the nodes are SHA-256 digests. The root in a
header comes from another tree, over the hashes hashed again and with BLAKE3. No proof of a member is
accepted against it, and the empty proof, which is what is built for a hash that is not in the block,
is accepted for the root itself. -/

namespace Coinjecture.Node.MerkleProofs

open Lib.Bincode Lib.Merkle
open Core.Types Core.Transactions Core.Extern
open Core.Crypto Core.MerkleTree Node.Validator

variable (ext : Ext)

/-- `b"MERKLE_NODE"`. -/
def MERKLE_NODE : Bytes := "MERKLE_NODE".toUTF8.toList

def merkleNode (left right : Hash) : Hash :=
  ⟨ext.sha256 (MERKLE_NODE ++ left.asBytes ++ right.asBytes)⟩

/-- `build_merkle_proof`: the siblings of the first transaction with the hash. -/
def buildMerkleProof (transactions : List Transaction) (targetTxHash : Hash) : List (Hash × Bool) :=
  let leaves := transactions.map (Transaction.hash ext)
  match leaves.idxOf? targetTxHash with
  | some targetIndex => path (merkleNode ext) leaves.length leaves targetIndex
  | none => []

/-- `verify_merkle_proof`. -/
def verifyMerkleProof (txHash : Hash) (proof : List (Hash × Bool)) (expectedRoot : Hash) : Bool :=
  fold (merkleNode ext) txHash proof = expectedRoot

/-- The root of the tree that the proofs are made for. -/
def proofRoot (hashes : List Hash) : Hash :=
  root (merkleNode ext) (fun node => merkleNode ext node node) hashes

/-- What a proof of a member verifies against is the root of that tree. -/
theorem verifyMerkleProof_build {transactions : List Transaction} {txHash : Hash}
    (h : txHash ∈ transactions.map (Transaction.hash ext)) (expectedRoot : Hash) :
    verifyMerkleProof ext txHash (buildMerkleProof ext transactions txHash) expectedRoot =
      decide (proofRoot ext (transactions.map (Transaction.hash ext)) = expectedRoot) := by
  obtain ⟨i, hi⟩ : ∃ i, (transactions.map (Transaction.hash ext)).idxOf? txHash = some i := by
    rw [← Option.isSome_iff_exists, List.isSome_idxOf?]
    exact h
  obtain ⟨hlt, hget, -⟩ := List.idxOf?_eq_some_iff.mp hi
  have hleaf : (transactions.map (Transaction.hash ext)).getD i default = txHash := by
    rw [List.getD_eq_getElem _ _ hlt]
    exact hget
  have hfold : fold (merkleNode ext) ((transactions.map (Transaction.hash ext)).getD i default)
      (path (merkleNode ext) (transactions.map (Transaction.hash ext)).length
        (transactions.map (Transaction.hash ext)) i) =
      proofRoot ext (transactions.map (Transaction.hash ext)) := fold_path hlt le_rfl
  rw [hleaf] at hfold
  rw [verifyMerkleProof, buildMerkleProof]
  simp only [hi]
  rw [hfold]

/-- The bytes of the last node of the tree of the proofs, if it has more than a leaf. -/
def lastProofNode (hashes : List Hash) : Option Bytes :=
  (lastPair (merkleNode ext) (fun node => merkleNode ext node node) hashes.length hashes).map
    fun nodes => MERKLE_NODE ++ nodes.1.asBytes ++ nodes.2.asBytes

/-- The digest at the top of the header's tree is neither that of a transaction, unless of the same
bytes, nor the SHA-256 digest at the top of the tree of the proofs. -/
structure CollisionFree (transactions : List Transaction) : Prop where
  leaf : ∀ tx ∈ transactions, encode tx ≠ lastHashed ext (transactions.map (Transaction.hash ext)) →
    ext.blake3 (encode tx) ≠ ext.blake3 (lastHashed ext (transactions.map (Transaction.hash ext)))
  node : ∀ data, lastProofNode ext (transactions.map (Transaction.hash ext)) = some data →
    ext.sha256 data ≠ ext.blake3 (lastHashed ext (transactions.map (Transaction.hash ext)))

/-- The proofs match the root that goes into the header: that of a member is accepted, and for another
hash no proof that is built is. -/
def ProofsMatch (transactions : List Transaction) : Prop :=
  (∀ txHash ∈ transactions.map (Transaction.hash ext), verifyMerkleProof ext txHash
    (buildMerkleProof ext transactions txHash) (calculateTransactionsRoot ext transactions) = true) ∧
  ∀ txHash, txHash ∉ transactions.map (Transaction.hash ext) → ∀ target, verifyMerkleProof ext txHash
    (buildMerkleProof ext transactions target) (calculateTransactionsRoot ext transactions) = false

theorem lt_length_encode (tx : Transaction) : 64 < (encode tx).length := by
  have hsignature : ∀ s : Ed25519Signature, (encode s).length = 72 := fun s => by
    simp [encode, beBytes]
  cases tx with
  | Transfer tx =>
    change 64 < (variant 0 ++ (_ ++ encode tx.signature)).length
    rw [List.length_append, List.length_append, hsignature]
    omega
  | TimeLock tx =>
    change 64 < (variant 1 ++ (_ ++ encode tx.signature)).length
    rw [List.length_append, List.length_append, hsignature]
    omega
  | Escrow tx =>
    change 64 < (variant 2 ++ (_ ++ encode tx.signature ++ _)).length
    rw [List.length_append, List.length_append, List.length_append, hsignature]
    omega
  | Channel tx =>
    change 64 < (variant 3 ++ (_ ++ encode tx.signature ++ _)).length
    rw [List.length_append, List.length_append, List.length_append, hsignature]
    omega
  | TrustLine tx =>
    change 64 < (variant 4 ++ (_ ++ encode tx.signature)).length
    rw [List.length_append, List.length_append, hsignature]
    omega
  | DimensionalPoolSwap tx =>
    change 64 < (variant 5 ++ (_ ++ encode tx.signature)).length
    rw [List.length_append, List.length_append, hsignature]
    omega
  | Marketplace tx =>
    change 64 < (variant 6 ++ (_ ++ encode tx.signature)).length
    rw [List.length_append, List.length_append, hsignature]
    omega

variable {ext} {transactions : List Transaction}

theorem calculateTransactionsRoot_eq (h : transactions ≠ []) :
    calculateTransactionsRoot ext transactions =
      Hash.new ext (lastHashed ext (transactions.map (Transaction.hash ext))) := by
  rw [← rootOf_eq_lastHashed ext (by simpa using h), calculateTransactionsRoot, List.map_map]
  rfl

/-- The root of a header is not the hash of a transaction. -/
theorem root_notMem (hne : transactions ≠ []) (hfree : CollisionFree ext transactions) :
    calculateTransactionsRoot ext transactions ∉ transactions.map (Transaction.hash ext) := by
  intro hmem
  obtain ⟨tx, htx, hhash⟩ := List.mem_map.mp hmem
  rw [calculateTransactionsRoot_eq hne] at hhash
  have hlength := length_lastHashed_le ext (transactions.map (Transaction.hash ext))
  refine hfree.leaf tx htx (fun hsame => ?_) (congrArg Hash.bytes hhash)
  have hlong := lt_length_encode tx
  rw [hsame] at hlong
  omega

/-- The two trees have different roots. -/
theorem proofRoot_ne (hne : transactions ≠ []) (hfree : CollisionFree ext transactions) :
    proofRoot ext (transactions.map (Transaction.hash ext)) ≠
      calculateTransactionsRoot ext transactions := by
  by_cases htwo : 1 < (transactions.map (Transaction.hash ext)).length
  · obtain ⟨left, right, hlast, hroot⟩ : ∃ left right, lastPair (merkleNode ext)
        (fun node => merkleNode ext node node) (transactions.map (Transaction.hash ext)).length
          (transactions.map (Transaction.hash ext)) = some (left, right) ∧
        proofRoot ext (transactions.map (Transaction.hash ext)) = merkleNode ext left right :=
      root_eq_pair htwo le_rfl
    have hnode := hfree.node (MERKLE_NODE ++ left.asBytes ++ right.asBytes) (by
      rw [lastProofNode, hlast]
      rfl)
    rw [hroot, calculateTransactionsRoot_eq hne]
    exact fun heq => hnode (congrArg Hash.bytes heq)
  · intro heq
    have hpos := List.length_pos_iff.mpr hne
    rw [List.length_map] at htwo
    obtain ⟨tx, hsingle⟩ := List.length_eq_one_iff.mp (show transactions.length = 1 by omega)
    refine root_notMem hne hfree ?_
    rw [← heq, hsingle]
    exact List.mem_singleton.mpr (root_singleton _)

/-- Short of a collision the proofs match the root of no block: the proof of every transaction is
rejected, and a proof of something that is none is accepted. -/
theorem proofs_never_match (ext : Ext) (transactions : List Transaction) (hne : transactions ≠ [])
    (hfree : CollisionFree ext transactions) :
    ¬ ProofsMatch ext transactions ∧
    (∀ txHash ∈ transactions.map (Transaction.hash ext), verifyMerkleProof ext txHash
      (buildMerkleProof ext transactions txHash) (calculateTransactionsRoot ext transactions) =
        false) ∧
    ∃ txHash, txHash ∉ transactions.map (Transaction.hash ext) ∧ verifyMerkleProof ext txHash
      (buildMerkleProof ext transactions txHash) (calculateTransactionsRoot ext transactions) =
        true := by
  have hrejected : ∀ txHash ∈ transactions.map (Transaction.hash ext), verifyMerkleProof ext txHash
      (buildMerkleProof ext transactions txHash) (calculateTransactionsRoot ext transactions) =
        false := by
    intro txHash hmem
    rw [verifyMerkleProof_build ext hmem]
    exact decide_eq_false (proofRoot_ne hne hfree)
  have hnotMem := root_notMem hne hfree
  have hnone : buildMerkleProof ext transactions (calculateTransactionsRoot ext transactions) = [] := by
    simp only [buildMerkleProof, List.idxOf?_eq_none_iff.mpr hnotMem]
  have haccepted : verifyMerkleProof ext (calculateTransactionsRoot ext transactions)
      (buildMerkleProof ext transactions (calculateTransactionsRoot ext transactions))
      (calculateTransactionsRoot ext transactions) = true := by
    rw [hnone]
    exact decide_eq_true rfl
  refine ⟨fun hmatch => ?_, hrejected, _, hnotMem, haccepted⟩
  rw [hmatch.2 _ hnotMem _] at haccepted
  cases haccepted

/-! ### Alice's transfer -/

def aliceHash : Hash := ⟨0x79859dd23297515296d9ec5b3f373d85d5b7c799e324ef61097aead751ee4521⟩

def lightExt : Ext := Ext.ofTables
  [(encode (Transaction.Transfer Sample.aliceTransfer), aliceHash.bytes),
    (aliceHash.asBytes, Sample.aliceBlock.header.transactionsRoot.bytes)] []

set_option maxRecDepth 20000 in
theorem collisionFree_aliceBlock : CollisionFree lightExt Sample.aliceBlock.transactions where
  leaf tx htx _ := by
    rw [List.mem_singleton.mp htx]
    decide
  node data hdata := by
    have hnone : lastProofNode lightExt (Sample.aliceBlock.transactions.map
        (Transaction.hash lightExt)) = none := by rfl
    rw [hnone] at hdata
    cases hdata

theorem proofs_never_match_aliceBlock : ¬ ProofsMatch lightExt Sample.aliceBlock.transactions :=
  (proofs_never_match lightExt Sample.aliceBlock.transactions (by decide)
    collisionFree_aliceBlock).1

set_option maxRecDepth 20000 in
/-- The header of Alice's block has the root that `Block::verify` recomputes, and the proof of her
transfer is rejected against it. -/
theorem alice_proof_rejected :
    calculateTransactionsRoot lightExt Sample.aliceBlock.transactions =
        Sample.aliceBlock.header.transactionsRoot ∧
      aliceHash ∈ Sample.aliceBlock.transactions.map (Transaction.hash lightExt) ∧
      verifyMerkleProof lightExt aliceHash
        (buildMerkleProof lightExt Sample.aliceBlock.transactions aliceHash)
        Sample.aliceBlock.header.transactionsRoot = false ∧
      ¬ ProofsMatch lightExt Sample.aliceBlock.transactions := by
  have hroot : calculateTransactionsRoot lightExt Sample.aliceBlock.transactions =
      Sample.aliceBlock.header.transactionsRoot := by decide
  have hmem : aliceHash ∈ Sample.aliceBlock.transactions.map (Transaction.hash lightExt) := by decide
  have hrejected : verifyMerkleProof lightExt aliceHash
      (buildMerkleProof lightExt Sample.aliceBlock.transactions aliceHash)
      Sample.aliceBlock.header.transactionsRoot = false := by decide
  refine ⟨hroot, hmem, hrejected, fun h => ?_⟩
  have haccepted := h.1 aliceHash hmem
  rw [hroot, hrejected] at haccepted
  cases haccepted

end Coinjecture.Node.MerkleProofs
