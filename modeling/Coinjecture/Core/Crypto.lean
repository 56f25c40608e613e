import Coinjecture.Core.Extern

/-! # Hashes, signatures and commitments

The functions of the core crate that call a hash function or the signature check:
`Transaction.hash`, `Transaction.verifySignature`, `BlockHeader.hash` and `Commitment.verify`.
`verifySignature` checks the signature under the key the transaction itself carries; that this key
belongs to `from` is not part of it. -/

namespace Coinjecture.Core.Crypto

open Lib.Bincode Lib.Float64
open Core.Types Core.Problem Core.Transactions
open Core.Blocks Core.Extern

variable (ext : Ext)

/-- `Hash::new`. -/
def Hash.new (data : Bytes) : Hash := ⟨ext.blake3 data⟩

def ProblemType.hash (p : ProblemType) : Hash := Hash.new ext (encode p)

def Transaction.hash (tx : Transaction) : Hash := Hash.new ext (encode tx)

def BlockHeader.hash (h : BlockHeader) : Hash := Hash.new ext (encode h)

def BlockHeader.hashFromJson (h : BlockHeader) : Hash := Hash.new ext (ext.headerJson h)

/-- The block hash is the header hash. -/
def Block.hash (b : Block) : Hash := BlockHeader.hash ext b.header

/-! ### Signatures -/

/-- The check of the own signature, which all seven kinds make. -/
def signatureVerifies (tx : Transaction) : Bool :=
  ext.ed25519Verify tx.publicKey tx.signingMessage tx.signature

/-- `Transaction::verify_signature`. A release or a refund also needs an additional signature, which
is not looked at. -/
def Transaction.verifySignature : Transaction → Bool
  | .Escrow tx =>
    signatureVerifies ext (.Escrow tx) &&
      match tx.escrowType with
      | .Release | .Refund => !tx.additionalSignatures.isEmpty
      | .Create .. => true
  | tx => signatureVerifies ext tx

theorem signatureVerifies_of_verifySignature {tx : Transaction}
    (h : Transaction.verifySignature ext tx = true) : signatureVerifies ext tx = true := by
  cases tx with
  | Escrow tx =>
    simp only [Transaction.verifySignature, Bool.and_eq_true] at h
    exact h.1
  | _ => exact h

/-! ### Commitments -/

/-- `H(problem hash ‖ salt ‖ solution hash)`. -/
def commitmentOf (problemHash solutionHash epochSalt : Hash) : Commitment :=
  ⟨Hash.new ext (problemHash.asBytes ++ epochSalt.asBytes ++ solutionHash.asBytes), problemHash⟩

/-- `Commitment::create`. -/
def Commitment.create (problem : ProblemType) (solution : Solution) (epochSalt : Hash) :
    Commitment :=
  commitmentOf ext (ProblemType.hash ext problem) (Hash.new ext (encode solution)) epochSalt

/-- `Commitment::create_from_json`. -/
def Commitment.createFromJson (problem : ProblemType) (solution : Solution) (epochSalt : Hash) :
    Commitment :=
  commitmentOf ext (Hash.new ext (ext.problemJson problem)) (Hash.new ext (ext.solutionJson solution))
    epochSalt

/-- `Commitment::verify`. -/
def Commitment.verify (c : Commitment) (problem : ProblemType) (solution : Solution)
    (epochSalt : Hash) : Bool :=
  c = Commitment.create ext problem solution epochSalt ||
    c = Commitment.createFromJson ext problem solution epochSalt

end Coinjecture.Core.Crypto
