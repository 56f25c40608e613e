import Coinjecture.Core.Crypto

/-! # Problem submissions

A listing carries its problem in the open, or a commitment to it together with a placeholder proof
that binds the commitment to its public parameters. -/

namespace Coinjecture.Core.Privacy

open Lib.Bincode Lib.Float64
open Core.Types Core.Problem Core.Extern Core.Crypto

structure ProblemParameters where
  problemType : String
  size : Usize
  complexityEstimate : F64
  deriving DecidableEq

instance : Encode ProblemParameters := ⟨fun p =>
  encode p.problemType ++ encode p.size ++ encode p.complexityEstimate⟩

structure WellformednessProof where
  proofBytes : Bytes
  vkHash : Hash
  publicInputs : List Bytes
  deriving DecidableEq

inductive SubmissionMode where
  | Public (problem : ProblemType)
  | Private (problemCommitment : Hash) (zkWellformedProof : WellformednessProof)
      (publicParams : ProblemParameters)
  deriving DecidableEq

structure ProblemReveal where
  problem : ProblemType
  salt : Bytes32
  revealedAt : Int64
  deriving DecidableEq

variable (ext : Ext)

/-- `get_verification_key_hash`. -/
def getVerificationKeyHash : Hash :=
  Hash.new ext "coinject-marketplace-wellformedness-circuit-v1".toUTF8.toList

/-- `create_placeholder_proof`. -/
def createPlaceholderProof (commitment : Hash) (publicParams : ProblemParameters) : Bytes :=
  beBytes 32 (ext.sha256 ("COINJECT_TESTNET_PLACEHOLDER_V1".toUTF8.toList ++ commitment.asBytes ++
    encode publicParams)).toNat

/-- `WellformednessProof::verify`. -/
def WellformednessProof.verify (proof : WellformednessProof) (commitment : Hash)
    (publicParams : ProblemParameters) : Bool :=
  proof.vkHash = getVerificationKeyHash ext &&
    proof.publicInputs = [commitment.asBytes, encode publicParams] &&
    proof.proofBytes = createPlaceholderProof ext commitment publicParams

/-- `compute_commitment`. -/
def computeCommitment (problem : ProblemType) (salt : Bytes32) : Hash :=
  Hash.new ext (beBytes 32 (ext.sha256 (encode problem ++ beBytes 32 salt.toNat)).toNat)

/-- `WellformednessProof::create`. -/
def WellformednessProof.create (problem : ProblemType) (salt : Bytes32)
    (publicParams : ProblemParameters) : WellformednessProof × Hash :=
  let commitment := computeCommitment ext problem salt
  (⟨createPlaceholderProof ext commitment publicParams, getVerificationKeyHash ext,
    [commitment.asBytes, encode publicParams]⟩, commitment)

/-- `ProblemReveal::verify`. -/
def ProblemReveal.verify (reveal : ProblemReveal) (commitment : Hash) : Bool :=
  computeCommitment ext reveal.problem reveal.salt = commitment

theorem verify_create (problem : ProblemType) (salt : Bytes32) (publicParams : ProblemParameters) :
    (WellformednessProof.create ext problem salt publicParams).1.verify ext
      (WellformednessProof.create ext problem salt publicParams).2 publicParams = true := by
  simp only [WellformednessProof.create, WellformednessProof.verify, decide_true, Bool.and_self]

end Coinjecture.Core.Privacy
