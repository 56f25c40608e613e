import Coinjecture.Core.Privacy

/-! # Proofs without an opening

What the verifier compares with is computed from the commitment and the public parameters alone. So whoever sees
these can compute it too, and there is no other proof that is accepted.

* `never_sound` : a function of what is public gives an accepted proof for every commitment. -/

namespace Coinjecture.Core.ProofForgery

open Lib.Bincode Lib.Float64
open Core.Types Core.Problem Core.Extern Core.Crypto
open Core.Privacy

/-- Who has seen the commitment and the public parameters, and nothing else. -/
abbrev PublicProver := Hash → ProblemParameters → WellformednessProof

variable (ext : Ext)

/-- No prover that knows only what is public is always accepted. -/
def Sound : Prop :=
  ¬ ∃ prover : PublicProver, ∀ commitment publicParams,
    (prover commitment publicParams).verify ext commitment publicParams = true

/-- The proof that is accepted, without a problem and without a salt. -/
def forge : PublicProver := fun commitment publicParams =>
  ⟨createPlaceholderProof ext commitment publicParams, getVerificationKeyHash ext,
    [commitment.asBytes, encode publicParams]⟩

theorem verify_iff_eq_forge (proof : WellformednessProof) (commitment : Hash)
    (publicParams : ProblemParameters) :
    proof.verify ext commitment publicParams = true ↔ proof = forge ext commitment publicParams := by
  obtain ⟨proofBytes, vkHash, publicInputs⟩ := proof
  simp only [WellformednessProof.verify, forge, Bool.and_eq_true, decide_eq_true_eq,
    WellformednessProof.mk.injEq]
  constructor
  · rintro ⟨⟨hkey, hinputs⟩, hbytes⟩
    exact ⟨hbytes, hkey, hinputs⟩
  · rintro ⟨hbytes, hkey, hinputs⟩
    exact ⟨⟨hkey, hinputs⟩, hbytes⟩

/-- The honest prover's proof does not depend on its problem and salt but through the commitment. -/
theorem create_eq_forge (problem : ProblemType) (salt : Bytes32) (publicParams : ProblemParameters) :
    WellformednessProof.create ext problem salt publicParams =
      (forge ext (computeCommitment ext problem salt) publicParams, computeCommitment ext problem salt) := rfl

/-- Whatever the hash functions are, a prover that knows only what is public is always accepted, and no other
proof is than its. -/
theorem never_sound : ¬ Sound ext ∧ ∃ prover : PublicProver, ∀ commitment publicParams proof,
    proof.verify ext commitment publicParams = true ↔ proof = prover commitment publicParams := by
  have hforge := fun commitment publicParams proof => verify_iff_eq_forge ext proof commitment publicParams
  refine ⟨fun hsound => hsound ⟨forge ext, fun commitment publicParams => ?_⟩, forge ext, hforge⟩
  exact (hforge commitment publicParams _).mpr rfl

/-! ### A commitment to nothing -/

/-- Thirty-two bytes of seventeen. -/
def madeUpCommitment : Hash := ⟨0x1111111111111111111111111111111111111111111111111111111111111111⟩

def fiveNumbers : ProblemParameters := ⟨"SubsetSum", 5, ⟨0x4024000000000000⟩⟩

def circuitName : Bytes := "coinject-marketplace-wellformedness-circuit-v1".toUTF8.toList

/-- The digest of the name of the circuit, and that of the commitment with the parameters. -/
def forgerExt : Ext :=
  { Ext.ofTables [(circuitName, 0x931e83c1c911b7122bd48de8ae8ba49567852633cf77f6637703c162738577ac)] [] with
    sha256 := fun data => ([("COINJECT_TESTNET_PLACEHOLDER_V1".toUTF8.toList ++ madeUpCommitment.asBytes ++
      encode fiveNumbers, 0xa841626f1b1bd0131e6993e194e155813e342e34bea27c4bb8f988205541f98e)].lookup data).getD 0 }

/-- A commitment is the hash of a digest, and the name of the circuit is longer. -/
theorem computeCommitment_forgerExt (problem : ProblemType) (salt : Bytes32) :
    computeCommitment forgerExt problem salt = ⟨0⟩ := by
  have hname : ∀ n : ℕ, (beBytes 32 n == circuitName) = false := by
    intro n
    refine beq_eq_false_iff_ne.mpr fun heq => ?_
    have hlength := congrArg List.length heq
    rw [beBytes, List.length_reverse, length_leBytes] at hlength
    exact absurd hlength (by decide +kernel)
  simp only [computeCommitment, Hash.new, forgerExt, Ext.ofTables, List.lookup_cons, hname, List.lookup_nil,
    Option.getD_none]

/-- Someone who has no problem gives out the commitment and the parameters, and the proof goes through; no reveal
opens the commitment. -/
theorem forged_proof_accepted :
    (⟨beBytes 32 0xa841626f1b1bd0131e6993e194e155813e342e34bea27c4bb8f988205541f98e,
        ⟨0x931e83c1c911b7122bd48de8ae8ba49567852633cf77f6637703c162738577ac⟩,
        [madeUpCommitment.asBytes, encode fiveNumbers]⟩ : WellformednessProof).verify forgerExt
          madeUpCommitment fiveNumbers = true ∧
      (∀ reveal : ProblemReveal, reveal.verify forgerExt madeUpCommitment = false) ∧ ¬ Sound forgerExt := by
  refine ⟨by decide +kernel, fun reveal => ?_, fun hsound => ?_⟩
  · rw [ProblemReveal.verify, computeCommitment_forgerExt]
    decide +kernel
  · exact hsound ⟨forge forgerExt, fun commitment publicParams =>
      (verify_iff_eq_forge forgerExt _ commitment publicParams).mpr rfl⟩

end Coinjecture.Core.ProofForgery
