import Coinjecture.Core.Blocks

/-! # What the code takes from other crates

`Ext` collects the third-party functions the modelled code calls: BLAKE3, SHA-256, Ed25519
verification, the JSON encoder and the platform's `exp`. The model is a function of `Ext`; no property of
these functions is assumed anywhere unless a theorem says so. -/

namespace Coinjecture.Core.Extern

open Lib.Bincode Lib.Float64
open Core.Types Core.Problem Core.Blocks

structure Ext where
  /-- `blake3::hash`. -/
  blake3 : Bytes → Bytes32
  /-- `Sha256::digest`. -/
  sha256 : Bytes → Bytes32
  /-- `VerifyingKey::from_bytes(key)` succeeds and `verify(message, signature)` is ok. -/
  ed25519Verify : PublicKey → Bytes → Ed25519Signature → Bool
  /-- `serde_json::to_vec` on the types whose JSON the code hashes. -/
  headerJson : BlockHeader → Bytes
  problemJson : ProblemType → Bytes
  solutionJson : Solution → Bytes
  /-- `f64::exp`. -/
  exp : F64 → F64

/-- Functions known by tables: what stands in no table is zero, false or empty. -/
def Ext.ofTables (digests : List (Bytes × Bytes32))
    (signed : List (PublicKey × Bytes × Ed25519Signature)) : Ext where
  blake3 data := (digests.lookup data).getD 0
  sha256 _ := 0
  ed25519Verify key message signature := (key, message, signature) ∈ signed
  headerJson _ := []
  problemJson _ := []
  solutionJson _ := []
  exp _ := F64.one

end Coinjecture.Core.Extern
