import Coinjecture.Lib.Bincode
import Coinjecture.Lib.Float64
import Mathlib.Data.Fintype.EquivFin
import Mathlib.Data.Fintype.OfMap
import Mathlib.Algebra.Ring.Equiv

/-! # Hashes, addresses, keys and amounts

`Hash`, `Address` and `PublicKey` wrap 32 bytes; the bytes are a `BitVec 256`, most significant byte
first, so that the order of bit vectors is the lexicographic order of the byte arrays. A `Balance` is
a `u128`: its arithmetic wraps, as it does in the release build, which has no overflow checks. -/

namespace Coinjecture.Core.Types

open Lib.Bincode Lib.Float64

/-- `[u8; 32]`, most significant byte first. -/
abbrev Bytes32 := BitVec 256

/-- `u128`. -/
abbrev Balance := BitVec 128

/-- `usize` on the 64-bit targets. -/
abbrev Usize := UInt64

/-- Seconds since the Unix epoch. -/
abbrev Timestamp := Int64

@[ext] structure Hash where
  bytes : Bytes32
  deriving DecidableEq

@[ext] structure Address where
  bytes : Bytes32
  deriving DecidableEq

@[ext] structure PublicKey where
  bytes : Bytes32
  deriving DecidableEq

/-- `[u8; 64]`. -/
structure Ed25519Signature where
  bytes : BitVec 512
  deriving DecidableEq

namespace Hash

def ZERO : Hash := ⟨0⟩

def asBytes (h : Hash) : Bytes := beBytes 32 h.bytes.toNat

def equivFin : Hash ≃ Fin (2 ^ 256) where
  toFun h := h.bytes.toFin
  invFun i := ⟨BitVec.ofFin i⟩
  left_inv _ := rfl
  right_inv _ := rfl

instance : Fintype Hash := Fintype.ofEquiv _ equivFin.symm

end Hash

namespace Address

def asBytes (a : Address) : Bytes := beBytes 32 a.bytes.toNat

/-- `Address::from_pubkey`. -/
def fromPubkey (pubkey : Bytes32) : Address := ⟨pubkey⟩

def equivFin : Address ≃ Fin (2 ^ 256) where
  toFun a := a.bytes.toFin
  invFun i := ⟨BitVec.ofFin i⟩
  left_inv _ := rfl
  right_inv _ := rfl

instance : Fintype Address := Fintype.ofEquiv _ equivFin.symm

end Address

namespace PublicKey

def asBytes (k : PublicKey) : Bytes := beBytes 32 k.bytes.toNat

/-- `PublicKey::to_address`. -/
def toAddress (k : PublicKey) : Address := Address.fromPubkey k.bytes

end PublicKey

instance : Encode Hash := ⟨Hash.asBytes⟩
instance : Encode Address := ⟨Address.asBytes⟩
instance : Encode PublicKey := ⟨PublicKey.asBytes⟩

instance : Encode F64 := ⟨fun x => encode x.bits⟩

/-- The signature is written as a byte slice, with its length. -/
instance : Encode Ed25519Signature := ⟨fun s => leBytes 8 64 ++ beBytes 64 s.bytes.toNat⟩

end Coinjecture.Core.Types
