import Coinjecture.Lib.Records

/-! # Reading bincode

A reader takes a value off the front of a byte string, or fails where the bytes run out or a tag is no tag. A
type is `LawfulDecode` if a value that was written is read back before any rest (`read_encode`); a record is
read field by field, each by its own law (`bind_of_ok`). The bytes behind a value are not looked at. -/

namespace Coinjecture.Lib.Decoding

open Lib.Bincode Lib.Records

inductive DecodeError where
  | UnexpectedEof
  | InvalidTag (tag : UInt8)
  deriving DecidableEq

/-- A value and the bytes behind it. -/
abbrev Reader (α : Type) := StateT Bytes (Except DecodeError) α

variable {α β : Type}

section Readers

variable {x : Reader α} {f : α → Reader β} {bytes rest : Bytes} {a : α} {e : DecodeError}

theorem bind_of_ok (h : x bytes = .ok (a, rest)) : (x >>= f) bytes = f a rest := by
  change (x bytes >>= fun p => f p.1 p.2) = _
  rw [h]
  rfl

theorem bind_of_error (h : x bytes = .error e) : (x >>= f) bytes = .error e := by
  change (x bytes >>= fun p => f p.1 p.2) = _
  rw [h]
  rfl

/-- So many bytes. -/
def readBytes (k : ℕ) : Reader Bytes := fun bytes =>
  if bytes.length < k then .error .UnexpectedEof else .ok (bytes.take k, bytes.drop k)

theorem readBytes_append {k : ℕ} (h : bytes.length = k) : readBytes k (bytes ++ rest) = .ok (bytes, rest) := by
  unfold readBytes
  rw [if_neg (by rw [List.length_append]; omega), List.take_left' h, List.drop_left' h]

/-- `[u8; k]`, as a word of `w = 8 * k` bits. -/
def readArray (k w : ℕ) : Reader (BitVec w) := do
  let bytes ← readBytes k
  return BitVec.ofNat w (ofBeBytes bytes)

theorem readArray_beBytes {k w : ℕ} (hw : w = 8 * k) (v : BitVec w) :
    readArray k w (beBytes k v.toNat ++ rest) = .ok (v, rest) := by
  rw [readArray, bind_of_ok (readBytes_append (length_beBytes k v.toNat)), ofNat_ofBeBytes_beBytes hw]
  rfl

/-- An integer of so many bytes. -/
def readWord (k : ℕ) : Reader ℕ := do
  let bytes ← readBytes k
  return ofLeBytes bytes

theorem readWord_leBytes {k n : ℕ} (h : n < 256 ^ k) : readWord k (leBytes k n ++ rest) = .ok (n, rest) := by
  rw [readWord, bind_of_ok (readBytes_append (length_leBytes k n)), ofLeBytes_leBytes_of_lt h]
  rfl

theorem readWord_nil {k : ℕ} (h : 0 < k) : readWord k [] = .error .UnexpectedEof :=
  bind_of_error (if_pos h)

end Readers

/-- `Deserialize`. -/
class Decode (α : Type) where
  read : Reader α

export Decode (read)

/-- What was written is read back. -/
class LawfulDecode (α : Type) [Encode α] [Decode α] : Prop where
  read_encode : ∀ (a : α) (rest : Bytes), (read : Reader α) (encode a ++ rest) = .ok (a, rest)

export LawfulDecode (read_encode)

/-- `bincode::deserialize`. -/
def deserialize [Decode α] (bytes : Bytes) : Except DecodeError α := (read bytes).map Prod.fst

theorem deserialize_of_ok [Decode α] {bytes rest : Bytes} {a : α} (h : (read : Reader α) bytes = .ok (a, rest)) :
    deserialize bytes = .ok a := by
  rw [deserialize, h]
  rfl

theorem deserialize_of_error [Decode α] {bytes : Bytes} {e : DecodeError}
    (h : (read : Reader α) bytes = .error e) : deserialize (α := α) bytes = .error e := by
  rw [deserialize, h]
  rfl

instance : Decode UInt8 := ⟨do return .ofNat (← readWord 1)⟩
instance : Decode UInt64 := ⟨do return .ofNat (← readWord 8)⟩
instance : Decode (BitVec 128) := ⟨do return .ofNat 128 (← readWord 16)⟩

instance [Decode α] : Decode (Option α) := ⟨do
  let tag : UInt8 ← read
  if tag = 0 then return none
  else if tag = 1 then return some (← read)
  else throw (.InvalidTag tag)⟩

instance : LawfulDecode UInt8 where
  read_encode a rest := by
    have hbytes : encode a = leBytes 1 a.toNat := by
      have hlt := a.toNat_lt
      rw [leBytes, leBytes, Nat.mod_eq_of_lt hlt, UInt8.ofNat_toNat]
      rfl
    have hword := @readWord_leBytes rest 1 a.toNat a.toNat_lt
    rw [hbytes]
    refine (bind_of_ok hword).trans ?_
    rw [UInt8.ofNat_toNat]
    rfl

instance : LawfulDecode UInt64 where
  read_encode a rest := by
    refine (bind_of_ok (@readWord_leBytes rest 8 a.toNat a.toNat_lt)).trans ?_
    rw [UInt64.ofNat_toNat]
    rfl

instance : LawfulDecode (BitVec 128) where
  read_encode a rest := by
    refine (bind_of_ok (@readWord_leBytes rest 16 a.toNat a.isLt)).trans ?_
    rw [BitVec.ofNat_toNat, BitVec.setWidth_eq]
    rfl

instance [Encode α] [Decode α] [LawfulDecode α] : LawfulDecode (Option α) where
  read_encode o rest := by
    cases o with
    | none => exact bind_of_ok (read_encode (0 : UInt8) rest)
    | some a =>
      refine (bind_of_ok (read_encode (1 : UInt8) (encode a ++ rest))).trans ?_
      exact bind_of_ok (read_encode a rest)

end Coinjecture.Lib.Decoding
