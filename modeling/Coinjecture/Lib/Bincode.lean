import Mathlib.Data.UInt
import Mathlib.Data.BitVec
import Mathlib.Tactic.Common

/-! # The bincode encoding

Fixed-width little-endian integers, a one-byte tag for `Option`, a 64-bit length before a sequence
or a string, a 32-bit index before the fields of an enum variant. `Encode α` gives the bytes of a
value; the encoding of a record is the concatenation of its fields' encodings. -/

namespace Coinjecture.Lib.Bincode

abbrev Bytes := List UInt8

/-- The low `k` bytes of `n`, least significant first. -/
def leBytes : ℕ → ℕ → Bytes
  | 0, _ => []
  | k + 1, n => UInt8.ofNat (n % 256) :: leBytes k (n / 256)

/-- The low `k` bytes of `n`, most significant first. -/
def beBytes (k n : ℕ) : Bytes := (leBytes k n).reverse

@[simp] theorem length_leBytes (k n : ℕ) : (leBytes k n).length = k := by
  induction k generalizing n with
  | zero => rfl
  | succ k ih => simp [leBytes, ih]

/-- The bytes bincode writes for a value. -/
class Encode (α : Type) where
  encode : α → Bytes

export Encode (encode)

variable {α β : Type} [Encode α] [Encode β]

instance : Encode UInt8 := ⟨fun n => [n]⟩
instance : Encode UInt16 := ⟨fun n => leBytes 2 n.toNat⟩
instance : Encode UInt32 := ⟨fun n => leBytes 4 n.toNat⟩
instance : Encode UInt64 := ⟨fun n => leBytes 8 n.toNat⟩
instance : Encode Int32 := ⟨fun n => leBytes 4 n.toUInt32.toNat⟩
instance : Encode Int64 := ⟨fun n => leBytes 8 n.toUInt64.toNat⟩
instance : Encode (BitVec 128) := ⟨fun n => leBytes 16 n.toNat⟩
instance : Encode Bool := ⟨fun b => [if b then 1 else 0]⟩

instance : Encode (Option α) := ⟨fun
  | none => [0]
  | some a => 1 :: encode a⟩

/-- A sequence: its length, then its elements. -/
instance : Encode (List α) := ⟨fun l => leBytes 8 l.length ++ l.flatMap encode⟩

instance : Encode String := ⟨fun s => encode s.toUTF8.toList⟩

instance : Encode (α × β) := ⟨fun p => encode p.1 ++ encode p.2⟩

/-- The index of an enum variant. -/
def variant (n : ℕ) : Bytes := leBytes 4 n

end Coinjecture.Lib.Bincode
