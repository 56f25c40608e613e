import Coinjecture.Lib.Bincode

/-! # Files of fixed-size records

`ofLeBytes` and `ofBeBytes` read the integers that `leBytes` and `beBytes` write. A `Layout` is a type
with records of one size; `readAll` reads a file record by record and stops where less than a record is
left, so what follows the last whole record is not seen (`readAll_append`). `overwrite` is a write at
the start of a file; when only its first bytes reach the file, each field is `torn`. -/

namespace Coinjecture.Lib.Records

open Lib.Bincode

/-! ### Torn writes -/

/-- The first `t` bytes of `bytes` over those of `file`. -/
def torn (t : ℕ) (bytes file : Bytes) : Bytes := bytes.take t ++ file.drop t

theorem torn_self (t : ℕ) (bytes : Bytes) : torn t bytes bytes = bytes := List.take_append_drop t bytes

theorem length_torn {t : ℕ} {bytes file : Bytes} (h : bytes.length = file.length) :
    (torn t bytes file).length = file.length := by
  rw [torn, List.length_append, List.length_take, List.length_drop]
  omega

theorem getElem?_torn {t : ℕ} {bytes file : Bytes} (h : bytes.length = file.length) (i : ℕ) :
    (torn t bytes file)[i]? = if i < t then bytes[i]? else file[i]? := by
  rw [torn, List.getElem?_append, List.length_take, List.getElem?_drop]
  by_cases hi : i < t
  · rw [if_pos hi]
    by_cases hlength : i < bytes.length
    · rw [if_pos (by omega), List.getElem?_take_of_lt hi]
    · rw [if_neg (by omega), List.getElem?_eq_none (by omega), List.getElem?_eq_none (by omega)]
  · rw [if_neg (by omega), if_neg hi]
    by_cases ht : t ≤ bytes.length
    · rw [min_eq_left ht]
      congr 1
      omega
    · rw [List.getElem?_eq_none (by omega), List.getElem?_eq_none (by omega)]

/-- A field of a torn file is torn. -/
theorem slice_torn {t : ℕ} {bytes file : Bytes} (h : bytes.length = file.length) (i k : ℕ) :
    ((torn t bytes file).drop i).take k =
      torn (t - i) ((bytes.drop i).take k) ((file.drop i).take k) := by
  have hslice : ((bytes.drop i).take k).length = ((file.drop i).take k).length := by
    rw [List.length_take, List.length_drop, List.length_take, List.length_drop, h]
  refine List.ext_getElem? fun j => ?_
  rw [getElem?_torn hslice, List.getElem?_take, List.getElem?_take, List.getElem?_take,
    List.getElem?_drop, List.getElem?_drop, List.getElem?_drop, getElem?_torn h]
  split_ifs <;> first | rfl | omega

/-! ### Reading integers -/

def ofLeBytes : Bytes → ℕ
  | [] => 0
  | b :: bs => b.toNat + 256 * ofLeBytes bs

def ofBeBytes (bs : Bytes) : ℕ := ofLeBytes bs.reverse

theorem ofLeBytes_leBytes (k n : ℕ) : ofLeBytes (leBytes k n) = n % 256 ^ k := by
  induction k generalizing n with
  | zero => simp [leBytes, ofLeBytes, Nat.mod_one]
  | succ k ih =>
    have hbyte : (UInt8.ofNat (n % 256)).toNat = n % 256 := by
      rw [UInt8.toNat_ofNat']
      omega
    rw [leBytes, ofLeBytes, ih, hbyte, Nat.pow_succ', Nat.mod_mul]

theorem ofLeBytes_leBytes_of_lt {k n : ℕ} (h : n < 256 ^ k) : ofLeBytes (leBytes k n) = n := by
  rw [ofLeBytes_leBytes, Nat.mod_eq_of_lt h]

@[simp] theorem length_beBytes (k n : ℕ) : (beBytes k n).length = k := by simp [beBytes]

theorem ofBeBytes_beBytes_of_lt {k n : ℕ} (h : n < 256 ^ k) : ofBeBytes (beBytes k n) = n := by
  rw [ofBeBytes, beBytes, List.reverse_reverse, ofLeBytes_leBytes_of_lt h]

/-- Bytes are written as they were read. -/
theorem leBytes_ofLeBytes {k : ℕ} {bs : Bytes} (h : bs.length = k) : leBytes k (ofLeBytes bs) = bs := by
  induction bs generalizing k with
  | nil =>
    subst h
    rfl
  | cons b bs ih =>
    subst h
    have hlt := b.toNat_lt
    have hlow : (b.toNat + 256 * ofLeBytes bs) % 256 = b.toNat := by omega
    have hhigh : (b.toNat + 256 * ofLeBytes bs) / 256 = ofLeBytes bs := by omega
    rw [List.length_cons, ofLeBytes, leBytes, hlow, hhigh, ih rfl, UInt8.ofNat_toNat]

theorem beBytes_ofBeBytes {k : ℕ} {bs : Bytes} (h : bs.length = k) : beBytes k (ofBeBytes bs) = bs := by
  rw [beBytes, ofBeBytes, leBytes_ofLeBytes (by rw [List.length_reverse, h]), List.reverse_reverse]

/-- A bit vector is read as it was written. -/
theorem ofNat_ofBeBytes_beBytes {k w : ℕ} (hw : w = 8 * k) (x : BitVec w) :
    BitVec.ofNat w (ofBeBytes (beBytes k x.toNat)) = x := by
  have hlt : x.toNat < 256 ^ k := by
    have hpow : (256 : ℕ) ^ k = 2 ^ w := by rw [hw, Nat.pow_mul]
    rw [hpow]
    exact x.isLt
  rw [ofBeBytes_beBytes_of_lt hlt, BitVec.ofNat_toNat, BitVec.setWidth_eq]

/-- The first bytes of one integer followed by the last bytes of another. -/
theorem ofLeBytes_take_append_drop (t k m n : ℕ) (h : t ≤ k) :
    ofLeBytes ((leBytes k m).take t ++ (leBytes k n).drop t) =
      m % 256 ^ t + 256 ^ t * (n / 256 ^ t % 256 ^ (k - t)) := by
  induction t generalizing k m n with
  | zero => simp [ofLeBytes_leBytes, Nat.mod_one]
  | succ t ih =>
    obtain ⟨k, rfl⟩ : ∃ j, k = j + 1 := ⟨k - 1, by omega⟩
    have hbyte : (UInt8.ofNat (m % 256)).toNat = m % 256 := by
      rw [UInt8.toNat_ofNat']
      omega
    rw [leBytes, leBytes, List.take_succ_cons, List.drop_succ_cons, List.cons_append, ofLeBytes,
      ih k (m / 256) (n / 256) (by omega), hbyte, Nat.pow_succ', Nat.mod_mul, Nat.div_div_eq_div_mul,
      Nat.add_sub_add_right, Nat.mul_add, Nat.mul_assoc, Nat.add_assoc]

/-- An integer that is overwritten by a larger one in part is at most the larger one. -/
theorem ofLeBytes_torn_le {t k m n : ℕ} (hle : n ≤ m) :
    ofLeBytes (torn t (leBytes k m) (leBytes k n)) ≤ m := by
  rw [torn]
  by_cases h : t ≤ k
  · rw [ofLeBytes_take_append_drop t k m n h]
    have hhigh : n / 256 ^ t % 256 ^ (k - t) ≤ m / 256 ^ t :=
      (Nat.mod_le _ _).trans (Nat.div_le_div_right hle)
    have hmul := Nat.mul_le_mul_left (256 ^ t) hhigh
    have hdiv := Nat.mod_add_div m (256 ^ t)
    omega
  · have htake : (leBytes k m).take t = leBytes k m :=
      List.take_of_length_le (by rw [length_leBytes]; omega)
    have hdrop : (leBytes k n).drop t = [] := List.drop_of_length_le (by rw [length_leBytes]; omega)
    rw [htake, hdrop, List.append_nil, ofLeBytes_leBytes]
    exact Nat.mod_le _ _

/-! ### Records -/

/-- Records of one size, which are read back as they were written. -/
structure Layout (α : Type) where
  size : ℕ
  toBytes : α → Bytes
  fromBytes : Bytes → α
  size_pos : 0 < size
  length_toBytes : ∀ a, (toBytes a).length = size
  fromBytes_toBytes : ∀ a, fromBytes (toBytes a) = a

variable {α : Type} (layout : Layout α)

/-- Read whole records, at most `fuel` of them. -/
def readRecords : ℕ → Bytes → List α
  | 0, _ => []
  | fuel + 1, bytes =>
    if layout.size ≤ bytes.length then
      layout.fromBytes (bytes.take layout.size) :: readRecords fuel (bytes.drop layout.size)
    else []

/-- `read_exact` in a loop until the end of the file. -/
def readAll (bytes : Bytes) : List α := readRecords layout bytes.length bytes

/-- The bytes of records one after the other. -/
def writeAll (records : List α) : Bytes := records.flatMap layout.toBytes

theorem writeAll_append (records : List α) (a : α) :
    writeAll layout (records ++ [a]) = writeAll layout records ++ layout.toBytes a := by
  simp [writeAll]

theorem length_writeAll (records : List α) :
    (writeAll layout records).length = records.length * layout.size := by
  induction records with
  | nil => simp [writeAll]
  | cons a records ih =>
    rw [writeAll, List.flatMap_cons, List.length_append, layout.length_toBytes, List.length_cons]
    rw [writeAll] at ih
    rw [ih, Nat.succ_mul, Nat.add_comm]

/-- Whole records are read back; a rest that is no whole record is not seen. -/
theorem readAll_append (records : List α) {rest : Bytes} (h : rest.length < layout.size) :
    readAll layout (writeAll layout records ++ rest) = records := by
  suffices ∀ fuel, records.length ≤ fuel →
      readRecords layout fuel (writeAll layout records ++ rest) = records by
    refine this _ ?_
    rw [List.length_append, length_writeAll]
    have hpos := Nat.le_mul_of_pos_right records.length layout.size_pos
    omega
  intro fuel hfuel
  induction records generalizing fuel with
  | nil =>
    cases fuel with
    | zero => rfl
    | succ fuel =>
      rw [readRecords, if_neg]
      simpa [writeAll] using h
  | cons a records ih =>
    cases fuel with
    | zero => simp at hfuel
    | succ fuel =>
      have hcons : writeAll layout (a :: records) ++ rest =
          layout.toBytes a ++ (writeAll layout records ++ rest) := by
        simp [writeAll]
      have hlength := layout.length_toBytes a
      rw [hcons, readRecords, if_pos (by rw [List.length_append, hlength]; omega),
        List.take_append_of_le_length (by omega), List.take_of_length_le (by omega),
        List.drop_append_of_le_length (by omega), List.drop_of_length_le (by omega), List.nil_append,
        layout.fromBytes_toBytes, ih fuel (by simpa using hfuel)]

theorem readAll_writeAll (records : List α) : readAll layout (writeAll layout records) = records := by
  have h : readAll layout (writeAll layout records ++ []) = records :=
    readAll_append layout records layout.size_pos
  rwa [List.append_nil] at h

/-- What is read when a record was written in part. -/
theorem readAll_torn (records : List α) (a : α) (t : ℕ) :
    readAll layout (writeAll layout records ++ (layout.toBytes a).take t) =
      if layout.size ≤ t then records ++ [a] else records := by
  have hlength := layout.length_toBytes a
  split_ifs with h
  · rw [List.take_of_length_le (by omega), ← writeAll_append, readAll_writeAll]
  · exact readAll_append layout records (by rw [List.length_take]; omega)

/-- A record that is written whole or not at all. -/
theorem writeAll_whole (records : List α) (a : α) {t : ℕ} (h : ¬ (0 < t ∧ t < layout.size)) :
    writeAll layout records ++ (layout.toBytes a).take t =
      writeAll layout (if layout.size ≤ t then records ++ [a] else records) := by
  have hlength := layout.length_toBytes a
  split_ifs with hsize
  · rw [List.take_of_length_le (by omega), writeAll_append]
  · have ht : t = 0 := by omega
    rw [ht, List.take_zero, List.append_nil]

/-! ### Overwriting -/

/-- Bytes written at the start of a file. -/
def overwrite (bytes file : Bytes) : Bytes := bytes ++ file.drop bytes.length

theorem overwrite_of_length_le {bytes file : Bytes} (h : file.length ≤ bytes.length) :
    overwrite bytes file = bytes := by
  rw [overwrite, List.drop_of_length_le h, List.append_nil]

theorem overwrite_take {t : ℕ} {bytes file : Bytes} (h : bytes.length = file.length) :
    overwrite (bytes.take t) file = torn t bytes file := by
  rw [overwrite, torn, List.length_take]
  by_cases ht : t ≤ bytes.length
  · rw [min_eq_left ht]
  · rw [List.drop_of_length_le (by omega), List.drop_of_length_le (by omega)]

end Coinjecture.Lib.Records
