import Coinjecture.Lib.Bincode

/-! # Encodings that can be split off

An encoding that is a `PrefixCode` can be split off the front of any longer byte string: two strings
that start with encodings and are equal start with the same value and go on alike. Fields of a fixed
width are prefix codes, and so are options, pairs, enum variants and sequences of prefix codes. The
length before a sequence is a 64-bit word, so a value `Fits` if its sequences are no longer than
that, as every sequence in memory is. -/

namespace Coinjecture.Lib.Codes

open Lib.Bincode

class PrefixCode (α : Type) [Encode α] where
  /-- Every sequence in the value has a length of 64 bits. -/
  Fits : α → Prop
  split : ∀ {a b : α} {s t : Bytes}, Fits a → Fits b → encode a ++ s = encode b ++ t → a = b ∧ s = t

export PrefixCode (Fits)

/-! ### Words -/

theorem leBytes_inj {k x y : ℕ} (hx : x < 256 ^ k) (hy : y < 256 ^ k) (h : leBytes k x = leBytes k y) :
    x = y := by
  induction k generalizing x y with
  | zero =>
    rw [pow_zero] at hx hy
    omega
  | succ k ih =>
    rw [leBytes, leBytes, List.cons.injEq] at h
    obtain ⟨hlow, hhigh⟩ := h
    rw [pow_succ] at hx hy
    have hmod := congrArg UInt8.toNat hlow
    rw [UInt8.toNat_ofNat', UInt8.toNat_ofNat'] at hmod
    have hdiv := ih (by omega) (by omega) hhigh
    omega

/-- Strings that start with blocks of one length. -/
theorem append_split {a b s t : Bytes} (hlen : a.length = b.length) (h : a ++ s = b ++ t) :
    a = b ∧ s = t :=
  List.append_inj h hlen

theorem leBytes_split {k x y : ℕ} {s t : Bytes} (hx : x < 256 ^ k) (hy : y < 256 ^ k)
    (h : leBytes k x ++ s = leBytes k y ++ t) : x = y ∧ s = t := by
  obtain ⟨hbytes, hrest⟩ := append_split (by rw [length_leBytes, length_leBytes]) h
  exact ⟨leBytes_inj hx hy hbytes, hrest⟩

theorem beBytes_split {k x y : ℕ} {s t : Bytes} (hx : x < 256 ^ k) (hy : y < 256 ^ k)
    (h : beBytes k x ++ s = beBytes k y ++ t) : x = y ∧ s = t := by
  unfold beBytes at h
  obtain ⟨hbytes, hrest⟩ :=
    append_split (by rw [List.length_reverse, List.length_reverse, length_leBytes, length_leBytes]) h
  exact ⟨leBytes_inj hx hy (List.reverse_injective hbytes), hrest⟩

/-- The index of a variant. -/
theorem variant_split {m n : ℕ} {s t : Bytes} (hm : m < 256 ^ 4) (hn : n < 256 ^ 4)
    (h : variant m ++ s = variant n ++ t) : m = n ∧ s = t :=
  leBytes_split hm hn h

instance : PrefixCode UInt8 where
  Fits _ := True
  split _ _ h := by
    obtain ⟨hhead, hrest⟩ := List.cons.inj h
    exact ⟨hhead, hrest⟩

instance : PrefixCode UInt16 where
  Fits _ := True
  split {a b _ _} _ _ h := by
    obtain ⟨hnat, hrest⟩ := leBytes_split (k := 2) a.toNat_lt b.toNat_lt h
    exact ⟨UInt16.toNat_inj.mp hnat, hrest⟩

instance : PrefixCode UInt64 where
  Fits _ := True
  split {a b _ _} _ _ h := by
    obtain ⟨hnat, hrest⟩ := leBytes_split (k := 8) a.toNat_lt b.toNat_lt h
    exact ⟨UInt64.toNat_inj.mp hnat, hrest⟩

instance : PrefixCode Int32 where
  Fits _ := True
  split {a b _ _} _ _ h := by
    obtain ⟨hnat, hrest⟩ := leBytes_split (k := 4) a.toUInt32.toNat_lt b.toUInt32.toNat_lt h
    refine ⟨?_, hrest⟩
    cases a
    cases b
    exact congrArg Int32.ofUInt32 (UInt32.toNat_inj.mp hnat)

instance : PrefixCode Int64 where
  Fits _ := True
  split {a b _ _} _ _ h := by
    obtain ⟨hnat, hrest⟩ := leBytes_split (k := 8) a.toUInt64.toNat_lt b.toUInt64.toNat_lt h
    refine ⟨?_, hrest⟩
    cases a
    cases b
    exact congrArg Int64.ofUInt64 (UInt64.toNat_inj.mp hnat)

instance : PrefixCode (BitVec 128) where
  Fits _ := True
  split {a b _ _} _ _ h := by
    obtain ⟨hnat, hrest⟩ := leBytes_split (k := 16) a.isLt b.isLt h
    exact ⟨BitVec.eq_of_toNat_eq hnat, hrest⟩

instance : PrefixCode Bool where
  Fits _ := True
  split {a b _ _} _ _ h := by
    obtain ⟨hhead, hrest⟩ := List.cons.inj h
    refine ⟨?_, hrest⟩
    cases a with
    | false =>
      cases b with
      | false => rfl
      | true => cases hhead
    | true =>
      cases b with
      | false => cases hhead
      | true => rfl

/-! ### Containers -/

variable {α β : Type} [Encode α] [PrefixCode α] [Encode β] [PrefixCode β]

instance : PrefixCode (Option α) where
  Fits o := ∀ a ∈ o, Fits a
  split {a b s t} ha hb h := by
    cases a with
    | none =>
      cases b with
      | none => exact ⟨rfl, (List.cons.inj h).2⟩
      | some b => cases (List.cons.inj h).1
    | some a =>
      cases b with
      | none => cases (List.cons.inj h).1
      | some b =>
        obtain ⟨rfl, hrest⟩ := PrefixCode.split (ha a rfl) (hb b rfl) (List.cons.inj h).2
        exact ⟨rfl, hrest⟩

instance : PrefixCode (α × β) where
  Fits p := Fits p.1 ∧ Fits p.2
  split {a b s t} ha hb h := by
    change (encode a.1 ++ encode a.2) ++ s = (encode b.1 ++ encode b.2) ++ t at h
    rw [List.append_assoc, List.append_assoc] at h
    obtain ⟨hfst, h⟩ := PrefixCode.split ha.1 hb.1 h
    obtain ⟨hsnd, h⟩ := PrefixCode.split ha.2 hb.2 h
    exact ⟨Prod.ext hfst hsnd, h⟩

/-- Elements one after the other, for sequences of one length. -/
theorem elements_split {l m : List α} {s t : Bytes} (hlen : l.length = m.length)
    (hl : ∀ a ∈ l, Fits a) (hm : ∀ a ∈ m, Fits a)
    (h : l.flatMap encode ++ s = m.flatMap encode ++ t) : l = m ∧ s = t := by
  induction l generalizing m with
  | nil =>
    obtain rfl := List.length_eq_zero_iff.mp hlen.symm
    exact ⟨rfl, h⟩
  | cons a l ih =>
    cases m with
    | nil => cases hlen
    | cons b m =>
      rw [List.flatMap_cons, List.flatMap_cons, List.append_assoc, List.append_assoc] at h
      obtain ⟨rfl, htail⟩ := PrefixCode.split (hl a List.mem_cons_self) (hm b List.mem_cons_self) h
      obtain ⟨rfl, hrest⟩ := ih (Nat.succ.inj hlen) (fun x hx => hl x (List.mem_cons_of_mem _ hx))
        (fun x hx => hm x (List.mem_cons_of_mem _ hx)) htail
      exact ⟨rfl, hrest⟩

instance : PrefixCode (List α) where
  Fits l := l.length < 2 ^ 64 ∧ ∀ a ∈ l, Fits a
  split {l m s t} hl hm h := by
    change (leBytes 8 l.length ++ l.flatMap encode) ++ s =
      (leBytes 8 m.length ++ m.flatMap encode) ++ t at h
    rw [List.append_assoc, List.append_assoc] at h
    obtain ⟨hlen, h⟩ := leBytes_split (k := 8) hl.1 hm.1 h
    exact elements_split hlen hl.2 hm.2 h

/-! ### Strings -/

theorem toList_loop (bs : ByteArray) (i : ℕ) (r : Bytes) :
    ByteArray.toList.loop bs i r = r.reverse ++ bs.data.toList.drop i := by
  induction h : bs.size - i generalizing i r with
  | zero =>
    rw [ByteArray.toList.loop, if_neg (by omega)]
    have hdrop : bs.data.toList.drop i = [] := by
      rw [List.drop_eq_nil_iff, Array.length_toList]
      exact Nat.le_of_sub_eq_zero h
    rw [hdrop, List.append_nil]
  | succ k ih =>
    have hlt : i < bs.size := by omega
    have hi : i < bs.data.toList.length := by
      rw [Array.length_toList]
      exact hlt
    rw [ByteArray.toList.loop, if_pos hlt, ih (i + 1) (bs.get! i :: r) (by omega),
      List.drop_eq_getElem_cons hi, List.reverse_cons, List.append_assoc]
    have hget : bs.get! i = bs.data.toList[i] := by
      rw [Array.getElem_toList]
      exact getElem!_pos bs.data i hlt
    rw [hget]
    rfl

theorem toList_injective {a b : ByteArray} (h : a.toList = b.toList) : a = b := by
  have hdata : a.data.toList = b.data.toList := by
    have ha := toList_loop a 0 []
    have hb := toList_loop b 0 []
    rw [List.reverse_nil, List.nil_append, List.drop_zero] at ha hb
    rw [← ha, ← hb]
    exact h
  exact ByteArray.ext (Array.toList_inj.mp hdata)

instance : PrefixCode String where
  Fits x := x.toUTF8.toList.length < 2 ^ 64
  split {x y s t} hx hy h := by
    have hbytes : Fits x.toUTF8.toList := ⟨hx, fun _ _ => trivial⟩
    have hbytes' : Fits y.toUTF8.toList := ⟨hy, fun _ _ => trivial⟩
    obtain ⟨hlist, hrest⟩ := PrefixCode.split hbytes hbytes' h
    have hutf8 := toList_injective hlist
    rw [String.toUTF8_eq_toByteArray, String.toUTF8_eq_toByteArray] at hutf8
    exact ⟨String.toByteArray_inj.mp hutf8, hrest⟩

end Coinjecture.Lib.Codes
