import Coinjecture.State.Accounts
import Coinjecture.Lib.Records
import Coinjecture.Lib.Table
import Mathlib.Data.List.Permutation

/-! # The files of the ADZDB account store

The store keeps two maps, of balances and of nonces, and writes each to a file of its own: `ADST`, a version,
the number of entries, and the entries in the order in which the map's iterator gives them. A map has its
entries once and fewer than fit in memory.

* `load_fileBytes` : what is written, in whatever order, is read back as the map it was. -/

namespace Coinjecture.State.AccountFiles

open Lib.Bincode Lib.Records Lib.Effect Lib.Table
open Core.Types

/-! ### Maps in memory -/

/-- `HashMap<Address, V>`. -/
structure HashMap (V : Type) where
  entries : List (Address × V)
  nodup : (entries.map Prod.fst).Nodup
  fits : entries.length < 2 ^ 64

namespace HashMap

variable {V : Type}

def empty : HashMap V := ⟨[], List.nodup_nil, Nat.two_pow_pos 64⟩

def get (a : Address) (m : HashMap V) : Option V := m.entries.lookup a

def keys (m : HashMap V) : Finset Address := (m.entries.map Prod.fst).toFinset

/-- The map can be held in memory with these addresses too. -/
def Room (m : HashMap V) (addresses : List Address) : Prop := (m.keys ∪ addresses.toFinset).card < 2 ^ 64

instance (m : HashMap V) (addresses : List Address) : Decidable (m.Room addresses) :=
  inferInstanceAs (Decidable (_ < _))

theorem card_keys (m : HashMap V) : m.keys.card = m.entries.length := by
  rw [keys, List.toFinset_card_of_nodup m.nodup, List.length_map]

/-- The entries after `insert`. -/
def inserted (a : Address) (v : V) (m : HashMap V) : List (Address × V) :=
  (a, v) :: m.entries.filter fun e => e.1 ≠ a

theorem nodup_inserted (a : Address) (v : V) (m : HashMap V) : ((m.inserted a v).map Prod.fst).Nodup := by
  rw [inserted, List.map_cons, List.nodup_cons]
  refine ⟨fun hmem => ?_, m.nodup.sublist (List.filter_sublist.map Prod.fst)⟩
  obtain ⟨e, he, heq⟩ := List.mem_map.mp hmem
  exact absurd heq (of_decide_eq_true (List.mem_filter.mp he).2)

theorem toFinset_inserted (a : Address) (v : V) (m : HashMap V) :
    ((m.inserted a v).map Prod.fst).toFinset = insert a m.keys := by
  ext b
  simp only [inserted, keys, List.map_cons, List.mem_toFinset, List.mem_cons, List.mem_map, List.mem_filter,
    Finset.mem_insert, decide_eq_true_eq]
  constructor
  · rintro (rfl | ⟨e, ⟨he, -⟩, rfl⟩)
    · exact .inl rfl
    · exact .inr ⟨e, he, rfl⟩
  · rintro (rfl | ⟨e, he, rfl⟩)
    · exact .inl rfl
    · by_cases hsame : e.1 = a
      · exact .inl hsame
      · exact .inr ⟨e, ⟨he, hsame⟩, rfl⟩

theorem length_inserted (a : Address) (v : V) (m : HashMap V) :
    (m.inserted a v).length = (insert a m.keys).card := by
  rw [← toFinset_inserted a v m, List.toFinset_card_of_nodup (nodup_inserted a v m), List.length_map]

theorem room_cons {m : HashMap V} {a : Address} {addresses : List Address} :
    m.Room (a :: addresses) ↔ (insert a m.keys ∪ addresses.toFinset).card < 2 ^ 64 := by
  rw [Room, List.toFinset_cons, Finset.union_insert, Finset.insert_union]

/-- `HashMap::insert`. Without memory for the entry the process ends. -/
def insert? (a : Address) (v : V) (m : HashMap V) : Option (HashMap V) :=
  if h : m.Room [a] then
    some ⟨m.inserted a v, nodup_inserted a v m, by
      rw [length_inserted]
      rw [room_cons, List.toFinset_nil, Finset.union_empty] at h
      exact h⟩
  else none

theorem insert?_eq_none {m : HashMap V} {a : Address} {v : V} : m.insert? a v = none ↔ ¬ m.Room [a] := by
  unfold insert?
  split_ifs with h
  · exact iff_of_false nofun (not_not.mpr h)
  · exact iff_of_true rfl h

theorem get_insert? {m n : HashMap V} {a : Address} {v : V} (h : m.insert? a v = some n) (b : Address) :
    n.get b = if b = a then some v else m.get b := by
  unfold insert? at h
  split_ifs at h
  rw [← Option.some.inj h]
  change List.lookup b (m.inserted a v) = _
  rw [inserted, List.lookup_cons]
  split_ifs with hb
  · rw [hb, beq_self_eq_true]
  · rw [beq_eq_false_iff_ne.mpr hb]
    exact lookup_filter_ne hb

theorem keys_insert? {m n : HashMap V} {a : Address} {v : V} (h : m.insert? a v = some n) :
    n.keys = insert a m.keys := by
  unfold insert? at h
  split_ifs at h
  rw [← Option.some.inj h]
  exact toFinset_inserted a v m

theorem room_insert? {m n : HashMap V} {a : Address} {v : V} (h : m.insert? a v = some n)
    (addresses : List Address) : n.Room addresses ↔ m.Room (a :: addresses) := by
  rw [Room, keys_insert? h, room_cons]

theorem Room.mono {m : HashMap V} {addresses others : List Address} (h : m.Room addresses)
    (hsub : others ⊆ addresses) : m.Room others := by
  refine (Finset.card_le_card (Finset.union_subset_union_right fun b hb => ?_)).trans_lt h
  rw [List.mem_toFinset] at hb ⊢
  exact hsub hb

/-- One insertion after the other. -/
def insertAll? : List (Address × V) → HashMap V → Option (HashMap V)
  | [], m => some m
  | (a, v) :: changes, m => (m.insert? a v).bind (insertAll? changes)

/-- What the address has after insertions in this order. -/
def written (changes : List (Address × V)) (a : Address) (before : Option V) : Option V :=
  (changes.reverse.lookup a).or before

theorem written_cons (a b : Address) (v : V) (changes : List (Address × V)) (before : Option V) :
    written ((a, v) :: changes) b before = written changes b (if b = a then some v else before) := by
  rw [written, written, List.reverse_cons, List.lookup_append, Option.or_assoc, List.lookup_cons, List.lookup_nil]
  split_ifs with hb
  · rw [hb, beq_self_eq_true]
    rfl
  · rw [beq_eq_false_iff_ne.mpr hb]
    rfl

theorem insertAll?_eq_some {changes : List (Address × V)} {m : HashMap V}
    (hroom : m.Room (changes.map Prod.fst)) :
    ∃ n, m.insertAll? changes = some n ∧ ∀ b, n.get b = written changes b (m.get b) := by
  induction changes generalizing m with
  | nil => exact ⟨m, rfl, fun b => rfl⟩
  | cons change changes ih =>
    obtain ⟨a, v⟩ := change
    cases hinsert : m.insert? a v with
    | none => exact absurd (hroom.mono (by simp)) (insert?_eq_none.mp hinsert)
    | some n =>
      obtain ⟨o, hall, hget⟩ := ih ((room_insert? hinsert _).mpr hroom)
      refine ⟨o, by rw [insertAll?, hinsert, Option.bind_some, hall], fun b => ?_⟩
      rw [hget, get_insert? hinsert, written_cons]

theorem insertAll?_eq_none {changes : List (Address × V)} {m : HashMap V}
    (hfull : ¬ m.Room (changes.map Prod.fst)) : m.insertAll? changes = none := by
  induction changes generalizing m with
  | nil =>
    refine absurd ?_ hfull
    rw [Room, List.map_nil, List.toFinset_nil, Finset.union_empty, card_keys]
    exact m.fits
  | cons change changes ih =>
    obtain ⟨a, v⟩ := change
    cases hinsert : m.insert? a v with
    | none => rw [insertAll?, hinsert, Option.bind_none]
    | some n =>
      rw [insertAll?, hinsert, Option.bind_some]
      exact ih fun hroom => hfull ((room_insert? hinsert _).mp hroom)

/-- The entries as an iterator gives them. Any order is one of these. -/
def iter (order : ℕ) (m : HashMap V) : List (Address × V) := m.entries.permutations.getD order m.entries

theorem iter_perm (order : ℕ) (m : HashMap V) : (m.iter order).Perm m.entries := by
  unfold iter
  rw [List.getD_eq_getElem?_getD]
  cases h : m.entries.permutations[order]? with
  | none => exact List.Perm.refl _
  | some l => exact List.mem_permutations.mp (List.mem_of_getElem? h)

theorem exists_iter {m : HashMap V} {l : List (Address × V)} (h : l.Perm m.entries) : ∃ order, m.iter order = l := by
  obtain ⟨order, horder⟩ := List.mem_iff_getElem?.mp (List.mem_permutations.mpr h)
  exact ⟨order, by rw [iter, List.getD_eq_getElem?_getD, horder, Option.getD_some]⟩

end HashMap

/-! ### Files -/

/-- `StateError`. -/
inductive StateError where
  | InsufficientBalance (address : Address) (balance required : Balance)
  | IoError (message : String)
  | CorruptionError (message : String)
  deriving DecidableEq

/-- How a call ends that does not return `Ok`: with an error, or with the process. -/
inductive Ending where
  | Err (e : StateError)
  | Crash
  deriving DecidableEq

/-- `b"ADST"`. -/
def STATE_MAGIC : Bytes := [0x41, 0x44, 0x53, 0x54]

def STATE_VERSION : UInt32 := 1

/-- What the two files differ in: their values, and the words for these in the errors. -/
structure StateFile (V : Type) where
  plural : String
  singular : String
  size : ℕ
  toBytes : V → Bytes
  fromBytes : Bytes → V
  length_toBytes : ∀ v, (toBytes v).length = size
  fromBytes_toBytes : ∀ v, fromBytes (toBytes v) = v

def balancesFile : StateFile Balance where
  plural := "balances"
  singular := "balance"
  size := 16
  toBytes v := leBytes 16 v.toNat
  fromBytes bytes := .ofNat 128 (ofLeBytes bytes)
  length_toBytes _ := length_leBytes ..
  fromBytes_toBytes v := by rw [ofLeBytes_leBytes_of_lt v.isLt, BitVec.ofNat_toNat, BitVec.setWidth_eq]

def noncesFile : StateFile UInt64 where
  plural := "nonces"
  singular := "nonce"
  size := 8
  toBytes v := leBytes 8 v.toNat
  fromBytes bytes := .ofNat (ofLeBytes bytes)
  length_toBytes _ := length_leBytes ..
  fromBytes_toBytes v := by rw [ofLeBytes_leBytes_of_lt v.toNat_lt, UInt64.ofNat_toNat]

/-- `Address::from_bytes`, of bytes read. -/
def addressOf (bytes : Bytes) : Address := ⟨.ofNat 256 (ofBeBytes bytes)⟩

/-- `read_exact`. -/
def readExact (what : String) (k : ℕ) : Exec Ending Bytes Bytes := do
  let bytes ← gets fun rest => rest.take k
  throwIf (bytes.length < k) (.Err (.IoError ("Failed to read " ++ what ++ ": failed to fill whole buffer")))
  modify fun rest => rest.drop k
  return bytes

section

variable {V : Type} (file : StateFile V)

def readEntries : ℕ → HashMap V → Exec Ending Bytes (HashMap V)
  | 0, m => pure m
  | count + 1, m => do
    let address ← readExact "address" 32
    let value ← readExact file.singular file.size
    let m ← okOr .Crash (m.insert? (addressOf address) (file.fromBytes value))
    readEntries count m

/-- `load_balances` and `load_nonces`, of a file that can be opened. The version is not looked at. -/
def load : Exec Ending Bytes (HashMap V) := do
  let magic ← readExact "magic bytes" 4
  throwIf (magic ≠ STATE_MAGIC) (.Err (.CorruptionError ("Invalid magic bytes in " ++ file.plural ++ " file")))
  let _version ← readExact "version" 4
  let count ← readExact "entry count" 8
  readEntries file (ofLeBytes count) HashMap.empty

def entryBytes (entry : Address × V) : Bytes := entry.1.asBytes ++ file.toBytes entry.2

/-- What `save_balances` and `save_nonces` write. -/
def fileBytes (order : ℕ) (m : HashMap V) : Bytes :=
  STATE_MAGIC ++ (leBytes 4 STATE_VERSION.toNat ++ (leBytes 8 m.entries.length ++
    (m.iter order).flatMap (entryBytes file)))

/-! ### What is written is read -/

theorem addressOf_asBytes (a : Address) : addressOf a.asBytes = a := by
  rw [addressOf, Address.asBytes, ofNat_ofBeBytes_beBytes (by norm_num)]

theorem run_readExact (what : String) {k : ℕ} {front rest : Bytes} (h : front.length = k) :
    run (readExact what k) (front ++ rest) = (.ok front, rest) := by
  simp only [readExact, run_gets_bind, run_throwIf_bind, run_modify_bind, run_pure]
  rw [List.take_left' h, List.drop_left' h, if_neg (by rw [h]; exact lt_irrefl k)]

theorem run_readEntries (entries : List (Address × V)) {m n : HashMap V} (h : m.insertAll? entries = some n)
    (rest : Bytes) :
    run (readEntries file entries.length m) (entries.flatMap (entryBytes file) ++ rest) = (.ok n, rest) := by
  induction entries generalizing m with
  | nil =>
    rw [← Option.some.inj h]
    rfl
  | cons entry entries ih =>
    obtain ⟨a, v⟩ := entry
    obtain ⟨o, hinsert, hall⟩ := Option.bind_eq_some_iff.mp h
    rw [List.flatMap_cons, entryBytes, List.append_assoc, List.append_assoc, List.length_cons, readEntries,
      run_bind_ok (run_readExact "address" (by rw [Address.asBytes, length_beBytes])),
      run_bind_ok (run_readExact file.singular (file.length_toBytes v)), addressOf_asBytes,
      file.fromBytes_toBytes, hinsert, run_okOr_some_bind]
    exact ih hall

/-- In whatever order the entries are written, the map that is read has the same values. -/
theorem load_fileBytes (order : ℕ) (m : HashMap V) :
    ∃ n, (run (load file) (fileBytes file order m)).1 = .ok n ∧ ∀ a, n.get a = m.get a := by
  have hperm := m.iter_perm order
  have hroom : (HashMap.empty : HashMap V).Room ((m.iter order).map Prod.fst) := by
    rw [HashMap.Room, HashMap.keys, HashMap.empty, List.map_nil, List.toFinset_nil, Finset.empty_union,
      List.toFinset_eq_of_perm _ _ (hperm.map Prod.fst), ← HashMap.keys, HashMap.card_keys]
    exact m.fits
  obtain ⟨n, hall, hget⟩ := HashMap.insertAll?_eq_some hroom
  refine ⟨n, ?_, fun a => ?_⟩
  · have hcount : ofLeBytes (leBytes 8 m.entries.length) = (m.iter order).length := by
      rw [ofLeBytes_leBytes_of_lt (m.fits.trans_eq (by norm_num)), hperm.length_eq]
    have hentries := run_readEntries file (m.iter order) hall []
    rw [List.append_nil] at hentries
    rw [load, fileBytes, run_bind_ok (run_readExact "magic bytes" (show STATE_MAGIC.length = 4 from rfl)), run_throwIf_bind,
      if_neg (not_not.mpr rfl), run_bind_ok (run_readExact "version" (length_leBytes ..)),
      run_bind_ok (run_readExact "entry count" (length_leBytes ..)), hcount, hentries]
  · rw [hget, HashMap.written]
    change (List.lookup a (m.iter order).reverse).or none = _
    rw [Option.or_none]
    exact lookup_perm ((m.iter order).reverse_perm.trans hperm) m.nodup a

end

end Coinjecture.State.AccountFiles
