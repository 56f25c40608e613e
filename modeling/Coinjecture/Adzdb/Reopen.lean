import Coinjecture.Adzdb.Store
import Coinjecture.Core.Types

/-! # Reopening an ADZDB database

While no entry has the zero hash, the indices in memory are what the records say (`Aligned`), and a
database that is closed and opened again is the same database. An entry with the zero hash is in the
index in memory and is skipped when the records are loaded. -/

namespace Coinjecture.Adzdb.Reopen

open Lib.Bincode Lib.Records
open Adzdb.Store Adzdb.Store.Database

variable {db : Database} {p : Put}

/-! ### What a `put` changes -/

theorem not_isNew_iff : db.isNew p = false ↔
    MAX_REASONABLE_HEIGHT < p.height ∨ (db.hashIndex p.hash).isSome := by
  simp only [isNew, decide_eq_false_iff_not, not_and_or, UInt64.not_le, Bool.not_eq_true,
    Option.isNone_eq_false_iff]

theorem put_of_not_isNew (h : db.isNew p = false) : (db.put p).2 = db := by
  unfold put
  split_ifs with h1 h2
  · rfl
  · rfl
  · rcases not_isNew_iff.mp h with h' | h'
    · exact absurd h' h1
    · exact absurd h' h2

/-- The database after the `put` of a new entry. -/
def added (db : Database) (p : Put) : Database where
  syncOnWrite := db.syncOnWrite
  files := {
    data := db.files.data ++ p.data
    index := db.files.index ++ (newEntry db p).toBytes
    height := db.files.height ++ HeightEntry.toBytes ⟨p.height, p.hash⟩
    metadata := if db.syncOnWrite then overwrite (newMetadata db.metadata p).toBytes db.files.metadata
      else db.files.metadata }
  hashIndex := Function.update db.hashIndex p.hash (some (newEntry db p))
  heightIndex := Function.update db.heightIndex p.height (some p.hash)
  metadata := newMetadata db.metadata p

theorem put_of_isNew (h : db.isNew p = true) : (db.put p).2 = added db p := by
  have hnot : ¬ (MAX_REASONABLE_HEIGHT < p.height ∨ (db.hashIndex p.hash).isSome) := by
    rw [← not_isNew_iff, h]
    decide
  rw [not_or] at hnot
  unfold put
  rw [if_neg hnot.1, if_neg hnot.2]
  rcases hsync : db.syncOnWrite with _ | _
  · simp only [writes, hsync, added]
    rfl
  · simp only [writes, hsync, added]
    rfl

/-- A `put` adds a new entry, or changes nothing. -/
theorem put_cases (db : Database) (p : Put) :
    db.isNew p = false ∧ (db.put p).2 = db ∨ db.isNew p = true ∧ (db.put p).2 = added db p := by
  cases h : db.isNew p with
  | false => exact .inl ⟨rfl, put_of_not_isNew h⟩
  | true => exact .inr ⟨rfl, put_of_isNew h⟩

/-- What holds at the start and is kept by every `put` holds after them. -/
theorem putAll_induction {P : Database → Prop} {ps : List Put} (hdb : P db)
    (hput : ∀ p ∈ ps, ∀ db, P db → P (db.put p).2) : P (db.putAll ps) := by
  induction ps generalizing db with
  | nil => exact hdb
  | cons p ps ih =>
    exact ih (hput p List.mem_cons_self db hdb) fun q hq => hput q (List.mem_cons_of_mem _ hq)

theorem isNew_height_le (h : db.isNew p = true) : p.height ≤ MAX_REASONABLE_HEIGHT := by
  simp only [isNew, decide_eq_true_eq] at h
  exact h.1

theorem newMetadata_magic (m : Metadata) (p : Put) : (newMetadata m p).magic = m.magic := by
  simp only [newMetadata]
  split_ifs <;> rfl

theorem newMetadata_entryCount (m : Metadata) (p : Put) :
    (newMetadata m p).entryCount = m.entryCount + 1 := by
  simp only [newMetadata]
  split_ifs <;> rfl

theorem newMetadata_latestHeight (m : Metadata) (p : Put) :
    (newMetadata m p).latestHeight = if m.latestHeight < p.height then p.height else m.latestHeight := by
  simp only [newMetadata]
  split_ifs <;> rfl

theorem newMetadata_latestHash (m : Metadata) (p : Put) :
    (newMetadata m p).latestHash = if m.latestHeight < p.height then p.hash else m.latestHash := by
  simp only [newMetadata]
  split_ifs <;> rfl

/-! ### Invariants -/

/-- The metadata in memory and on disk can be loaded. -/
structure Loadable (db : Database) : Prop where
  magic : db.metadata.magic = MAGIC
  height : db.metadata.latestHeight ≤ MAX_REASONABLE_HEIGHT
  length : db.files.metadata.length = Metadata.SIZE
  loads : ∃ m, loadMetadata db.files.metadata = .ok m

/-- Metadata that are written are loaded. -/
theorem loadMetadata_toBytes {m : Metadata} (hmagic : m.magic = MAGIC)
    (hheight : m.latestHeight ≤ MAX_REASONABLE_HEIGHT) : loadMetadata m.toBytes = .ok m := by
  have hlength := m.length_toBytes
  rw [loadMetadata, if_neg (by omega), List.take_of_length_le (by omega), Metadata.fromBytes,
    Metadata.parse_toBytes, if_neg (not_not.mpr hmagic), if_neg (UInt64.not_lt.mpr hheight)]

theorem overwrite_metadata {m : Metadata} {file : Bytes} (h : file.length = Metadata.SIZE) :
    overwrite m.toBytes file = m.toBytes :=
  overwrite_of_length_le (by rw [h, Metadata.length_toBytes])

theorem loadable_create (syncOnWrite : Bool) : Loadable (create syncOnWrite) where
  magic := rfl
  height := UInt64.le_iff_toNat_le.mpr (Nat.zero_le _)
  length := Metadata.length_toBytes _
  loads := ⟨_, loadMetadata_toBytes rfl (UInt64.le_iff_toNat_le.mpr (Nat.zero_le _))⟩

theorem Loadable.added (h : Loadable db) (hp : p.height ≤ MAX_REASONABLE_HEIGHT) :
    Loadable (added db p) := by
  have hmagic : (newMetadata db.metadata p).magic = MAGIC :=
    (newMetadata_magic db.metadata p).trans h.magic
  have hheight : (newMetadata db.metadata p).latestHeight ≤ MAX_REASONABLE_HEIGHT := by
    rw [newMetadata_latestHeight]
    split_ifs
    · exact hp
    · exact h.height
  rcases hsync : db.syncOnWrite with _ | _
  · have hfile : (Reopen.added db p).files.metadata = db.files.metadata := by
      simp only [Reopen.added, hsync]
      rfl
    exact ⟨hmagic, hheight, by rw [hfile, h.length], by rw [hfile]; exact h.loads⟩
  · have hfile : (Reopen.added db p).files.metadata = (newMetadata db.metadata p).toBytes := by
      simp only [Reopen.added, hsync]
      exact overwrite_metadata h.length
    refine ⟨hmagic, hheight, by rw [hfile, Metadata.length_toBytes], ?_⟩
    rw [hfile]
    exact ⟨_, loadMetadata_toBytes hmagic hheight⟩

theorem Loadable.put (h : Loadable db) (p : Put) : Loadable (db.put p).2 := by
  rcases put_cases db p with ⟨-, heq⟩ | ⟨hnew, heq⟩
  · rw [heq]
    exact h
  · rw [heq]
    exact h.added (isNew_height_le hnew)

/-- The metadata on disk are those in memory, or still the first ones. -/
def Stored (db : Database) : Prop :=
  db.files.metadata = (if db.syncOnWrite then db.metadata else .initial).toBytes

theorem Stored.put (h : Stored db) (p : Put) : Stored (db.put p).2 := by
  rcases put_cases db p with ⟨-, heq⟩ | ⟨-, heq⟩
  · rw [heq]
    exact h
  rw [heq]
  have hlength : db.files.metadata.length = Metadata.SIZE := by rw [h, Metadata.length_toBytes]
  rcases hsync : db.syncOnWrite with _ | _
  · simp only [Stored, hsync] at h
    simp only [Stored, added, hsync]
    exact h
  · simp only [Stored, added, hsync]
    exact overwrite_metadata hlength

theorem Stored.closed (h : Stored db) (synced : Bool) : (db.closed synced).metadata =
    (if db.syncOnWrite ∨ synced then db.metadata else .initial).toBytes := by
  have hlength : db.files.metadata.length = Metadata.SIZE := by rw [h, Metadata.length_toBytes]
  cases synced with
  | false =>
    simp only [Bool.false_eq_true, or_false]
    exact h
  | true =>
    simp only [Database.closed, or_true, if_true]
    exact overwrite_metadata hlength

theorem get_eq_notFound_iff {hash : Key} :
    db.get hash = .error .notFound ↔ db.hashIndex hash = none := by
  rw [Database.get]
  rcases db.hashIndex hash with _ | e
  · exact iff_of_true rfl rfl
  · dsimp only
    split_ifs
    · exact iff_of_false nofun nofun
    · exact iff_of_false nofun nofun

/-- The files hold these records, and the indices in memory are what the records say. -/
structure Aligned (db : Database) (entries : List IndexEntry) (heights : List HeightEntry) :
    Prop where
  index : db.files.index = writeAll indexLayout entries
  height : db.files.height = writeAll heightLayout heights
  hashIndex : db.hashIndex = entries.foldl loadEntry fun _ => none
  heightIndex : db.heightIndex = heights.foldl loadHeight fun _ => none

theorem aligned_create (syncOnWrite : Bool) : Aligned (create syncOnWrite) [] [] :=
  ⟨rfl, rfl, rfl, rfl⟩

variable {entries : List IndexEntry} {heights : List HeightEntry}

theorem Aligned.added (h : Aligned db entries heights) (hp : p.hash ≠ ZERO_HASH) :
    Aligned (added db p) (entries ++ [newEntry db p]) (heights ++ [⟨p.height, p.hash⟩]) where
  index := by
    rw [writeAll_append, ← h.index]
    rfl
  height := by
    rw [writeAll_append, ← h.height]
    rfl
  hashIndex := by
    rw [List.foldl_append, ← h.hashIndex]
    exact (if_pos hp).symm
  heightIndex := by
    rw [List.foldl_append, ← h.heightIndex]
    exact (if_pos hp).symm

theorem exists_aligned_put (h : ∃ entries heights, Aligned db entries heights)
    (hp : p.height ≤ MAX_REASONABLE_HEIGHT → p.hash ≠ ZERO_HASH) :
    ∃ entries heights, Aligned (db.put p).2 entries heights := by
  rcases put_cases db p with ⟨-, heq⟩ | ⟨hnew, heq⟩
  · rw [heq]
    exact h
  · rw [heq]
    obtain ⟨entries, heights, h⟩ := h
    exact ⟨_, _, h.added (hp (isNew_height_le hnew))⟩

/-- The indices in memory are what is read from the files. -/
structure Readable (db : Database) : Prop where
  hashIndex : loadHashIndex db.files.index = db.hashIndex
  heightIndex : loadHeightIndex db.files.height = db.heightIndex

theorem Aligned.readable (h : Aligned db entries heights) : Readable db where
  hashIndex := by rw [h.hashIndex, loadHashIndex, h.index, readAll_writeAll]
  heightIndex := by rw [h.heightIndex, loadHeightIndex, h.height, readAll_writeAll]

/-- What is opened after closing is the database itself, with the metadata that are on disk. -/
theorem openFiles_closed (h : Readable db) {synced : Bool} {m : Metadata}
    (hload : loadMetadata (db.closed synced).metadata = .ok m) :
    openFiles db.syncOnWrite (db.closed synced) =
      .ok { db with files := db.closed synced, metadata := m } := by
  have hfiles : (db.closed synced).index = db.files.index ∧
      (db.closed synced).height = db.files.height := by
    cases synced <;> exact ⟨rfl, rfl⟩
  have hindex : loadHashIndex (db.closed synced).index = db.hashIndex := by
    rw [hfiles.1, h.hashIndex]
  have hheight : loadHeightIndex (db.closed synced).height = db.heightIndex := by
    rw [hfiles.2, h.heightIndex]
  rw [openFiles, hload, hindex, hheight]
  rfl

theorem get_closed (db : Database) (synced : Bool) (m : Metadata) (hash : Key) :
    ({ db with files := db.closed synced, metadata := m } : Database).get hash = db.get hash := by
  have hdata : (db.closed synced).data = db.files.data := by
    cases synced <;> rfl
  simp only [Database.get, hdata]

theorem getByHeight_closed (db : Database) (synced : Bool) (m : Metadata) (height : UInt64) :
    ({ db with files := db.closed synced, metadata := m } : Database).getByHeight height =
      db.getByHeight height := by
  simp only [getByHeight]
  split
  · rfl
  · exact get_closed db synced m _

/-! ### The view after reopening -/

/-- The two databases give the same answers. -/
structure SameView (db db' : Database) : Prop where
  get : ∀ hash, db'.get hash = db.get hash
  getByHeight : ∀ height, db'.getByHeight height = db.getByHeight height
  latestHash : db'.metadata.latestHash = db.metadata.latestHash
  latestHeight : db'.metadata.latestHeight = db.metadata.latestHeight
  entryCount : db'.metadata.entryCount = db.metadata.entryCount

/-- Closing and reopening the database after the `put`s gives the same answers. -/
def Reopens (syncOnWrite synced : Bool) (ps : List Put) : Prop :=
  ∃ db', openFiles syncOnWrite (((create syncOnWrite).putAll ps).closed synced) = .ok db' ∧
    SameView ((create syncOnWrite).putAll ps) db'

theorem putAll_syncOnWrite (db : Database) (ps : List Put) :
    (db.putAll ps).syncOnWrite = db.syncOnWrite := by
  refine putAll_induction (P := fun db' => db'.syncOnWrite = db.syncOnWrite) rfl ?_
  intro p _ db' h
  rcases put_cases db' p with ⟨-, heq⟩ | ⟨-, heq⟩
  · rw [heq, h]
  · rw [heq]
    exact h

/-- The records of the zero hash are skipped. -/
theorem foldl_loadEntry_zero (entries : List IndexEntry) {index : Key → Option IndexEntry}
    (h : index ZERO_HASH = none) : entries.foldl loadEntry index ZERO_HASH = none := by
  induction entries generalizing index with
  | nil => exact h
  | cons e entries ih =>
    refine ih ?_
    rw [loadEntry]
    split_ifs with hkey
    · rw [Function.update_of_ne (Ne.symm hkey), h]
    · exact h

theorem isSome_put (hash : Key) (h : (db.hashIndex hash).isSome) (p : Put) :
    (((db.put p).2).hashIndex hash).isSome := by
  rcases put_cases db p with ⟨-, heq⟩ | ⟨-, heq⟩
  · rw [heq]
    exact h
  · rw [heq]
    simp only [added, Function.update_apply]
    split_ifs
    · rfl
    · exact h

/-- An entry that is accepted is in the index. -/
theorem isSome_putAll {ps : List Put} (hp : p ∈ ps) (hheight : p.height ≤ MAX_REASONABLE_HEIGHT)
    (db : Database) : ((db.putAll ps).hashIndex p.hash).isSome := by
  induction ps generalizing db with
  | nil => cases hp
  | cons q ps ih =>
    rcases List.mem_cons.mp hp with rfl | hp
    · change (((db.put p).2.putAll ps).hashIndex p.hash).isSome
      refine putAll_induction (P := fun db => (db.hashIndex p.hash).isSome) ?_
        fun q _ db h => isSome_put p.hash h q
      rcases put_cases db p with ⟨hold, heq⟩ | ⟨-, heq⟩
      · rw [heq]
        rcases not_isNew_iff.mp hold with h | h
        · exact absurd hheight (UInt64.not_le.mpr h)
        · exact h
      · rw [heq]
        simp only [added, Function.update_self]
        rfl
    · exact ih hp _

/-! ### The metadata of a sequence -/

/-- The `put`s that add an entry: those of an accepted height whose hash has not been seen. -/
def firstPuts (seen : List Key) : List Put → List Put
  | [] => []
  | p :: ps =>
    if p.height ≤ MAX_REASONABLE_HEIGHT ∧ p.hash ∉ seen then
      p :: firstPuts (p.hash :: seen) ps
    else firstPuts seen ps

theorem putAll_metadata {ps : List Put} {seen : List Key}
    (h : ∀ hash, hash ∈ seen ↔ (db.hashIndex hash).isSome) :
    (db.putAll ps).metadata = (firstPuts seen ps).foldl newMetadata db.metadata := by
  induction ps generalizing db seen with
  | nil => rfl
  | cons p ps ih =>
    change ((db.put p).2.putAll ps).metadata = _
    rw [firstPuts]
    rcases put_cases db p with ⟨hold, heq⟩ | ⟨hnew, heq⟩
    · have hskip : ¬ (p.height ≤ MAX_REASONABLE_HEIGHT ∧ p.hash ∉ seen) := by
        rw [h, not_and_or, UInt64.not_le, not_not]
        exact not_isNew_iff.mp hold
      rw [if_neg hskip, heq, ih h]
    · have hadd : p.height ≤ MAX_REASONABLE_HEIGHT ∧ p.hash ∉ seen := by
        rw [h]
        simpa [isNew] using hnew
      rw [if_pos hadd, heq, List.foldl_cons]
      refine ih fun hash => ?_
      simp only [added, Function.update_apply, List.mem_cons]
      split_ifs with heq
      · simp [heq]
      · simp [heq, h]

theorem foldl_entryCount (ps : List Put) (m : Metadata) :
    (ps.foldl newMetadata m).entryCount = m.entryCount + .ofNat ps.length := by
  induction ps generalizing m with
  | nil => simp
  | cons p ps ih =>
    rw [List.foldl_cons, ih, newMetadata_entryCount, List.length_cons, Nat.add_comm,
      UInt64.ofNat_add, UInt64.add_assoc]
    rfl

theorem foldl_latestHeight_le (ps : List Put) (m : Metadata) :
    m.latestHeight ≤ (ps.foldl newMetadata m).latestHeight ∧
      ∀ p ∈ ps, p.height ≤ (ps.foldl newMetadata m).latestHeight := by
  induction ps generalizing m with
  | nil => exact ⟨UInt64.le_refl _, nofun⟩
  | cons p ps ih =>
    obtain ⟨hm, hps⟩ := ih (newMetadata m p)
    have hnew := newMetadata_latestHeight m p
    have hstep : m.latestHeight ≤ (newMetadata m p).latestHeight ∧
        p.height ≤ (newMetadata m p).latestHeight := by
      rw [hnew]
      split_ifs with hlt
      · exact ⟨UInt64.le_of_lt hlt, UInt64.le_refl _⟩
      · exact ⟨UInt64.le_refl _, UInt64.not_lt.mp hlt⟩
    refine ⟨UInt64.le_trans hstep.1 hm, fun q hq => ?_⟩
    rcases List.mem_cons.mp hq with rfl | hq
    · exact UInt64.le_trans hstep.2 hm
    · exact hps q hq

theorem foldl_latest_of_zero {ps : List Put} (h : ∀ p ∈ ps, p.height = 0) (m : Metadata) :
    (ps.foldl newMetadata m).latestHeight = m.latestHeight ∧
      (ps.foldl newMetadata m).latestHash = m.latestHash := by
  induction ps generalizing m with
  | nil => exact ⟨rfl, rfl⟩
  | cons p ps ih =>
    have hnot : ¬ m.latestHeight < p.height := by
      rw [h p List.mem_cons_self]
      exact UInt64.not_lt_zero
    obtain ⟨hheight, hhash⟩ := ih (fun q hq => h q (List.mem_cons_of_mem _ hq)) (newMetadata m p)
    rw [newMetadata_latestHeight, if_neg hnot] at hheight
    rw [newMetadata_latestHash, if_neg hnot] at hhash
    exact ⟨hheight, hhash⟩

/-- The metadata still look like the first ones. -/
theorem untouched_iff (ps : List Put) :
    ((ps.foldl newMetadata .initial).latestHash = Metadata.initial.latestHash ∧
      (ps.foldl newMetadata .initial).latestHeight = Metadata.initial.latestHeight ∧
      (ps.foldl newMetadata .initial).entryCount = Metadata.initial.entryCount) ↔
    (∀ p ∈ ps, p.height = 0) ∧ 2 ^ 64 ∣ ps.length := by
  have hcount : (ps.foldl newMetadata .initial).entryCount = Metadata.initial.entryCount ↔
      2 ^ 64 ∣ ps.length := by
    rw [foldl_entryCount, ← UInt64.toNat_inj, Nat.dvd_iff_mod_eq_zero]
    simp [Metadata.initial]
  rw [hcount]
  constructor
  · rintro ⟨-, hheight, hdvd⟩
    refine ⟨fun p hp => ?_, hdvd⟩
    have hle := (foldl_latestHeight_le ps .initial).2 p hp
    rw [hheight] at hle
    exact UInt64.le_zero_iff.mp hle
  · rintro ⟨hzero, hdvd⟩
    obtain ⟨hheight, hhash⟩ := foldl_latest_of_zero hzero .initial
    exact ⟨hhash, hheight, hdvd⟩

/-- Reopening preserves the view exactly if no accepted entry has the zero hash, and the metadata are
written or have not changed. -/
theorem reopens_iff (syncOnWrite synced : Bool) (ps : List Put) : Reopens syncOnWrite synced ps ↔
    (∀ p ∈ ps, p.height ≤ MAX_REASONABLE_HEIGHT → p.hash ≠ ZERO_HASH) ∧
      (syncOnWrite ∨ synced ∨
        (∀ p ∈ firstPuts [] ps, p.height = 0) ∧ 2 ^ 64 ∣ (firstPuts [] ps).length) := by
  have hsync := putAll_syncOnWrite (create syncOnWrite) ps
  have hmetadata : ((create syncOnWrite).putAll ps).metadata =
      (firstPuts [] ps).foldl newMetadata .initial :=
    putAll_metadata fun hash => iff_of_false List.not_mem_nil nofun
  have hloadable : Loadable ((create syncOnWrite).putAll ps) :=
    putAll_induction (loadable_create syncOnWrite) fun p _ db h => h.put p
  have hstored : Stored ((create syncOnWrite).putAll ps) :=
    putAll_induction (by cases syncOnWrite <;> rfl) fun p _ db h => h.put p
  obtain ⟨m, hload, hm⟩ : ∃ m,
      loadMetadata (((create syncOnWrite).putAll ps).closed synced).metadata = .ok m ∧
        m = if syncOnWrite ∨ synced then ((create syncOnWrite).putAll ps).metadata
          else Metadata.initial := by
    refine ⟨_, ?_, rfl⟩
    rw [hstored.closed, hsync]
    change loadMetadata (Metadata.toBytes (if syncOnWrite ∨ synced then _ else _)) = _
    split_ifs
    · exact loadMetadata_toBytes hloadable.magic hloadable.height
    · exact loadMetadata_toBytes rfl (UInt64.le_iff_toNat_le.mpr (Nat.zero_le _))
  constructor
  · rintro ⟨db', hopen, hview⟩
    rw [openFiles, hload] at hopen
    obtain rfl := Except.ok.inj hopen
    refine ⟨fun p hp hheight hzero => ?_, ?_⟩
    · have hafter : loadHashIndex (((create syncOnWrite).putAll ps).closed synced).index ZERO_HASH =
          none := foldl_loadEntry_zero _ rfl
      have hbefore := isSome_putAll hp hheight (create syncOnWrite)
      rw [hzero, get_eq_notFound_iff.mp ((hview.get ZERO_HASH).symm.trans
        (get_eq_notFound_iff.mpr hafter))] at hbefore
      cases hbefore
    · by_cases hwritten : syncOnWrite = true ∨ synced = true
      · rcases hwritten with h | h
        · exact .inl h
        · exact .inr (.inl h)
      · rw [if_neg hwritten] at hm
        subst hm
        refine .inr (.inr ((untouched_iff _).mp ?_))
        rw [← hmetadata]
        exact ⟨hview.latestHash.symm, hview.latestHeight.symm, hview.entryCount.symm⟩
  · rintro ⟨hnonzero, hwritten⟩
    obtain ⟨entries, heights, haligned⟩ :
        ∃ entries heights, Aligned ((create syncOnWrite).putAll ps) entries heights :=
      putAll_induction (P := fun db => ∃ entries heights, Aligned db entries heights)
        ⟨[], [], aligned_create syncOnWrite⟩ fun p hp db h => exists_aligned_put h (hnonzero p hp)
    have hopen := openFiles_closed haligned.readable hload
    rw [hsync] at hopen
    refine ⟨_, hopen, ?_⟩
    have hview : m.latestHash = ((create syncOnWrite).putAll ps).metadata.latestHash ∧
        m.latestHeight = ((create syncOnWrite).putAll ps).metadata.latestHeight ∧
        m.entryCount = ((create syncOnWrite).putAll ps).metadata.entryCount := by
      by_cases h : syncOnWrite = true ∨ synced = true
      · rw [hm, if_pos h]
        exact ⟨rfl, rfl, rfl⟩
      · rw [hm, if_neg h, hmetadata]
        rw [← or_assoc] at hwritten
        obtain ⟨hhash, hheight, hcount⟩ := (untouched_iff _).mpr (hwritten.resolve_left h)
        exact ⟨hhash.symm, hheight.symm, hcount.symm⟩
    exact ⟨get_closed _ synced m, getByHeight_closed _ synced m, hview.1, hview.2.1, hview.2.2⟩

/-- An entry of one byte under the zero hash. -/
def zeroPut : Put := ⟨ZERO_HASH, 1, [7]⟩

set_option maxRecDepth 20000 in
/-- It is found before the database is closed and not after it is opened again. -/
theorem zero_hash_is_lost :
    ((create true).putAll [zeroPut]).get ZERO_HASH = .ok [7] ∧
      ((openFiles true (((create true).putAll [zeroPut]).closed true)).toOption.map
        fun db => db.get ZERO_HASH) = some (.error .notFound) ∧
      ¬ ∀ syncOnWrite synced ps, Reopens syncOnWrite synced ps := by
  have hbefore : ((create true).putAll [zeroPut]).get ZERO_HASH = .ok [7] := by decide
  have hafter : ((openFiles true (((create true).putAll [zeroPut]).closed true)).toOption.map
      fun db => db.get ZERO_HASH) = some (.error .notFound) := by decide
  refine ⟨hbefore, hafter, fun h => ?_⟩
  obtain ⟨db', hopen, hview⟩ := h true true [zeroPut]
  rw [hopen] at hafter
  have hget : db'.get ZERO_HASH = .ok [7] := (hview.get ZERO_HASH).trans hbefore
  have hnone : db'.get ZERO_HASH = .error .notFound := Option.some.inj hafter
  rw [hget] at hnone
  cases hnone

end Coinjecture.Adzdb.Reopen
