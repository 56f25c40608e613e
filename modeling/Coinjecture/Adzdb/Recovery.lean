import Coinjecture.Adzdb.Reopen

/-! # Recovery of an ADZDB database after a crash

A crash leaves the first bytes of what a `put` writes. The metadata can be loaded whatever byte was
the last one, and the records that are written whole are kept. A torn index or height record is skipped
when the files are opened, but stays in its file: the next record is appended behind it, and from there
on nothing is read back as it was written. -/

namespace Coinjecture.Adzdb.Recovery

open Lib.Bincode Lib.Records
open Adzdb.Store Adzdb.Store.Database Adzdb.Reopen

variable {db : Database} {p : Put} {n : ℕ}

/-! ### Crashes -/

/-- The first bytes of a write. -/
def cut (n : ℕ) : Write → Write
  | .data bytes => .data (bytes.take n)
  | .index bytes => .index (bytes.take n)
  | .height bytes => .height (bytes.take n)
  | .metadata bytes => .metadata (bytes.take n)

/-- The first bytes of writes one after the other. -/
def cutWrites : ℕ → List Write → List Write
  | _, [] => []
  | n, w :: ws => cut n w :: cutWrites (n - w.bytes.length) ws

/-- The files after a crash at byte `n` of what the `put` writes. -/
def crash (db : Database) (p : Put) (n : ℕ) : Files :=
  if db.isNew p then (cutWrites n (writes db p)).foldl Write.perform db.files else db.files

/-- The bytes of the records that are written. -/
def recordBytes (p : Put) (n : ℕ) : ℕ := n - p.data.length

theorem crash_of_not_isNew (h : db.isNew p = false) : crash db p n = db.files := by
  rw [crash, h]
  rfl

theorem crash_of_isNew (h : db.isNew p = true) : crash db p n = {
    data := db.files.data ++ p.data.take n
    index := db.files.index ++ (newEntry db p).toBytes.take (recordBytes p n)
    height := db.files.height ++
      (HeightEntry.toBytes ⟨p.height, p.hash⟩).take (recordBytes p n - 56)
    metadata := if db.syncOnWrite then
        overwrite ((newMetadata db.metadata p).toBytes.take (recordBytes p n - 56 - 40))
          db.files.metadata
      else db.files.metadata } := by
  have hindex : (newEntry db p).toBytes.length = 56 := indexLayout.length_toBytes _
  have hheight : (HeightEntry.toBytes ⟨p.height, p.hash⟩).length = 40 :=
    heightLayout.length_toBytes _
  rw [crash, if_pos h, recordBytes]
  rcases hsync : db.syncOnWrite with _ | _
  · simp [writes, hsync, cutWrites, cut, Write.bytes, Write.perform, hindex]
  · simp [writes, hsync, cutWrites, cut, Write.bytes, Write.perform, hindex, hheight]

/-- The data of earlier entries stay where they are. -/
theorem data_prefix_crash (db : Database) (p : Put) (n : ℕ) :
    db.files.data <+: (crash db p n).data := by
  cases h : db.isNew p with
  | false =>
    rw [crash_of_not_isNew h]
  | true =>
    rw [crash_of_isNew h]
    exact List.prefix_append _ _

/-! ### The metadata -/

theorem fromBytes_ok {bytes : Bytes} (hmagic : (Metadata.parse bytes).magic = MAGIC)
    (hheight : (Metadata.parse bytes).latestHeight ≤ MAX_REASONABLE_HEIGHT) :
    Metadata.fromBytes bytes = .ok (Metadata.parse bytes) := by
  rw [Metadata.fromBytes, if_neg (not_not.mpr hmagic), if_neg (UInt64.not_lt.mpr hheight)]

/-- What is loaded has passed the checks. -/
theorem loadMetadata_sound {file : Bytes} {m : Metadata} (h : loadMetadata file = .ok m) :
    m.magic = MAGIC ∧ m.latestHeight ≤ MAX_REASONABLE_HEIGHT := by
  rw [loadMetadata] at h
  split_ifs at h with hlength
  rw [Metadata.fromBytes] at h
  split_ifs at h with hmagic hheight
  cases h
  exact ⟨not_not.mp hmagic, UInt64.not_lt.mp hheight⟩

theorem slice_magic (m : Metadata) : (m.toBytes.drop 0).take 4 = beBytes 4 m.magic.toNat :=
  take_field (length_beBytes 4 _)

theorem slice_latestHeight (m : Metadata) :
    (m.toBytes.drop 24).take 8 = leBytes 8 m.latestHeight.toNat := by
  have hmagic := length_beBytes 4 m.magic.toNat
  have hversion := length_leBytes 4 m.version.toNat
  have hcount := length_leBytes 8 m.entryCount.toNat
  have hdata := length_leBytes 8 m.dataSize.toNat
  have hheight := length_leBytes 8 m.latestHeight.toNat
  rw [Metadata.toBytes, show 24 = 4 + (4 + (8 + 8)) from rfl, drop_field hmagic,
    drop_field hversion, drop_field hcount, drop_last_field hdata, take_field hheight]

/-- Metadata that are overwritten in part are loaded: the magic is in both, and the height in between is
at most the new one. -/
theorem loadMetadata_torn {m m' : Metadata} (t : ℕ) (hmagic : m'.magic = m.magic)
    (hmagic' : m'.magic = MAGIC) (hheight : m.latestHeight ≤ m'.latestHeight)
    (hheight' : m'.latestHeight ≤ MAX_REASONABLE_HEIGHT) :
    ∃ m₁, loadMetadata (torn t m'.toBytes m.toBytes) = .ok m₁ := by
  have hlength : m'.toBytes.length = m.toBytes.length := by
    rw [Metadata.length_toBytes, Metadata.length_toBytes]
  have htorn : (torn t m'.toBytes m.toBytes).length = Metadata.SIZE := by
    rw [length_torn hlength, Metadata.length_toBytes]
  have hm : (Metadata.parse (torn t m'.toBytes m.toBytes)).magic = MAGIC := by
    have hslice := slice_torn (t := t) hlength 0 4
    rw [slice_magic, slice_magic, hmagic, torn_self, List.drop_zero] at hslice
    simp only [Metadata.parse, hslice]
    rw [ofBeBytes_beBytes_of_lt m.magic.isLt, BitVec.ofNat_toNat, BitVec.setWidth_eq, ← hmagic,
      hmagic']
  have hh : (Metadata.parse (torn t m'.toBytes m.toBytes)).latestHeight ≤ MAX_REASONABLE_HEIGHT := by
    have hslice := slice_torn (t := t) hlength 24 8
    rw [slice_latestHeight, slice_latestHeight] at hslice
    have hle : ofLeBytes (torn (t - 24) (leBytes 8 m'.latestHeight.toNat)
        (leBytes 8 m.latestHeight.toNat)) ≤ m'.latestHeight.toNat :=
      ofLeBytes_torn_le (UInt64.le_iff_toNat_le.mp hheight)
    refine UInt64.le_trans ?_ hheight'
    simp only [Metadata.parse, hslice]
    rw [UInt64.le_iff_toNat_le, UInt64.toNat_ofNat']
    exact (Nat.mod_le _ _).trans hle
  rw [loadMetadata, if_neg (by omega), List.take_of_length_le (by omega)]
  exact ⟨_, fromBytes_ok hm hh⟩

theorem latestHeight_le_newMetadata (m : Metadata) (p : Put) :
    m.latestHeight ≤ (newMetadata m p).latestHeight := by
  rw [newMetadata_latestHeight]
  split_ifs with h
  · exact UInt64.le_of_lt h
  · exact UInt64.le_refl _

/-- After a crash the metadata can be loaded. -/
theorem loadMetadata_crash (hloadable : Loadable db) (hstored : Stored db) :
    (crash db p n).metadata.length = Metadata.SIZE ∧
      ∃ m, loadMetadata (crash db p n).metadata = .ok m := by
  cases h : db.isNew p with
  | false =>
    rw [crash_of_not_isNew h]
    exact ⟨hloadable.length, hloadable.loads⟩
  | true =>
    rw [crash_of_isNew h]
    rcases hsync : db.syncOnWrite with _ | _
    · exact ⟨hloadable.length, hloadable.loads⟩
    · have hfile : db.files.metadata = db.metadata.toBytes := by
        rw [hstored, hsync]
        rfl
      have hlength : (newMetadata db.metadata p).toBytes.length = db.metadata.toBytes.length := by
        rw [Metadata.length_toBytes, Metadata.length_toBytes]
      have hmagic := newMetadata_magic db.metadata p
      have hadded := hloadable.added (isNew_height_le h)
      simp only [if_true]
      rw [hfile, overwrite_take hlength, length_torn hlength, Metadata.length_toBytes]
      exact ⟨rfl, loadMetadata_torn _ hmagic hadded.magic (latestHeight_le_newMetadata db.metadata p)
        hadded.height⟩

theorem loadMetadata_closed (h : Loadable db) (synced : Bool) :
    ∃ m, loadMetadata (db.closed synced).metadata = .ok m := by
  cases synced with
  | false => exact h.loads
  | true =>
    refine ⟨db.metadata, ?_⟩
    refine (congrArg loadMetadata (overwrite_metadata h.length)).trans ?_
    exact loadMetadata_toBytes h.magic h.height

/-! ### The records -/

variable {entries : List IndexEntry} {heights : List HeightEntry}

/-- The index that is loaded after a crash. -/
theorem loadHashIndex_crash (h : Aligned db entries heights) (hnew : db.isNew p = true) :
    loadHashIndex (crash db p n).index =
      if 56 ≤ recordBytes p n then loadEntry db.hashIndex (newEntry db p) else db.hashIndex := by
  have hread := readAll_torn indexLayout entries (newEntry db p) (recordBytes p n)
  rw [crash_of_isNew hnew, loadHashIndex]
  dsimp only
  rw [h.index, h.hashIndex]
  change (readAll indexLayout (_ ++ (indexLayout.toBytes _).take _)).foldl _ _ = _
  by_cases hsize : 56 ≤ recordBytes p n
  · rw [hread, if_pos hsize, if_pos (show indexLayout.size ≤ _ from hsize), List.foldl_append]
    rfl
  · rw [hread, if_neg hsize, if_neg (show ¬ indexLayout.size ≤ _ from hsize)]

/-- The heights that are loaded after a crash. -/
theorem loadHeightIndex_crash (h : Aligned db entries heights) (hnew : db.isNew p = true) :
    loadHeightIndex (crash db p n).height =
      if 40 ≤ recordBytes p n - 56 then loadHeight db.heightIndex ⟨p.height, p.hash⟩
      else db.heightIndex := by
  have hread := readAll_torn heightLayout heights ⟨p.height, p.hash⟩ (recordBytes p n - 56)
  rw [crash_of_isNew hnew, loadHeightIndex]
  dsimp only
  rw [h.height, h.heightIndex]
  change (readAll heightLayout (_ ++ (heightLayout.toBytes _).take _)).foldl _ _ = _
  by_cases hsize : 40 ≤ recordBytes p n - 56
  · rw [hread, if_pos hsize, if_pos (show heightLayout.size ≤ _ from hsize), List.foldl_append]
    rfl
  · rw [hread, if_neg hsize, if_neg (show ¬ heightLayout.size ≤ _ from hsize)]

/-- Earlier entries are found in the index as before. -/
theorem hashIndex_crash (h : Aligned db entries heights) {hash : Key} {e : IndexEntry}
    (he : db.hashIndex hash = some e) : loadHashIndex (crash db p n).index hash = some e := by
  cases hnew : db.isNew p with
  | false =>
    rw [crash_of_not_isNew hnew, h.readable.hashIndex, he]
  | true =>
    have hne : hash ≠ p.hash := by
      rintro rfl
      simp [isNew, he] at hnew
    rw [loadHashIndex_crash h hnew, loadEntry]
    split_ifs
    · rw [← he]
      exact Function.update_of_ne hne _ _
    · exact he
    · exact he

/-- Other heights than that of the `put` are found as before. -/
theorem heightIndex_crash (h : Aligned db entries heights) {height : UInt64}
    (hne : height ≠ p.height) :
    loadHeightIndex (crash db p n).height height = db.heightIndex height := by
  cases hnew : db.isNew p with
  | false =>
    rw [crash_of_not_isNew hnew, h.readable.heightIndex]
  | true =>
    rw [loadHeightIndex_crash h hnew, loadHeight]
    split_ifs
    · exact Function.update_of_ne hne _ _
    · rfl
    · rfl

/-- The crash does not leave a part of an index record or of a height record. -/
def WholeRecords (p : Put) (n : ℕ) : Prop :=
  ¬ (0 < recordBytes p n ∧ recordBytes p n < 56) ∧
    ¬ (0 < recordBytes p n - 56 ∧ recordBytes p n - 56 < 40)

/-- The database that is opened after a crash. -/
def recovered (db : Database) (p : Put) (n : ℕ) (m : Metadata) : Database where
  syncOnWrite := db.syncOnWrite
  files := crash db p n
  hashIndex := loadHashIndex (crash db p n).index
  heightIndex := loadHeightIndex (crash db p n).height
  metadata := m

theorem openFiles_crash {m : Metadata} (h : loadMetadata (crash db p n).metadata = .ok m) :
    openFiles db.syncOnWrite (crash db p n) = .ok (recovered db p n m) := by
  rw [openFiles, h]
  rfl

theorem aligned_recovered (h : Aligned db entries heights)
    (hwhole : db.isNew p = false ∨ WholeRecords p n) (m : Metadata) :
    ∃ entries heights, Aligned (recovered db p n m) entries heights := by
  cases hnew : db.isNew p with
  | false =>
    have hfiles := crash_of_not_isNew (n := n) hnew
    refine ⟨entries, heights, ?_, ?_, ?_, ?_⟩
    · exact (congrArg Files.index hfiles).trans h.index
    · exact (congrArg Files.height hfiles).trans h.height
    · simp only [recovered, hfiles, h.readable.hashIndex, h.hashIndex]
    · simp only [recovered, hfiles, h.readable.heightIndex, h.heightIndex]
  | true =>
    obtain ⟨hindex, hheight⟩ := hwhole.resolve_left (by rw [hnew]; decide)
    have hfiles := crash_of_isNew (n := n) hnew
    have hi := writeAll_whole indexLayout entries (newEntry db p) hindex
    have hh := writeAll_whole heightLayout heights ⟨p.height, p.hash⟩ hheight
    rw [← h.index] at hi
    rw [← h.height] at hh
    have hifile := (congrArg Files.index hfiles).trans hi
    have hhfile := (congrArg Files.height hfiles).trans hh
    refine ⟨_, _, hifile, hhfile, ?_, ?_⟩
    · simp only [recovered, loadHashIndex]
      rw [hifile, readAll_writeAll]
    · simp only [recovered, loadHeightIndex]
      rw [hhfile, readAll_writeAll]

/-! ### Earlier entries -/

theorem get_of_prefix {db db' : Database} {hash : Key} {data : Bytes}
    (hindex : ∀ e, db.hashIndex hash = some e → db'.hashIndex hash = some e)
    (hdata : db.files.data <+: db'.files.data) (h : db.get hash = .ok data) :
    db'.get hash = .ok data := by
  obtain ⟨rest, hrest⟩ := hdata
  rw [Database.get] at h
  rcases he : db.hashIndex hash with _ | e
  · rw [he] at h
    cases h
  rw [he] at h
  dsimp only at h
  split_ifs at h with hlength
  rw [List.length_take, List.length_drop] at hlength
  have hsame : (db'.files.data.drop e.offset.toNat).take e.size.toNat =
      (db.files.data.drop e.offset.toNat).take e.size.toNat := by
    rw [← hrest]
    by_cases hoffset : e.offset.toNat ≤ db.files.data.length
    · rw [List.drop_append_of_le_length hoffset,
        List.take_append_of_le_length (by rw [List.length_drop]; omega)]
    · have hsize : e.size.toNat = 0 := by omega
      rw [hsize, List.take_zero, List.take_zero]
  rw [Database.get, hindex e he]
  dsimp only
  rw [hsame, if_pos (by rw [List.length_take, List.length_drop]; omega)]
  exact h

/-- A `put` keeps what is found. -/
theorem get_put {hash : Key} {data : Bytes} (h : db.get hash = .ok data) (p : Put) :
    ((db.put p).2).get hash = .ok data := by
  rcases put_cases db p with ⟨-, heq⟩ | ⟨hnew, heq⟩
  · rw [heq]
    exact h
  rw [heq]
  refine get_of_prefix (fun e he => ?_) (List.prefix_append _ _) h
  have hne : hash ≠ p.hash := by
    rintro rfl
    simp [isNew, he] at hnew
  rw [← he]
  exact Function.update_of_ne hne _ _

theorem get_putAll {hash : Key} {data : Bytes} (h : db.get hash = .ok data) (ps : List Put) :
    (db.putAll ps).get hash = .ok data :=
  putAll_induction (P := fun db => db.get hash = .ok data) h fun p _ _ h => get_put h p

theorem get_crash (h : Aligned db entries heights) {m : Metadata} {hash : Key} {data : Bytes}
    (hget : db.get hash = .ok data) : (recovered db p n m).get hash = .ok data :=
  get_of_prefix (fun _ he => hashIndex_crash h he) (data_prefix_crash db p n) hget

theorem getByHeight_crash (h : Aligned db entries heights) {m : Metadata} {height : UInt64}
    {data : Bytes} (hne : height ≠ p.height) (hget : db.getByHeight height = .ok data) :
    (recovered db p n m).getByHeight height = .ok data := by
  have hindex : (recovered db p n m).heightIndex height = db.heightIndex height :=
    heightIndex_crash h hne
  rw [getByHeight, hindex]
  rw [getByHeight] at hget
  rcases hhash : db.heightIndex height with _ | hash
  · rw [hhash] at hget
    cases hget
  · rw [hhash] at hget
    exact get_crash h hget

/-! ### Recovery -/

/-- After the crash the files are opened with every earlier entry; and after more `put`s and another
closing they are opened with every entry. -/
def Recovers (syncOnWrite synced : Bool) (ps : List Put) (p : Put) (n : ℕ) (qs : List Put) : Prop :=
  ∃ db₁, openFiles syncOnWrite (crash ((create syncOnWrite).putAll ps) p n) = .ok db₁ ∧
    (∀ hash data, ((create syncOnWrite).putAll ps).get hash = .ok data →
      db₁.get hash = .ok data) ∧
    (∀ height data, height ≠ p.height →
      ((create syncOnWrite).putAll ps).getByHeight height = .ok data →
        db₁.getByHeight height = .ok data) ∧
    ∃ db₂, openFiles syncOnWrite ((db₁.putAll qs).closed synced) = .ok db₂ ∧
      (∀ hash data, ((create syncOnWrite).putAll ps).get hash = .ok data →
        db₂.get hash = .ok data) ∧
      (∀ q ∈ qs, q.height ≤ MAX_REASONABLE_HEIGHT → db₂.get q.hash ≠ .error .notFound) ∧
      (∀ hash, db₂.get hash = (db₁.putAll qs).get hash) ∧
      ∀ height, db₂.getByHeight height = (db₁.putAll qs).getByHeight height

/-- A `put` of the sequence is accepted with the hash. -/
def Known (ps : List Put) (hash : Key) : Prop :=
  ∃ r ∈ ps, r.height ≤ MAX_REASONABLE_HEIGHT ∧ r.hash = hash

/-- The `put` writes nothing, or its records are whole, or nothing is written after it. -/
def NothingTorn (ps : List Put) (p : Put) (n : ℕ) (qs : List Put) : Prop :=
  MAX_REASONABLE_HEIGHT < p.height ∨ Known ps p.hash ∨ WholeRecords p n ∨
    ∀ q ∈ qs, q.height ≤ MAX_REASONABLE_HEIGHT →
      Known ps q.hash ∨ 56 ≤ recordBytes p n ∧ q.hash = p.hash

theorem isSome_of_known {ps : List Put} {hash : Key} (h : Known ps hash) (db : Database) :
    ((db.putAll ps).hashIndex hash).isSome := by
  obtain ⟨r, hr, hheight, rfl⟩ := h
  exact isSome_putAll hr hheight db

theorem putAll_of_not_isNew {qs : List Put} (h : ∀ q ∈ qs, db.isNew q = false) :
    db.putAll qs = db := by
  induction qs with
  | nil => rfl
  | cons q qs ih =>
    change (db.put q).2.putAll qs = db
    rw [put_of_not_isNew (h q List.mem_cons_self)]
    exact ih fun r hr => h r (List.mem_cons_of_mem _ hr)

/-- When a record is torn, no later `put` adds an entry. -/
theorem readable_recovered (h : Aligned db entries heights) {m : Metadata} {qs : List Put}
    (hnonzero : ∀ q ∈ qs, q.height ≤ MAX_REASONABLE_HEIGHT → q.hash ≠ ZERO_HASH)
    (hwhole : (db.isNew p = false ∨ WholeRecords p n) ∨
      db.isNew p = true ∧ ∀ q ∈ qs, q.height ≤ MAX_REASONABLE_HEIGHT →
        (db.hashIndex q.hash).isSome ∨ 56 ≤ recordBytes p n ∧ q.hash = p.hash) :
    Readable ((recovered db p n m).putAll qs) := by
  rcases hwhole with hwhole | ⟨hnew, hqs⟩
  · obtain ⟨entries, heights, haligned⟩ :
        ∃ entries heights, Aligned ((recovered db p n m).putAll qs) entries heights :=
      putAll_induction (P := fun db => ∃ entries heights, Aligned db entries heights)
        (aligned_recovered h hwhole m) fun q hq db h => exists_aligned_put h (hnonzero q hq)
    exact haligned.readable
  · rw [putAll_of_not_isNew]
    · exact ⟨rfl, rfl⟩
    intro q hq
    rw [not_isNew_iff]
    by_cases hheight : q.height ≤ MAX_REASONABLE_HEIGHT
    · refine .inr ?_
      rcases hqs q hq hheight with hknown | ⟨hsize, hhash⟩
      · obtain ⟨e, he⟩ := Option.isSome_iff_exists.mp hknown
        exact Option.isSome_iff_exists.mpr ⟨e, hashIndex_crash h he⟩
      · have hindex : (recovered db p n m).hashIndex = loadEntry db.hashIndex (newEntry db p) := by
          simp only [recovered]
          rw [loadHashIndex_crash h hnew, if_pos hsize]
        have hkey : (newEntry db p).key = p.hash := rfl
        rw [hindex, loadEntry, hkey, if_pos (hhash ▸ hnonzero q hq hheight), hhash,
          Function.update_self]
        rfl
    · exact .inl (UInt64.not_le.mp hheight)

def firstPut : Put := ⟨1, 1, [7]⟩

def secondPut : Put := ⟨2, 2, [8]⟩

end Coinjecture.Adzdb.Recovery
