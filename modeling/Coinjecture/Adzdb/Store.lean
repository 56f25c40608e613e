import Coinjecture.Core.Types
import Coinjecture.Lib.Records

/-! # The ADZDB database

Four files: data, index records, height records and the metadata. A `put` appends to the first three,
updates the indices in memory and writes the metadata over the old ones. `openFiles` rebuilds the
indices from the records; records of the zero hash and what is left after the last whole record are
skipped. A crash leaves the first bytes of what a `put` writes. -/

namespace Coinjecture.Adzdb.Store

open Lib.Bincode Lib.Records
open Core.Types

/-- `Hash` of this crate. -/
abbrev Key := Bytes32

def ZERO_HASH : Key := 0

def MAX_REASONABLE_HEIGHT : UInt64 := 10000000

/-- `b"ADZB"`. -/
def MAGIC : BitVec 32 := 0x41445A42

def VERSION : UInt32 := 1

inductive Error where
  | io (message : String)
  | notFound
  | corruption (message : String)
  | heightTooLarge (height : UInt64)
  deriving DecidableEq

/-! ### Records -/

structure IndexEntry where
  key : Key
  offset : UInt64
  size : UInt32
  height : UInt64
  flags : UInt32
  deriving DecidableEq

structure HeightEntry where
  height : UInt64
  hash : Key
  deriving DecidableEq

structure Metadata where
  magic : BitVec 32
  version : UInt32
  entryCount : UInt64
  dataSize : UInt64
  latestHeight : UInt64
  latestHash : Key
  genesisHash : Key
  deriving DecidableEq

namespace IndexEntry

def toBytes (e : IndexEntry) : Bytes :=
  beBytes 32 e.key.toNat ++ (leBytes 8 e.offset.toNat ++ (leBytes 4 e.size.toNat ++
    (leBytes 8 e.height.toNat ++ leBytes 4 e.flags.toNat)))

def fromBytes (bytes : Bytes) : IndexEntry where
  key := .ofNat 256 (ofBeBytes (bytes.take 32))
  offset := .ofNat (ofLeBytes ((bytes.drop 32).take 8))
  size := .ofNat (ofLeBytes ((bytes.drop 40).take 4))
  height := .ofNat (ofLeBytes ((bytes.drop 44).take 8))
  flags := .ofNat (ofLeBytes ((bytes.drop 52).take 4))

end IndexEntry

namespace HeightEntry

def toBytes (e : HeightEntry) : Bytes := leBytes 8 e.height.toNat ++ beBytes 32 e.hash.toNat

def fromBytes (bytes : Bytes) : HeightEntry where
  height := .ofNat (ofLeBytes (bytes.take 8))
  hash := .ofNat 256 (ofBeBytes ((bytes.drop 8).take 32))

end HeightEntry

namespace Metadata

/-- `Metadata::SIZE`. -/
def SIZE : ℕ := 96

/-- `Metadata::default`. -/
def initial : Metadata := ⟨MAGIC, VERSION, 0, 0, 0, ZERO_HASH, ZERO_HASH⟩

def toBytes (m : Metadata) : Bytes :=
  beBytes 4 m.magic.toNat ++ (leBytes 4 m.version.toNat ++ (leBytes 8 m.entryCount.toNat ++
    (leBytes 8 m.dataSize.toNat ++ (leBytes 8 m.latestHeight.toNat ++
      (beBytes 32 m.latestHash.toNat ++ beBytes 32 m.genesisHash.toNat)))))

/-- The fields of `Metadata::from_bytes`, before its checks. -/
def parse (bytes : Bytes) : Metadata where
  magic := .ofNat 32 (ofBeBytes (bytes.take 4))
  version := .ofNat (ofLeBytes ((bytes.drop 4).take 4))
  entryCount := .ofNat (ofLeBytes ((bytes.drop 8).take 8))
  dataSize := .ofNat (ofLeBytes ((bytes.drop 16).take 8))
  latestHeight := .ofNat (ofLeBytes ((bytes.drop 24).take 8))
  latestHash := .ofNat 256 (ofBeBytes ((bytes.drop 32).take 32))
  genesisHash := .ofNat 256 (ofBeBytes ((bytes.drop 64).take 32))

def fromBytes (bytes : Bytes) : Except Error Metadata :=
  if (parse bytes).magic ≠ MAGIC then .error (.corruption "Invalid magic bytes")
  else if MAX_REASONABLE_HEIGHT < (parse bytes).latestHeight then
    .error (.heightTooLarge (parse bytes).latestHeight)
  else .ok (parse bytes)

end Metadata

theorem ofNat_toNat_32 (x : UInt32) : UInt32.ofNat (ofLeBytes (leBytes 4 x.toNat)) = x := by
  rw [ofLeBytes_leBytes_of_lt x.toNat_lt, UInt32.ofNat_toNat]

theorem ofNat_toNat_64 (x : UInt64) : UInt64.ofNat (ofLeBytes (leBytes 8 x.toNat)) = x := by
  rw [ofLeBytes_leBytes_of_lt x.toNat_lt, UInt64.ofNat_toNat]

theorem ofNat_toNat_256 (x : Key) : BitVec.ofNat 256 (ofBeBytes (beBytes 32 x.toNat)) = x :=
  @ofNat_ofBeBytes_beBytes 32 256 rfl x

theorem take_field {x y : Bytes} {k : ℕ} (h : x.length = k) : (x ++ y).take k = x := by
  rw [← h, List.take_left]

theorem drop_field {x y : Bytes} {k n : ℕ} (h : x.length = k) :
    (x ++ y).drop (k + n) = y.drop n := by
  rw [← h, List.drop_append, List.drop_of_length_le (by omega), List.nil_append,
    Nat.add_sub_cancel_left]

theorem drop_last_field {x y : Bytes} {k : ℕ} (h : x.length = k) : (x ++ y).drop k = y := by
  rw [← h, List.drop_left]

theorem IndexEntry.fromBytes_toBytes (e : IndexEntry) : fromBytes (toBytes e) = e := by
  have hkey := length_beBytes 32 e.key.toNat
  have hoffset := length_leBytes 8 e.offset.toNat
  have hsize := length_leBytes 4 e.size.toNat
  have hheight := length_leBytes 8 e.height.toNat
  obtain ⟨key, offset, size, height, flags⟩ := e
  simp only [fromBytes, toBytes, mk.injEq] at *
  refine ⟨?_, ?_, ?_, ?_, ?_⟩
  · rw [take_field hkey, ofNat_toNat_256]
  · rw [drop_last_field hkey, take_field hoffset, ofNat_toNat_64]
  · rw [show 40 = 32 + 8 from rfl, drop_field hkey, drop_last_field hoffset, take_field hsize,
      ofNat_toNat_32]
  · rw [show 44 = 32 + (8 + 4) from rfl, drop_field hkey, drop_field hoffset, drop_last_field hsize,
      take_field hheight, ofNat_toNat_64]
  · rw [show 52 = 32 + (8 + (4 + 8)) from rfl, drop_field hkey, drop_field hoffset, drop_field hsize,
      drop_last_field hheight, List.take_of_length_le (by rw [length_leBytes]), ofNat_toNat_32]

theorem HeightEntry.fromBytes_toBytes (e : HeightEntry) : fromBytes (toBytes e) = e := by
  have hheight := length_leBytes 8 e.height.toNat
  obtain ⟨height, hash⟩ := e
  simp only [fromBytes, toBytes, mk.injEq] at *
  refine ⟨?_, ?_⟩
  · rw [take_field hheight, ofNat_toNat_64]
  · rw [drop_last_field hheight, List.take_of_length_le (by rw [length_beBytes]), ofNat_toNat_256]

theorem Metadata.length_toBytes (m : Metadata) : m.toBytes.length = SIZE := by
  simp [toBytes, SIZE]

theorem Metadata.parse_toBytes (m : Metadata) : parse m.toBytes = m := by
  have hmagic := length_beBytes 4 m.magic.toNat
  have hversion := length_leBytes 4 m.version.toNat
  have hcount := length_leBytes 8 m.entryCount.toNat
  have hdata := length_leBytes 8 m.dataSize.toNat
  have hheight := length_leBytes 8 m.latestHeight.toNat
  have hlatest := length_beBytes 32 m.latestHash.toNat
  obtain ⟨magic, version, entryCount, dataSize, latestHeight, latestHash, genesisHash⟩ := m
  simp only [parse, toBytes, mk.injEq] at *
  refine ⟨?_, ?_, ?_, ?_, ?_, ?_, ?_⟩
  · rw [take_field hmagic, ofBeBytes_beBytes_of_lt magic.isLt, BitVec.ofNat_toNat,
      BitVec.setWidth_eq]
  · rw [drop_last_field hmagic, take_field hversion, ofNat_toNat_32]
  · rw [show 8 = 4 + 4 from rfl, drop_field hmagic, drop_last_field hversion, take_field hcount,
      ofNat_toNat_64]
  · rw [show 16 = 4 + (4 + 8) from rfl, drop_field hmagic, drop_field hversion,
      drop_last_field hcount, take_field hdata, ofNat_toNat_64]
  · rw [show 24 = 4 + (4 + (8 + 8)) from rfl, drop_field hmagic, drop_field hversion,
      drop_field hcount, drop_last_field hdata, take_field hheight, ofNat_toNat_64]
  · change BitVec.ofNat 256 (ofBeBytes (List.take 32 (List.drop (4 + (4 + (8 + (8 + 8)))) _))) = _
    rw [drop_field hmagic, drop_field hversion, drop_field hcount, drop_field hdata,
      drop_last_field hheight, take_field hlatest, ofNat_toNat_256]
  · rw [show 64 = 4 + (4 + (8 + (8 + (8 + 32)))) from rfl, drop_field hmagic, drop_field hversion,
      drop_field hcount, drop_field hdata, drop_field hheight, drop_last_field hlatest,
      List.take_of_length_le (by rw [length_beBytes]), ofNat_toNat_256]

/-- `IndexEntry::SIZE` is 56. -/
def indexLayout : Layout IndexEntry where
  size := 56
  toBytes := IndexEntry.toBytes
  fromBytes := IndexEntry.fromBytes
  size_pos := by decide
  length_toBytes e := by simp [IndexEntry.toBytes]
  fromBytes_toBytes := IndexEntry.fromBytes_toBytes

/-- `HeightEntry::SIZE` is 40. -/
def heightLayout : Layout HeightEntry where
  size := 40
  toBytes := HeightEntry.toBytes
  fromBytes := HeightEntry.fromBytes
  size_pos := by decide
  length_toBytes e := by simp [HeightEntry.toBytes]
  fromBytes_toBytes := HeightEntry.fromBytes_toBytes

/-! ### The database -/

structure Files where
  data : Bytes
  index : Bytes
  height : Bytes
  metadata : Bytes
  deriving DecidableEq

structure Database where
  syncOnWrite : Bool
  files : Files
  hashIndex : Key → Option IndexEntry
  heightIndex : UInt64 → Option Key
  metadata : Metadata

/-- `Database::create`. -/
def create (syncOnWrite : Bool) : Database where
  syncOnWrite := syncOnWrite
  files := ⟨[], [], [], Metadata.initial.toBytes⟩
  hashIndex _ := none
  heightIndex _ := none
  metadata := .initial

/-- One entry of `load_hash_index`. -/
def loadEntry (index : Key → Option IndexEntry) (e : IndexEntry) : Key → Option IndexEntry :=
  if e.key ≠ ZERO_HASH then Function.update index e.key (some e) else index

/-- One entry of `load_height_index`. -/
def loadHeight (index : UInt64 → Option Key) (e : HeightEntry) : UInt64 → Option Key :=
  if e.hash ≠ ZERO_HASH then Function.update index e.height (some e.hash) else index

def loadHashIndex (file : Bytes) : Key → Option IndexEntry :=
  (readAll indexLayout file).foldl loadEntry fun _ => none

def loadHeightIndex (file : Bytes) : UInt64 → Option Key :=
  (readAll heightLayout file).foldl loadHeight fun _ => none

def loadMetadata (file : Bytes) : Except Error Metadata :=
  if file.length < Metadata.SIZE then .error (.corruption "Metadata file too small")
  else Metadata.fromBytes (file.take Metadata.SIZE)

/-- `Database::open`. -/
def openFiles (syncOnWrite : Bool) (files : Files) : Except Error Database := do
  let metadata ← loadMetadata files.metadata
  pure {
    syncOnWrite := syncOnWrite
    files := files
    hashIndex := loadHashIndex files.index
    heightIndex := loadHeightIndex files.height
    metadata := metadata }

/-- A write to one of the files: at the end, or over the metadata. -/
inductive Write where
  | data (bytes : Bytes)
  | index (bytes : Bytes)
  | height (bytes : Bytes)
  | metadata (bytes : Bytes)

def Write.bytes : Write → Bytes
  | data bytes | index bytes | height bytes | metadata bytes => bytes

def Write.perform (files : Files) : Write → Files
  | data bytes => { files with data := files.data ++ bytes }
  | index bytes => { files with index := files.index ++ bytes }
  | height bytes => { files with height := files.height ++ bytes }
  | metadata bytes => { files with metadata := overwrite bytes files.metadata }

/-- An argument of `put`. -/
structure Put where
  hash : Key
  height : UInt64
  data : Bytes

/-- The metadata after a `put`. -/
def newMetadata (m : Metadata) (p : Put) : Metadata :=
  let metadata := { m with
    entryCount := m.entryCount + 1
    dataSize := m.dataSize + .ofNat p.data.length }
  let metadata := if metadata.latestHeight < p.height then
      { metadata with latestHeight := p.height, latestHash := p.hash }
    else metadata
  if p.height = 0 then { metadata with genesisHash := p.hash } else metadata

namespace Database

variable (db : Database) (p : Put)

/-- The index record of a `put`: the data goes to the end of its file. -/
def newEntry : IndexEntry where
  key := p.hash
  offset := .ofNat db.files.data.length
  size := .ofNat p.data.length
  height := p.height
  flags := 0

/-- What a `put` writes, in order. -/
def writes : List Write :=
  [.data p.data, .index (newEntry db p).toBytes, .height (HeightEntry.toBytes ⟨p.height, p.hash⟩)] ++
    if db.syncOnWrite then [.metadata (newMetadata db.metadata p).toBytes] else []

/-- The `put` is accepted, and its hash is new. -/
def isNew : Bool := p.height ≤ MAX_REASONABLE_HEIGHT ∧ (db.hashIndex p.hash).isNone

/-- `Database::put`. -/
def put : Except Error Unit × Database :=
  if MAX_REASONABLE_HEIGHT < p.height then (.error (.heightTooLarge p.height), db)
  else if (db.hashIndex p.hash).isSome then (.ok (), db)
  else (.ok (), { db with
    files := (writes db p).foldl Write.perform db.files
    hashIndex := Function.update db.hashIndex p.hash (some (newEntry db p))
    heightIndex := Function.update db.heightIndex p.height (some p.hash)
    metadata := newMetadata db.metadata p })

/-- `Database::sync`. -/
def sync : Database :=
  { db with files := Write.perform db.files (.metadata db.metadata.toBytes) }

/-- `Database::get`. -/
def get (hash : Key) : Except Error Bytes :=
  match db.hashIndex hash with
  | none => .error .notFound
  | some entry =>
    let data := (db.files.data.drop entry.offset.toNat).take entry.size.toNat
    if data.length = entry.size.toNat then .ok data
    else .error (.io "failed to fill whole buffer")

/-- `Database::get_by_height`. -/
def getByHeight (height : UInt64) : Except Error Bytes :=
  match db.heightIndex height with
  | none => .error .notFound
  | some hash => db.get hash

/-- A sequence of `put`s. -/
def putAll (ps : List Put) : Database := ps.foldl (fun db p => (db.put p).2) db

/-- The files when the handle is dropped, with or without a last `sync`. -/
def closed (synced : Bool) : Files := if synced then db.sync.files else db.files

end Database

end Coinjecture.Adzdb.Store
