import Coinjecture.Adzdb.Recovery

/-! # Pruning and compaction

`prune_before` takes out of the indices what the height index names below a height; `compact_to` copies
what it names into a new database. Entries that share their height with a later one are named by the hash
index only.

* `maintains_iff` : a database is pruned and copied exactly if the two indices agree.
-/

namespace Coinjecture.Adzdb.Maintenance

open Core.Types Lib.Bincode
open Adzdb.Store Adzdb.Store.Database
open Adzdb.Reopen Adzdb.Recovery

/-- The entries of the height index, in some order of the map. -/
structure HeightListing (db : Database) where
  entries : List (UInt64 × Key)
  mem_iff : ∀ height hash, (height, hash) ∈ entries ↔ db.heightIndex height = some hash
  nodup : (entries.map Prod.fst).Nodup

/-- One hash in the loop of `prune_before`. -/
def removeHash (db : Database) (hash : Key) : Database :=
  match db.hashIndex hash with
  | some entry => { db with
      hashIndex := Function.update db.hashIndex hash none
      heightIndex := Function.update db.heightIndex entry.height none }
  | none => db

/-- `Database::prune_before`, with the number it returns. -/
def pruneBefore (db : Database) (keepHeight : UInt64) (listing : HeightListing db) : ℕ × Database :=
  if keepHeight = 0 then (0, db)
  else
    let hashes := (listing.entries.filter fun e => 0 < e.1 ∧ e.1 < keepHeight).map Prod.snd
    (hashes.length, hashes.foldl removeHash db)

/-- The loop of `compact_to`. -/
def compactLoop (db : Database) : List (UInt64 × Key) → Database → Except Error Database
  | [], new => .ok new
  | (height, hash) :: rest, new =>
    match db.get hash with
    | .error e => .error e
    | .ok data =>
      match new.put ⟨hash, height, data⟩ with
      | (.error e, _) => .error e
      | (.ok (), new) => compactLoop db rest new

/-- `Database::compact_to`. -/
def compactTo (db : Database) (syncOnWrite : Bool) (listing : HeightListing db) :
    Except Error Database :=
  match compactLoop db (listing.entries.mergeSort fun a b => a.1 ≤ b.1) (create syncOnWrite) with
  | .ok new => .ok new.sync
  | .error e => .error e

variable {db : Database} {keepHeight : UInt64} {listing : HeightListing db}

/-! ### Pruning -/

theorem hashIndex_removeHash (db : Database) (hash key : Key) :
    (removeHash db hash).hashIndex key = if key = hash then none else db.hashIndex key := by
  unfold removeHash
  split
  · exact Function.update_apply ..
  · split_ifs with h
    · rw [h]
      assumption
    · rfl

theorem heightIndex_removeHash (db : Database) (hash : Key) (height : UInt64) :
    (removeHash db hash).heightIndex height =
      if ∃ e, db.hashIndex hash = some e ∧ e.height = height then none else db.heightIndex height := by
  unfold removeHash
  split
  · rename_i e he
    have hiff : (∃ e', db.hashIndex hash = some e' ∧ e'.height = height) ↔ height = e.height := by
      rw [he]
      simp [eq_comm]
    simp only [hiff]
    exact Function.update_apply ..
  · rename_i he
    rw [if_neg (by simp [he])]

theorem hashIndex_foldl (db : Database) (hashes : List Key) (key : Key) :
    (hashes.foldl removeHash db).hashIndex key = if key ∈ hashes then none else db.hashIndex key := by
  induction hashes generalizing db with
  | nil => rfl
  | cons hash hashes ih =>
    rw [List.foldl_cons, ih, hashIndex_removeHash]
    by_cases hkey : key = hash
    · simp [hkey]
    · simp [hkey]

theorem heightIndex_foldl (db : Database) (hashes : List Key) (height : UInt64) :
    (hashes.foldl removeHash db).heightIndex height =
      if ∃ hash ∈ hashes, ∃ e, db.hashIndex hash = some e ∧ e.height = height then none
      else db.heightIndex height := by
  induction hashes generalizing db with
  | nil => simp
  | cons hash hashes ih =>
    rw [List.foldl_cons, ih, heightIndex_removeHash]
    by_cases hfirst : ∃ e, db.hashIndex hash = some e ∧ e.height = height
    · rw [if_pos hfirst, ite_self, if_pos ⟨hash, List.mem_cons_self, hfirst⟩]
    · rw [if_neg hfirst]
      refine if_congr ?_ rfl rfl
      constructor
      · rintro ⟨key, hkey, e, he, hheight⟩
        rw [hashIndex_removeHash] at he
        split_ifs at he
        exact ⟨key, List.mem_cons_of_mem _ hkey, e, he, hheight⟩
      · rintro ⟨key, hkey, e, he, hheight⟩
        have hne : key ≠ hash := by
          rintro rfl
          exact hfirst ⟨e, he, hheight⟩
        refine ⟨key, (List.mem_cons.mp hkey).resolve_left hne, e, ?_, hheight⟩
        rw [hashIndex_removeHash, if_neg hne, he]

theorem files_foldl (db : Database) (hashes : List Key) :
    (hashes.foldl removeHash db).files = db.files := by
  induction hashes generalizing db with
  | nil => rfl
  | cons hash hashes ih =>
    rw [List.foldl_cons, ih]
    unfold removeHash
    split <;> rfl

/-- The height index names the hash at a height that is pruned. -/
def Named (db : Database) (keepHeight : UInt64) (hash : Key) : Prop :=
  ∃ height, 0 < height ∧ height < keepHeight ∧ db.heightIndex height = some hash

/-- The entry is high enough, or genesis. -/
def Kept (db : Database) (keepHeight : UInt64) (hash : Key) (e : IndexEntry) : Prop :=
  keepHeight ≤ e.height ∨ e.height = 0 ∧ hash = db.metadata.genesisHash

instance (db : Database) (keepHeight : UInt64) (hash : Key) (e : IndexEntry) :
    Decidable (Kept db keepHeight hash e) := inferInstanceAs (Decidable (_ ∨ _))

theorem get_of_hashIndex {db db' : Database} {hash : Key} (hfiles : db'.files = db.files)
    (hindex : db'.hashIndex hash = db.hashIndex hash) : db'.get hash = db.get hash := by
  rw [Database.get, Database.get, hindex, hfiles]

/-- What is left of the indices. -/
theorem pruneBefore_spec (db : Database) (keepHeight : UInt64) (listing : HeightListing db) :
    (pruneBefore db keepHeight listing).2.files = db.files ∧
    (∀ hash, (Named db keepHeight hash → (pruneBefore db keepHeight listing).2.hashIndex hash = none) ∧
      (¬ Named db keepHeight hash →
        (pruneBefore db keepHeight listing).2.hashIndex hash = db.hashIndex hash)) ∧
    ∀ height, ((∃ hash, Named db keepHeight hash ∧ ∃ e, db.hashIndex hash = some e ∧ e.height = height) →
        (pruneBefore db keepHeight listing).2.heightIndex height = none) ∧
      (¬ (∃ hash, Named db keepHeight hash ∧ ∃ e, db.hashIndex hash = some e ∧ e.height = height) →
        (pruneBefore db keepHeight listing).2.heightIndex height = db.heightIndex height) := by
  unfold pruneBefore
  split_ifs with hzero
  · have hnone : ∀ hash, ¬ Named db keepHeight hash := by
      rintro hash ⟨height, -, hlt, -⟩
      rw [hzero] at hlt
      exact absurd hlt (by simp)
    exact ⟨rfl, fun hash => ⟨fun h => absurd h (hnone hash), fun _ => rfl⟩,
      fun height => ⟨fun ⟨hash, h, _⟩ => absurd h (hnone hash), fun _ => rfl⟩⟩
  · have hnamed : ∀ hash, hash ∈ (listing.entries.filter fun e => 0 < e.1 ∧ e.1 < keepHeight).map
        Prod.snd ↔ Named db keepHeight hash := by
      intro hash
      simp only [List.mem_map, List.mem_filter, decide_eq_true_eq, Prod.exists, Named]
      constructor
      · rintro ⟨height, _, ⟨hmem, hlow, hhigh⟩, rfl⟩
        exact ⟨height, hlow, hhigh, (listing.mem_iff _ _).mp hmem⟩
      · rintro ⟨height, hlow, hhigh, hindex⟩
        exact ⟨height, hash, ⟨(listing.mem_iff _ _).mpr hindex, hlow, hhigh⟩, rfl⟩
    refine ⟨files_foldl db _, fun hash => ?_, fun height => ?_⟩
    · rw [hashIndex_foldl]
      exact ⟨fun h => if_pos ((hnamed hash).mpr h), fun h => if_neg (mt (hnamed hash).mp h)⟩
    · have hiff : (∃ hash ∈ (listing.entries.filter fun e => 0 < e.1 ∧ e.1 < keepHeight).map Prod.snd,
          ∃ e, db.hashIndex hash = some e ∧ e.height = height) ↔
          ∃ hash, Named db keepHeight hash ∧ ∃ e, db.hashIndex hash = some e ∧ e.height = height :=
        exists_congr fun hash => and_congr_left' (hnamed hash)
      rw [heightIndex_foldl]
      exact ⟨fun h => if_pos (hiff.mpr h), fun h => if_neg (mt hiff.mp h)⟩

/-- Below the height nothing is found but genesis, and what is kept is found as before. -/
structure PrunesExactly (db : Database) (keepHeight : UInt64) (pruned : Database) : Prop where
  dropped : ∀ hash e, db.hashIndex hash = some e → ¬ Kept db keepHeight hash e →
    pruned.get hash = .error .notFound ∧
    ∀ height, db.heightIndex height = some hash → pruned.getByHeight height = .error .notFound
  kept : ∀ hash e, db.hashIndex hash = some e → Kept db keepHeight hash e →
    pruned.get hash = db.get hash ∧
    ∀ height, db.heightIndex height = some hash → pruned.getByHeight height = db.getByHeight height

/-- What is to be pruned is what the height index names, and nothing that is kept is looked up at the height
of a named entry. -/
structure Prunable (db : Database) (keepHeight : UInt64) : Prop where
  named : ∀ hash e, db.hashIndex hash = some e → ¬ Kept db keepHeight hash e → Named db keepHeight hash
  spared : ∀ hash e, db.hashIndex hash = some e → Kept db keepHeight hash e → ¬ Named db keepHeight hash
  apart : ∀ hash e height, db.hashIndex hash = some e → Kept db keepHeight hash e →
    db.heightIndex height = some hash →
    ¬ ∃ hash', Named db keepHeight hash' ∧ ∃ e', db.hashIndex hash' = some e' ∧ e'.height = height

theorem prunesExactly_iff (db : Database) (keepHeight : UInt64) (listing : HeightListing db) :
    PrunesExactly db keepHeight (pruneBefore db keepHeight listing).2 ↔ Prunable db keepHeight := by
  obtain ⟨hfiles, hhash, hheight⟩ := pruneBefore_spec db keepHeight listing
  generalize (pruneBefore db keepHeight listing).2 = pruned at *
  have hgone : ∀ hash, Named db keepHeight hash → pruned.get hash = .error .notFound := fun hash h =>
    get_eq_notFound_iff.mpr ((hhash hash).1 h)
  have hsame : ∀ hash, ¬ Named db keepHeight hash → pruned.get hash = db.get hash := fun hash h =>
    get_of_hashIndex hfiles ((hhash hash).2 h)
  have hfound : ∀ {hash e}, db.hashIndex hash = some e → db.get hash ≠ .error .notFound := by
    intro hash e he hnone
    rw [get_eq_notFound_iff.mp hnone] at he
    cases he
  constructor
  · intro h
    have hspared : ∀ hash e, db.hashIndex hash = some e → Kept db keepHeight hash e →
        ¬ Named db keepHeight hash := fun hash e he hkept hnamed =>
      hfound he ((h.kept hash e he hkept).1.symm.trans (hgone hash hnamed))
    refine ⟨fun hash e he hkept => ?_, hspared, fun hash e height he hkept hindex hapart => ?_⟩
    · by_contra hnamed
      exact hfound he ((hsame hash hnamed).symm.trans (h.dropped hash e he hkept).1)
    · have heq := (h.kept hash e he hkept).2 height hindex
      rw [getByHeight, getByHeight, (hheight height).1 hapart, hindex] at heq
      exact hfound he heq.symm
  · intro h
    refine ⟨fun hash e he hkept => ?_, fun hash e he hkept => ?_⟩
    · have hnone := hgone hash (h.named hash e he hkept)
      refine ⟨hnone, fun height hindex => ?_⟩
      rw [getByHeight]
      by_cases hapart : ∃ hash', Named db keepHeight hash' ∧
          ∃ e', db.hashIndex hash' = some e' ∧ e'.height = height
      · rw [(hheight height).1 hapart]
      · rw [(hheight height).2 hapart, hindex]
        exact hnone
    · have hget := hsame hash (h.spared hash e he hkept)
      refine ⟨hget, fun height hindex => ?_⟩
      rw [getByHeight, getByHeight, (hheight height).2 (h.apart hash e height he hkept hindex), hindex]
      exact hget

/-! ### Compaction -/

/-- What `compact_to` puts for an entry of the height index. -/
def copy (db : Database) (e : UInt64 × Key) : Put := ⟨e.2, e.1, (db.get e.2).toOption.getD []⟩

theorem copy_of_get {height : UInt64} {hash : Key} {data : Bytes} (h : db.get hash = .ok data) :
    copy db (height, hash) = ⟨hash, height, data⟩ := by
  rw [copy, h]
  rfl

/-- The loop gets through if the entry can be read and its height is accepted. -/
def Copyable (db : Database) (e : UInt64 × Key) : Prop :=
  (∃ data, db.get e.2 = .ok data) ∧ e.1 ≤ MAX_REASONABLE_HEIGHT

theorem compactLoop_ok_iff {es : List (UInt64 × Key)} {new new' : Database} :
    compactLoop db es new = .ok new' ↔
      (∀ e ∈ es, Copyable db e) ∧ new' = new.putAll (es.map (copy db)) := by
  induction es generalizing new with
  | nil => simp [compactLoop, putAll, eq_comm]
  | cons e es ih =>
    obtain ⟨height, hash⟩ := e
    rw [compactLoop, List.forall_mem_cons]
    rcases hget : db.get hash with err | data
    · refine iff_of_false (fun h => by cases h) ?_
      rintro ⟨⟨⟨⟨data, hdata⟩, -⟩, -⟩, -⟩
      rw [hget] at hdata
      cases hdata
    dsimp only
    by_cases hheight : height ≤ MAX_REASONABLE_HEIGHT
    · have hput : new.put ⟨hash, height, data⟩ = (.ok (), (new.put (copy db (height, hash))).2) := by
        rw [copy_of_get hget]
        unfold put
        rw [if_neg (UInt64.not_lt.mpr hheight)]
        split_ifs <;> rfl
      rw [hput]
      dsimp only
      rw [ih]
      exact and_congr_left' ⟨fun h => ⟨⟨⟨data, hget⟩, hheight⟩, h⟩, And.right⟩
    · have hput : new.put ⟨hash, height, data⟩ = (.error (.heightTooLarge height), new) := by
        unfold put
        rw [if_pos (UInt64.not_le.mp hheight)]
      rw [hput]
      exact iff_of_false (fun h => by cases h) fun h => hheight h.1.1.2

/-- The new database after these entries of the height index. -/
structure Copied (db : Database) (es : List (UInt64 × Key)) (new : Database) : Prop where
  hashes : ∀ hash, (new.hashIndex hash).isSome ↔ ∃ height, (height, hash) ∈ es
  data : ∀ height hash, (height, hash) ∈ es → ∃ data, db.get hash = .ok data ∧ new.get hash = .ok data
  heights : ∀ height hash, new.heightIndex height = some hash →
    (height, hash) ∈ es ∧ ∃ e, new.hashIndex hash = some e ∧ e.height = height
  once : ∀ height hash, (height, hash) ∈ es → (∀ height', (height', hash) ∈ es → height' = height) →
    new.heightIndex height = some hash
  size : new.files.data.length ≤ es.length * 2 ^ 32

theorem copied_create (db : Database) (syncOnWrite : Bool) : Copied db [] (create syncOnWrite) where
  hashes _ := by simp [create]
  data _ _ h := absurd h List.not_mem_nil
  heights _ _ h := by cases h
  once _ _ h := absurd h List.not_mem_nil
  size := Nat.le_refl 0

theorem length_lt_of_get {hash : Key} {data : Bytes} (h : db.get hash = .ok data) :
    data.length < 2 ^ 32 := by
  rw [Database.get] at h
  rcases he : db.hashIndex hash with _ | e
  · rw [he] at h
    cases h
  · rw [he] at h
    dsimp only at h
    split_ifs at h with hlength
    cases h
    rw [hlength]
    exact e.size.toNat_lt

/-- A new entry is read back as it was put. -/
theorem get_added {p : Put} (hfile : db.files.data.length < 2 ^ 64) (hdata : p.data.length < 2 ^ 32) :
    (added db p).get p.hash = .ok p.data := by
  have hoffset : (newEntry db p).offset.toNat = db.files.data.length :=
    (UInt64.toNat_ofNat').trans (Nat.mod_eq_of_lt hfile)
  have hsize : (newEntry db p).size.toNat = p.data.length :=
    (UInt32.toNat_ofNat').trans (Nat.mod_eq_of_lt hdata)
  have hindex : (added db p).hashIndex p.hash = some (newEntry db p) := Function.update_self ..
  have hread : ((added db p).files.data.drop (newEntry db p).offset.toNat).take
      (newEntry db p).size.toNat = p.data := by
    rw [hoffset, hsize]
    change ((db.files.data ++ p.data).drop _).take _ = _
    rw [List.drop_left, List.take_length]
  rw [Database.get, hindex]
  dsimp only
  rw [hread, if_pos hsize.symm]

variable {es : List (UInt64 × Key)} {new : Database}

theorem mem_concat {height height' : UInt64} {hash hash' : Key} :
    (height', hash') ∈ es ++ [(height, hash)] ↔
      (height', hash') ∈ es ∨ height' = height ∧ hash' = hash := by
  rw [List.mem_append, List.mem_singleton, Prod.mk.injEq]

theorem ne_of_fresh {height height' : UInt64} {hash : Key} (hfresh : height ∉ es.map Prod.fst)
    (hin : (height', hash) ∈ es) : height' ≠ height := by
  rintro rfl
  exact hfresh (List.mem_map.mpr ⟨_, hin, rfl⟩)

/-- A hash that is there already is not named at its second height. -/
theorem Copied.again (h : Copied db es new) {height first : UInt64} {hash : Key}
    (hfirst : (first, hash) ∈ es) (hfresh : height ∉ es.map Prod.fst) :
    Copied db (es ++ [(height, hash)]) new := by
  refine ⟨fun hash' => ?_, fun height' hash' hin => ?_, fun height' hash' hin => ?_,
    fun height' hash' hin honce => ?_, ?_⟩
  · rw [h.hashes]
    refine ⟨fun ⟨height', hin⟩ => ⟨height', mem_concat.mpr (.inl hin)⟩, fun ⟨height', hin⟩ => ?_⟩
    rcases mem_concat.mp hin with hin | ⟨-, rfl⟩
    · exact ⟨height', hin⟩
    · exact ⟨first, hfirst⟩
  · rcases mem_concat.mp hin with hin | ⟨-, rfl⟩
    · exact h.data height' hash' hin
    · exact h.data first hash' hfirst
  · obtain ⟨hin, hentry⟩ := h.heights height' hash' hin
    exact ⟨mem_concat.mpr (.inl hin), hentry⟩
  · rcases mem_concat.mp hin with hin | ⟨rfl, rfl⟩
    · exact h.once height' hash' hin fun _ h => honce _ (mem_concat.mpr (.inl h))
    · exact absurd (honce first (mem_concat.mpr (.inl hfirst))) (ne_of_fresh hfresh hfirst)
  · rw [List.length_append, List.length_singleton]
    exact h.size.trans (Nat.mul_le_mul_right _ (Nat.le_succ _))

theorem Copied.added (h : Copied db es new) {height : UInt64} {hash : Key} {data : Bytes}
    (hget : db.get hash = .ok data) (hnone : new.hashIndex hash = none)
    (hfresh : height ∉ es.map Prod.fst) (hlength : es.length < 2 ^ 32) :
    Copied db (es ++ [(height, hash)]) (added new ⟨hash, height, data⟩) := by
  have hshort := length_lt_of_get hget
  have hsize := h.size
  have hindex : ∀ hash', (Reopen.added new ⟨hash, height, data⟩).hashIndex hash' =
      if hash' = hash then some (newEntry new ⟨hash, height, data⟩) else new.hashIndex hash' :=
    fun _ => Function.update_apply ..
  have hheights : ∀ height', (Reopen.added new ⟨hash, height, data⟩).heightIndex height' =
      if height' = height then some hash else new.heightIndex height' :=
    fun _ => Function.update_apply ..
  refine ⟨fun hash' => ?_, fun height' hash' hin => ?_, fun height' hash' hin => ?_,
    fun height' hash' hin honce => ?_, ?_⟩
  · rw [hindex]
    split_ifs with hhash
    · exact iff_of_true rfl ⟨height, mem_concat.mpr (.inr ⟨rfl, hhash⟩)⟩
    · rw [h.hashes]
      exact exists_congr fun height' => (mem_concat.trans (or_iff_left fun h => hhash h.2)).symm
  · rcases mem_concat.mp hin with hin | ⟨-, rfl⟩
    · obtain ⟨data', hdb, hcopy⟩ := h.data height' hash' hin
      have hne : hash' ≠ hash := by
        rintro rfl
        rw [get_eq_notFound_iff.mpr hnone] at hcopy
        cases hcopy
      refine ⟨data', hdb, get_of_prefix (fun e he => ?_) (List.prefix_append _ _) hcopy⟩
      rw [hindex, if_neg hne, he]
    · exact ⟨data, hget, get_added (by omega) hshort⟩
  · rw [hheights] at hin
    split_ifs at hin with hsame
    · cases hin
      exact ⟨mem_concat.mpr (.inr ⟨hsame, rfl⟩), _, (hindex hash).trans (if_pos rfl), hsame.symm⟩
    · obtain ⟨hin, e, he, hentry⟩ := h.heights height' hash' hin
      have hne : hash' ≠ hash := by
        rintro rfl
        rw [hnone] at he
        cases he
      exact ⟨mem_concat.mpr (.inl hin), e, (hindex hash').trans ((if_neg hne).trans he), hentry⟩
  · rw [hheights]
    rcases mem_concat.mp hin with hin | ⟨hsame, rfl⟩
    · rw [if_neg (ne_of_fresh hfresh hin)]
      exact h.once height' hash' hin fun _ h => honce _ (mem_concat.mpr (.inl h))
    · rw [if_pos hsame]
  · change (new.files.data ++ data).length ≤ _
    rw [List.length_append, List.length_append, List.length_singleton]
    omega

theorem Copied.put (h : Copied db es new) {e : UInt64 × Key} (he : Copyable db e)
    (hfresh : e.1 ∉ es.map Prod.fst) (hlength : es.length < 2 ^ 32) :
    Copied db (es ++ [e]) (new.put (copy db e)).2 := by
  obtain ⟨height, hash⟩ := e
  obtain ⟨⟨data, hget⟩, hheight⟩ := he
  rw [copy_of_get hget]
  rcases put_cases new ⟨hash, height, data⟩ with ⟨hold, heq⟩ | ⟨hnew, heq⟩
  · obtain ⟨first, hfirst⟩ := (h.hashes hash).mp
      ((not_isNew_iff.mp hold).resolve_left (UInt64.not_lt.mpr hheight))
    rw [heq]
    exact h.again hfirst hfresh
  · simp only [isNew, decide_eq_true_eq, Option.isNone_iff_eq_none] at hnew
    rw [heq]
    exact h.added hget hnew.2 hfresh hlength

theorem Copied.putAll (h : Copied db es new) {es' : List (UInt64 × Key)}
    (hcopyable : ∀ e ∈ es', Copyable db e) (hnodup : ((es ++ es').map Prod.fst).Nodup)
    (hlength : (es ++ es').length < 2 ^ 32) :
    Copied db (es ++ es') (new.putAll (es'.map (copy db))) := by
  induction es' generalizing es new with
  | nil =>
    rw [List.append_nil]
    exact h
  | cons e es' ih =>
    rw [List.append_cons] at hnodup hlength ⊢
    have hprefix : ((es ++ [e]).map Prod.fst).Nodup := by
      rw [List.map_append] at hnodup
      exact hnodup.of_append_left
    have hfresh : e.1 ∉ es.map Prod.fst := by
      rw [List.map_append, List.nodup_append] at hprefix
      intro hin
      exact hprefix.2.2 _ hin e.1 (List.mem_singleton_self _) rfl
    have hshort : es.length < 2 ^ 32 := by
      simp only [List.length_append] at hlength
      omega
    exact ih (h.put (hcopyable e List.mem_cons_self) hfresh hshort)
      (fun e' he' => hcopyable e' (List.mem_cons_of_mem _ he')) hnodup hlength

/-- There are few heights. -/
theorem length_lt_of_nodup (hnodup : (es.map Prod.fst).Nodup)
    (hlow : ∀ e ∈ es, e.1 ≤ MAX_REASONABLE_HEIGHT) : es.length < 2 ^ 32 := by
  have hinj : ((es.map Prod.fst).map UInt64.toNat).Nodup :=
    hnodup.map fun _ _ => UInt64.toNat_inj.mp
  have hsub : ((es.map Prod.fst).map UInt64.toNat).toFinset ⊆ Finset.range 10000001 := by
    intro n hn
    simp only [List.mem_toFinset, List.mem_map] at hn
    obtain ⟨_, ⟨e, he, rfl⟩, rfl⟩ := hn
    have hle : e.1.toNat ≤ 10000000 := UInt64.le_iff_toNat_le.mp (hlow e he)
    exact Finset.mem_range.mpr (by omega)
  have hcard := Finset.card_le_card hsub
  rw [List.toFinset_card_of_nodup hinj, List.length_map, List.length_map, Finset.card_range] at hcard
  omega

/-- The copy answers what the database answers. -/
def Compacts (db : Database) (syncOnWrite : Bool) (listing : HeightListing db) : Prop :=
  ∃ new, compactTo db syncOnWrite listing = .ok new ∧
    (∀ hash, (new.get hash).toOption = (db.get hash).toOption) ∧
    ∀ height, (new.getByHeight height).toOption = (db.getByHeight height).toOption

/-- What can be read is named at one height, and what is named can be read and is not too high. -/
structure Compactable (db : Database) : Prop where
  readable : ∀ height hash, db.heightIndex height = some hash → ∃ data, db.get hash = .ok data
  low : ∀ height hash, db.heightIndex height = some hash → height ≤ MAX_REASONABLE_HEIGHT
  indexed : ∀ hash data, db.get hash = .ok data → ∃ height, db.heightIndex height = some hash
  once : ∀ height height' hash, db.heightIndex height = some hash →
    db.heightIndex height' = some hash → height = height'

theorem get_sync (db : Database) (hash : Key) : db.sync.get hash = db.get hash := rfl

theorem getByHeight_sync (db : Database) (height : UInt64) :
    db.sync.getByHeight height = db.getByHeight height := rfl

section
variable (h : Copied db es new)
  (hmem : ∀ height hash, (height, hash) ∈ es ↔ db.heightIndex height = some hash)
include h hmem

/-- A copy with the same answers has every entry under its own height. -/
theorem Copied.compactable (hcopyable : ∀ e ∈ es, Copyable db e)
    (hget : ∀ hash, (new.get hash).toOption = (db.get hash).toOption)
    (hheight : ∀ height, (new.getByHeight height).toOption = (db.getByHeight height).toOption) :
    Compactable db := by
  have hentry : ∀ height hash, db.heightIndex height = some hash →
      ∃ e, new.hashIndex hash = some e ∧ e.height = height := by
    intro height hash hindex
    obtain ⟨data, hdata⟩ := (hcopyable _ ((hmem height hash).mpr hindex)).1
    have hfound := hheight height
    rw [getByHeight, getByHeight, hindex] at hfound
    dsimp only at hfound
    rw [hdata] at hfound
    rcases hnamed : new.heightIndex height with _ | hash'
    · rw [hnamed] at hfound
      cases hfound
    · obtain ⟨hin, hentry⟩ := h.heights height hash' hnamed
      rw [hmem, hindex] at hin
      cases hin
      exact hentry
  refine ⟨fun height hash hindex => (hcopyable _ ((hmem height hash).mpr hindex)).1,
    fun height hash hindex => (hcopyable _ ((hmem height hash).mpr hindex)).2,
    fun hash data hdata => ?_, fun height height' hash hindex hindex' => ?_⟩
  · have hfound := hget hash
    rw [hdata] at hfound
    have hsome : (new.hashIndex hash).isSome := by
      by_contra hnone
      have hlost : new.get hash = .error .notFound :=
        get_eq_notFound_iff.mpr (Option.not_isSome_iff_eq_none.mp hnone)
      rw [hlost] at hfound
      cases hfound
    obtain ⟨height, hin⟩ := (h.hashes hash).mp hsome
    exact ⟨height, (hmem height hash).mp hin⟩
  · obtain ⟨e, he, rfl⟩ := hentry height hash hindex
    obtain ⟨e', he', rfl⟩ := hentry height' hash hindex'
    cases he.symm.trans he'
    rfl

theorem Copied.toOption_get (hdb : Compactable db) (hash : Key) :
    (new.get hash).toOption = (db.get hash).toOption := by
  by_cases hin : ∃ height, (height, hash) ∈ es
  · obtain ⟨height, hin⟩ := hin
    obtain ⟨data, hget, hcopy⟩ := h.data height hash hin
    rw [hget, hcopy]
  · have hlost := get_eq_notFound_iff.mpr
      (Option.not_isSome_iff_eq_none.mp (mt (h.hashes hash).mp hin))
    rw [hlost]
    rcases hget : db.get hash with e | data
    · rfl
    · obtain ⟨height, hindex⟩ := hdb.indexed hash data hget
      exact absurd ⟨height, (hmem height hash).mpr hindex⟩ hin

theorem Copied.heightIndex_eq (hdb : Compactable db) (height : UInt64) :
    new.heightIndex height = db.heightIndex height := by
  rcases hindex : db.heightIndex height with _ | hash
  · rw [Option.eq_none_iff_forall_ne_some]
    intro hash hnamed
    rw [(hmem height hash).mp (h.heights height hash hnamed).1] at hindex
    cases hindex
  · exact h.once height hash ((hmem height hash).mpr hindex) fun height' hin =>
      hdb.once _ _ hash ((hmem height' hash).mp hin) hindex

theorem Copied.toOption_getByHeight (hdb : Compactable db) (height : UInt64) :
    (new.getByHeight height).toOption = (db.getByHeight height).toOption := by
  rw [getByHeight, getByHeight, h.heightIndex_eq hmem hdb]
  rcases db.heightIndex height with _ | hash
  · rfl
  · exact h.toOption_get hmem hdb hash

end

theorem compacts_iff (db : Database) (syncOnWrite : Bool) (listing : HeightListing db) :
    Compacts db syncOnWrite listing ↔ Compactable db := by
  let sorted := listing.entries.mergeSort fun a b => decide (a.1 ≤ b.1)
  have hperm : sorted.Perm listing.entries := List.mergeSort_perm _ _
  have hmem : ∀ height hash, (height, hash) ∈ sorted ↔ db.heightIndex height = some hash :=
    fun height hash => hperm.mem_iff.trans (listing.mem_iff height hash)
  have hnodup : (sorted.map Prod.fst).Nodup := (hperm.map _).nodup_iff.mpr listing.nodup
  have hcopied : (∀ e ∈ sorted, Copyable db e) →
      Copied db sorted ((create syncOnWrite).putAll (sorted.map (copy db))) := fun hcopyable =>
    (copied_create db syncOnWrite).putAll hcopyable hnodup
      (length_lt_of_nodup hnodup fun e he => (hcopyable e he).2)
  have hok : ∀ new', compactTo db syncOnWrite listing = .ok new' ↔
      ∃ new, compactLoop db sorted (create syncOnWrite) = .ok new ∧ new' = new.sync := by
    intro new'
    change (match compactLoop db sorted (create syncOnWrite) with
      | .ok new => Except.ok new.sync
      | .error e => .error e) = _ ↔ _
    rcases compactLoop db sorted (create syncOnWrite) with e | new
    · simp
    · simp [eq_comm]
  constructor
  · rintro ⟨_, hnew, hget, hheight⟩
    obtain ⟨_, hloop, rfl⟩ := (hok _).mp hnew
    obtain ⟨hcopyable, rfl⟩ := compactLoop_ok_iff.mp hloop
    exact (hcopied hcopyable).compactable hmem hcopyable hget hheight
  · intro hdb
    have hcopyable : ∀ e ∈ sorted, Copyable db e := fun e he =>
      have hindex := (hmem e.1 e.2).mp he
      ⟨hdb.readable _ _ hindex, hdb.low _ _ hindex⟩
    refine ⟨_, (hok _).mpr ⟨_, compactLoop_ok_iff.mpr ⟨hcopyable, rfl⟩, rfl⟩, fun hash => ?_,
      fun height => ?_⟩
    · rw [get_sync]
      exact (hcopied hcopyable).toOption_get hmem hdb hash
    · rw [getByHeight_sync]
      exact (hcopied hcopyable).toOption_getByHeight hmem hdb height

/-! ### Pruning and compaction -/

/-- A database is pruned and copied as it should be exactly if its two indices agree. -/
theorem maintains_iff (db : Database) (keepHeight : UInt64) (syncOnWrite : Bool)
    (listing : HeightListing db) :
    PrunesExactly db keepHeight (pruneBefore db keepHeight listing).2 ∧
        Compacts db syncOnWrite listing ↔
      Prunable db keepHeight ∧ Compactable db := by
  rw [prunesExactly_iff, compacts_iff]

/-- Two entries at one height. -/
def forkedDatabase : Database := (create true).putAll [⟨1, 1, [1]⟩, ⟨2, 1, [2]⟩]

def forkedListing : HeightListing forkedDatabase where
  entries := [(1, 2)]
  mem_iff height hash := by
    have hindex : forkedDatabase.heightIndex =
        Function.update (Function.update (fun _ => none) 1 (some 1)) 1 (some 2) := rfl
    rw [hindex, Function.update_idem, Function.update_apply, List.mem_singleton, Prod.mk.injEq]
    split_ifs with hheight
    · rw [Option.some.injEq]
      exact ⟨fun h => h.2.symm, fun h => ⟨hheight, h.symm⟩⟩
    · exact iff_of_false (fun h => hheight h.1) fun h => by cases h
  nodup := List.nodup_singleton _

/-- The first of two entries at height 1 is found after pruning below 2, and lost when the database is
copied. -/
theorem fork_is_kept_and_lost :
    ¬ PrunesExactly forkedDatabase 2 (pruneBefore forkedDatabase 2 forkedListing).2 ∧
      ¬ Compacts forkedDatabase true forkedListing := by
  have hget : forkedDatabase.get 1 = .ok [1] := by decide +kernel
  have hnamed : ∀ height, forkedDatabase.heightIndex height ≠ some 1 := by
    intro height hindex
    have hin := (forkedListing.mem_iff height 1).mpr hindex
    simp [forkedListing] at hin
  constructor
  · rw [prunesExactly_iff]
    intro h
    obtain ⟨e, he⟩ : ∃ e, forkedDatabase.hashIndex 1 = some e := ⟨_, rfl⟩
    have hkept : ¬ Kept forkedDatabase 2 1 e := by
      cases he
      decide +kernel
    obtain ⟨height, -, -, hindex⟩ := h.named 1 e he hkept
    exact hnamed height hindex
  · rw [compacts_iff]
    intro h
    obtain ⟨height, hindex⟩ := h.indexed 1 [1] hget
    exact hnamed height hindex

end Coinjecture.Adzdb.Maintenance
