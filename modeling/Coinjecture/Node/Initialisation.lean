import Coinjecture.Node.ChainMetadata

/-! # Opening the chain state

`ChainState::new` issues up to four transactions on a store without a genesis hash: it creates the tables,
writes the metadata, stores the genesis block and indexes it. `commit` notes every state of the database that a
crash may leave. The branch is chosen by the metadata, so a crash right after they are written leaves a chain
whose tip no later call stores.

* `recoverable_iff` : after which crashes a last call yields a chain with its genesis block. -/

namespace Coinjecture.Node.Initialisation

open Lib.Effect Lib.Table Lib.Ancestry
open Lib.Float64 Lib.Saturating
open Core.Types Core.Blocks Core.Extern
open Core.Crypto
open Node.Chain

/-! ### The database -/

/-- The entries of the metadata table. -/
structure MetadataTable where
  genesisHash : Option Hash
  bestHeight : Option UInt64
  bestHash : Option Hash
  cumWork : Option (BitVec 128)
  totalMinted : Option (BitVec 128)

/-- The three tables, and whether they have been created. -/
structure Database (ext : Ext) where
  created : Bool
  blocks : Keyed (Block.hash ext)
  metadata : MetadataTable
  heightIndex : UInt64 → Option Hash

/-- A database, and the states it went through since it was opened. -/
structure Session (ext : Ext) where
  db : Database ext
  commits : List (Database ext)

inductive NewError where
  | GenesisMismatch
  | BlockNotFound
  | Endless
  deriving DecidableEq

variable {ext : Ext}

/-- The database of a fresh store. -/
def fresh : Database ext := ⟨false, Keyed.empty, ⟨none, none, none, none, none⟩, fun _ => none⟩

/-- A write transaction. -/
def commit (f : Database ext → Database ext) : Exec NewError (Session ext) Unit :=
  modify fun session => ⟨f session.db, session.commits ++ [f session.db]⟩

/-- The tip is the genesis block. -/
def tipAtGenesis (ext : Ext) (genesisBlock : Block) (metadata : MetadataTable) : MetadataTable :=
  { metadata with
    bestHeight := some 0
    bestHash := some (Block.hash ext genesisBlock)
    cumWork := some (truncatedWork genesisBlock)
    totalMinted := some genesisBlock.coinbase.reward }

/-! ### The code -/

def createTables (db : Database ext) : Database ext := { db with created := true }

def writeGenesisMetadata (genesisBlock : Block) (db : Database ext) : Database ext :=
  { db with
    metadata := { tipAtGenesis ext genesisBlock db.metadata with genesisHash := some (Block.hash ext genesisBlock) } }

/-- `store_block_raw`. -/
def writeGenesisBlock (genesisBlock : Block) (db : Database ext) : Database ext :=
  { db with blocks := db.blocks.insert genesisBlock }

/-- `set_height_index`. -/
def writeGenesisIndex (genesisBlock : Block) (db : Database ext) : Database ext :=
  { db with heightIndex := Function.update db.heightIndex 0 (some (Block.hash ext genesisBlock)) }

/-- The sum of `f` over the stored blocks from `tip` to the one at height 0. -/
def sumTipDb (f : Block → BitVec 128) (tip : Hash) (db : Database ext) : Except NewError (BitVec 128) :=
  match walk parentHash AtHeightZero db.blocks WALK_LIMIT tip with
  | .found blocks => .ok (blocks.foldl (fun sum block => satAdd sum (f block)) 0)
  | .missing => .error .BlockNotFound
  | .endless => .error .Endless

/-- `ensure_cumulative_work_meta`. -/
def ensureCumulativeWorkMeta (tip : Hash) : Exec NewError (Session ext) Unit := do
  let db ← gets Session.db
  if db.metadata.cumWork.isSome then pure ()
  else match sumTipDb truncatedWork tip db with
    | .ok sum => commit fun db => { db with metadata := { db.metadata with cumWork := some sum } }
    | .error e => throw e

/-- `ensure_total_minted_meta`: an error of the walk counts as the reward of the genesis block. A walk without
an end does not return. -/
def ensureTotalMintedMeta (tip : Hash) (genesisBlock : Block) : Exec NewError (Session ext) Unit := do
  let db ← gets Session.db
  if db.metadata.totalMinted.isSome then pure ()
  else match sumTipDb (fun block => block.coinbase.reward) tip db with
    | .ok sum => commit fun db => { db with metadata := { db.metadata with totalMinted := some sum } }
    | .error .Endless => throw .Endless
    | .error _ =>
      commit fun db => { db with metadata := { db.metadata with totalMinted := some genesisBlock.coinbase.reward } }

/-- The first branch of `new`: the genesis hash is looked up, and the genesis block stored where it is not there. -/
def storeGenesis (genesisBlock : Block) : Exec NewError (Session ext) Unit := do
  match (← gets Session.db).metadata.genesisHash with
  | some storedHash => throwIf (storedHash ≠ Block.hash ext genesisBlock) .GenesisMismatch
  | none =>
    commit (writeGenesisMetadata genesisBlock)
    commit (writeGenesisBlock genesisBlock)
    commit (writeGenesisIndex genesisBlock)

/-- `ChainState::new`. -/
def new (genesisBlock : Block) : Exec NewError (Session ext) (ChainState ext) := do
  let genesisHash := Block.hash ext genesisBlock
  commit createTables
  storeGenesis genesisBlock
  let stored ← gets fun session => session.db.metadata
  let corrupt := MAX_REASONABLE_HEIGHT < stored.bestHeight.getD 0
  let bestHeight := if corrupt then 0 else stored.bestHeight.getD 0
  let bestHash := if corrupt then genesisHash else stored.bestHash.getD genesisHash
  if corrupt then commit fun db => { db with metadata := tipAtGenesis ext genesisBlock db.metadata }
  ensureCumulativeWorkMeta bestHash
  ensureTotalMintedMeta bestHash genesisBlock
  let db ← gets Session.db
  pure
    { blocks := db.blocks
      heightIndex := db.heightIndex
      metadata :=
        { bestHeight := db.metadata.bestHeight.getD 0
          bestHash := db.metadata.bestHash.getD Hash.ZERO
          cumWork := db.metadata.cumWork.getD 0
          totalMinted := db.metadata.totalMinted.getD 0 }
      bestHeight := bestHeight
      bestHash := bestHash
      genesisHash := genesisHash }

/-- What a call that is cut after `k` of its transactions leaves. -/
def crashed (genesisBlock : Block) (db : Database ext) (k : ℕ) : Database ext :=
  let session := (run (new genesisBlock) ⟨db, []⟩).2
  ((db :: session.commits).take (k + 1)).getLastD db

/-! ### Crashes on a fresh store -/

/-- A fresh store after the first `n` transactions. -/
def written (ext : Ext) (genesisBlock : Block) (n : ℕ) : Database ext :=
  ([createTables, writeGenesisMetadata genesisBlock, writeGenesisBlock genesisBlock,
    writeGenesisIndex genesisBlock].take n).foldl (fun db f => f db) fresh

/-- The chain state at the genesis block over the tables of `db`. -/
def opened (genesisBlock : Block) (db : Database ext) : ChainState ext where
  blocks := db.blocks
  heightIndex := db.heightIndex
  metadata := ⟨0, Block.hash ext genesisBlock, truncatedWork genesisBlock, genesisBlock.coinbase.reward⟩
  bestHeight := 0
  bestHash := Block.hash ext genesisBlock
  genesisHash := Block.hash ext genesisBlock

section Crashes

variable {genesisBlock : Block} {db : Database ext}

@[simp] theorem run_commit_bind {α : Type} (f : Database ext → Database ext) (g : Unit → Exec NewError (Session ext) α)
    (session : Session ext) :
    run (commit f >>= g) session = run (g ()) ⟨f session.db, session.commits ++ [f session.db]⟩ :=
  run_modify_bind ..

/-- The rest of a call, where the metadata say that the tip is the genesis block. -/
theorem run_storeGenesis_some (h : db.metadata.genesisHash = some (Block.hash ext genesisBlock))
    (commits : List (Database ext)) : run (storeGenesis genesisBlock) ⟨db, commits⟩ = (.ok (), ⟨db, commits⟩) := by
  rw [storeGenesis, run_gets_bind]
  simp only [h]
  rw [throwIf, if_neg (not_not.mpr rfl), run_pure]

theorem run_storeGenesis_none (h : db.metadata.genesisHash = none) (commits : List (Database ext)) :
    run (storeGenesis genesisBlock) ⟨db, commits⟩ =
      (.ok (), ⟨writeGenesisIndex genesisBlock (writeGenesisBlock genesisBlock (writeGenesisMetadata genesisBlock db)),
        commits ++ [writeGenesisMetadata genesisBlock db,
          writeGenesisBlock genesisBlock (writeGenesisMetadata genesisBlock db),
          writeGenesisIndex genesisBlock (writeGenesisBlock genesisBlock (writeGenesisMetadata genesisBlock db))]⟩) := by
  rw [storeGenesis, run_gets_bind]
  simp only [h]
  rw [run_commit_bind, run_commit_bind]
  simp only [commit, run_modify, List.append_assoc, List.cons_append, List.nil_append]

/-- The metadata after a transaction that writes them. -/
def AtGenesis (genesisBlock : Block) (db : Database ext) : Prop :=
  db.metadata = { tipAtGenesis ext genesisBlock db.metadata with genesisHash := some (Block.hash ext genesisBlock) }

/-- What follows in a call once the metadata are there: nothing more is written. -/
theorem run_new_of_storeGenesis {db' : Database ext} {commits : List (Database ext)}
    (h : run (storeGenesis genesisBlock) ⟨createTables db, [createTables db]⟩ = (.ok (), ⟨db', commits⟩))
    (hat : AtGenesis genesisBlock db') :
    run (new genesisBlock) ⟨db, []⟩ = (.ok (opened genesisBlock db'), ⟨db', commits⟩) := by
  have hheight : db'.metadata.bestHeight = some 0 := by rw [hat]; rfl
  have hhash : db'.metadata.bestHash = some (Block.hash ext genesisBlock) := by rw [hat]; rfl
  have hwork : db'.metadata.cumWork = some (truncatedWork genesisBlock) := by rw [hat]; rfl
  have hminted : db'.metadata.totalMinted = some genesisBlock.coinbase.reward := by rw [hat]; rfl
  have hreasonable : ¬MAX_REASONABLE_HEIGHT < (0 : UInt64) := by decide
  rw [new, run_commit_bind, List.nil_append, run_bind_ok h, run_gets_bind]
  simp only [hheight, hhash, Option.getD_some, if_neg hreasonable, pure_bind, ensureCumulativeWorkMeta,
    ensureTotalMintedMeta, bind_assoc, run_gets_bind, hwork, hminted, Option.isSome_some, if_true, run_pure]
  rfl

/-- A call on a store without metadata issues four transactions. -/
theorem run_new_fresh {n : ℕ} (hn : n ≤ 1) : run (new genesisBlock) ⟨written ext genesisBlock n, []⟩ =
    (.ok (opened genesisBlock (written ext genesisBlock 4)), ⟨written ext genesisBlock 4,
      [written ext genesisBlock 1, written ext genesisBlock 2, written ext genesisBlock 3, written ext genesisBlock 4]⟩) := by
  obtain rfl | rfl : n = 0 ∨ n = 1 := by omega
  · exact run_new_of_storeGenesis (run_storeGenesis_none rfl _) rfl
  · exact run_new_of_storeGenesis (run_storeGenesis_none rfl _) rfl

/-- On a fresh store a call opens the chain state that the other modules start from. -/
theorem run_new : (run (new genesisBlock) ⟨(fresh : Database ext), []⟩).1 = .ok (ChainState.new genesisBlock) := by
  have h : run (new genesisBlock) ⟨(fresh : Database ext), []⟩ = _ := run_new_fresh (Nat.zero_le 1)
  rw [h]
  rfl

theorem written_of_le {n : ℕ} (hn : 4 ≤ n) : written ext genesisBlock n = written ext genesisBlock 4 := by
  rw [written, List.take_of_length_le hn]
  rfl

/-- A call that finds the metadata leaves the database as it is. -/
theorem run_new_written {n : ℕ} (hn : 2 ≤ n) : run (new genesisBlock) ⟨written ext genesisBlock n, []⟩ =
    (.ok (opened genesisBlock (written ext genesisBlock n)), ⟨written ext genesisBlock n, [written ext genesisBlock n]⟩) := by
  have hstage : n = 2 ∨ n = 3 ∨ 4 ≤ n := by omega
  rcases hstage with rfl | rfl | hn
  · exact run_new_of_storeGenesis (run_storeGenesis_some rfl _) rfl
  · exact run_new_of_storeGenesis (run_storeGenesis_some rfl _) rfl
  · rw [written_of_le hn]
    exact run_new_of_storeGenesis (run_storeGenesis_some rfl _) rfl

/-- What a crash leaves: once the metadata are there, the rest is never written. -/
theorem crashed_written (n k : ℕ) : crashed genesisBlock (written ext genesisBlock n) k =
    written ext genesisBlock (if 2 ≤ n then n else max n k) := by
  rw [crashed]
  split_ifs with hn
  · rw [run_new_written hn]
    cases k with
    | zero => rfl
    | succ k => cases k <;> rfl
  · have hlast (k : ℕ) (hk : 4 ≤ k) : written ext genesisBlock (max n k) = written ext genesisBlock 4 := by
      rw [Nat.max_eq_right (by omega), written_of_le hk]
    rw [run_new_fresh (by omega)]
    obtain rfl | rfl : n = 0 ∨ n = 1 := by omega
    · match k with
      | 0 => rfl
      | 1 => rfl
      | 2 => rfl
      | 3 => rfl
      | k + 4 =>
        rw [hlast _ (by omega), List.take_of_length_le (by simp)]
        rfl
    · match k with
      | 0 => rfl
      | 1 => rfl
      | 2 => rfl
      | 3 => rfl
      | k + 4 =>
        rw [hlast _ (by omega), List.take_of_length_le (by simp)]
        rfl

/-- A store after calls that each crashed, after so many transactions. -/
def crashes (ext : Ext) (genesisBlock : Block) (cuts : List ℕ) : Database ext :=
  cuts.foldl (crashed genesisBlock) fresh

theorem crashes_eq (cuts : List ℕ) : ∃ n, crashes ext genesisBlock cuts = written ext genesisBlock n ∧
    (n = 2 ↔ cuts.find? (2 ≤ ·) = some 2) := by
  have hlate (cuts : List ℕ) {n : ℕ} (hn : 2 ≤ n) :
      cuts.foldl (crashed genesisBlock) (written ext genesisBlock n) = written ext genesisBlock n := by
    induction cuts with
    | nil => rfl
    | cons k cuts ih => rw [List.foldl_cons, crashed_written, if_pos hn, ih]
  have hearly {n : ℕ} (hn : n < 2) : ∃ m, cuts.foldl (crashed genesisBlock) (written ext genesisBlock n) =
      written ext genesisBlock m ∧ (m = 2 ↔ cuts.find? (2 ≤ ·) = some 2) := by
    induction cuts generalizing n with
    | nil => exact ⟨n, rfl, by simp; omega⟩
    | cons k cuts ih =>
      rw [List.foldl_cons, crashed_written, if_neg (by omega)]
      by_cases hk : 2 ≤ k
      · rw [Nat.max_eq_right (by omega), hlate cuts hk, List.find?_cons_of_pos (by simpa using hk)]
        exact ⟨k, rfl, by simp⟩
      · rw [List.find?_cons_of_neg (by simpa using hk)]
        exact ih (by omega)
  exact hearly Nat.zero_lt_two

/-- The genesis block is there, and a block at height 1 on it can be stored and is then found. -/
def Usable (genesisBlock : Block) (s : ChainState ext) : Prop :=
  s.getCanonicalBlockByHeight 0 = some genesisBlock ∧
    ∀ block, block.header.height = 1 → block.header.prevHash = Block.hash ext genesisBlock →
      (run (ChainState.storeBlock block) s).1 = .ok true ∧
        (run (ChainState.storeBlock block) s).2.getCanonicalBlockByHeight 1 = some block

/-- A call after the crashes opens a chain that can be used. -/
def Recoverable (ext : Ext) (genesisBlock : Block) (cuts : List ℕ) : Prop :=
  ∃ s, (run (new genesisBlock) ⟨crashes ext genesisBlock cuts, []⟩).1 = .ok s ∧ Usable genesisBlock s

theorem usable_opened (n : ℕ) : Usable genesisBlock (opened genesisBlock (written ext genesisBlock n)) ↔ 3 ≤ n := by
  have hblocks : (written ext genesisBlock n).blocks = if 3 ≤ n then Keyed.empty.insert genesisBlock else Keyed.empty := by
    have hstage : n = 0 ∨ n = 1 ∨ n = 2 ∨ n = 3 ∨ 4 ≤ n := by omega
    rcases hstage with rfl | rfl | rfl | rfl | hn
    · rfl
    · rfl
    · rfl
    · rfl
    · rw [written_of_le hn, if_pos (by omega)]
      rfl
  have hfind : (opened genesisBlock (written ext genesisBlock n)).getCanonicalBlockByHeight 0 =
      (written ext genesisBlock n).blocks.get (Block.hash ext genesisBlock) := rfl
  rw [Usable, hfind, hblocks]
  split_ifs with hn
  · refine iff_of_true ⟨Keyed.get_insert_self .., fun block hheight hprev => ?_⟩ hn
    have hreasonable : ¬MAX_REASONABLE_HEIGHT < block.header.height := by rw [hheight]; decide
    have hextends : Extends block (opened genesisBlock (written ext genesisBlock n)) :=
      ⟨by rw [hheight]; exact UInt64.lt_iff_toNat_lt.mpr Nat.zero_lt_one, hprev⟩
    rw [run_storeBlock, if_neg hreasonable, if_pos hextends]
    refine ⟨rfl, ?_⟩
    rw [ChainState.getCanonicalBlockByHeight, ChainState.extendTip]
    simp only [hheight, UInt64.lt_irrefl, if_false, Nat.sub_self]
    exact Keyed.get_insert_self ..
  · exact iff_of_false (fun h => by cases h.1) hn

/-- A last call recovers the chain exactly if the first crash after the metadata were written was not right after
that. -/
theorem recoverable_iff (ext : Ext) (genesisBlock : Block) (cuts : List ℕ) :
    Recoverable ext genesisBlock cuts ↔ cuts.find? (2 ≤ ·) ≠ some 2 := by
  obtain ⟨n, hcrashes, hn⟩ := @crashes_eq ext genesisBlock cuts
  rw [Recoverable, hcrashes, ne_eq, ← not_congr hn]
  by_cases hmeta : 2 ≤ n
  · rw [run_new_written hmeta]
    simp only [Except.ok.injEq, exists_eq_left', usable_opened]
    omega
  · rw [run_new_fresh (by omega)]
    simp only [Except.ok.injEq, exists_eq_left', usable_opened]
    omega

/-- A crash right after the metadata of the genesis block are written. -/
theorem not_recoverable : ¬Recoverable ChainMetadata.chainExt ChainMetadata.block0 [2] := by
  rintro ⟨s, hs, hgenesis, -⟩
  have hresult : (run (new ChainMetadata.block0) ⟨crashes ChainMetadata.chainExt ChainMetadata.block0 [2], []⟩).1 =
      .ok (opened ChainMetadata.block0 (written ChainMetadata.chainExt ChainMetadata.block0 2)) := by
    have hcut : crashes ChainMetadata.chainExt ChainMetadata.block0 [2] =
        written ChainMetadata.chainExt ChainMetadata.block0 2 := crashed_written 0 2
    rw [hcut, run_new_written le_rfl]
  rw [hresult] at hs
  obtain rfl := Except.ok.inj hs
  cases hgenesis

end Crashes

end Coinjecture.Node.Initialisation
