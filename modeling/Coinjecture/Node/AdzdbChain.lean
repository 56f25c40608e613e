import Coinjecture.Adzdb.Store
import Coinjecture.Node.Chain

/-! # The chain state over ADZDB

`AdzdbChainState` keeps the blocks in an ADZDB database under their header hash and the best tip in
memory. A block that is higher than the tip is the new tip, whatever its parent. When the store is
opened the tip is the latest height of the database with the hash that its height index gives. -/

namespace Coinjecture.Node.AdzdbChain

open Lib.Bincode Lib.Saturating
open Core.Types Core.Blocks Core.Extern Core.Crypto
open Adzdb
open Node.Chain hiding ChainError ChainState

/-- `bincode::serialize` and `bincode::deserialize` on blocks. -/
structure BlockCodec where
  serialize : Block → Bytes
  deserialize : Bytes → Option Block

/-- `ChainError` of this backend; `Endless` stands for a walk that does not return. -/
inductive ChainError where
  | AdzdbError (e : Store.Error)
  | BlockNotFound
  | SerializationError
  | GenesisMismatch
  | Endless
  deriving DecidableEq

structure AdzdbChainState where
  db : Store.Database
  bestHeight : UInt64
  bestHash : Hash
  bestCumulativeWork : BitVec 128
  bestTotalMintedRewards : BitVec 128
  genesisHash : Hash

namespace AdzdbChainState

variable (ext : Ext) (codec : BlockCodec)

/-- The block in the database under a hash. -/
def loadBlock (db : Store.Database) (hash : Hash) : Except ChainError Block :=
  match db.get hash.bytes with
  | .error .notFound => .error .BlockNotFound
  | .error e => .error (.AdzdbError e)
  | .ok bytes =>
    match codec.deserialize bytes with
    | none => .error .SerializationError
    | some block => .ok block

/-- The loop of `compute_cumulative_tip_work` and `compute_total_minted_tip`. -/
def sumTip (f : Block → BitVec 128) (db : Store.Database) :
    ℕ → Hash → BitVec 128 → Except ChainError (BitVec 128)
  | 0, _, _ => .error .Endless
  | n + 1, tip, sum =>
    match loadBlock codec db tip with
    | .error e => .error e
    | .ok block =>
      if block.header.height = 0 then .ok (satAdd sum (f block))
      else sumTip f db n block.header.prevHash (satAdd sum (f block))

def computeCumulativeTipWork (db : Store.Database) (tip : Hash) : Except ChainError (BitVec 128) :=
  sumTip codec truncatedWork db WALK_LIMIT tip 0

def computeTotalMintedTip (db : Store.Database) (tip : Hash) : Except ChainError (BitVec 128) :=
  sumTip codec (fun block => block.coinbase.reward) db WALK_LIMIT tip 0

/-- Verify the genesis block of the database, or store it. -/
def checkGenesis (genesisBlock : Block) (db : Store.Database) : Except ChainError Store.Database :=
  match db.heightIndex 0 with
  | some storedGenesisHash =>
    if storedGenesisHash ≠ (Block.hash ext genesisBlock).bytes then .error .GenesisMismatch else .ok db
  | none =>
    match db.put ⟨(Block.hash ext genesisBlock).bytes, 0, codec.serialize genesisBlock⟩ with
    | (.error e, _) => .error (.AdzdbError e)
    | (.ok (), db) => .ok db

/-- The hash of the tip when the database is loaded. -/
def loadBestHash (genesisBlock : Block) (db : Store.Database) : Except ChainError Hash :=
  if 0 < db.metadata.latestHeight then
    match db.heightIndex db.metadata.latestHeight with
    | none => .error (.AdzdbError .notFound)
    | some hash => .ok ⟨hash⟩
  else .ok (Block.hash ext genesisBlock)

/-- `AdzdbChainState::new` on the database that was created or opened. -/
def load (genesisBlock : Block) (db : Store.Database) : Except ChainError AdzdbChainState := do
  let db ← checkGenesis ext codec genesisBlock db
  let bestHash ← loadBestHash ext genesisBlock db
  .ok {
    db := db
    bestHeight := db.metadata.latestHeight
    bestHash := bestHash
    bestCumulativeWork := (computeCumulativeTipWork codec db bestHash).toOption.getD 0
    bestTotalMintedRewards :=
      (computeTotalMintedTip codec db bestHash).toOption.getD genesisBlock.coinbase.reward
    genesisHash := Block.hash ext genesisBlock }

/-- `AdzdbChainState::new` where there is no database yet. -/
def create (genesisBlock : Block) : Except ChainError AdzdbChainState :=
  load ext codec genesisBlock (Store.create true)

/-- `AdzdbChainState::new` on the files of a database. -/
def openFiles (genesisBlock : Block) (files : Store.Files) : Except ChainError AdzdbChainState :=
  match Store.openFiles true files with
  | .error e => .error (.AdzdbError e)
  | .ok db => load ext codec genesisBlock db

/-- `AdzdbChainState::store_block`. -/
def storeBlock (block : Block) (s : AdzdbChainState) : Except ChainError Bool × AdzdbChainState :=
  match s.db.put ⟨(Block.hash ext block).bytes, block.header.height, codec.serialize block⟩ with
  | (.error e, _) => (.error (.AdzdbError e), s)
  | (.ok (), db) =>
    if s.bestHeight < block.header.height then
      (.ok true, { s with
        db := db
        bestHeight := block.header.height
        bestHash := Block.hash ext block
        bestCumulativeWork :=
          (computeCumulativeTipWork codec db (Block.hash ext block)).toOption.getD 0
        bestTotalMintedRewards :=
          (computeTotalMintedTip codec db (Block.hash ext block)).toOption.getD 0 })
    else (.ok false, { s with db := db })

def getBlockByHash (hash : Hash) (s : AdzdbChainState) : Except ChainError (Option Block) :=
  match loadBlock codec s.db hash with
  | .error .BlockNotFound => .ok none
  | .error e => .error e
  | .ok block => .ok (some block)

/-- The walk of `get_block_by_height`: `n` blocks back from `hash`. -/
def blockBack (s : AdzdbChainState) : ℕ → Hash → Except ChainError (Option Block)
  | 0, hash => getBlockByHash codec hash s
  | n + 1, hash =>
    match getBlockByHash codec hash s with
    | .error e => .error e
    | .ok none => .ok none
    | .ok (some block) => blockBack s n block.header.prevHash

def getBlockByHeight (height : UInt64) (s : AdzdbChainState) : Except ChainError (Option Block) :=
  if s.bestHeight < height then .ok none
  else blockBack codec s (s.bestHeight.toNat - height.toNat) s.bestHash

end AdzdbChainState

/-! ### What the calls do -/

section Spec

open AdzdbChainState

variable {ext : Ext} {codec : BlockCodec} {block : Block} {s : AdzdbChainState}

/-- The `put` of a block. -/
abbrev blockPut (ext : Ext) (codec : BlockCodec) (block : Block) : Store.Put :=
  ⟨(Block.hash ext block).bytes, block.header.height, codec.serialize block⟩

theorem checkGenesis_of_put {genesisBlock : Block} {db db' : Store.Database}
    (hnone : db.heightIndex 0 = none)
    (hput : db.put ⟨(Block.hash ext genesisBlock).bytes, 0, codec.serialize genesisBlock⟩ =
      (.ok (), db')) : checkGenesis ext codec genesisBlock db = .ok db' := by
  rw [checkGenesis, hnone]
  dsimp only
  rw [hput]

theorem checkGenesis_of_stored {genesisBlock : Block} {db : Store.Database}
    (h : db.heightIndex 0 = some (Block.hash ext genesisBlock).bytes) :
    checkGenesis ext codec genesisBlock db = .ok db := by
  rw [checkGenesis, h]
  exact if_neg (not_not.mpr rfl)

theorem storeBlock_of_tooHigh (h : Store.MAX_REASONABLE_HEIGHT < block.header.height) :
    (storeBlock ext codec block s).2 = s := by
  have hput : s.db.put (blockPut ext codec block) =
      (.error (.heightTooLarge block.header.height), s.db) := if_pos h
  rw [storeBlock, hput]

variable (ext codec s) in
/-- A block is put into the database, and is the tip if it is higher. -/
theorem storeBlock_frame (h : ¬ Store.MAX_REASONABLE_HEIGHT < block.header.height) :
    (storeBlock ext codec block s).2.db = (s.db.put (blockPut ext codec block)).2 ∧
      (storeBlock ext codec block s).2.bestHeight =
        (if s.bestHeight < block.header.height then block.header.height else s.bestHeight) ∧
      (storeBlock ext codec block s).2.bestHash =
        if s.bestHeight < block.header.height then Block.hash ext block else s.bestHash := by
  have hput : (s.db.put (blockPut ext codec block)).1 = .ok () := by
    rw [Store.Database.put, if_neg h]
    split_ifs <;> rfl
  rw [storeBlock]
  rcases hdb : s.db.put (blockPut ext codec block) with ⟨_ | _, db⟩
  · rw [hdb] at hput
    cases hput
  · dsimp only
    split_ifs <;> exact ⟨rfl, rfl, rfl⟩

end Spec

end Coinjecture.Node.AdzdbChain
