import Coinjecture.Core.Crypto
import Coinjecture.Lib.Trace

/-! # The indexer

The indexer asks the node for its height and for the next blocks, and writes a row for each. The hash of the
last block, which a new one's parent is compared with, is looked for in the answer, where there is none; the
hash in a row is that of the header's JSON. The tables other than that of the blocks, and the saved position,
which is read at a restart, are left out; heights are far from the end of their 64 bits. -/

namespace Coinjecture.ApiServer.Indexer

open Lib.Bincode Lib.Float64 Lib.Trace
open Core.Types Core.Blocks Core.Extern Core.Crypto

/-! ### Answers -/

/-- `serde_json::Value`. -/
inductive Value where
  | null
  | unsigned (n : ℕ)
  | signed (n : ℤ)
  | float (x : F64)
  | string (text : String)
  | array (values : List Value)
  | object (fields : List (String × Value))

namespace Value

def get (key : String) : Value → Option Value
  | object fields => fields.lookup key
  | _ => none

/-- `value[key]`. -/
def field (key : String) (value : Value) : Value := (value.get key).getD null

def asU64 : Value → Option ℕ
  | unsigned n => some n
  | _ => none

end Value

def hexDigit (n : ℕ) : Char := ("0123456789abcdef".toList)[n]?.getD '0'

def hexEncode (bytes : List ℕ) : String :=
  String.ofList (bytes.flatMap fun b => [hexDigit (b / 16), hexDigit (b % 16)])

def hexOfBytes (bytes : Bytes) : String := hexEncode (bytes.map fun b => b.toNat)

def lowercase (text : List Char) : List Char := text.map Char.toLower

def withoutHexMark : List Char → List Char
  | '0' :: 'x' :: text => withoutHexMark text
  | text => text

/-- `normalize_hex_address`, none if it is not the hex of 32 bytes. -/
def normalizeHexAddress (text : String) : Option String :=
  let trimmed := ((text.toList.dropWhile Char.isWhitespace).reverse.dropWhile Char.isWhitespace).reverse
  let t := lowercase (withoutHexMark trimmed)
  if t.length = 64 ∧ t.all fun c => c.isDigit || ('a' ≤ c && c ≤ 'f') then some (String.ofList t) else none

/-- The hex of an array of bytes. -/
def arrayToHex (values : List Value) : Option String :=
  (values.mapM Value.asU64).map fun bytes => hexEncode (bytes.map fun n => n % 256)

def jsonValueToHex : Value → Option String
  | .string text => some ((normalizeHexAddress text).getD (String.ofList (lowercase text.toList)))
  | .array values => arrayToHex values
  | _ => none

def valueToString : Value → Option String
  | .string text => some text
  | .array values => arrayToHex values
  | _ => none

/-- The first field that there is. -/
def stringField (toText : Value → Option String) (value : Value) (keys : List String) : Option String :=
  (keys.findSome? fun key => value.get key).bind toText

def blockHashFromJson (block : Value) : String :=
  ((stringField jsonValueToHex block ["hash", "block_hash"]).or
    ((stringField jsonValueToHex (block.field "header") ["hash"]).or
      (jsonValueToHex ((block.field "header").field "hash")))).getD ""

def parentHashFromJson (block : Value) : String :=
  ((stringField jsonValueToHex block ["parent_hash", "prev_hash"]).or
    ((stringField jsonValueToHex (block.field "header") ["parent_hash", "prev_hash"]).or
      (jsonValueToHex ((block.field "header").field "prev_hash")))).getD ""

/-- `serde_json::to_vec` is a parameter. -/
structure Json where
  ext : Ext
  toVec : Value → Bytes

variable (json : Json)

def headerHashFromJson : Value → Option String
  | .null => none
  | header => some (hexOfBytes (Hash.asBytes ⟨json.ext.blake3 (json.toVec header)⟩))

def blockHeight (block : Value) : Option ℕ :=
  (block.field "height").asU64.or ((block.field "header").field "height").asU64

def blockHash (block : Value) : String :=
  ((stringField valueToString block ["hash", "block_hash"]).or
    ((stringField valueToString (block.field "header") ["hash"]).or
      ((valueToString ((block.field "header").field "hash")).or
        (headerHashFromJson json (block.field "header"))))).getD ""

def parentHash (block : Value) : String :=
  ((stringField valueToString block ["parent_hash", "prev_hash"]).or
    ((stringField valueToString (block.field "header") ["parent_hash", "prev_hash"]).or
      (valueToString ((block.field "header").field "prev_hash")))).getD ""

/-! ### What the node serves -/

def bytesToJson (bytes : Bytes) : Value := .array (bytes.map fun b => .unsigned b.toNat)

def hashToJson (hash : Hash) : Value := bytesToJson hash.asBytes

def integerToJson (i : ℤ) : Value := if 0 ≤ i then .unsigned i.toNat else .signed i

def headerToJson (h : BlockHeader) : Value := .object
  [("version", .unsigned h.version.toNat), ("height", .unsigned h.height.toNat),
    ("prev_hash", hashToJson h.prevHash), ("timestamp", integerToJson h.timestamp.toInt),
    ("transactions_root", hashToJson h.transactionsRoot), ("solutions_root", hashToJson h.solutionsRoot),
    ("commitment", .object
      [("hash", hashToJson h.commitment.hash), ("problem_hash", hashToJson h.commitment.problemHash)]),
    ("work_score", .float h.workScore), ("miner", bytesToJson (Hash.asBytes ⟨h.miner.bytes⟩)),
    ("nonce", .unsigned h.nonce.toNat), ("solve_time_us", .unsigned h.solveTimeUs.toNat),
    ("verify_time_us", .unsigned h.verifyTimeUs.toNat),
    ("time_asymmetry_ratio", .float h.timeAsymmetryRatio), ("solution_quality", .float h.solutionQuality),
    ("complexity_weight", .float h.complexityWeight),
    ("energy_estimate_joules", .float h.energyEstimateJoules)]

/-- A block as `chain_getBlock` serialises it; the parts after the header are any. -/
def blockToJson (header : BlockHeader) (coinbase transactions solutionReveal : Value) : Value := .object
  [("header", headerToJson header), ("coinbase", coinbase), ("transactions", transactions),
    ("solution_reveal", solutionReveal)]

/-! ### The index -/

structure Row where
  hash : String
  parentHash : String
  deriving DecidableEq

structure SyncState where
  lastIndexedHeight : ℕ
  lastIndexedHash : String
  lastFinalizedHeight : ℕ
  deriving DecidableEq

def SyncState.default : SyncState := ⟨0, "", 0⟩

/-- The position and the rows of the blocks by their heights. -/
structure IndexState where
  sync : SyncState
  blocks : List (ℕ × Row)
  deriving DecidableEq

inductive Answer where
  | failed
  | served (block : Value)

/-- The node's answer for a height, and which accesses to the store succeed. -/
structure Call where
  answer : Answer
  blockWritten : Bool
  detailsWritten : Bool
  forkFound : Bool
  rolledBack : Bool
  forkHashLoaded : Bool

structure Round where
  chainTip : Option ℕ
  calls : ℕ → Call

inductive Processed where
  | done
  | heightMissing
  | storeError
  deriving DecidableEq

/-- `process_block`. The hashes in the rows are unique. -/
def processBlock (call : Call) (block : Value) (blocks : List (ℕ × Row)) : Processed × List (ℕ × Row) :=
  match blockHeight block with
  | none => (.heightMissing, blocks)
  | some height =>
    let row : Row := ⟨blockHash json block, parentHash block⟩
    let others := blocks.filter fun e => e.1 ≠ height
    if call.blockWritten = false ∨ row.hash ∈ others.map fun e => e.2.hash then (.storeError, blocks)
    else if call.detailsWritten = false then (.storeError, (height, row) :: others)
    else (.done, (height, row) :: others)

def findForkHeight (parent : String) (blocks : List (ℕ × Row)) : ℕ :=
  if parent = "" then 0 else ((blocks.find? fun e => e.2.hash = parent).map Prod.fst).getD 0

def getBlockHashAtHeight (height : ℕ) (blocks : List (ℕ × Row)) : String :=
  if height = 0 then "" else ((blocks.lookup height).map Row.hash).getD ""

/-- Back to the fork, and whether the store has failed. -/
def rollBack (call : Call) (parent : String) (s : IndexState) : IndexState × Bool :=
  if parent ≠ "" ∧ call.forkFound = false then (s, true)
  else if call.rolledBack = false then (s, true)
  else
    let fork := findForkHeight parent s.blocks
    let blocks := s.blocks.filter fun e => e.1 ≤ fork
    if fork ≠ 0 ∧ call.forkHashLoaded = false then (⟨⟨fork, s.sync.lastIndexedHash, fork⟩, blocks⟩, true)
    else (⟨⟨fork, getBlockHashAtHeight fork blocks, fork⟩, blocks⟩, false)

/-- The loop over the heights, so many from this one on, and whether the store has failed. -/
def indexHeights (chainTip : ℕ) (calls : ℕ → Call) : ℕ → ℕ → IndexState → IndexState × Bool
  | 0, _, s => (s, false)
  | count + 1, height, s =>
    match (calls height).answer with
    | .failed =>
      if chainTip < height ∨ chainTip < s.sync.lastIndexedHeight then (⟨.default, s.blocks⟩, false) else (s, false)
    | .served block =>
      let parent := parentHashFromJson block
      if s.sync.lastIndexedHash ≠ "" ∧ parent ≠ s.sync.lastIndexedHash then rollBack (calls height) parent s
      else match processBlock json (calls height) block s.blocks with
        | (.done, blocks) =>
          indexHeights chainTip calls count (height + 1) ⟨⟨height, blockHashFromJson block, height⟩, blocks⟩
        | (.heightMissing, blocks) => (⟨s.sync, blocks⟩, false)
        | (.storeError, blocks) => (⟨s.sync, blocks⟩, true)

variable (confirmations : ℕ)

def resetIfAhead (chainTip : ℕ) (s : IndexState) : IndexState :=
  if chainTip + 10 < s.sync.lastIndexedHeight then ⟨.default, s.blocks⟩ else s

/-- A round of the loop of `run`, and whether the store has failed in it. -/
def runRound (r : Round) (s : IndexState) : IndexState × Bool :=
  match r.chainTip with
  | none => (s, false)
  | some chainTip =>
    let safeHeight := chainTip - confirmations
    let s := resetIfAhead chainTip s
    let last := s.sync.lastIndexedHeight
    if safeHeight ≤ last then (s, false)
    else indexHeights json chainTip r.calls (min safeHeight (last + 100) - last) (last + 1) s

def machine : Machine Round IndexState where
  next r s := (runRound json confirmations r s).1
  halts _ _ := false

/-- The rows are those of a chain from height 1 to the position. -/
structure Chained (s : IndexState) : Prop where
  rows : ∀ height, (s.blocks.lookup height).isSome ↔ 1 ≤ height ∧ height ≤ s.sync.lastIndexedHeight
  linked : ∀ height row next, s.blocks.lookup height = some row → s.blocks.lookup (height + 1) = some next →
    next.parentHash = row.hash

/-! ### What is read from an answer -/

section Read

variable {json} (header : BlockHeader) (coinbase transactions solutionReveal : Value)

theorem arrayToHex_bytes (bytes : Bytes) : arrayToHex (bytes.map fun b => .unsigned b.toNat) = some (hexOfBytes bytes) := by
  have hread : (bytes.map fun b => Value.unsigned b.toNat).mapM Value.asU64 = some (bytes.map fun b => b.toNat) := by
    induction bytes with
    | nil => rfl
    | cons b bs ih =>
      rw [List.map_cons, List.mapM_cons, ih]
      rfl
  rw [arrayToHex, hread, Option.map_some, hexOfBytes, List.map_map]
  congr 2
  refine List.map_congr_left fun b _ => ?_
  exact Nat.mod_eq_of_lt b.toNat_lt

/-- An answer has no hash of the block. -/
theorem blockHashFromJson_blockToJson :
    blockHashFromJson (blockToJson header coinbase transactions solutionReveal) = "" := rfl

theorem blockHeight_blockToJson :
    blockHeight (blockToJson header coinbase transactions solutionReveal) = some header.height.toNat := rfl

theorem blockHash_blockToJson : blockHash json (blockToJson header coinbase transactions solutionReveal) =
    hexOfBytes (Hash.asBytes ⟨json.ext.blake3 (json.toVec (headerToJson header))⟩) := rfl

theorem parentHash_blockToJson : parentHash (blockToJson header coinbase transactions solutionReveal) =
    hexOfBytes header.prevHash.asBytes := by
  have hfield : parentHash (blockToJson header coinbase transactions solutionReveal) =
      ((arrayToHex (header.prevHash.asBytes.map fun b => .unsigned b.toNat)).or
        (arrayToHex (header.prevHash.asBytes.map fun b => .unsigned b.toNat))).getD "" := rfl
  rw [hfield, arrayToHex_bytes]
  rfl

end Read

end Coinjecture.ApiServer.Indexer
