import Coinjecture.Core.MerkleTree
import Coinjecture.Lib.Effect
import Coinjecture.Tokenomics.Rewards

/-! # Building a block

What a producer makes of a problem and its solution: the commitment, the header with a nonce that meets
the difficulty, the coinbase and the reveal. `buildBlockFromSolution` is the path of the epoch
coordinator; `assembleBlock` is the same part of the miner's own path. The leaves of a producer's
transactions root are the encoded transactions.

`Duration`s are nanoseconds. The quality of a tour over a matrix that is too small is a panic. -/

namespace Coinjecture.Consensus.BlockBuilder

open Lib.Bincode Lib.Effect Lib.Float64
open Core.Types Core.Problem Core.Transactions
open Core.Blocks Core.Extern Core.Crypto
open Core.MerkleTree Tokenomics.Rewards

def HEADER_HASH_HEX_DIGITS : UInt32 := 64

/-- `hex::encode`, each digit as its value. -/
def hexEncode (bytes : Bytes) : List UInt8 := bytes.flatMap fun b => [b / 16, b % 16]

/-- `Duration::as_micros`, in a `u64`. -/
def asMicros (duration : ℕ) : UInt64 := .ofNat (duration / 1000)

/-- `Duration::as_secs_f64`. -/
def asSecsF64 (duration : ℕ) : F64 :=
  (F64.ofNat (duration / 1000000000)).add
    ((F64.ofNat (duration % 1000000000)).div (F64.ofNat 1000000000))

section Build

variable (ext : Ext) (log2 : F64 → F64)

/-- `ProblemType::difficulty_weight`. -/
def difficultyWeight : ProblemType → F64
  | .SubsetSum numbers _ => log2 (F64.ofNat numbers.length)
  | .SAT vars clauses => (F64.ofNat vars.toNat).mul (log2 (F64.ofNat clauses.length))
  | .TSP cities _ => (F64.ofNat cities.toNat).mul (F64.ofNat cities.toNat)
  | .Custom .. => F64.one

/-- The loop over the nonces, from `nonce` on. -/
def searchNonce (digits : ℕ) (header : BlockHeader) : ℕ → UInt64 → Option (BlockHeader × Hash)
  | 0, _ => none
  | rounds + 1, nonce =>
    let tried := { header with nonce := nonce }
    let hash := BlockHeader.hash ext tried
    if (List.replicate digits 0).isPrefixOf (hexEncode hash.asBytes) then some (tried, hash)
    else searchNonce digits header rounds (nonce + 1)

/-- `mine_header_blocking`. -/
def mineHeaderBlocking (header : BlockHeader) (difficulty : UInt32) : Option (BlockHeader × Hash) :=
  searchNonce ext (min difficulty HEADER_HASH_HEX_DIGITS).toNat header (2 ^ 64 - 1) 0

/-- `Miner::merkle_root`. -/
def merkleRoot (transactions : List Transaction) : Hash :=
  if transactions = [] then Hash.ZERO else rootOf ext (transactions.map encode)

/-- What a producer puts into a block. -/
structure Template where
  version : UInt32
  prevHash : Hash
  height : UInt64
  minerAddress : Address
  problem : ProblemType
  solution : Solution
  solveTime : ℕ
  verifyTime : ℕ
  workScore : F64
  parentCumulativeWork : BitVec 128
  difficulty : UInt32
  transactions : List Transaction
  deriving DecidableEq

/-- The header before the nonce is found. `unixNowSecs` is the clock. -/
def Template.header (t : Template) (unixNowSecs : UInt64) (solutionQuality : F64) : BlockHeader where
  version := t.version
  height := t.height
  prevHash := t.prevHash
  timestamp := if t.height = 1 then 1735689601 else unixNowSecs.toInt64
  transactionsRoot := merkleRoot ext t.transactions
  solutionsRoot := Hash.new ext (encode t.solution)
  commitment := Commitment.create ext t.problem t.solution t.prevHash
  workScore := t.workScore
  miner := t.minerAddress
  nonce := 0
  solveTimeUs := asMicros t.solveTime
  verifyTimeUs := .ofNat (max (t.verifyTime / 1000) 1)
  timeAsymmetryRatio := (F64.ofNat (asMicros t.solveTime).toNat).div
    (F64.ofNat (UInt64.ofNat (max (t.verifyTime / 1000) 1)).toNat)
  solutionQuality := solutionQuality
  complexityWeight := difficultyWeight log2 t.problem
  energyEstimateJoules := (F64.ofNat 100).mul (asSecsF64 t.solveTime)

/-- From the commitment to the block. -/
def assembleBlock (unixNowSecs : UInt64) (t : Template) : Except Failure (Option Block) :=
  match t.solution.quality t.problem with
  | none => .error .panic
  | some solutionQuality =>
    .ok <| (mineHeaderBlocking ext (t.header ext log2 unixNowSecs solutionQuality) t.difficulty).map
      fun mined => {
        header := mined.1
        coinbase := ⟨t.minerAddress, calculateBlockReward mined.1.workScore t.parentCumulativeWork,
          t.height⟩
        transactions := t.transactions
        solutionReveal := ⟨t.problem, t.solution, Commitment.create ext t.problem t.solution t.prevHash⟩ }

/-- `build_block_from_solution`: version 1, and 100 µs for the verification. -/
def buildBlockFromSolution (unixNowSecs : UInt64) (prevHash : Hash) (height : UInt64)
    (minerAddress : Address) (problem : ProblemType) (solution : Solution) (solveTime : ℕ)
    (workScoreValue : F64) (parentCumulativeWork : BitVec 128) (difficulty : UInt32)
    (transactions : List Transaction) : Except Failure (Option Block) :=
  if !solution.verify problem then .ok none
  else assembleBlock ext log2 unixNowSecs ⟨1, prevHash, height, minerAddress, problem, solution,
    solveTime, 100000, workScoreValue, parentCumulativeWork, difficulty, transactions⟩

/-! ### What is built -/

variable {ext log2}

theorem searchNonce_spec {digits rounds : ℕ} {header mined : BlockHeader} {nonce : UInt64} {hash : Hash}
    (h : searchNonce ext digits header rounds nonce = some (mined, hash)) :
    (∃ n, mined = { header with nonce := n }) ∧ hash = BlockHeader.hash ext mined ∧
      List.replicate digits 0 <+: hexEncode hash.asBytes := by
  induction rounds generalizing nonce with
  | zero => cases h
  | succ rounds ih =>
    rw [searchNonce] at h
    split_ifs at h with hleads
    · cases h
      exact ⟨⟨nonce, rfl⟩, rfl, List.isPrefixOf_iff_prefix.mp hleads⟩
    · exact ih h

/-- An assembled block has the template's header with some nonce, and its hash has the zeros asked for. -/
theorem assembleBlock_spec {unixNowSecs : UInt64} {t : Template} {block : Block}
    (h : assembleBlock ext log2 unixNowSecs t = .ok (some block)) :
    ∃ solutionQuality nonce, t.solution.quality t.problem = some solutionQuality ∧
      block.header = { t.header ext log2 unixNowSecs solutionQuality with nonce := nonce } ∧
      block.coinbase = ⟨t.minerAddress, calculateBlockReward t.workScore t.parentCumulativeWork,
        t.height⟩ ∧
      block.transactions = t.transactions ∧
      block.solutionReveal = ⟨t.problem, t.solution,
        Commitment.create ext t.problem t.solution t.prevHash⟩ ∧
      List.replicate (min t.difficulty HEADER_HASH_HEX_DIGITS).toNat 0 <+:
        hexEncode (Block.hash ext block).asBytes := by
  unfold assembleBlock at h
  rcases hq : t.solution.quality t.problem with _ | solutionQuality
  · rw [hq] at h
    cases h
  · rw [hq] at h
    simp only [Except.ok.injEq, Option.map_eq_some_iff] at h
    obtain ⟨⟨mined, hash⟩, hmined, rfl⟩ := h
    obtain ⟨⟨nonce, hheader⟩, hhash, hleads⟩ := searchNonce_spec hmined
    have hscore : mined.workScore = t.workScore := by
      rw [hheader]
      rfl
    refine ⟨solutionQuality, nonce, rfl, hheader, ?_, rfl, rfl, ?_⟩
    · rw [hscore]
    · rw [hhash] at hleads
      exact hleads

end Build

end Coinjecture.Consensus.BlockBuilder
