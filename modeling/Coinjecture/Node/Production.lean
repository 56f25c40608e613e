import Coinjecture.Consensus.BlockBuilder
import Coinjecture.Core.Validation
import Coinjecture.Node.MerkleProofs

/-! # Producing blocks and accepting them

A block comes from the miner or from the epoch coordinator's builder. What they compute of their
transactions is not what `Block::verify` computes.

* `produced_accepted_iff` : a block that was produced from valid transactions is accepted exactly if it has
  none, its metrics are in range, and the difficulty in force can be met at all. -/

namespace Coinjecture.Node.Production

open Lib.Bincode Lib.Effect Lib.Float64
open Core.Types Core.Problem Core.Transactions
open Core.Blocks Core.Extern Core.Crypto
open Core.MerkleTree Core.Validation
open Consensus.BlockBuilder
open Tokenomics.Rewards
open Node.Validator (BlockValidator validateBlockWithOptions_ok leadingZeros hexDigits)
open Node.Validator.Sample (parent problem solution problemHash solutionHash commitment
  aliceKey carol aliceTransfer)

/-! ### The producers -/

def MIN_VERIFY_TIME_SECS : F64 := ⟨0x3EB0C6F7A0B5ED8D⟩

def MIN_ASYMMETRY_RATIO : F64 := ⟨0x4000000000000000⟩

structure MiningConfig where
  minerAddress : Address
  goldenActivationHeight : UInt64
  deriving DecidableEq

/-- `block_version_for_height`. -/
def MiningConfig.blockVersionForHeight (height : UInt64) (config : MiningConfig) : UInt32 :=
  if 0 < config.goldenActivationHeight ∧ height < config.goldenActivationHeight then 1 else 2

/-- What a block is produced for. -/
structure Job where
  prevHash : Hash
  height : UInt64
  problem : ProblemType
  solution : Solution
  solveTime : ℕ
  parentCumulativeWork : BitVec 128
  difficulty : UInt32
  transactions : List Transaction
  deriving DecidableEq

section Produce

variable (ext : Ext) (log2 : F64 → F64)

/-- `WorkScoreCalculator::calculate`. -/
def calculate (solveTime verifyTime : ℕ) (qualityScore : F64) : F64 :=
  if qualityScore.le F64.zero then F64.zero
  else
    let verifySecs := (asSecsF64 verifyTime).max MIN_VERIFY_TIME_SECS
    let asymmetryRatio := (asSecsF64 solveTime).div verifySecs
    if asymmetryRatio.lt MIN_ASYMMETRY_RATIO then F64.zero
    else ((log2 asymmetryRatio).mul (qualityScore.clamp F64.zero F64.one)).max F64.zero

/-- `calculate_from_solution`, if the quality does not panic. -/
def calculateFromSolution (problem : ProblemType) (solution : Solution) (solveTime verifyTime : ℕ) : F64 :=
  (solution.quality problem).elim F64.zero (calculate log2 solveTime verifyTime)

/-- `Miner::mine_block` once the problem is solved: it is verified in `verifyTime`. -/
def mineBlock (unixNowSecs : UInt64) (config : MiningConfig) (verifyTime : ℕ) (job : Job) :
    Except Failure (Option Block) :=
  if !job.solution.verify job.problem then .ok none
  else assembleBlock ext log2 unixNowSecs
    { version := config.blockVersionForHeight job.height
      prevHash := job.prevHash
      height := job.height
      minerAddress := config.minerAddress
      problem := job.problem
      solution := job.solution
      solveTime := job.solveTime
      verifyTime := verifyTime
      workScore := calculateFromSolution log2 job.problem job.solution job.solveTime verifyTime
      parentCumulativeWork := job.parentCumulativeWork
      difficulty := job.difficulty
      transactions := job.transactions }

/-- The two ways to a block: the miner's, and the coordinator's with the address and the work score it is
given. -/
inductive Path where
  | miner (config : MiningConfig) (verifyTime : ℕ)
  | builder (minerAddress : Address) (workScoreValue : F64)
  deriving DecidableEq

def produce (unixNowSecs : UInt64) (path : Path) (job : Job) : Except Failure (Option Block) :=
  match path with
  | .miner config verifyTime => mineBlock ext log2 unixNowSecs config verifyTime job
  | .builder minerAddress workScoreValue =>
    buildBlockFromSolution ext log2 unixNowSecs job.prevHash job.height minerAddress job.problem
      job.solution job.solveTime workScoreValue job.parentCumulativeWork job.difficulty job.transactions

/-! ### Acceptance -/

/-- `Block::verify` and the validator accept the block, as the next one after its parent. -/
def Accepted (now : Int64) (minDifficulty : UInt32) (job : Job) (block : Block) : Prop :=
  Block.verify ext now block = true ∧
    (BlockValidator.new minDifficulty).validateBlockWithOptions ext now block job.prevHash job.height
      false (some job.parentCumulativeWork) = .ok ()

/-- The timestamp is neither negative nor too far in the future. -/
def TimestampInRange (now : Int64) (block : Block) : Prop :=
  ¬ block.header.timestamp < 0 ∧ ¬ now + MAX_FUTURE_DRIFT_SECS < block.header.timestamp

/-- BLAKE3 takes no two strings to one, of those hashed for the two roots. -/
def DigestsDistinct (transactions : List Transaction) : Prop :=
  ∀ x ∈ hashedFor ext transactions.length (transactions.map encode),
    ∀ y ∈ hashedFor ext transactions.length
      (transactions.map fun tx => (Transaction.hash ext tx).asBytes), ext.blake3 x = ext.blake3 y → x = y

def Path.verifyTime : Path → ℕ
  | .miner _ verifyTime => verifyTime
  | .builder .. => 100000

def Path.workScore (job : Job) : Path → F64
  | .miner _ verifyTime => calculateFromSolution log2 job.problem job.solution job.solveTime verifyTime
  | .builder _ workScoreValue => workScoreValue

/-- Finite and not negative. -/
def InRange (x : F64) : Prop := x.isFinite = true ∧ x.lt F64.zero = false

instance (x : F64) : Decidable (InRange x) := inferInstanceAs (Decidable (_ ∧ _))

/-- The metrics that go into the header. -/
structure MetricsInRange (path : Path) (job : Job) : Prop where
  workScore : InRange (path.workScore log2 job)
  timeAsymmetry : ((F64.ofNat (asMicros job.solveTime).toNat).div
    (F64.ofNat (UInt64.ofNat (max (path.verifyTime / 1000) 1)).toNat)).isFinite = true
  quality : ∀ q ∈ job.solution.quality job.problem,
    q.isFinite = true ∧ F64.zero.le q = true ∧ q.le F64.one = true
  complexity : InRange (difficultyWeight log2 job.problem)
  energy : InRange ((F64.ofNat 100).mul (asSecsF64 job.solveTime))

end Produce

/-! ### The transactions root -/

section Roots

variable {ext : Ext} {transactions : List Transaction}

/-- The root of the producers and that of `Block::verify` differ, unless there is nothing to hash. -/
theorem merkleRoot_eq_iff (h : DigestsDistinct ext transactions) :
    calculateTransactionsRoot ext transactions = merkleRoot ext transactions ↔ transactions = [] := by
  constructor
  · intro heq
    by_contra hne
    rw [merkleRoot, if_neg hne, calculateTransactionsRoot] at heq
    have hleaves : transactions.map encode =
        transactions.map fun tx => (Transaction.hash ext tx).asBytes := by
      refine eq_of_rootOf_eq ext (by rw [List.length_map, List.length_map]) ?_ heq.symm
      rw [List.length_map]
      exact h
    obtain ⟨tx, rest, rfl⟩ := List.exists_cons_of_ne_nil hne
    have hfirst : encode tx = (Transaction.hash ext tx).asBytes := (List.cons.inj hleaves).1
    have hlong := MerkleProofs.lt_length_encode tx
    have hshort : (Transaction.hash ext tx).asBytes.length = 32 := by simp [Hash.asBytes, beBytes]
    rw [hfirst, hshort] at hlong
    omega
  · rintro rfl
    rfl

end Roots

/-! ### The difficulty -/

theorem length_hexDigits (h : Hash) : (hexDigits h).length = 64 := by
  have hbytes : h.asBytes.length = 32 := by simp [Hash.asBytes, beBytes]
  have hpairs : ∀ bytes : Bytes, (bytes.flatMap fun b => [b / 16, b % 16]).length = 2 * bytes.length := by
    intro bytes
    induction bytes with
    | nil => rfl
    | cons b bytes ih =>
      rw [List.flatMap_cons, List.length_append, ih, List.length_cons, List.length_cons,
        List.length_cons, List.length_nil]
      omega
  rw [hexDigits, hpairs, hbytes]

theorem leadingZeros_le (h : Hash) : leadingZeros h ≤ 64 := by
  rw [← length_hexDigits h]
  exact (List.takeWhile_prefix _).length_le

theorem le_leadingZeros {h : Hash} {n : ℕ} (hleads : List.replicate n 0 <+: hexEncode h.asBytes) :
    n ≤ leadingZeros h := by
  obtain ⟨rest, hrest⟩ := hleads
  have hdigits : hexDigits h = List.replicate n 0 ++ rest := hrest.symm
  rw [leadingZeros, hdigits, List.takeWhile_append_of_pos, List.length_append, List.length_replicate]
  · exact Nat.le_add_right _ _
  · intro d hd
    rw [List.eq_of_mem_replicate hd]
    rfl

/-! ### Produced blocks -/

section Produced

variable {ext : Ext} {log2 : F64 → F64} {unixNowSecs : UInt64} {path : Path} {job : Job} {block : Block}

/-- What both producers put into a block. -/
structure Produced (ext : Ext) (log2 : F64 → F64) (path : Path) (job : Job) (block : Block) : Prop where
  solution : job.solution.verify job.problem = true
  version : block.header.version ∈ SUPPORTED_BLOCK_VERSIONS
  height : block.header.height = job.height
  prevHash : block.header.prevHash = job.prevHash
  transactionsRoot : block.header.transactionsRoot = merkleRoot ext job.transactions
  workScore : block.header.workScore = path.workScore log2 job
  timeAsymmetry : block.header.timeAsymmetryRatio = (F64.ofNat (asMicros job.solveTime).toNat).div
    (F64.ofNat (UInt64.ofNat (max (path.verifyTime / 1000) 1)).toNat)
  quality : job.solution.quality job.problem = some block.header.solutionQuality
  complexity : block.header.complexityWeight = difficultyWeight log2 job.problem
  energy : block.header.energyEstimateJoules = (F64.ofNat 100).mul (asSecsF64 job.solveTime)
  reward : block.coinbase.reward =
    calculateBlockReward block.header.workScore job.parentCumulativeWork
  coinbaseHeight : block.coinbase.height = job.height
  transactions : block.transactions = job.transactions
  reveal : block.solutionReveal =
    ⟨job.problem, job.solution, Commitment.create ext job.problem job.solution job.prevHash⟩
  leads : List.replicate (min job.difficulty HEADER_HASH_HEX_DIGITS).toNat 0 <+:
    hexEncode (Block.hash ext block).asBytes

theorem blockVersionForHeight_mem (config : MiningConfig) (height : UInt64) :
    config.blockVersionForHeight height ∈ SUPPORTED_BLOCK_VERSIONS := by
  unfold MiningConfig.blockVersionForHeight
  split_ifs
  · exact List.mem_cons_self
  · exact List.mem_cons_of_mem _ List.mem_cons_self

/-- A template with the job's data. -/
theorem produced_of_assembleBlock {t : Template} (hsolution : job.solution.verify job.problem = true)
    (ht : t = { t with prevHash := job.prevHash, height := job.height, problem := job.problem,
                       solution := job.solution, solveTime := job.solveTime,
                       verifyTime := path.verifyTime, workScore := path.workScore log2 job,
                       parentCumulativeWork := job.parentCumulativeWork,
                       difficulty := job.difficulty, transactions := job.transactions })
    (hversion : t.version ∈ SUPPORTED_BLOCK_VERSIONS)
    (h : assembleBlock ext log2 unixNowSecs t = .ok (some block)) :
    Produced ext log2 path job block := by
  obtain ⟨q, nonce, hq, hheader, hcoinbase, htransactions, hreveal, hleads⟩ := assembleBlock_spec h
  rw [ht] at hq hheader hcoinbase htransactions hreveal hleads
  have hscore : block.header.workScore = path.workScore log2 job := by
    rw [hheader]
    rfl
  refine ⟨hsolution, ?_, ?_, ?_, ?_, hscore, ?_, ?_, ?_, ?_, ?_, ?_, htransactions, hreveal, hleads⟩
  · rw [hheader]
    exact hversion
  · rw [hheader]
    rfl
  · rw [hheader]
    rfl
  · rw [hheader]
    rfl
  · rw [hheader]
    rfl
  · rw [hheader]
    exact hq
  · rw [hheader]
    rfl
  · rw [hheader]
    rfl
  · rw [hcoinbase, hscore]
  · rw [hcoinbase]

theorem produced_of_produce (h : produce ext log2 unixNowSecs path job = .ok (some block)) :
    Produced ext log2 path job block := by
  cases path with
  | miner config verifyTime =>
    simp only [produce, mineBlock] at h
    split_ifs at h with hsolution
    · cases h
    rw [Bool.not_eq_true', Bool.not_eq_false] at hsolution
    exact produced_of_assembleBlock hsolution rfl (blockVersionForHeight_mem config job.height) h
  | builder minerAddress workScoreValue =>
    simp only [produce, buildBlockFromSolution] at h
    split_ifs at h with hsolution
    · cases h
    rw [Bool.not_eq_true', Bool.not_eq_false] at hsolution
    exact produced_of_assembleBlock hsolution rfl List.mem_cons_self h

/-- The header fields of a produced block are valid exactly if its metrics are in range. -/
theorem Produced.headerFields_iff {now : Int64} (hp : Produced ext log2 path job block)
    (htimestamp : TimestampInRange now block) (hcount : job.transactions.length ≤ MAX_BLOCK_TRANSACTIONS) :
    validateBlockHeaderFields block.header.version block.header.timestamp block.header.workScore
      block.header.timeAsymmetryRatio block.header.solutionQuality block.header.complexityWeight
      block.header.energyEstimateJoules block.transactions.length now = .ok () ↔
    MetricsInRange log2 path job := by
  have hversion : ¬ block.header.version ∉ SUPPORTED_BLOCK_VERSIONS := not_not_intro hp.version
  have hfew : ¬ MAX_BLOCK_TRANSACTIONS < block.transactions.length := by
    rw [hp.transactions]
    omega
  unfold validateBlockHeaderFields checkNonNegative
  simp only [bind_ok, check_ok, hversion, htimestamp.1, htimestamp.2, hfew, not_false_eq_true, true_and,
    and_true]
  rw [hp.workScore, hp.timeAsymmetry, hp.complexity, hp.energy]
  constructor
  · rintro ⟨hfinite, hsign, htime, hquality, hcomplexity, henergy⟩
    refine ⟨⟨by simpa using hfinite, by simpa using hsign⟩, by simpa using htime, ?_,
      by simpa [InRange] using hcomplexity, by simpa [InRange] using henergy⟩
    intro q hq
    rw [hp.quality, Option.mem_some_iff] at hq
    rw [← hq]
    simpa [not_or] using hquality
  · intro hm
    have hquality := hm.quality _ hp.quality
    refine ⟨by simpa using hm.workScore.1, by simpa using hm.workScore.2, by simpa using hm.timeAsymmetry,
      ?_, ?_, ?_⟩
    · simpa [not_or] using hquality
    · simpa [InRange] using hm.complexity
    · simpa [InRange] using hm.energy

/-- `Block::verify` refuses every produced block with a transaction. -/
theorem Produced.verify_iff {now : Int64} (hp : Produced ext log2 path job block)
    (htimestamp : TimestampInRange now block) (hdistinct : DigestsDistinct ext job.transactions) :
    Block.verify ext now block = true ↔ job.transactions = [] ∧ MetricsInRange log2 path job := by
  have hroots : calculateTransactionsRoot ext block.transactions = block.header.transactionsRoot ↔
      job.transactions = [] := by
    rw [hp.transactions, hp.transactionsRoot]
    exact merkleRoot_eq_iff hdistinct
  have hreveal : SolutionReveal.verify ext block.solutionReveal block.header.prevHash = true := by
    rw [hp.reveal, hp.prevHash]
    simp [SolutionReveal.verify, Commitment.verify, hp.solution]
  have hcoinbase : block.coinbase.height = block.header.height := hp.coinbaseHeight.trans hp.height.symm
  simp only [Block.verify, Bool.and_eq_true, decide_eq_true_eq, isOk_iff, hroots, hreveal, hcoinbase,
    and_true]
  constructor
  · rintro ⟨⟨hfields, -⟩, hempty⟩
    have hcount : job.transactions.length ≤ MAX_BLOCK_TRANSACTIONS := by
      rw [hempty]
      exact Nat.zero_le _
    exact ⟨hempty, (hp.headerFields_iff htimestamp hcount).mp hfields⟩
  · rintro ⟨hempty, hmetrics⟩
    have hcount : job.transactions.length ≤ MAX_BLOCK_TRANSACTIONS := by
      rw [hempty]
      exact Nat.zero_le _
    have hnone : block.transactions = [] := hp.transactions.trans hempty
    refine ⟨⟨(hp.headerFields_iff htimestamp hcount).mpr hmetrics, ?_⟩, hempty⟩
    rw [hnone]
    rfl

/-- A nonce is found for at most 64 digits, and no hash has more. -/
theorem Produced.validateDifficulty_iff {minDifficulty : UInt32} (hp : Produced ext log2 path job block)
    (hforce : minDifficulty ≤ job.difficulty) :
    (BlockValidator.new minDifficulty).validateDifficulty ext block = .ok () ↔ minDifficulty.toNat ≤ 64 := by
  have hbin := leadingZeros_le (BlockHeader.hash ext block.header)
  have hjson := leadingZeros_le (BlockHeader.hashFromJson ext block.header)
  have hmined : (min job.difficulty HEADER_HASH_HEX_DIGITS).toNat ≤
      leadingZeros (BlockHeader.hash ext block.header) := le_leadingZeros hp.leads
  have hdigits : min job.difficulty.toNat 64 = (min job.difficulty HEADER_HASH_HEX_DIGITS).toNat := by
    have h64 : HEADER_HASH_HEX_DIGITS.toNat = 64 := rfl
    change _ = (if job.difficulty ≤ HEADER_HASH_HEX_DIGITS then job.difficulty
      else HEADER_HASH_HEX_DIGITS).toNat
    split_ifs with hle
    · have hle' := UInt32.le_iff_toNat_le.mp hle
      omega
    · rw [UInt32.le_iff_toNat_le] at hle
      omega
  have hforce' : minDifficulty.toNat ≤ job.difficulty.toNat := UInt32.le_iff_toNat_le.mp hforce
  have hnew : (BlockValidator.new minDifficulty).minDifficulty = minDifficulty := rfl
  rw [BlockValidator.validateDifficulty, hnew]
  split_ifs with henough hfew
  · exact iff_of_true rfl (by omega)
  · exact iff_of_false (by simp) (by omega)
  · exact iff_of_true rfl (by omega)

/-- The validator accepts every produced block whose transactions are signed and whose work score is not
negative, unless no hash meets the difficulty. -/
theorem Produced.validate_iff {now : Int64} {minDifficulty : UInt32} (hp : Produced ext log2 path job block)
    (htimestamp : TimestampInRange now block) (hforce : minDifficulty ≤ job.difficulty)
    (hsigned : ∀ tx ∈ job.transactions, Transaction.verifySignature ext tx = true) :
    (BlockValidator.new minDifficulty).validateBlockWithOptions ext now block job.prevHash job.height
      false (some job.parentCumulativeWork) = .ok () ↔
    (path.workScore log2 job).lt F64.zero = false ∧ minDifficulty.toNat ≤ 64 := by
  have hnow : (BlockValidator.new minDifficulty).validateTimestamp now block.header.timestamp false =
      .ok () := if_neg htimestamp.2
  have hverified : block.solutionReveal.solution.verify block.solutionReveal.problem = true := by
    rw [hp.reveal]
    exact hp.solution
  have hopens : Commitment.verify ext block.solutionReveal.commitment block.solutionReveal.problem
      block.solutionReveal.solution block.header.prevHash = true := by
    rw [hp.reveal, hp.prevHash]
    simp [Commitment.verify]
  have hreward : BlockValidator.validateReward block (some job.parentCumulativeWork) = .ok () := by
    simp [BlockValidator.validateReward, hp.reward]
  have hall : ∀ tx ∈ block.transactions, Transaction.verifySignature ext tx = true := by
    rw [hp.transactions]
    exact hsigned
  rw [validateBlockWithOptions_ok, hp.validateDifficulty_iff hforce]
  constructor
  · rintro ⟨-, -, -, -, -, hscore, hdifficulty, -, -⟩
    rw [hp.workScore] at hscore
    exact ⟨hscore, hdifficulty⟩
  · rintro ⟨hscore, hdifficulty⟩
    refine ⟨hp.height, hp.prevHash, hnow, hverified, hopens, ?_, hdifficulty, hall, hreward⟩
    rw [hp.workScore]
    exact hscore

/-- A block produced from valid transactions is accepted exactly if it has no transaction, its metrics are
in range and the difficulty in force is one a hash can meet. -/
theorem produced_accepted_iff {now : Int64} {minDifficulty : UInt32}
    (h : produce ext log2 unixNowSecs path job = .ok (some block))
    (hvalid : ∀ tx ∈ job.transactions, isValid ext now tx = true)
    (htimestamp : TimestampInRange now block) (hforce : minDifficulty ≤ job.difficulty)
    (hdistinct : DigestsDistinct ext job.transactions) :
    Accepted ext now minDifficulty job block ↔
      job.transactions = [] ∧ MetricsInRange log2 path job ∧ minDifficulty.toNat ≤ 64 := by
  have hp := produced_of_produce h
  have hsigned : ∀ tx ∈ job.transactions, Transaction.verifySignature ext tx = true :=
    fun tx htx => verifySignature_of_isValid (hvalid tx htx)
  rw [Accepted, hp.verify_iff htimestamp hdistinct, hp.validate_iff htimestamp hforce hsigned]
  constructor
  · rintro ⟨⟨hempty, hmetrics⟩, -, hdifficulty⟩
    exact ⟨hempty, hmetrics, hdifficulty⟩
  · rintro ⟨hempty, hmetrics, hdifficulty⟩
    exact ⟨⟨hempty, hmetrics⟩, hmetrics.workScore.2, hdifficulty⟩

end Produced

/-! ### Produced at difficulty 1

Blocks of height 2 on the sample problem, with the digests and signatures BLAKE3 and Ed25519 give. The clock
is chosen such that the first nonce meets the difficulty. -/

namespace Sample

def job (transactions : List Transaction) : Job where
  prevHash := parent
  height := 2
  problem := problem
  solution := solution
  solveTime := 2000
  parentCumulativeWork := 1
  difficulty := 1
  transactions := transactions

def miner : Path := .miner ⟨carol, 1000⟩ 1000

def builder : Path := .builder carol F64.one

/-- The values at 1 and 2. -/
def log2 (x : F64) : F64 := if x = ⟨0x4000000000000000⟩ then F64.one else F64.zero

def header (timestamp : Timestamp) (transactionsRoot : Hash) (verifyTimeUs : UInt64)
    (timeAsymmetryRatio : F64) : BlockHeader where
  version := 1
  height := 2
  prevHash := parent
  timestamp := timestamp
  transactionsRoot := transactionsRoot
  solutionsRoot := solutionHash
  commitment := commitment
  workScore := F64.one
  miner := carol
  nonce := 0
  solveTimeUs := 2
  verifyTimeUs := verifyTimeUs
  timeAsymmetryRatio := timeAsymmetryRatio
  solutionQuality := F64.one
  complexityWeight := F64.zero
  energyEstimateJoules := ⟨0x3F2A36E2EB1C432C⟩

def block (header : BlockHeader) (transactions : List Transaction) : Block where
  header := header
  coinbase := ⟨carol, 50000000000000, 2⟩
  transactions := transactions
  solutionReveal := ⟨problem, solution, commitment⟩

def encodedRoot : Hash := ⟨0x79859dd23297515296d9ec5b3f373d85d5b7c799e324ef61097aead751ee4521⟩

def minerEmpty : BlockHeader := header 1767225612 Hash.ZERO 1 ⟨0x4000000000000000⟩

def minerAlice : BlockHeader := header 1767225614 encodedRoot 1 ⟨0x4000000000000000⟩

def builderAlice : BlockHeader := header 1767225617 encodedRoot 100 ⟨0x3F947AE147AE147B⟩

def ext : Ext := Ext.ofTables
  [(encode problem, problemHash.bytes),
    (encode solution, solutionHash.bytes),
    (problemHash.asBytes ++ parent.asBytes ++ solutionHash.asBytes, commitment.hash.bytes),
    (encode (Transaction.Transfer aliceTransfer), encodedRoot.bytes),
    (encodedRoot.asBytes, 0xb4173bfafb0b0b5815a1f700285bf15b9590c2e49edba24df8a83acaaff14d65),
    (encode minerEmpty, 0x02def3fa1fbe55f98aecab08377fa834521e37efcbcd95eccfbaa85ba3f056d6),
    (encode minerAlice, 0x029704650a028cdb563350fd22dfeb81a69f86f82d2eaaec15779dd8a908fab2),
    (encode builderAlice, 0x03b47fdeef9ce8a3048dfd09c94c83383b059ae7a537d5c9104ab614b06188a7)]
  [(aliceKey, aliceTransfer.signingMessage, aliceTransfer.signature)]

/-- A minute after the blocks. -/
def now : Int64 := 1767225672

end Sample

open Sample in
theorem metricsInRange_sample (path : Path) (hpath : path = miner ∨ path = builder)
    (transactions : List Transaction) : MetricsInRange log2 path (job transactions) := by
  have hquality : ∀ q ∈ solution.quality problem,
      q.isFinite = true ∧ F64.zero.le q = true ∧ q.le F64.one = true := by decide +kernel
  have hcomplexity : InRange (difficultyWeight log2 problem) := by decide +kernel
  have henergy : InRange ((F64.ofNat 100).mul (asSecsF64 2000)) := by decide +kernel
  rcases hpath with rfl | rfl
  · have hscore : InRange (calculateFromSolution log2 problem solution 2000 1000) := by decide +kernel
    have htime : ((F64.ofNat (asMicros 2000).toNat).div
        (F64.ofNat (UInt64.ofNat (max (1000 / 1000) 1)).toNat)).isFinite = true := by decide +kernel
    exact ⟨hscore, htime, hquality, hcomplexity, henergy⟩
  · have hscore : InRange F64.one := by decide +kernel
    have htime : ((F64.ofNat (asMicros 2000).toNat).div
        (F64.ofNat (UInt64.ofNat (max (100000 / 1000) 1)).toNat)).isFinite = true := by decide +kernel
    exact ⟨hscore, htime, hquality, hcomplexity, henergy⟩

open Sample in
/-- The miner's block without transactions is accepted. -/
theorem produced_accepted_iff_sample : Accepted ext now 1 (job []) (block minerEmpty []) := by
  have hproduced : produce ext log2 1767225612 miner (job []) = .ok (some (block minerEmpty [])) := by
    decide +kernel
  have hvalid : ∀ tx ∈ (job []).transactions, isValid ext now tx = true := by
    intro tx htx
    cases htx
  have hdistinct : DigestsDistinct ext (job []).transactions := by
    intro x hx
    cases hx
  have hmetrics : MetricsInRange log2 miner (job []) := metricsInRange_sample miner (.inl rfl) []
  exact (produced_accepted_iff hproduced hvalid ⟨by decide, by decide⟩ (by decide) hdistinct).mpr
    ⟨rfl, hmetrics, by decide⟩

open Sample in
/-- Both producers make a block of a valid transfer. The metrics are in range, and the validator accepts
the block; `Block::verify` does not. -/
theorem produced_transfer_refused :
    isValid ext now (.Transfer aliceTransfer) = true ∧
    ∀ produced ∈ [(miner, (1767225614 : UInt64), block minerAlice [.Transfer aliceTransfer]),
        (builder, 1767225617, block builderAlice [.Transfer aliceTransfer])],
      produce ext log2 produced.2.1 produced.1 (job [.Transfer aliceTransfer]) = .ok (some produced.2.2) ∧
      TimestampInRange now produced.2.2 ∧
      MetricsInRange log2 produced.1 (job [.Transfer aliceTransfer]) ∧
      (BlockValidator.new 1).validateBlockWithOptions ext now produced.2.2 parent 2 false (some 1) =
        .ok () ∧
      Block.verify ext now produced.2.2 = false := by
  refine ⟨by decide +kernel, ?_⟩
  intro produced hproduced
  rcases List.mem_pair.mp hproduced with rfl | rfl
  · exact ⟨by decide +kernel, ⟨by decide, by decide⟩, metricsInRange_sample miner (.inl rfl) _,
      by decide +kernel, by decide +kernel⟩
  · exact ⟨by decide +kernel, ⟨by decide, by decide⟩, metricsInRange_sample builder (.inr rfl) _,
      by decide +kernel, by decide +kernel⟩

end Coinjecture.Node.Production
