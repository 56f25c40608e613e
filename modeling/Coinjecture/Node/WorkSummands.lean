import Coinjecture.Lib.Float64Order
import Coinjecture.Node.CandidateWork

/-! # The summands of the work

The work score of a header is truncated for the reward, for the cumulative work of the chain store, for the
parents' work of a new chain and for the comparison of two chains, each time in its own words. `Summand`
says that a block counts for one and the same number in all of them.

* `truncatedWork_eq`, `headerWorkScoreTruncU128_eq_iff` : the guards of each place.
* `summand_iff` : there is such a number, unless the score is infinite. -/

namespace Coinjecture.Node.WorkSummands

open Lib.Effect Lib.Float64 Lib.Saturating Lib.Table
open Core.Types Core.Blocks Core.Extern Core.Crypto
open Tokenomics.Rewards
open Node.Validator Node.Chain Node.Chain.ChainState Node.Service
open Node.ReorgAcceptance Node.ForkHandler Node.CandidateWork

/-- What the reward makes of a summand. -/
def rewardOf (n parentCumulativeWork : BitVec 128) : Balance :=
  if parentCumulativeWork = 0 then 0
  else
    let root := isqrt parentCumulativeWork
    let denom := if root < 1 then 1 else root
    match checkedMul n REWARD_FIXED_POINT_SCALE with
    | none => BitVec.allOnes 128
    | some ws =>
      match checkedMul ws REWARD_EMISSION_MULTIPLIER with
      | none => BitVec.allOnes 128
      | some num => num / denom

/-- The sum of the store over these blocks, on top of `w`. -/
def workOnTop (w : BitVec 128) (blocks : List Block) : BitVec 128 :=
  blocks.foldl (fun sum block => satAdd sum (truncatedWork block)) w

/-- The block counts for `n` in the reward, in the work of the store as it is kept and as it is recomputed, in
the work below the blocks of a new chain, and in the sums of fork choice. -/
structure Summand (ext : Ext) (block : Block) (n : BitVec 128) : Prop where
  reward : ∀ w, calculateBlockReward block.header.workScore w = rewardOf n w
  genesis : (ChainState.new block : ChainState ext).metadata.cumWork = n
  incremental : ∀ s : ChainState ext, (run (storeBlock block) s).1 = .ok true →
    (run (storeBlock block) s).2.metadata.cumWork = satAdd s.metadata.cumWork n
  recomputed : ∀ (s : ChainState ext) tip pre post, walkFromTip tip s = .found (pre ++ block :: post) →
    (run (computeCumulativeWorkTipDb tip) s).1 = .ok (workOnTop (satAdd (workOnTop 0 pre) n) post)
  parents : ∀ (v : BlockValidator) now prevHash w blocks,
    validateNewChain ext v now prevHash w (block :: blocks) = .ok () →
    validateNewChain ext v now (Block.hash ext block) (satAdd w n) blocks = .ok ()
  comparison : ∀ pre post, chainWork (pre ++ block :: post) = chainWork pre + n.setWidth 64 + chainWork post
  fromGenesis : ∀ (v : BlockValidator) now (chain : ChainState ext) altChain endHash endHeight pre post work,
    validateChainFromGenesisWork v now chain altChain endHash endHeight = some (pre ++ block :: post, work) →
    work = chainWork pre + n.setWidth 64 + chainWork post

variable {ext : Ext} {block : Block} {x : F64} {w : ℕ}

/-! ### The truncations -/

theorem toUnsigned_zero (w : ℕ) : F64.zero.toUnsigned w = 0 := by
  have hpart : (if 1075 ≤ F64.zero.expo then F64.zero.mant * 2 ^ (F64.zero.expo - 1075)
      else F64.zero.mant / 2 ^ (1075 - Nat.max F64.zero.expo 1)) = 0 := by
    rw [show F64.zero.mant = 0 from rfl, Nat.zero_mul, Nat.zero_div, ite_self]
  unfold F64.toUnsigned
  rw [if_neg (by decide), if_neg (by decide)]
  simp only [hpart]
  exact if_neg (not_le.mpr (Nat.two_pow_pos w))

theorem toUnsigned_of_negative (h : x.negative = true) : x.toUnsigned w = 0 := by
  rw [F64.toUnsigned, h, Bool.or_true, if_pos rfl]

theorem toUnsigned_of_isNaN (h : x.isNaN = true) : x.toUnsigned w = 0 := by
  rw [F64.toUnsigned, h, Bool.true_or, if_pos rfl]

/-- A float with a key that is not positive is negative or zero. -/
theorem toUnsigned_of_key (h : x.key ≤ 0) : x.toUnsigned w = 0 := by
  by_cases hx : x.negative = true
  · exact toUnsigned_of_negative hx
  · obtain ⟨hkey, -⟩ := key_of_nonneg (Bool.eq_false_iff.mpr hx)
    have hbits : x.bits = 0 := UInt64.toNat_inj.mp (by rw [UInt64.toNat_zero]; omega)
    have hzero : x = F64.zero := congrArg F64.mk hbits
    rw [hzero, toUnsigned_zero]

/-- Nothing below zero survives the conversion, so that the maximum changes nothing. -/
theorem toUnsigned_max_zero (x : F64) : (x.max F64.zero).toUnsigned w = x.toUnsigned w := by
  unfold F64.max
  split_ifs with hnan hlt
  · rw [toUnsigned_zero, toUnsigned_of_isNaN hnan]
  · have hkey : x.key < 0 := (lt_iff (Bool.eq_false_iff.mpr hnan) (by decide)).mp hlt
    rw [toUnsigned_zero, toUnsigned_of_key hkey.le]
  · rfl

theorem truncatedWork_eq (block : Block) : truncatedWork block = (scoreAsU64 block).setWidth 128 := by
  rw [truncatedWork, toUnsigned_max_zero]
  rfl

theorem eq_inf (hinf : x.isInf = true) (hnegative : x.negative = false) : x = F64.inf false := by
  obtain ⟨hexpo, hfrac⟩ := of_decide_eq_true hinf
  obtain ⟨-, hlt⟩ := key_of_nonneg hnegative
  have hbits : x.bits.toNat = 2047 * 2 ^ 52 := by
    unfold F64.expo at hexpo
    unfold F64.frac at hfrac
    omega
  exact congrArg F64.mk (UInt64.toNat_inj.mp hbits)

/-- The truncation of the reward is that of the others, unless it takes an infinite score for nothing. -/
theorem headerWorkScoreTruncU128_eq_iff (x : F64) :
    headerWorkScoreTruncU128 x = (x.toUnsigned 64).setWidth 128 ↔ x ≠ F64.inf false := by
  by_cases hfinite : x.isFinite = true
  · refine iff_of_true ?_ fun h => by rw [h] at hfinite; exact absurd hfinite (by decide)
    rw [headerWorkScoreTruncU128, hfinite, Bool.not_true, Bool.false_or, toUnsigned_max_zero]
    split_ifs with hle
    · have hexpo : x.expo ≠ 2047 := of_decide_eq_true hfinite
      have hkey : x.key ≤ 0 := (le_iff (by simp [F64.isNaN, hexpo]) (by decide)).mp hle
      rw [toUnsigned_of_key hkey]
      rfl
    · rfl
  rw [headerWorkScoreTruncU128, Bool.eq_false_iff.mpr hfinite, Bool.not_false, Bool.true_or, if_pos rfl]
  by_cases hnan : x.isNaN = true
  · rw [toUnsigned_of_isNaN hnan]
    exact iff_of_true rfl fun h => by rw [h] at hnan; exact absurd hnan (by decide)
  by_cases hnegative : x.negative = true
  · rw [toUnsigned_of_negative hnegative]
    exact iff_of_true rfl fun h => by rw [h] at hnegative; exact absurd hnegative (by decide)
  · have hexpo : x.expo = 2047 := by simpa [F64.isFinite] using hfinite
    have hinf : x.isInf = true := by
      have hfrac : x.frac = 0 := by simpa [F64.isNaN, hexpo] using hnan
      exact decide_eq_true ⟨hexpo, hfrac⟩
    have heq := eq_inf hinf (Bool.eq_false_iff.mpr hnegative)
    rw [heq]
    exact iff_of_false (by decide) (not_not.mpr rfl)

/-! ### Where they are used -/

theorem calculateBlockReward_eq (x : F64) (w : BitVec 128) :
    calculateBlockReward x w = rewardOf (headerWorkScoreTruncU128 x) w := by
  rcases hscaled : checkedMul (headerWorkScoreTruncU128 x) REWARD_FIXED_POINT_SCALE with _ | ws
  · simp only [calculateBlockReward, rewardOf, hscaled]
  · rcases hnum : checkedMul ws REWARD_EMISSION_MULTIPLIER with _ | num
    · simp only [calculateBlockReward, rewardOf, hscaled, hnum]
    · simp only [calculateBlockReward, rewardOf, hscaled, hnum]

theorem chainWork_append (pre post : List Block) : chainWork (pre ++ post) = chainWork pre + chainWork post := by
  rw [chainWork_eq, chainWork_eq, chainWork_eq, List.map_append, List.sum_append]

theorem chainWork_cons (block : Block) (blocks : List Block) :
    chainWork (block :: blocks) = scoreAsU64 block + chainWork blocks := by
  rw [chainWork_eq, chainWork_eq, List.map_cons, List.sum_cons]

/-- Where the truncations agree, a block counts for that number everywhere. -/
theorem summand_of_eq (h : headerWorkScoreTruncU128 block.header.workScore = truncatedWork block) :
    Summand ext block (truncatedWork block) := by
  have hscore : (truncatedWork block).setWidth 64 = scoreAsU64 block := by
    rw [truncatedWork_eq, BitVec.setWidth_setWidth_of_le _ (by decide), BitVec.setWidth_eq]
  have hsum : ∀ pre post, chainWork (pre ++ block :: post) =
      chainWork pre + (truncatedWork block).setWidth 64 + chainWork post := by
    intro pre post
    rw [chainWork_append, chainWork_cons, hscore, add_assoc]
  refine
    { reward := fun w => by rw [← h, calculateBlockReward_eq]
      genesis := rfl
      incremental := fun s hextends => ?_
      recomputed := fun s tip pre post hwalk => ?_
      parents := fun v now prevHash w blocks hvalid => (validateNewChain_cons.mp hvalid).2.2
      comparison := hsum
      fromGenesis := fun v now chain altChain endHash endHeight pre post work hvalid => ?_ }
  · rw [run_storeBlock] at hextends ⊢
    split_ifs at hextends ⊢ with hmax hext
    · rfl
    · cases hextends
  · rw [computeCumulativeWorkTipDb, run_sumFromTip hwalk, List.foldl_append]
    rfl
  · rw [validateChainFromGenesisWork_eq] at hvalid
    obtain ⟨blocks, -, heq⟩ := Option.map_eq_some_iff.mp hvalid
    cases heq
    exact hsum pre post

/-- An infinite score counts for nothing in the reward and for `u64::MAX` in the work. -/
theorem not_summand (h : block.header.workScore = F64.inf false) (n : BitVec 128) : ¬ Summand ext block n := by
  intro hn
  have hstore : truncatedWork block = ((F64.inf false).toUnsigned 64).setWidth 128 := by
    rw [truncatedWork_eq, scoreAsU64, h]
  have hwork : truncatedWork block = n := hn.genesis
  have hreward := hn.reward 1
  rw [h, ← hwork, hstore] at hreward
  exact absurd hreward (by decide +kernel)

/-- A block counts for one number everywhere exactly where its score is not infinite. -/
theorem summand_iff (ext : Ext) (block : Block) :
    (∃ n, Summand ext block n) ↔ block.header.workScore ≠ F64.inf false := by
  constructor
  · rintro ⟨n, hn⟩ hinfinite
    exact not_summand hinfinite n hn
  · intro h
    refine ⟨_, summand_of_eq ?_⟩
    rw [truncatedWork_eq]
    exact (headerWorkScoreTruncU128_eq_iff _).mpr h

theorem infinite_score_splits : ¬ ∀ (ext : Ext) (block : Block), ∃ n, Summand ext block n := by
  intro h
  obtain ⟨n, hn⟩ := h (.ofTables [] [])
    { Sample.emptyBlock with header := { Sample.emptyHeader with workScore := F64.inf false } }
  exact not_summand rfl n hn

end Coinjecture.Node.WorkSummands
