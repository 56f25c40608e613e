import Coinjecture.Lib.Float64Order
import Coinjecture.Lib.Trace
import Coinjecture.Tokenomics.Staking

/-! # What staking pays

What a staker may be paid: in each block the yield of that block on what is staked during it, times the
bonus that is in force. A position accrues lazily: what is pending on it is its amount times the blocks since
its last claim, so an operation that raises the amount or the bonus has to find nothing pending.

* `pending_advance` : blocks that pass add their yield to what is pending.
* `notRetroactive_of_quiet` : no run in which nothing pending is raised pays for the past. -/

namespace Coinjecture.Tokenomics.StakingRuns

open Lib.Float64 Lib.Saturating Lib.Table Lib.Trace
open Core.Types
open Tokenomics.Pools Tokenomics.Staking

/-! ### What accrues -/

variable (exp : F64 → F64)

/-- The yield of a pool in a year. -/
def yield (poolType : PoolType) : ℚ := (getBaseYield exp poolType).toRat

/-- The bonus; the conversion to an integer cuts a negative one off. -/
def bonus (portfolio : StakingPortfolio) : ℚ := max 0 portfolio.multiplier.toRat

/-- The yield of one block on what is staked. -/
def perBlock (blocksPerYear : UInt64) (portfolio : StakingPortfolio) : ℚ :=
  (∑ t, (portfolio.positions.get t).elim 0 fun pos => pos.amount.toNat * yield exp pos.poolType) /
    blocksPerYear.toNat * bonus portfolio

/-- What a position yields in the blocks since its last claim, by the year. -/
def accrued (height : ℕ) (pos : StakePosition) : ℚ :=
  pos.amount.toNat * yield exp pos.poolType * (height - pos.lastClaimBlock.toNat)

/-- The yield on what is staked over the blocks since the last claims. -/
def pending (blocksPerYear : UInt64) (height : ℕ) (portfolio : StakingPortfolio) : ℚ :=
  (∑ t, (portfolio.positions.get t).elim 0 (accrued exp height)) / blocksPerYear.toNat * bonus portfolio

/-- Every position was claimed at the height or later. -/
def Settled (height : UInt64) (portfolio : StakingPortfolio) : Prop :=
  ∀ t, ∀ pos ∈ portfolio.positions.get t, height ≤ pos.lastClaimBlock

instance (height : UInt64) (portfolio : StakingPortfolio) : Decidable (Settled height portfolio) :=
  inferInstanceAs (Decidable (∀ _, _))

def staked (portfolio : StakingPortfolio) : ℕ := portfolio.positions.weigh fun pos => pos.amount.toNat

/-! ### Runs -/

inductive Op where
  | stake (owner : Address) (poolType : PoolType) (amount : Balance)
  | unstake (owner : Address) (poolType : PoolType) (amount : Balance)
  | claim (owner : Address)

/-- A call at a block height, which the manager has been told. -/
structure Call where
  height : UInt64
  order : Order
  op : Op

/-- The manager beside the account of what was paid and what was earned. -/
structure Ledger where
  manager : StakingManager
  height : UInt64
  paid : Address → ℕ
  earned : Address → ℚ

namespace Ledger

/-- A manager without portfolios. -/
def start (metrics : StakingMetrics) : Ledger :=
  ⟨⟨Keyed.empty, 0, metrics⟩, 0, fun _ => 0, fun _ => 0⟩

/-- The blocks up to the height pass. -/
def advance (ledger : Ledger) (height : UInt64) : Ledger where
  manager := ledger.manager.setBlock height
  height := height
  paid := ledger.paid
  earned owner := ledger.earned owner + (height.toNat - ledger.height.toNat) *
    (ledger.manager.portfolios.get owner).elim 0 (perBlock exp ledger.manager.metrics.blocksPerYear)

def apply (ledger : Ledger) (order : Order) : Op → Ledger
  | .stake owner poolType amount =>
    { ledger with manager := ledger.manager.stake exp order owner poolType amount ledger.height }
  | .unstake owner poolType amount =>
    { ledger with
      manager := (ledger.manager.unstake exp order owner poolType amount).elim ledger.manager Prod.snd }
  | .claim owner =>
    let (total, manager) := ledger.manager.claimRewards exp order owner
    { ledger with
      manager := manager
      paid := Function.update ledger.paid owner (ledger.paid owner + total.toNat) }

/-- The manager's total is the sum of the positions, and no more is paid than was earned. -/
structure NotRetroactive (ledger : Ledger) : Prop where
  total : ledger.manager.totalStaked.toNat = ledger.manager.portfolios.weigh staked
  paid : ∀ owner, (ledger.paid owner : ℚ) ≤ ledger.earned owner

end Ledger

def staking : Machine Call Ledger where
  next call ledger := (ledger.advance exp call.height).apply exp call.order call.op
  halts _ _ := false

/-! ### Quiet calls -/

/-- The products of the reward are not rounded up over an integer. -/
structure RoundsDown (order : Order) (metrics : StakingMetrics) (portfolio : StakingPortfolio) : Prop where
  base : ∀ t, ∀ pos ∈ portfolio.positions.get t,
    ((pos.calculateBaseRewards exp metrics.currentBlock metrics.blocksPerYear).toNat : ℚ) ≤
      accrued exp metrics.currentBlock.toNat pos / metrics.blocksPerYear.toNat
  total : ((portfolio.calculateTotalRewards exp order metrics).toNat : ℚ) ≤
    (portfolio.baseRewards exp order metrics).toNat * bonus portfolio

instance (order : Order) (metrics : StakingMetrics) (portfolio : StakingPortfolio) :
    Decidable (RoundsDown exp order metrics portfolio) :=
  decidable_of_iff (_ ∧ _) ⟨fun h => ⟨h.1, h.2⟩, fun h => ⟨h.base, h.total⟩⟩

/-- The portfolio after an operation does not get a larger bonus on blocks that are not claimed. -/
def BonusKept (height : UInt64) (portfolio portfolio' : StakingPortfolio) : Prop :=
  Settled height portfolio ∨ bonus portfolio' ≤ bonus portfolio

instance (height : UInt64) (portfolio portfolio' : StakingPortfolio) :
    Decidable (BonusKept height portfolio portfolio') := inferInstanceAs (Decidable (_ ∨ _))

/-- A stake neither wraps the total nor finds blocks that are not claimed; an unstake does not raise the
bonus on such blocks; a claim is rounded down. -/
def Quiet (step : Call × Ledger) : Prop :=
  let manager := step.2.manager.setBlock step.1.height
  match step.1.op with
  | .stake owner poolType amount => NoCarry manager.totalStaked amount ∧
      ∀ portfolio ∈ manager.portfolios.get owner,
        (∀ pos ∈ portfolio.positions.get poolType, amount = 0 ∨ step.1.height ≤ pos.lastClaimBlock) ∧
          BonusKept step.1.height portfolio
            (portfolio.stake exp step.1.order poolType amount step.1.height manager.metrics)
  | .unstake owner poolType amount => ∀ portfolio ∈ manager.portfolios.get owner,
      ∀ r ∈ portfolio.unstake exp step.1.order poolType amount manager.metrics,
        BonusKept step.1.height portfolio r.2
  | .claim owner => ∀ portfolio ∈ manager.portfolios.get owner,
      RoundsDown exp step.1.order manager.metrics portfolio

instance (step : Call × Ledger) : Decidable (Quiet exp step) :=
  match step with
  | (⟨_, _, .stake ..⟩, _) => inferInstanceAs (Decidable (_ ∧ ∀ portfolio ∈ Keyed.get _ _, _ ∧ _))
  | (⟨_, _, .unstake ..⟩, _) => inferInstanceAs (Decidable (∀ portfolio ∈ Keyed.get _ _, ∀ r ∈ _, _))
  | (⟨_, _, .claim ..⟩, _) => inferInstanceAs (Decidable (∀ portfolio ∈ Keyed.get _ _, _))

/-! ### What is pending -/

theorem yield_nonneg {exp : F64 → F64} (hscale : ∀ t : PoolType, (t.scale exp).negative = false) (t : PoolType) :
    0 ≤ yield exp t :=
  toRat_nonneg (negative_mul (by decide) (hscale t))

section Pending

variable {exp} {blocksPerYear height : UInt64} {portfolio portfolio' : StakingPortfolio}

theorem bonus_nonneg (portfolio : StakingPortfolio) : 0 ≤ bonus portfolio := le_max_left ..

/-- Blocks that pass add their yield to what is pending. -/
theorem pending_advance (blocksPerYear : UInt64) (height height' : ℕ) (portfolio : StakingPortfolio) :
    pending exp blocksPerYear height' portfolio =
      pending exp blocksPerYear height portfolio + ((height' : ℚ) - height) * perBlock exp blocksPerYear portfolio := by
  have hsum : (∑ t, (portfolio.positions.get t).elim 0 (accrued exp height')) =
      (∑ t, (portfolio.positions.get t).elim 0 (accrued exp height)) + ((height' : ℚ) - height) *
        ∑ t, (portfolio.positions.get t).elim 0 fun pos => pos.amount.toNat * yield exp pos.poolType := by
    rw [Finset.mul_sum, ← Finset.sum_add_distrib]
    refine Finset.sum_congr rfl fun t _ => ?_
    rcases portfolio.positions.get t with _ | pos
    · simp
    · simp only [Option.elim_some, accrued]
      ring
  rw [pending, hsum, pending, perBlock]
  ring

theorem pending_eq_zero (h : ∀ t, ∀ pos ∈ portfolio.positions.get t, pos.lastClaimBlock = height) :
    pending exp blocksPerYear height.toNat portfolio = 0 := by
  have hsum : (∑ t, (portfolio.positions.get t).elim 0 (accrued exp height.toNat)) = 0 := by
    refine Finset.sum_eq_zero fun t _ => ?_
    rcases hget : portfolio.positions.get t with _ | pos
    · rfl
    · rw [Option.elim_some, accrued, h t pos hget, sub_self, mul_zero]
  rw [pending, hsum, zero_div, zero_mul]

theorem accrued_nonneg (hscale : ∀ t : PoolType, (t.scale exp).negative = false) {pos : StakePosition}
    (h : pos.lastClaimBlock ≤ height) : 0 ≤ accrued exp height.toNat pos := by
  have hblocks : (pos.lastClaimBlock.toNat : ℚ) ≤ height.toNat := by
    exact_mod_cast UInt64.le_iff_toNat_le.mp h
  have hyield := yield_nonneg hscale pos.poolType
  exact mul_nonneg (mul_nonneg (Nat.cast_nonneg _) hyield) (sub_nonneg.mpr hblocks)

variable (hscale : ∀ t : PoolType, (t.scale exp).negative = false)
  (hclaimed : ∀ t, ∀ pos ∈ portfolio.positions.get t, pos.lastClaimBlock ≤ height)

include hscale hclaimed

theorem accrued_get_nonneg (t : PoolType) : 0 ≤ (portfolio.positions.get t).elim 0 (accrued exp height.toNat) := by
  rcases hget : portfolio.positions.get t with _ | pos
  · exact le_rfl
  · exact accrued_nonneg hscale (hclaimed t pos hget)

theorem pending_nonneg : 0 ≤ pending exp blocksPerYear height.toNat portfolio := by
  refine mul_nonneg (div_nonneg ?_ (Nat.cast_nonneg _)) (bonus_nonneg _)
  exact Finset.sum_nonneg fun t _ => accrued_get_nonneg hscale hclaimed t

/-- An operation that writes no position which gains, and keeps the bonus, leaves no more pending. -/
theorem pending_le (hbonus : BonusKept height portfolio portfolio')
    (hlast : ∀ t, ∀ pos' ∈ portfolio'.positions.get t, pos'.lastClaimBlock = height ∨
      ∃ pos ∈ portfolio.positions.get t, pos'.lastClaimBlock = pos.lastClaimBlock)
    (hterm : ∀ t, (portfolio'.positions.get t).elim 0 (accrued exp height.toNat) ≤
      (portfolio.positions.get t).elim 0 (accrued exp height.toNat)) :
    pending exp blocksPerYear height.toNat portfolio' ≤ pending exp blocksPerYear height.toNat portfolio := by
  rcases hbonus with hsettled | hbonus
  · have hpos (t) (pos) (h : pos ∈ portfolio.positions.get t) : pos.lastClaimBlock = height :=
      UInt64.le_antisymm (hclaimed t pos h) (hsettled t pos h)
    rw [pending_eq_zero hpos, pending_eq_zero]
    intro t pos' hpos'
    rcases hlast t pos' hpos' with hnow | ⟨pos, hget, heq⟩
    · exact hnow
    · rw [heq, hpos t pos hget]
  · have hsum := Finset.sum_le_sum fun t (_ : t ∈ Finset.univ) => hterm t
    have hnonneg := Finset.sum_nonneg fun t (_ : t ∈ Finset.univ) => accrued_get_nonneg hscale hclaimed t
    rw [pending, pending]
    refine mul_le_mul (div_le_div_of_nonneg_right hsum (Nat.cast_nonneg _)) hbonus (bonus_nonneg _) ?_
    exact div_nonneg hnonneg (Nat.cast_nonneg _)

end Pending

/-! ### What the operations keep -/

/-- What is paid and what is pending has been earned. -/
structure Sound (ledger : Ledger) : Prop where
  total : ledger.manager.totalStaked.toNat = ledger.manager.portfolios.weigh staked
  claimed : ∀ owner, ∀ portfolio ∈ ledger.manager.portfolios.get owner,
    ∀ t, ∀ pos ∈ portfolio.positions.get t, pos.lastClaimBlock ≤ ledger.height
  paid : ∀ owner, (ledger.paid owner : ℚ) + (ledger.manager.portfolios.get owner).elim 0
    (pending exp ledger.manager.metrics.blocksPerYear ledger.height.toNat) ≤ ledger.earned owner

section Steps

variable {exp : F64 → F64} {ledger : Ledger} {order : Order} {portfolio portfolio' : StakingPortfolio}
  {owner : Address} {poolType : PoolType} {amount : Balance}

theorem sound_advance (h : Sound exp ledger) {height : UInt64} (hheight : ledger.height ≤ height) :
    Sound exp (ledger.advance exp height) := by
  refine ⟨h.total, fun owner portfolio hp t pos hpos => ?_, fun owner => ?_⟩
  · exact UInt64.le_trans (h.claimed owner portfolio hp t pos hpos) hheight
  have hpaid := h.paid owner
  simp only [Ledger.advance, StakingManager.setBlock]
  rcases hget : ledger.manager.portfolios.get owner with _ | portfolio
  · simp only [hget, Option.elim_none] at hpaid ⊢
    linarith
  · simp only [hget, Option.elim_some] at hpaid ⊢
    rw [pending_advance _ ledger.height.toNat height.toNat]
    linarith

/-- A portfolio is written on which no more is pending than was, up to what is paid out. -/
theorem sound_write (portfolio' : StakingPortfolio) (h : Sound exp ledger) {total : Balance} {reward : ℕ}
    (hclaimed : ∀ t, ∀ pos ∈ portfolio'.positions.get t, pos.lastClaimBlock ≤ ledger.height)
    (htotal : total.toNat + (ledger.manager.portfolios.get portfolio'.owner).elim 0 staked =
      ledger.manager.totalStaked.toNat + staked portfolio')
    (hpending : (reward : ℚ) + pending exp ledger.manager.metrics.blocksPerYear ledger.height.toNat portfolio' ≤
      (ledger.manager.portfolios.get portfolio'.owner).elim 0
        (pending exp ledger.manager.metrics.blocksPerYear ledger.height.toNat)) :
    Sound exp { ledger with
      manager := { ledger.manager with
        portfolios := ledger.manager.portfolios.insert portfolio', totalStaked := total }
      paid := Function.update ledger.paid portfolio'.owner (ledger.paid portfolio'.owner + reward) } := by
  refine ⟨?_, fun owner portfolio hp => ?_, fun owner => ?_⟩
  · have hweigh := Keyed.weigh_insert staked portfolio' ledger.manager.portfolios
    have := h.total
    simp only
    omega
  · simp only [Keyed.get_insert] at hp
    split_ifs at hp with howner
    · obtain rfl := Option.mem_some_iff.mp hp
      exact hclaimed
    · exact h.claimed owner portfolio hp
  · have hpaid := h.paid owner
    simp only [Keyed.get_insert, Function.update_apply]
    split_ifs with howner
    · subst howner
      rw [Option.elim_some]
      push_cast
      linarith
    · exact hpaid

/-- … and none is paid out. -/
theorem sound_write_unpaid (h : Sound exp ledger) {total : Balance}
    (hclaimed : ∀ t, ∀ pos ∈ portfolio'.positions.get t, pos.lastClaimBlock ≤ ledger.height)
    (htotal : total.toNat + (ledger.manager.portfolios.get portfolio'.owner).elim 0 staked =
      ledger.manager.totalStaked.toNat + staked portfolio')
    (hpending : pending exp ledger.manager.metrics.blocksPerYear ledger.height.toNat portfolio' ≤
      (ledger.manager.portfolios.get portfolio'.owner).elim 0
        (pending exp ledger.manager.metrics.blocksPerYear ledger.height.toNat)) :
    Sound exp { ledger with manager := { ledger.manager with
      portfolios := ledger.manager.portfolios.insert portfolio', totalStaked := total } } := by
  have hwrite := sound_write portfolio' h hclaimed htotal (by rwa [Nat.cast_zero, zero_add] : ((0 : ℕ) : ℚ) + _ ≤ _)
  rwa [Nat.add_zero, Function.update_eq_self] at hwrite

end Steps

section Portfolios

variable {exp : F64 → F64} {order : Order} {metrics : StakingMetrics} {portfolio : StakingPortfolio}
  {poolType : PoolType} {amount : Balance} {height : UInt64}

/-- The position that a stake writes. -/
def stakedPosition (portfolio : StakingPortfolio) (poolType : PoolType) (amount : Balance) (height : UInt64) :
    StakePosition :=
  match portfolio.positions.get poolType with
  | some position => { position with amount := position.amount + amount }
  | none => ⟨poolType, amount, height, height, 0⟩

theorem positions_stake (exp : F64 → F64) (order : Order) (portfolio : StakingPortfolio) (poolType : PoolType)
    (amount : Balance) (height : UInt64) (metrics : StakingMetrics) :
    (portfolio.stake exp order poolType amount height metrics).positions =
    portfolio.positions.insert (stakedPosition portfolio poolType amount height) := rfl

theorem poolType_stakedPosition : (stakedPosition portfolio poolType amount height).poolType = poolType := by
  rw [stakedPosition]
  rcases hget : portfolio.positions.get poolType with _ | pos
  · rfl
  · have hkey : pos.poolType = poolType := portfolio.positions.keyed hget
    exact hkey

theorem staked_stake (hcarry : staked portfolio + amount.toNat < 2 ^ 128) :
    staked (portfolio.stake exp order poolType amount height metrics) = staked portfolio + amount.toNat := by
  have hweigh := Keyed.weigh_insert (fun pos => pos.amount.toNat)
    (stakedPosition portfolio poolType amount height) portfolio.positions
  rw [← positions_stake exp order _ _ _ _ metrics, poolType_stakedPosition] at hweigh
  change staked _ + _ = staked portfolio + _ at hweigh
  rcases hget : portfolio.positions.get poolType with _ | pos
  · simp only [hget, Option.elim_none, stakedPosition] at hweigh
    exact hweigh
  · have hle : pos.amount.toNat ≤ staked portfolio := Keyed.le_weigh (f := fun pos => pos.amount.toNat) hget
    simp only [hget, Option.elim_some, stakedPosition] at hweigh
    rw [BitVec.toNat_add, Nat.mod_eq_of_lt (by omega)] at hweigh
    omega

theorem pending_stake (blocksPerYear : UInt64)
    (hscale : ∀ t : PoolType, (t.scale exp).negative = false)
    (hclaimed : ∀ t, ∀ pos ∈ portfolio.positions.get t, pos.lastClaimBlock ≤ height)
    (hcarry : staked portfolio + amount.toNat < 2 ^ 128)
    (hquiet : ∀ pos ∈ portfolio.positions.get poolType, amount = 0 ∨ height ≤ pos.lastClaimBlock)
    (hbonus : BonusKept height portfolio (portfolio.stake exp order poolType amount height metrics)) :
    pending exp blocksPerYear height.toNat (portfolio.stake exp order poolType amount height metrics) ≤
      pending exp blocksPerYear height.toNat portfolio := by
  refine pending_le hscale hclaimed hbonus (fun t pos' hpos' => ?_) fun t => ?_
  · rw [positions_stake, Keyed.get_insert, poolType_stakedPosition] at hpos'
    split_ifs at hpos' with ht
    · obtain rfl := Option.mem_some_iff.mp hpos'
      rw [stakedPosition]
      rcases hget : portfolio.positions.get poolType with _ | pos
      · exact .inl rfl
      · exact .inr ⟨pos, by rw [ht, hget]; rfl, rfl⟩
    · exact .inr ⟨pos', hpos', rfl⟩
  · rw [positions_stake, Keyed.get_insert, poolType_stakedPosition]
    split_ifs with ht
    · subst ht
      rw [Option.elim_some, stakedPosition]
      rcases hget : portfolio.positions.get t with _ | pos
      · simp [accrued]
      -- what is added finds no blocks, or nothing is added
      · rcases hquiet pos hget with rfl | hlast
        · simp [accrued]
        · have heq : pos.lastClaimBlock = height := UInt64.le_antisymm (hclaimed t pos hget) hlast
          simp [accrued, heq]
    · exact le_rfl

theorem unstake_eq {r : Balance × StakingPortfolio}
    (h : portfolio.unstake exp order poolType amount metrics = some r) :
    ∃ pos, portfolio.positions.get poolType = some pos ∧ r.1 ≤ pos.amount ∧ r.2.owner = portfolio.owner ∧
      r.2.positions = if pos.amount - r.1 = 0 then portfolio.positions.erase poolType
        else portfolio.positions.insert { pos with amount := pos.amount - r.1 } := by
  unfold StakingPortfolio.unstake at h
  split at h
  · cases h
  next pos hget =>
    obtain rfl := Option.some.inj h
    refine ⟨pos, hget, ?_, rfl, rfl⟩
    simp only
    split_ifs with hle
    · exact hle
    · exact BitVec.le_refl _

/-- What is left under a pool after an unstake. -/
theorem get_unstake {r : Balance × StakingPortfolio} {t : PoolType} {pos' : StakePosition}
    (h : portfolio.unstake exp order poolType amount metrics = some r) (hpos' : pos' ∈ r.2.positions.get t) :
    ∃ pos ∈ portfolio.positions.get t, pos'.lastClaimBlock = pos.lastClaimBlock ∧ pos'.poolType = pos.poolType ∧
      pos'.amount ≤ pos.amount := by
  obtain ⟨pos, hget, hle, -, hpositions⟩ := unstake_eq h
  have hkey := portfolio.positions.keyed hget
  rw [hpositions] at hpos'
  split_ifs at hpos' with hempty
  · rw [Keyed.get_erase] at hpos'
    split_ifs at hpos'
    · cases hpos'
    · exact ⟨pos', hpos', rfl, rfl, BitVec.le_refl _⟩
  · rw [Keyed.get_insert] at hpos'
    split_ifs at hpos' with ht
    · obtain rfl := Option.mem_some_iff.mp hpos'
      refine ⟨pos, ?_, rfl, rfl, ?_⟩
      · rw [ht]
        change pos ∈ portfolio.positions.get pos.poolType
        rw [hkey]
        exact hget
      · rw [BitVec.le_def, BitVec.toNat_sub_of_le hle]
        exact Nat.sub_le _ _
    · exact ⟨pos', hpos', rfl, rfl, BitVec.le_refl _⟩

theorem staked_unstake {r : Balance × StakingPortfolio}
    (h : portfolio.unstake exp order poolType amount metrics = some r) :
    staked r.2 + r.1.toNat = staked portfolio := by
  obtain ⟨pos, hget, hle, -, hpositions⟩ := unstake_eq h
  have hle' := BitVec.le_def.mp hle
  have hleft : (pos.amount - r.1).toNat = pos.amount.toNat - r.1.toNat := BitVec.toNat_sub_of_le hle
  rw [staked, hpositions]
  split_ifs with hempty
  · have hweigh := Keyed.weigh_erase (fun pos => pos.amount.toNat) poolType portfolio.positions
    rw [hget, Option.elim_some] at hweigh
    rw [hempty, toNat_zero'] at hleft
    rw [staked]
    omega
  · have hweigh := Keyed.weigh_insert_of_get (f := fun pos => pos.amount.toNat)
      (w := { pos with amount := pos.amount - r.1 }) hget rfl
    simp only [hleft] at hweigh
    rw [staked]
    omega

theorem pending_unstake (blocksPerYear : UInt64)
    (hscale : ∀ t : PoolType, (t.scale exp).negative = false)
    (hclaimed : ∀ t, ∀ pos ∈ portfolio.positions.get t, pos.lastClaimBlock ≤ height)
    {r : Balance × StakingPortfolio} (h : portfolio.unstake exp order poolType amount metrics = some r)
    (hbonus : BonusKept height portfolio r.2) :
    pending exp blocksPerYear height.toNat r.2 ≤ pending exp blocksPerYear height.toNat portfolio := by
  refine pending_le hscale hclaimed hbonus (fun t pos' hpos' => ?_) fun t => ?_
  · obtain ⟨pos, hpos, hlast, -, -⟩ := get_unstake h hpos'
    exact .inr ⟨pos, hpos, hlast⟩
  · rcases hget : r.2.positions.get t with _ | pos'
    · exact accrued_get_nonneg hscale hclaimed t
    · obtain ⟨pos, hpos, hlast, htype, hle⟩ := get_unstake h hget
      have hblocks : (pos.lastClaimBlock.toNat : ℚ) ≤ height.toNat := by
        exact_mod_cast UInt64.le_iff_toNat_le.mp (hclaimed t pos hpos)
      have hamount : (pos'.amount.toNat : ℚ) ≤ pos.amount.toNat := by exact_mod_cast BitVec.le_def.mp hle
      rw [Option.mem_def.mp hpos, Option.elim_some, Option.elim_some, accrued, accrued, hlast, htype]
      refine mul_le_mul_of_nonneg_right ?_ (sub_nonneg.mpr hblocks)
      exact mul_le_mul_of_nonneg_right hamount (yield_nonneg hscale _)

theorem toNat_sum_le (l : List Balance) : l.sum.toNat ≤ (l.map BitVec.toNat).sum := by
  induction l with
  | nil => simp
  | cons a l ih =>
    rw [List.sum_cons, List.map_cons, List.sum_cons, BitVec.toNat_add]
    exact (Nat.mod_le _ _).trans (Nat.add_le_add_left ih _)

/-- The sum over the values of the map, in whatever order. -/
theorem sum_values (order : Order) (portfolio : StakingPortfolio) (f : StakePosition → ℕ) :
    ((portfolio.values order).map f).sum = portfolio.positions.weigh f := by
  have hfilter (l : List PoolType) : ((l.filterMap portfolio.positions.get).map f).sum =
      (l.map fun t => (portfolio.positions.get t).elim 0 f).sum := by
    induction l with
    | nil => rfl
    | cons t l ih =>
      rw [List.filterMap_cons, List.map_cons, List.sum_cons, ← ih]
      rcases portfolio.positions.get t with _ | pos
      · rw [Option.elim_none, Nat.zero_add]
      · rw [List.map_cons, List.sum_cons, Option.elim_some]
  rw [StakingPortfolio.values, hfilter, (order.perm.map _).sum_eq]
  rfl

theorem baseRewards_le (hround : RoundsDown exp order metrics portfolio) :
    ((portfolio.baseRewards exp order metrics).toNat : ℚ) ≤
      (∑ t, (portfolio.positions.get t).elim 0 (accrued exp metrics.currentBlock.toNat)) /
        metrics.blocksPerYear.toNat := by
  have hsum := toNat_sum_le ((portfolio.values order).map fun pos =>
    pos.calculateBaseRewards exp metrics.currentBlock metrics.blocksPerYear)
  rw [List.map_map, sum_values] at hsum
  calc ((portfolio.baseRewards exp order metrics).toNat : ℚ)
      ≤ ∑ t, ((portfolio.positions.get t).elim 0 fun pos =>
          (pos.calculateBaseRewards exp metrics.currentBlock metrics.blocksPerYear).toNat : ℕ) := by
        exact_mod_cast hsum
    _ ≤ ∑ t, (portfolio.positions.get t).elim 0 (accrued exp metrics.currentBlock.toNat) /
          metrics.blocksPerYear.toNat := by
        rw [Nat.cast_sum]
        refine Finset.sum_le_sum fun t _ => ?_
        rcases hget : portfolio.positions.get t with _ | pos
        · simp
        · exact hround.base t pos hget
    _ = _ := (Finset.sum_div ..).symm

/-- What a claim pays was pending. -/
theorem claim_le_pending (hround : RoundsDown exp order metrics portfolio) :
    ((portfolio.calculateTotalRewards exp order metrics).toNat : ℚ) ≤
      pending exp metrics.blocksPerYear metrics.currentBlock.toNat portfolio :=
  hround.total.trans (mul_le_mul_of_nonneg_right (baseRewards_le hround) (bonus_nonneg _))

theorem pending_claimRewards (blocksPerYear : UInt64) :
    pending exp blocksPerYear metrics.currentBlock.toNat (portfolio.claimRewards exp order metrics).2 = 0 := by
  refine pending_eq_zero fun t pos hpos => ?_
  obtain ⟨old, -, rfl⟩ := Option.map_eq_some_iff.mp hpos
  rfl

end Portfolios

section Calls

variable {exp : F64 → F64} {ledger : Ledger} {order : Order} {owner : Address} {poolType : PoolType}
  {amount : Balance}

/-- The sum over a portfolio that is not there is the sum over a new one. -/
theorem elim_getOrCreatePortfolio {β : Type} [Zero β] {f : StakingPortfolio → β} (hnew : f (.new owner) = 0)
    (manager : StakingManager) :
    (manager.portfolios.get owner).elim 0 f = f (manager.getOrCreatePortfolio owner) := by
  rw [StakingManager.getOrCreatePortfolio]
  rcases manager.portfolios.get owner with _ | portfolio
  · exact hnew.symm
  · rfl

theorem owner_getOrCreatePortfolio (manager : StakingManager) (owner : Address) :
    (manager.getOrCreatePortfolio owner).owner = owner := by
  rw [StakingManager.getOrCreatePortfolio]
  rcases hget : manager.portfolios.get owner with _ | portfolio
  · rfl
  · exact manager.portfolios.keyed hget

theorem mem_getOrCreatePortfolio (manager : StakingManager) (owner : Address) {P : StakingPortfolio → Prop}
    (hnew : P (.new owner)) (h : ∀ portfolio ∈ manager.portfolios.get owner, P portfolio) : P (manager.getOrCreatePortfolio owner) := by
  rw [StakingManager.getOrCreatePortfolio]
  rcases hget : manager.portfolios.get owner with _ | portfolio
  · exact hnew
  · exact h portfolio hget

theorem staked_new : staked (.new owner) = 0 := by
  simp [staked, StakingPortfolio.new, Keyed.weigh, weighMap]

theorem staked_le (h : Sound exp ledger) {portfolio : StakingPortfolio}
    (hget : ledger.manager.portfolios.get owner = some portfolio) :
    staked portfolio ≤ ledger.manager.totalStaked.toNat := by
  rw [h.total]
  exact Keyed.le_weigh hget

theorem sound_stake (hscale : ∀ t : PoolType, (t.scale exp).negative = false) (h : Sound exp ledger)
    (hcarry : NoCarry ledger.manager.totalStaked amount)
    (hquiet : ∀ portfolio ∈ ledger.manager.portfolios.get owner,
      (∀ pos ∈ portfolio.positions.get poolType, amount = 0 ∨ ledger.height ≤ pos.lastClaimBlock) ∧
        BonusKept ledger.height portfolio
          (portfolio.stake exp order poolType amount ledger.height ledger.manager.metrics)) :
    Sound exp (ledger.apply exp order (.stake owner poolType amount)) := by
  have hstaked : (ledger.manager.portfolios.get owner).elim 0 staked =
      staked (ledger.manager.getOrCreatePortfolio owner) := elim_getOrCreatePortfolio staked_new _
  have hpending : (ledger.manager.portfolios.get owner).elim 0
        (pending exp ledger.manager.metrics.blocksPerYear ledger.height.toNat) =
      pending exp ledger.manager.metrics.blocksPerYear ledger.height.toNat
        (ledger.manager.getOrCreatePortfolio owner) :=
    elim_getOrCreatePortfolio (pending_eq_zero fun t pos hpos => by cases hpos) _
  have hclaimed := mem_getOrCreatePortfolio ledger.manager owner
    (P := fun portfolio => ∀ t, ∀ pos ∈ portfolio.positions.get t, pos.lastClaimBlock ≤ ledger.height)
    (fun t pos hpos => by cases hpos) (h.claimed owner)
  have hposition := mem_getOrCreatePortfolio ledger.manager owner (P := fun portfolio => ∀ pos ∈ portfolio.positions.get poolType,
    amount = 0 ∨ ledger.height ≤ pos.lastClaimBlock) (fun pos hpos => by cases hpos) fun p hp => (hquiet p hp).1
  have hbonus := mem_getOrCreatePortfolio ledger.manager owner (P := fun portfolio => BonusKept ledger.height portfolio
      (portfolio.stake exp order poolType amount ledger.height ledger.manager.metrics))
    (.inl fun t pos hpos => by cases hpos) fun p hp => (hquiet p hp).2
  have howner := owner_getOrCreatePortfolio ledger.manager owner
  have hle := mem_getOrCreatePortfolio ledger.manager owner (P := fun portfolio => staked portfolio ≤ ledger.manager.totalStaked.toNat)
    (staked_new ▸ Nat.zero_le _) fun p hp => staked_le h hp
  have hsum : staked (ledger.manager.getOrCreatePortfolio owner) + amount.toNat < 2 ^ 128 :=
    (Nat.add_le_add_right hle _).trans_lt hcarry
  change Sound exp { ledger with manager := _ }
  refine sound_write_unpaid h (fun t pos' hpos' => ?_) ?_ ?_
  · rw [positions_stake, Keyed.get_insert, poolType_stakedPosition] at hpos'
    split_ifs at hpos'
    · obtain rfl := Option.mem_some_iff.mp hpos'
      rw [stakedPosition]
      rcases hget : (ledger.manager.getOrCreatePortfolio owner).positions.get poolType with _ | pos
      · exact UInt64.le_refl _
      · exact hclaimed poolType pos hget
    · exact hclaimed t pos' hpos'
  · change _ + (ledger.manager.portfolios.get (ledger.manager.getOrCreatePortfolio owner).owner).elim 0 staked = _
    rw [howner, hstaked, staked_stake hsum, BitVec.toNat_add, Nat.mod_eq_of_lt hcarry]
    omega
  · change _ ≤ (ledger.manager.portfolios.get (ledger.manager.getOrCreatePortfolio owner).owner).elim 0 _
    rw [howner, hpending]
    exact pending_stake _ hscale hclaimed hsum hposition hbonus

theorem sound_unstake (hscale : ∀ t : PoolType, (t.scale exp).negative = false) (h : Sound exp ledger)
    (hquiet : ∀ portfolio ∈ ledger.manager.portfolios.get owner,
      ∀ r ∈ portfolio.unstake exp order poolType amount ledger.manager.metrics,
        BonusKept ledger.height portfolio r.2) :
    Sound exp (ledger.apply exp order (.unstake owner poolType amount)) := by
  simp only [Ledger.apply, StakingManager.unstake]
  rcases hget : ledger.manager.portfolios.get owner with _ | portfolio
  · exact h
  rcases hunstake : portfolio.unstake exp order poolType amount ledger.manager.metrics with _ | ⟨actual, portfolio'⟩
  · simp only [hunstake]
    exact h
  simp only [hunstake, Option.elim_some]
  have howner : portfolio'.owner = owner := by
    obtain ⟨-, -, -, howner, -⟩ := unstake_eq hunstake
    exact howner.trans (ledger.manager.portfolios.keyed hget)
  have hstaked := staked_unstake hunstake
  have hle := staked_le h hget
  refine sound_write_unpaid h (fun t pos' hpos' => ?_) ?_ ?_
  · obtain ⟨pos, hpos, hlast, -⟩ := get_unstake hunstake hpos'
    rw [hlast]
    exact h.claimed owner portfolio hget t pos hpos
  · rw [howner, hget, Option.elim_some, toNat_satSub]
    simp only at hstaked
    omega
  · rw [howner, hget, Option.elim_some]
    have hbonus := hquiet portfolio hget (actual, portfolio') hunstake
    have hp := pending_unstake ledger.manager.metrics.blocksPerYear hscale (h.claimed owner portfolio hget)
      hunstake hbonus
    exact hp

theorem sound_claim (h : Sound exp ledger) (hblock : ledger.manager.metrics.currentBlock = ledger.height)
    (hquiet : ∀ portfolio ∈ ledger.manager.portfolios.get owner,
      RoundsDown exp order ledger.manager.metrics portfolio) :
    Sound exp (ledger.apply exp order (.claim owner)) := by
  simp only [Ledger.apply, StakingManager.claimRewards]
  rcases hget : ledger.manager.portfolios.get owner with _ | portfolio
  · have hnone : ledger.paid owner + (0 : Balance).toNat = ledger.paid owner := by
      rw [toNat_zero', Nat.add_zero]
    simp only [hnone, Function.update_eq_self]
    exact h
  have howner : portfolio.owner = owner := ledger.manager.portfolios.keyed hget
  subst howner
  refine sound_write (portfolio.claimRewards exp order ledger.manager.metrics).2 h
    (fun t pos hpos => ?_) ?_ ?_
  · obtain ⟨old, -, rfl⟩ := Option.map_eq_some_iff.mp hpos
    exact hblock ▸ UInt64.le_refl _
  · change _ + (ledger.manager.portfolios.get portfolio.owner).elim 0 staked = _
    rw [hget, Option.elim_some]
    congr 1
    rw [staked, staked, StakingPortfolio.claimRewards, Keyed.weigh_map]
    rfl
  · change _ ≤ (ledger.manager.portfolios.get portfolio.owner).elim 0 _
    rw [hget, Option.elim_some, ← hblock, pending_claimRewards, add_zero]
    exact claim_le_pending (hquiet portfolio hget)

end Calls

/-! ### Runs -/

theorem sound_next {exp : F64 → F64} (hscale : ∀ t : PoolType, (t.scale exp).negative = false) {call : Call}
    {ledger : Ledger} (hheight : ledger.height ≤ call.height) (hquiet : Quiet exp (call, ledger))
    (h : Sound exp ledger) : Sound exp ((staking exp).next call ledger) := by
  have hadvance := sound_advance h hheight
  obtain ⟨height, order, op⟩ := call
  cases op with
  | stake owner poolType amount => exact sound_stake hscale hadvance hquiet.1 hquiet.2
  | unstake owner poolType amount => exact sound_unstake hscale hadvance hquiet
  | claim owner => exact sound_claim hadvance rfl hquiet

theorem height_next (exp : F64 → F64) (call : Call) (ledger : Ledger) :
    ((staking exp).next call ledger).height = call.height := by
  obtain ⟨height, order, op⟩ := call
  cases op <;> rfl

theorem notRetroactive_of_sound {exp : F64 → F64} (hscale : ∀ t : PoolType, (t.scale exp).negative = false)
    {ledger : Ledger} (h : Sound exp ledger) : ledger.NotRetroactive := by
  refine ⟨h.total, fun owner => ?_⟩
  refine le_trans (le_add_of_nonneg_right ?_) (h.paid owner)
  rcases hget : ledger.manager.portfolios.get owner with _ | portfolio
  · exact le_rfl
  · exact pending_nonneg hscale (h.claimed owner portfolio hget)

/-- The calls to come: their heights go on from here in order, and they are quiet. -/
structure Orderly (calls : List Call) (ledger : Ledger) : Prop where
  sound : Sound exp ledger
  later : ∀ call ∈ calls, ledger.height ≤ call.height
  heights : calls.Pairwise fun c c' => c.height ≤ c'.height
  quiet : ∀ step ∈ (staking exp).trace calls ledger, Quiet exp step

theorem orderly_next {exp : F64 → F64} (hscale : ∀ t : PoolType, (t.scale exp).negative = false) {call : Call}
    {calls : List Call} {ledger : Ledger} (h : Orderly exp (call :: calls) ledger) :
    Orderly exp calls ((staking exp).next call ledger) := by
  have hheights := List.pairwise_cons.mp h.heights
  have hquiet := h.quiet
  rw [Machine.trace_cons rfl, List.forall_mem_cons] at hquiet
  refine ⟨sound_next hscale (h.later call List.mem_cons_self) hquiet.1 h.sound, fun c hc => ?_, hheights.2,
    hquiet.2⟩
  rw [height_next]
  exact hheights.1 c hc

/-- At heights in order, a run of quiet calls keeps the total and pays nothing for the past. -/
theorem notRetroactive_of_quiet (exp : F64 → F64) (hscale : ∀ t : PoolType, (t.scale exp).negative = false)
    (metrics : StakingMetrics) (calls : List Call) (hheights : calls.Pairwise fun c c' => c.height ≤ c'.height)
    (hquiet : ∀ step ∈ (staking exp).trace calls (Ledger.start metrics), Quiet exp step) :
    (∀ step ∈ (staking exp).trace calls (Ledger.start metrics), step.2.NotRetroactive) ∧
      ((staking exp).final calls (Ledger.start metrics)).NotRetroactive := by
  have hstart : Sound exp (Ledger.start metrics) := by
    refine ⟨?_, fun owner portfolio hp => (by cases hp), fun owner => ?_⟩
    · simp [Ledger.start, Keyed.weigh, weighMap]
    · simp [Ledger.start]
  exact Machine.invariant_inputs (Q := Orderly exp) (fun calls ledger h => notRetroactive_of_sound hscale h.sound)
    (fun call calls ledger => orderly_next hscale)
    ⟨hstart, fun call _ => UInt64.zero_le, hheights, hquiet⟩

/-! ### One staker -/

/-- The exponential at zero, where the genesis pool asks for it. -/
def expZero (_ : F64) : F64 := F64.one

def inOrder : Order := ⟨PoolType.all, List.Perm.refl _⟩

/-- 3650000 blocks in a year. -/
def yearly : StakingMetrics := ⟨⟨0x3FD3126E978D4FDF⟩, 0, 0, 3650000⟩

def alice : Address := ⟨1⟩

/-- A million staked for a year, a thousand times as much added at its end, and a claim. -/
def lateStake : List Call :=
  [⟨0, inOrder, .stake alice .genesis 1000000⟩,
    ⟨3650000, inOrder, .stake alice .genesis 1000000000⟩,
    ⟨3650000, inOrder, .claim alice⟩]

/-- What is added late is paid for the whole year. -/
theorem late_stake_paid_for_the_past :
    ¬ ((staking expZero).final lateStake (Ledger.start yearly)).NotRetroactive := by
  intro h
  have hpaid := h.paid alice
  revert hpaid
  decide +kernel

/-- The claim comes first. -/
def settledStake : List Call :=
  [⟨0, inOrder, .stake alice .genesis 1000000⟩,
    ⟨3650000, inOrder, .claim alice⟩,
    ⟨3650000, inOrder, .stake alice .genesis 1000000000⟩,
    ⟨3650010, inOrder, .claim alice⟩]

example : (((staking expZero).final settledStake (Ledger.start yearly)).paid alice) = 709045 := by decide +kernel

theorem settled_stake_paid_in_time :
    (∀ step ∈ (staking expZero).trace settledStake (Ledger.start yearly), step.2.NotRetroactive) ∧
      ((staking expZero).final settledStake (Ledger.start yearly)).NotRetroactive :=
  notRetroactive_of_quiet expZero (fun _ => rfl) yearly settledStake (by decide) (by decide +kernel)

end Coinjecture.Tokenomics.StakingRuns
