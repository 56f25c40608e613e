import Coinjecture.Core.Types
import Coinjecture.Lib.SignedWords
import Coinjecture.Lib.Trace

/-! # The fee market

The base fee after a block: it moves by the part of itself that the block is off the target, divided by the
denominator, and stays above a floor. The fees are `u128` and the calculation is done in `i64`.

* `base_fee_law_iff` : in which runs of blocks every update is exact and the fee moves as it should. -/

namespace Coinjecture.Mempool.BaseFee

open Core.Types Lib.SignedWords Lib.Trace

structure FeeMarketConfig where
  targetTransactions : Usize
  maxTransactions : Usize
  initialBaseFee : Balance
  maxChangeDenominator : UInt64
  minBaseFee : Balance
  deriving DecidableEq

def FeeMarketConfig.default : FeeMarketConfig where
  targetTransactions := 100
  maxTransactions := 200
  initialBaseFee := 1000
  maxChangeDenominator := 8
  minBaseFee := 100

structure FeeMarket where
  baseFee : Balance
  targetTransactions : Usize
  maxTransactions : Usize
  config : FeeMarketConfig
  deriving DecidableEq

namespace FeeMarket

def new (config : FeeMarketConfig) : FeeMarket where
  baseFee := config.initialBaseFee
  targetTransactions := config.targetTransactions
  maxTransactions := config.maxTransactions
  config := config

/-! ### The values of `update_base_fee` -/

def target (m : FeeMarket) : Int64 := ofUnsigned m.targetTransactions.toBitVec

def actual (transactionsInBlock : Usize) : Int64 := ofUnsigned transactionsInBlock.toBitVec

def delta (transactionsInBlock : Usize) (m : FeeMarket) : Int64 := actual transactionsInBlock - m.target

def base (m : FeeMarket) : Int64 := ofUnsigned m.baseFee

def denominator (m : FeeMarket) : Int64 := ofUnsigned m.config.maxChangeDenominator.toBitVec

def minBaseFee (m : FeeMarket) : Int64 := ofUnsigned m.config.minBaseFee

def numerator (transactionsInBlock : Usize) (m : FeeMarket) : Int64 := m.base * m.delta transactionsInBlock

def newBaseFee (change : Int64) (m : FeeMarket) : Int64 := max (m.base + change) m.minBaseFee

/-- None if a division panics. -/
def updateBaseFee (transactionsInBlock : Usize) (m : FeeMarket) : Option FeeMarket :=
  if m.delta transactionsInBlock = 0 then some m
  else do
    let quotient ← checkedDiv (m.numerator transactionsInBlock) m.target
    let change ← checkedDiv quotient m.denominator
    some { m with baseFee := toUnsigned 128 (m.newBaseFee change) }

end FeeMarket

/-- The inputs are the numbers of transactions of the blocks. -/
def machine : Machine Usize FeeMarket where
  next n m := (m.updateBaseFee n).getD m
  halts n m := (m.updateBaseFee n).isNone

/-! ### What is asked of an update -/

/-- How far a block is off the target, either way. -/
def offTarget (n : Usize) (m : FeeMarket) : ℕ := ((n.toNat : ℤ) - m.targetTransactions.toNat).natAbs

structure Adjusts (n : Usize) (m m' : FeeMarket) : Prop where
  floor : m.config.minBaseFee.toNat ≤ m'.baseFee.toNat
  bounded : ∃ unfloored : ℤ, (m'.baseFee.toNat : ℤ) = max unfloored m.config.minBaseFee.toNat ∧
    (unfloored - m.baseFee.toNat).natAbs ≤
      m.baseFee.toNat * offTarget n m / m.targetTransactions.toNat / m.config.maxChangeDenominator.toNat
  rises : m.targetTransactions.toNat < n.toNat → m.baseFee.toNat ≤ m'.baseFee.toNat
  falls : n.toNat < m.targetTransactions.toNat → m'.baseFee.toNat ≤ m.baseFee.toNat

/-- The values of a change up to its quotients are those of the integers, the casts included. -/
structure ExactQuotients (n : Usize) (m : FeeMarket) : Prop where
  base : m.base.toInt = m.baseFee.toNat
  denominator : m.denominator.toInt = m.config.maxChangeDenominator.toNat
  minBaseFee : m.minBaseFee.toInt = m.config.minBaseFee.toNat
  numerator : (m.numerator n).toInt = m.base.toInt * (m.delta n).toInt
  quotient : (m.numerator n / m.target).toInt = (m.numerator n).toInt.tdiv m.target.toInt
  change : (m.numerator n / m.target / m.denominator).toInt =
    (m.numerator n / m.target).toInt.tdiv m.denominator.toInt

/-- … and so are the new fee and its cast back. -/
structure ExactChange (n : Usize) (m : FeeMarket) : Prop extends ExactQuotients n m where
  sum : (m.base + m.numerator n / m.target / m.denominator).toInt =
    m.base.toInt + (m.numerator n / m.target / m.denominator).toInt
  result : ((toUnsigned 128 (m.newBaseFee (m.numerator n / m.target / m.denominator))).toNat : ℤ) =
    (m.newBaseFee (m.numerator n / m.target / m.denominator)).toInt

structure Exact (n : Usize) (m : FeeMarket) : Prop where
  target : m.target.toInt = m.targetTransactions.toNat
  actual : (FeeMarket.actual n).toInt = n.toNat
  delta : (m.delta n).toInt = (FeeMarket.actual n).toInt - m.target.toInt
  change : m.delta n ≠ 0 → ExactChange n m

def Follows (p : Usize × FeeMarket) : Prop :=
  Exact p.1 p.2 ∧ ∃ m', p.2.updateBaseFee p.1 = some m' ∧ Adjusts p.1 p.2 m'

/-! ### When it is met -/

/-- The fees and the denominator are below `2 ^ 63`, and so is what a block over the target asks for; one under the
target may come to `2 ^ 63`. -/
structure Fits (n : Usize) (m : FeeMarket) : Prop where
  base : m.baseFee.toNat < 2 ^ 63
  denominator : m.config.maxChangeDenominator.toNat < 2 ^ 63
  minBaseFee : m.config.minBaseFee.toNat < 2 ^ 63
  above : m.targetTransactions.toNat < n.toNat → m.baseFee.toNat * (n.toNat - m.targetTransactions.toNat) < 2 ^ 63
  below : n.toNat < m.targetTransactions.toNat → m.baseFee.toNat * (m.targetTransactions.toNat - n.toNat) ≤ 2 ^ 63
  sum : m.targetTransactions.toNat < n.toNat →
    m.baseFee.toNat + m.baseFee.toNat * (n.toNat - m.targetTransactions.toNat) / m.targetTransactions.toNat /
      m.config.maxChangeDenominator.toNat < 2 ^ 63

structure Meets (p : Usize × FeeMarket) : Prop where
  target : p.2.targetTransactions.toNat < 2 ^ 63
  actual : p.1.toNat < 2 ^ 63
  fits : p.1 ≠ p.2.targetTransactions → Fits p.1 p.2
  floor : p.1.toNat ≤ p.2.targetTransactions.toNat → p.2.config.minBaseFee.toNat ≤ p.2.baseFee.toNat

instance (n : Usize) (m : FeeMarket) : Decidable (Fits n m) :=
  decidable_of_iff (_ ∧ _ ∧ _ ∧ (_ → _) ∧ (_ → _) ∧ (_ → _))
    ⟨fun ⟨h1, h2, h3, h4, h5, h6⟩ => ⟨h1, h2, h3, h4, h5, h6⟩,
      fun h => ⟨h.base, h.denominator, h.minBaseFee, h.above, h.below, h.sum⟩⟩

instance (p : Usize × FeeMarket) : Decidable (Meets p) :=
  decidable_of_iff (_ ∧ _ ∧ (_ → _) ∧ (_ → _))
    ⟨fun ⟨h1, h2, h3, h4⟩ => ⟨h1, h2, h3, h4⟩, fun h => ⟨h.target, h.actual, h.fits, h.floor⟩⟩

/-- There are a target and a denominator to divide by. -/
structure Divides (m : FeeMarket) : Prop where
  target : 0 < m.targetTransactions.toNat
  denominator : 0 < m.config.maxChangeDenominator.toNat

section
variable {n : Usize} {m : FeeMarket}

theorem target_iff : m.target.toInt = m.targetTransactions.toNat ↔ m.targetTransactions.toNat < 2 ^ 63 :=
  toInt_ofUnsigned_iff

theorem actual_iff : (FeeMarket.actual n).toInt = n.toNat ↔ n.toNat < 2 ^ 63 :=
  toInt_ofUnsigned_iff

/-- The difference of two numbers below `2 ^ 63` is exact. -/
theorem delta_eq (ht : m.targetTransactions.toNat < 2 ^ 63) (hn : n.toNat < 2 ^ 63) :
    (m.delta n).toInt = (n.toNat : ℤ) - m.targetTransactions.toNat := by
  rw [FeeMarket.delta, toInt_sub_iff.mpr, target_iff.mpr ht, actual_iff.mpr hn]
  rw [target_iff.mpr ht, actual_iff.mpr hn, InRange]
  omega

theorem delta_ne_zero_iff (ht : m.targetTransactions.toNat < 2 ^ 63) (hn : n.toNat < 2 ^ 63) :
    m.delta n ≠ 0 ↔ n ≠ m.targetTransactions := by
  refine not_congr ?_
  rw [← Int64.toInt_inj, delta_eq ht hn, ← UInt64.toNat_inj, Int64.toInt_zero]
  omega

theorem offTarget_above (h : m.targetTransactions.toNat < n.toNat) :
    offTarget n m = n.toNat - m.targetTransactions.toNat := by
  rw [offTarget]
  omega

theorem offTarget_below (h : n.toNat < m.targetTransactions.toNat) :
    offTarget n m = m.targetTransactions.toNat - n.toNat := by
  rw [offTarget]
  omega

/-- The quotients of the change, whatever its sign. -/
def moves (n : Usize) (m : FeeMarket) : ℕ :=
  m.baseFee.toNat * offTarget n m / m.targetTransactions.toNat / m.config.maxChangeDenominator.toNat

theorem asBalance_toNat {a : Int64} (h : 0 ≤ a.toInt) : ((toUnsigned 128 a).toNat : ℤ) = a.toInt :=
  toNat_toUnsigned (by decide) h

/-! ### From the exact values back to the bounds -/

theorem Exact.target_lt (h : Exact n m) : m.targetTransactions.toNat < 2 ^ 63 := target_iff.mp h.target

theorem Exact.actual_lt (h : Exact n m) : n.toNat < 2 ^ 63 := actual_iff.mp h.actual

theorem ExactQuotients.numerator_above (h : ExactQuotients n m) (ht : m.targetTransactions.toNat < 2 ^ 63)
    (hn : n.toNat < 2 ^ 63) (habove : m.targetTransactions.toNat < n.toNat) :
    (m.numerator n).toInt = ((m.baseFee.toNat * (n.toNat - m.targetTransactions.toNat) : ℕ) : ℤ) := by
  rw [h.numerator, h.base, delta_eq ht hn, Nat.cast_mul, Nat.cast_sub habove.le]

theorem ExactQuotients.numerator_below (h : ExactQuotients n m) (ht : m.targetTransactions.toNat < 2 ^ 63)
    (hn : n.toNat < 2 ^ 63) (hbelow : n.toNat < m.targetTransactions.toNat) :
    (m.numerator n).toInt = -((m.baseFee.toNat * (m.targetTransactions.toNat - n.toNat) : ℕ) : ℤ) := by
  rw [h.numerator, h.base, delta_eq ht hn, Nat.cast_mul, Nat.cast_sub hbelow.le, ← mul_neg, neg_sub]

theorem ExactQuotients.change_above (h : ExactQuotients n m) (ht : m.targetTransactions.toNat < 2 ^ 63)
    (hn : n.toNat < 2 ^ 63) (habove : m.targetTransactions.toNat < n.toNat) :
    (m.numerator n / m.target / m.denominator).toInt = moves n m := by
  rw [h.change, h.quotient, h.numerator_above ht hn habove, target_iff.mpr ht, h.denominator,
    ← offTarget_above habove]
  exact natCast_tdiv_tdiv _ _ _

theorem ExactQuotients.change_below (h : ExactQuotients n m) (ht : m.targetTransactions.toNat < 2 ^ 63)
    (hn : n.toNat < 2 ^ 63) (hbelow : n.toNat < m.targetTransactions.toNat) :
    (m.numerator n / m.target / m.denominator).toInt = -(moves n m : ℤ) := by
  rw [h.change, h.quotient, h.numerator_below ht hn hbelow, target_iff.mpr ht, h.denominator,
    ← offTarget_below hbelow]
  exact neg_natCast_tdiv_tdiv _ _ _

theorem ExactChange.fits (h : ExactChange n m) (ht : m.targetTransactions.toNat < 2 ^ 63)
    (hn : n.toNat < 2 ^ 63) : Fits n m := by
  have hrange := toInt_inRange (m.numerator n)
  refine ⟨toInt_ofUnsigned_iff.mp h.base, toInt_ofUnsigned_iff.mp h.denominator,
    toInt_ofUnsigned_iff.mp h.minBaseFee, fun habove => ?_, fun hbelow => ?_, fun habove => ?_⟩
  · rw [h.numerator_above ht hn habove, InRange] at hrange
    exact_mod_cast hrange.2
  · rw [h.numerator_below ht hn hbelow, InRange, neg_le_neg_iff] at hrange
    exact_mod_cast hrange.1
  · have hsum := (toInt_inRange (m.base + m.numerator n / m.target / m.denominator)).2
    rw [h.sum, h.base, h.change_above ht hn habove] at hsum
    rw [← offTarget_above habove]
    exact_mod_cast hsum

/-- Where nothing is divided, nothing changes. -/
theorem updateBaseFee_of_eq (h : n = m.targetTransactions) : m.updateBaseFee n = some m := by
  refine if_pos ?_
  rw [h, FeeMarket.delta, FeeMarket.actual, FeeMarket.target, Int64.sub_self]

theorem meets_of_follows (h : Follows (n, m)) : Meets (n, m) := by
  obtain ⟨hexact, m', hm', hadjusts⟩ := h
  have ht := hexact.target_lt
  have hn := hexact.actual_lt
  refine ⟨ht, hn, fun hne => ?_, fun hle => ?_⟩
  · exact (hexact.change ((delta_ne_zero_iff ht hn).mpr hne)).fits ht hn
  · rcases hle.lt_or_eq with hbelow | heq
    · exact hadjusts.floor.trans (hadjusts.falls hbelow)
    · rw [updateBaseFee_of_eq (UInt64.toNat_inj.mp heq)] at hm'
      obtain rfl := Option.some.inj hm'
      exact hadjusts.floor

/-! ### From the bounds to the exact values -/

theorem Fits.numerator_inRange (h : Fits n m) (hne : n ≠ m.targetTransactions) :
    InRange ((m.baseFee.toNat : ℤ) * (n.toNat - m.targetTransactions.toNat)) := by
  rcases Nat.lt_or_gt_of_ne fun heq => hne (UInt64.toNat_inj.mp heq) with hbelow | habove
  · have hle : ((m.baseFee.toNat * (m.targetTransactions.toNat - n.toNat) : ℕ) : ℤ) ≤ 2 ^ 63 := by
      exact_mod_cast h.below hbelow
    rw [Nat.cast_mul, Nat.cast_sub hbelow.le] at hle
    rw [← neg_sub, mul_neg]
    have hpos : 0 ≤ (m.baseFee.toNat : ℤ) * (m.targetTransactions.toNat - n.toNat) :=
      mul_nonneg (Int.natCast_nonneg _) (by omega)
    exact ⟨neg_le_neg hle, (neg_nonpos.mpr hpos).trans_lt (by decide)⟩
  · have hlt : ((m.baseFee.toNat * (n.toNat - m.targetTransactions.toNat) : ℕ) : ℤ) < 2 ^ 63 := by
      exact_mod_cast h.above habove
    rw [Nat.cast_mul, Nat.cast_sub habove.le] at hlt
    have hpos : 0 ≤ (m.baseFee.toNat : ℤ) * (n.toNat - m.targetTransactions.toNat) :=
      mul_nonneg (Int.natCast_nonneg _) (by omega)
    exact ⟨(by decide : (-2 ^ 63 : ℤ) ≤ 0).trans hpos, hlt⟩

theorem ne_iff_lt_or_gt : n ≠ m.targetTransactions ↔
    n.toNat < m.targetTransactions.toNat ∨ m.targetTransactions.toNat < n.toNat := by
  rw [Ne, ← UInt64.toNat_inj]
  exact Nat.lt_or_gt

theorem Fits.exactQuotients (h : Fits n m) (hdivides : Divides m) (ht : m.targetTransactions.toNat < 2 ^ 63)
    (hn : n.toNat < 2 ^ 63) (hne : n ≠ m.targetTransactions) : ExactQuotients n m := by
  have hbase : m.base.toInt = m.baseFee.toNat := toInt_ofUnsigned_iff.mpr h.base
  have hdenominator : m.denominator.toInt = m.config.maxChangeDenominator.toNat :=
    toInt_ofUnsigned_iff.mpr h.denominator
  refine ⟨hbase, hdenominator, toInt_ofUnsigned_iff.mpr h.minBaseFee, ?_, ?_, ?_⟩
  · rw [FeeMarket.numerator, toInt_mul_iff, hbase, delta_eq ht hn]
    exact h.numerator_inRange hne
  · refine toInt_div_of_pos ?_
    rw [target_iff.mpr ht]
    exact Int.natCast_pos.mpr hdivides.target
  · refine toInt_div_of_pos ?_
    rw [hdenominator]
    exact Int.natCast_pos.mpr hdivides.denominator

/-- A block below the target takes at most the whole fee. -/
theorem moves_le (h : n.toNat < m.targetTransactions.toNat) : moves n m ≤ m.baseFee.toNat := by
  rw [moves, offTarget_below h]
  refine (Nat.div_le_self _ _).trans (Nat.div_le_of_le_mul ?_)
  rw [Nat.mul_comm m.targetTransactions.toNat]
  exact Nat.mul_le_mul_left _ (Nat.sub_le _ _)

theorem Fits.exactChange (h : Fits n m) (hdivides : Divides m) (ht : m.targetTransactions.toNat < 2 ^ 63)
    (hn : n.toNat < 2 ^ 63) (hne : n ≠ m.targetTransactions) : ExactChange n m := by
  have hquotients := h.exactQuotients hdivides ht hn hne
  have hbase := h.base
  refine ⟨hquotients, toInt_add_iff.mpr ?_, asBalance_toNat ?_⟩
  · rw [hquotients.base]
    rcases ne_iff_lt_or_gt.mp hne with hbelow | habove
    · have hle := moves_le hbelow
      rw [hquotients.change_below ht hn hbelow, InRange]
      omega
    · have hsum : m.baseFee.toNat + moves n m < 2 ^ 63 := by
        rw [moves, offTarget_above habove]
        exact h.sum habove
      rw [hquotients.change_above ht hn habove, InRange]
      omega
  · rw [FeeMarket.newBaseFee, toInt_max, hquotients.minBaseFee]
    exact le_max_of_le_right (Int.natCast_nonneg _)

/-- The fee that an exact change leaves. -/
theorem ExactChange.baseFee (h : ExactChange n m) :
    ((toUnsigned 128 (m.newBaseFee (m.numerator n / m.target / m.denominator))).toNat : ℤ) =
      max (m.baseFee.toNat + (m.numerator n / m.target / m.denominator).toInt) m.config.minBaseFee.toNat := by
  rw [h.result, FeeMarket.newBaseFee, toInt_max, h.sum, h.base, h.minBaseFee]

theorem updateBaseFee_of_ne (h : ExactChange n m) (hdivides : Divides m)
    (ht : m.targetTransactions.toNat < 2 ^ 63) (hne : m.delta n ≠ 0) : m.updateBaseFee n = some { m with
      baseFee := toUnsigned 128 (m.newBaseFee (m.numerator n / m.target / m.denominator)) } := by
  have htarget : 0 < m.target.toInt := by
    rw [target_iff.mpr ht]
    exact Int.natCast_pos.mpr hdivides.target
  have hdenominator : 0 < m.denominator.toInt := by
    rw [h.denominator]
    exact Int.natCast_pos.mpr hdivides.denominator
  rw [FeeMarket.updateBaseFee, if_neg hne, checkedDiv_of_pos htarget, Option.bind_eq_bind, Option.bind_some,
    checkedDiv_of_pos hdenominator]
  rfl

theorem ExactChange.adjusts (h : ExactChange n m) (ht : m.targetTransactions.toNat < 2 ^ 63)
    (hn : n.toNat < 2 ^ 63) (hne : n ≠ m.targetTransactions)
    (hfloor : n.toNat ≤ m.targetTransactions.toNat → m.config.minBaseFee.toNat ≤ m.baseFee.toNat) :
    Adjusts n m { m with
      baseFee := toUnsigned 128 (m.newBaseFee (m.numerator n / m.target / m.denominator)) } := by
  have hfee := h.baseFee
  refine ⟨?_, ⟨_, hfee, ?_⟩, fun habove => ?_, fun hbelow => ?_⟩
  · dsimp only
    omega
  · rw [add_sub_cancel_left]
    rcases ne_iff_lt_or_gt.mp hne with hbelow | habove
    · rw [h.change_below ht hn hbelow, Int.natAbs_neg, Int.natAbs_natCast, moves]
    · rw [h.change_above ht hn habove, Int.natAbs_natCast, moves]
  · rw [h.change_above ht hn habove] at hfee
    dsimp only
    omega
  · have hmin := hfloor hbelow.le
    rw [h.change_below ht hn hbelow] at hfee
    dsimp only
    omega

theorem follows_of_meets (hdivides : Divides m) (h : Meets (n, m)) : Follows (n, m) := by
  have ht := h.target
  have hn := h.actual
  have hexact : m.delta n ≠ 0 → ExactChange n m := fun hne => by
    have hne' := (delta_ne_zero_iff ht hn).mp hne
    exact (h.fits hne').exactChange hdivides ht hn hne'
  refine ⟨⟨target_iff.mpr ht, actual_iff.mpr hn, ?_, hexact⟩, ?_⟩
  · rw [delta_eq ht hn, target_iff.mpr ht, actual_iff.mpr hn]
  · by_cases heq : n = m.targetTransactions
    · have hfloor := h.floor (Nat.le_of_eq (congrArg UInt64.toNat heq))
      refine ⟨m, updateBaseFee_of_eq heq, hfloor, ⟨m.baseFee.toNat, ?_, ?_⟩, fun _ => le_rfl, fun _ => le_rfl⟩
      · exact (max_eq_left (Int.ofNat_le.mpr hfloor)).symm
      · rw [sub_self]
        exact Nat.zero_le _
    · have hne := (delta_ne_zero_iff ht hn).mpr heq
      exact ⟨_, updateBaseFee_of_ne (hexact hne) hdivides ht hne, (hexact hne).adjusts ht hn heq h.floor⟩

end

/-! ### Runs -/

theorem updateBaseFee_eq {n : Usize} {m m' : FeeMarket} (h : m.updateBaseFee n = some m') :
    m'.targetTransactions = m.targetTransactions ∧ m'.config = m.config := by
  rw [FeeMarket.updateBaseFee] at h
  split_ifs at h
  · obtain rfl := Option.some.inj h
    exact ⟨rfl, rfl⟩
  · obtain ⟨quotient, -, h⟩ := Option.bind_eq_some_iff.mp h
    obtain ⟨change, -, h⟩ := Option.bind_eq_some_iff.mp h
    obtain rfl := Option.some.inj h
    exact ⟨rfl, rfl⟩

theorem next_divides (n : Usize) {m : FeeMarket} (h : Divides m) : Divides (machine.next n m) := by
  cases hupdate : m.updateBaseFee n with
  | none =>
    rw [machine]
    dsimp only
    rw [hupdate]
    exact h
  | some m' =>
    obtain ⟨htarget, hconfig⟩ := updateBaseFee_eq hupdate
    rw [machine]
    dsimp only
    rw [hupdate]
    refine ⟨?_, ?_⟩
    · rw [Option.getD_some, htarget]
      exact h.target
    · rw [Option.getD_some, hconfig]
      exact h.denominator

/-- In a run from any configuration with a target and a denominator, every update is exact, keeps the floor, moves
the fee by no more than it may and to the right side, if and only if the numbers of transactions, the target, the
denominator and the fees are below `2 ^ 63`, what a block asks for does not leave `i64`, and the fee is not below the
floor when a block is not above the target. -/
theorem base_fee_law_iff (config : FeeMarketConfig) (blocks : List Usize)
    (htarget : 0 < config.targetTransactions.toNat) (hdenominator : 0 < config.maxChangeDenominator.toNat) :
    (∀ p ∈ machine.trace blocks (FeeMarket.new config), Follows p) ↔
      ∀ p ∈ machine.trace blocks (FeeMarket.new config), Meets p :=
  Machine.forall_trace_iff (Q := fun _ m => Divides m)
    (fun _ _ _ h => ⟨meets_of_follows, follows_of_meets h⟩) (fun n _ _ h _ => next_divides n h)
    ⟨htarget, hdenominator⟩

/-- A block half over the target, one half under it and one at it. -/
theorem default_fees_follow : (machine.final [150, 50, 100] (FeeMarket.new .default)).baseFee = 996 ∧
    ∀ p ∈ machine.trace [150, 50, 100] (FeeMarket.new .default), Follows p :=
  ⟨by decide, (base_fee_law_iff .default [150, 50, 100] (by decide) (by decide)).mpr (by decide)⟩

/-! ### A congested period -/

/-- The market of the default configuration after 274 full blocks. -/
def congested : FeeMarket := { FeeMarket.new .default with baseFee := 103383302987723169 }

/-- The product of the fee and 100 leaves `i64`, and the next full block lowers the fee. -/
theorem congested_fee_falls :
    ¬ ∀ p ∈ machine.trace (List.replicate 275 200) (FeeMarket.new .default), Follows p := by
  intro h
  have hmem : (200, congested) ∈ machine.trace (List.replicate 275 200) (FeeMarket.new .default) := by
    decide +kernel
  obtain ⟨-, m', hm', hadjusts⟩ := h _ hmem
  have hupdate : congested.updateBaseFee 200 = some { congested with baseFee := 93247785769051626 } := by decide
  obtain rfl := Option.some.inj (hupdate.symm.trans hm')
  exact absurd (hadjusts.rises (by decide)) (by decide)

end Coinjecture.Mempool.BaseFee
