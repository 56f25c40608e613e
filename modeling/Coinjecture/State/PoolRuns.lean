import Coinjecture.Lib.Trace
import Coinjecture.State.PoolMaintenance

/-! # Runs of pool operations

The pools under any sequence of operations. The scale factors of a call are floating point numbers;
what they round to is left open: the amounts are functions of the pool and its record, whatever they
are (`maintenance_is_op` and its like say which ones the code computes). A swap takes from the
liquidity of both pools and from neither the locked nor the unlocked part, so locked and unlocked add
up to the liquidity only as long as swaps move nothing. -/

namespace Coinjecture.State.PoolRuns

open Lib.Effect Lib.Table Lib.Trace Lib.Float64
open Core.Types Core.Transactions Core.Extern
open State.DimensionalPools State.DimensionalPools.DimensionalPoolState
open State.PoolMaintenance

instance : Fintype DimensionalPool where
  elems := ⟨POOLS, by decide⟩
  complete pool := by cases pool <;> decide

theorem mem_POOLS (pool : DimensionalPool) : pool ∈ POOLS := Fintype.complete pool

/-! ### The operations, with the amounts left open -/

/-- The record `initialize_pools` writes for a pool: its liquidity is the amount, all of it locked. -/
def initialized (initial : DimensionalPool → Balance) (record : DimensionalPool → PoolLiquidity)
    (pool : DimensionalPool) : PoolLiquidity :=
  { record pool with
    pool := pool
    liquidity := initial pool
    lockedLiquidity := initial pool
    unlockedLiquidity := 0 }

def rewarded (poolReward : Balance) (ratio : F64) (blockHeight : UInt64) (l : PoolLiquidity) :
    PoolLiquidity :=
  { l with
    liquidity := l.liquidity + poolReward
    lockedLiquidity := l.lockedLiquidity + poolReward
    allocationRatio := ratio
    lastUpdateHeight := blockHeight }

/-- What leaves the locked part when `tokens` are to be unlocked. -/
def actuallyUnlocked (tokens : Balance) (l : PoolLiquidity) : Balance :=
  if tokens < l.lockedLiquidity then tokens else l.lockedLiquidity

def unlockedBy (tokens : Balance) (fraction : F64) (blockHeight : UInt64) (l : PoolLiquidity) :
    PoolLiquidity :=
  if 0 < actuallyUnlocked tokens l then { l with
    lockedLiquidity := l.lockedLiquidity - actuallyUnlocked tokens l
    unlockedLiquidity := l.unlockedLiquidity + actuallyUnlocked tokens l
    lastUnlockFraction := fraction
    lastUpdateHeight := blockHeight }
  else l

def yieldedBy (amount : Balance) (blockHeight : UInt64) (l : PoolLiquidity) : PoolLiquidity :=
  if 0 < l.unlockedLiquidity ∧ 0 < amount then { l with
    unlockedLiquidity := l.unlockedLiquidity + amount
    liquidity := l.liquidity + amount
    lastUpdateHeight := blockHeight }
  else l

/-- `execute_swap` with the amount paid out left open. -/
def swapBy (paidOut : PoolLiquidity → PoolLiquidity → Balance)
    (poolFrom poolTo : DimensionalPool) (amountIn minAmountOut : Balance) (blockHeight : UInt64) :
    Exec Failure DimensionalPoolState Balance := do
  let liquidityFrom ← okOr (.err "Source pool not found") (← gets (getPoolLiquidity poolFrom))
  let liquidityTo ← okOr (.err "Destination pool not found") (← gets (getPoolLiquidity poolTo))
  rejectIf (liquidityFrom.liquidity < amountIn)
    s!"Insufficient liquidity in source pool: has {liquidityFrom.liquidity.toNat}, needs {amountIn.toNat}"
  let out := paidOut liquidityFrom liquidityTo
  rejectIf (out < minAmountOut) s!"Slippage exceeded: got {out.toNat}, minimum {minAmountOut.toNat}"
  rejectIf (liquidityTo.liquidity < out)
    s!"Insufficient liquidity in destination pool: has {liquidityTo.liquidity.toNat}, needs {out.toNat}"
  modify (savePoolLiquidity { liquidityFrom with
    liquidity := liquidityFrom.liquidity - amountIn, lastUpdateHeight := blockHeight })
  modify (savePoolLiquidity { liquidityTo with
    liquidity := liquidityTo.liquidity - out, lastUpdateHeight := blockHeight })
  pure out

/-- A call of an operation. -/
inductive PoolOp where
  | initializePools (initial : DimensionalPool → Balance) (record : DimensionalPool → PoolLiquidity)
  | distributeBlockReward (poolReward : DimensionalPool → Balance) (ratio : DimensionalPool → F64)
      (blockHeight : UInt64)
  | executeUnlockSchedules (tokens : DimensionalPool → PoolLiquidity → Balance)
      (fraction : DimensionalPool → F64) (blockHeight : UInt64)
  | distributeYields (amount : DimensionalPool → PoolLiquidity → Balance) (blockHeight : UInt64)
  | executeSwap (paidOut : PoolLiquidity → PoolLiquidity → Balance)
      (poolFrom poolTo : DimensionalPool) (amountIn minAmountOut : Balance) (blockHeight : UInt64)

/-- Change the record of every pool that has one. -/
def updateAll (f : DimensionalPool → PoolLiquidity → PoolLiquidity) (s : DimensionalPoolState) :
    DimensionalPoolState :=
  POOLS.foldl (fun s pool => updatePool (fun l => some (f pool l)) pool s) s

def perform (op : PoolOp) (s : DimensionalPoolState) : DimensionalPoolState :=
  match op with
  | .initializePools initial record =>
    POOLS.foldl (fun s pool => s.savePoolLiquidity (initialized initial record pool)) s
  | .distributeBlockReward poolReward ratio blockHeight =>
    updateAll (fun pool => rewarded (poolReward pool) (ratio pool) blockHeight) s
  | .executeUnlockSchedules tokens fraction blockHeight =>
    updateAll (fun pool l => unlockedBy (tokens pool l) (fraction pool) blockHeight l) s
  | .distributeYields amount blockHeight =>
    updateAll (fun pool l => yieldedBy (amount pool l) blockHeight l) s
  | .executeSwap paidOut poolFrom poolTo amountIn minAmountOut blockHeight =>
    (run (swapBy paidOut poolFrom poolTo amountIn minAmountOut blockHeight) s).2

def pools : Machine PoolOp DimensionalPoolState where
  next := perform
  halts _ _ := false

/-! ### The amounts the code computes -/

/-- The entry of a table over the pools. -/
def atPool (xs : List F64) (pool : DimensionalPool) : F64 := xs.getD (POOLS.idxOf pool) F64.zero

theorem foldl_zip_POOLS {σ : Type} (g : σ → DimensionalPool → F64 → σ) (xs : List F64)
    (hlength : xs.length = 8) (s : σ) : (POOLS.zip xs).foldl (fun s p => g s p.1 p.2) s =
      POOLS.foldl (fun s pool => g s pool (atPool xs pool)) s := by
  match xs, hlength with
  | [_, _, _, _, _, _, _, _], _ => rfl

theorem foldl_zip_tables {σ : Type} (g : σ → DimensionalPool → F64 → F64 → F64 → σ)
    (xs ys zs : List F64) (hx : xs.length = 8) (hy : ys.length = 8) (hz : zs.length = 8) (s : σ) :
    (POOLS.zip (xs.zip (ys.zip zs))).foldl (fun s p => g s p.1 p.2.1 p.2.2.1 p.2.2.2) s =
      POOLS.foldl (fun s pool => g s pool (atPool xs pool) (atPool ys pool) (atPool zs pool)) s := by
  match xs, hx, ys, hy, zs, hz with
  | [_, _, _, _, _, _, _, _], _, [_, _, _, _, _, _, _, _], _, [_, _, _, _, _, _, _, _], _ => rfl

theorem updatePool_getD (f : PoolLiquidity → Option PoolLiquidity) (pool : DimensionalPool)
    (s : DimensionalPoolState) :
    updatePool f pool s = updatePool (fun l => some ((f l).getD l)) pool s := by
  unfold updatePool
  rcases hget : s.getPoolLiquidity pool with _ | l
  · rfl
  rcases hf : f l with _ | l'
  · simp only [Option.bind_some, hf, Option.getD_none]
    have hkeyed := s.pools.keyed hget
    have hsame : s.pools.insert l = s.pools := Keyed.insert_eq_self.mpr (by rw [hkeyed]; exact hget)
    simp only [savePoolLiquidity, hsame]
  · simp only [Option.bind_some, hf, Option.getD_some]

variable (ext : Ext) (c : ConsensusState) (s : DimensionalPoolState)

theorem initializePools_is_op (totalSupply : Balance) (genesisHeight : UInt64) :
    initializePools totalSupply genesisHeight s = perform (.initializePools
      (fun pool => ((F64.ofNat totalSupply.toNat).mul (atPool ALLOCATION_RATIOS pool)).toUnsigned 128)
      (fun pool => genesisPool 0 genesisHeight pool (atPool TAU_POINTS pool)
        (atPool SCALE_FACTORS pool) (atPool ALLOCATION_RATIOS pool))) s :=
  foldl_zip_tables (fun (s : DimensionalPoolState) pool tau dimensionalFactor allocation =>
    s.savePoolLiquidity
      (genesisPool (((F64.ofNat totalSupply.toNat).mul allocation).toUnsigned 128) genesisHeight pool
        tau dimensionalFactor allocation)) TAU_POINTS SCALE_FACTORS ALLOCATION_RATIOS rfl rfl rfl s

theorem length_allocationRatios (scales : List F64) :
    (allocationRatios scales).length = scales.length := by
  simp [allocationRatios, normalized]

theorem distributeBlockReward_is_op (totalReward : Balance) (blockHeight : UInt64) :
    distributeBlockReward ext c totalReward blockHeight s = perform (.distributeBlockReward
      (fun pool => ((F64.ofNat totalReward.toNat).mul (atPool
        (allocationRatios (normalized (c.dimensionalScales ext))) pool)).toUnsigned 128)
      (atPool (allocationRatios (normalized (c.dimensionalScales ext)))) blockHeight) s := by
  refine foldl_zip_POOLS (fun s pool ratio => updatePool (fun l => some (rewarded
    (((F64.ofNat totalReward.toNat).mul ratio).toUnsigned 128) ratio blockHeight l)) pool s) _ ?_ s
  simp [length_allocationRatios, normalized, ConsensusState.dimensionalScales, TAU_POINTS]

/-- What `execute_unlock_schedules` asks to be unlocked of a pool. -/
def tokensToUnlock (fraction : F64) (l : PoolLiquidity) : Balance :=
  let newFraction := fraction.sub l.lastUnlockFraction
  if !(F64.lt ⟨0x3F50624DD2F1A9FC⟩ newFraction) then 0
  else ((F64.ofNat l.liquidity.toNat).mul newFraction).toUnsigned 128

theorem unlocked_getD (fraction : F64) (blockHeight : UInt64) (l : PoolLiquidity) :
    (unlocked fraction blockHeight l).getD l =
      unlockedBy (tokensToUnlock fraction l) fraction blockHeight l := by
  have hzero : ¬ 0 < actuallyUnlocked 0 l := by
    unfold actuallyUnlocked
    split_ifs with h
    · exact BitVec.lt_irrefl _
    · exact h
  by_cases h : (!(F64.lt ⟨0x3F50624DD2F1A9FC⟩ (fraction.sub l.lastUnlockFraction))) = true
  · simp only [unlocked, tokensToUnlock, unlockedBy, h, if_true, if_neg hzero, Option.getD_none]
  · have htokens : tokensToUnlock fraction l = ((F64.ofNat l.liquidity.toNat).mul
        (fraction.sub l.lastUnlockFraction)).toUnsigned 128 := if_neg h
    simp only [unlocked, if_neg h, unlockedBy, htokens]
    exact apply_ite (fun o : Option PoolLiquidity => o.getD l) (0 < actuallyUnlocked _ l) (some _) none

theorem executeUnlockSchedules_is_op (blockHeight : UInt64) :
    executeUnlockSchedules ext c blockHeight s = perform (.executeUnlockSchedules
      (fun pool l => tokensToUnlock (c.unlockFraction ext (atPool TAU_POINTS pool)) l)
      (fun pool => c.unlockFraction ext (atPool TAU_POINTS pool)) blockHeight) s := by
  refine (foldl_zip_POOLS (fun s pool tau => updatePool
    (unlocked (c.unlockFraction ext tau) blockHeight) pool s) TAU_POINTS rfl s).trans ?_
  simp only [perform, updateAll]
  congr 1
  funext s pool
  rw [updatePool_getD]
  simp only [unlocked_getD]

/-- What `distribute_yields` adds to a pool. -/
def yieldAmount (rate : F64) (l : PoolLiquidity) : Balance :=
  (((F64.ofNat l.unlockedLiquidity.toNat).mul rate).mul ⟨0x3F50624DD2F1A9FC⟩).toUnsigned 128

theorem yielded_getD (rate : F64) (blockHeight : UInt64) (l : PoolLiquidity) :
    (yielded rate blockHeight l).getD l = yieldedBy (yieldAmount rate l) blockHeight l := by
  simp only [yielded, yieldAmount, yieldedBy]
  by_cases h1 : 0 < l.unlockedLiquidity
  · simp only [h1, true_and, if_true]
    split_ifs
    · rfl
    · rfl
  · simp only [h1, false_and, if_false, Option.getD_none]

theorem distributeYields_is_op (blockHeight : UInt64) :
    distributeYields ext blockHeight s = perform (.distributeYields
      (fun pool l => yieldAmount (yieldRate ext (atPool TAU_POINTS pool)) l) blockHeight) s := by
  refine (foldl_zip_POOLS (fun s pool tau => updatePool (yielded (yieldRate ext tau) blockHeight)
    pool s) TAU_POINTS rfl s).trans ?_
  simp only [perform, updateAll]
  congr 1
  funext s pool
  rw [updatePool_getD]
  simp only [yielded_getD]

theorem executeSwap_is_op (poolFrom poolTo : DimensionalPool) (amountIn minAmountOut : Balance)
    (blockHeight : UInt64) : (run (executeSwap poolFrom poolTo amountIn minAmountOut blockHeight) s).2 =
      perform (.executeSwap (fun src dst => amountOut src dst amountIn) poolFrom poolTo amountIn
        minAmountOut blockHeight) s := rfl

/-! ### What a call leaves of a pool -/

variable {s}

theorem get_updatePool (f : PoolLiquidity → PoolLiquidity) (hkey : ∀ l, (f l).pool = l.pool)
    (updated pool : DimensionalPool) :
    (updatePool (fun l => some (f l)) updated s).pools.get pool =
      if pool = updated then (s.pools.get pool).map f else s.pools.get pool := by
  unfold updatePool
  rcases hget : s.getPoolLiquidity updated with _ | l
  · simp only [Option.bind_none]
    split_ifs with h
    · subst h
      rw [show s.pools.get pool = none from hget]
      rfl
    · rfl
  · have hpool : (f l).pool = updated := (hkey l).trans (s.pools.keyed hget)
    simp only [Option.bind_some, savePoolLiquidity, Keyed.get_insert, hpool]
    split_ifs with h
    · subst h
      rw [show s.pools.get pool = some l from hget]
      rfl
    · rfl

theorem get_foldl_updatePool (f : DimensionalPool → PoolLiquidity → PoolLiquidity)
    (hkey : ∀ pool l, (f pool l).pool = l.pool) {ps : List DimensionalPool} (hnodup : ps.Nodup)
    (s : DimensionalPoolState) (pool : DimensionalPool) :
    (ps.foldl (fun s p => updatePool (fun l => some (f p l)) p s) s).pools.get pool =
      if pool ∈ ps then (s.pools.get pool).map (f pool) else s.pools.get pool := by
  induction ps generalizing s with
  | nil => rfl
  | cons p ps ih =>
    obtain ⟨hnotin, hnodup⟩ := List.nodup_cons.mp hnodup
    rw [List.foldl_cons, ih hnodup, get_updatePool (f p) (hkey p)]
    by_cases h : pool = p
    · subst h
      rw [if_neg hnotin, if_pos rfl, if_pos List.mem_cons_self]
    · simp only [h, if_false, List.mem_cons, false_or]

theorem get_updateAll (f : DimensionalPool → PoolLiquidity → PoolLiquidity)
    (hkey : ∀ pool l, (f pool l).pool = l.pool) (s : DimensionalPoolState)
    (pool : DimensionalPool) :
    (updateAll f s).pools.get pool = (s.pools.get pool).map (f pool) :=
  (get_foldl_updatePool f hkey (by decide) s pool).trans (if_pos (mem_POOLS pool))

theorem get_foldl_save (r : DimensionalPool → PoolLiquidity) (hkey : ∀ pool, (r pool).pool = pool)
    (ps : List DimensionalPool) (s : DimensionalPoolState) (pool : DimensionalPool) :
    (ps.foldl (fun s p => s.savePoolLiquidity (r p)) s).pools.get pool =
      if pool ∈ ps then some (r pool) else s.pools.get pool := by
  induction ps generalizing s with
  | nil => rfl
  | cons p ps ih =>
    rw [List.foldl_cons, ih, savePoolLiquidity, Keyed.get_insert, hkey]
    by_cases hin : pool ∈ ps
    · rw [if_pos hin, if_pos (List.mem_cons_of_mem _ hin)]
    · rw [if_neg hin]
      by_cases h : pool = p
      · subst h
        rw [if_pos rfl, if_pos List.mem_cons_self]
      · simp only [List.mem_cons, h, hin, false_or, if_false]

variable {poolFrom poolTo : DimensionalPool} {src dst : PoolLiquidity}

theorem swapBy_guarded (paidOut : PoolLiquidity → PoolLiquidity → Balance)
    (hsrc : s.pools.get poolFrom = some src) (hdst : s.pools.get poolTo = some dst)
    (amountIn minAmountOut : Balance) (blockHeight : UInt64) :
    Guarded (swapBy paidOut poolFrom poolTo amountIn minAmountOut blockHeight) s
      (amountIn ≤ src.liquidity ∧ minAmountOut ≤ paidOut src dst ∧ paidOut src dst ≤ dst.liquidity)
      (paidOut src dst, (s.savePoolLiquidity { src with
        liquidity := src.liquidity - amountIn
        lastUpdateHeight := blockHeight }).savePoolLiquidity { dst with
        liquidity := dst.liquidity - paidOut src dst
        lastUpdateHeight := blockHeight }) := by
  constructor
  · rintro ⟨h1, h2, h3⟩
    simp only [swapBy, getPoolLiquidity, run_gets_bind, hsrc, hdst, run_okOr_some_bind,
      run_rejectIf_bind, BitVec.not_lt.mpr h1, BitVec.not_lt.mpr h2, BitVec.not_lt.mpr h3, if_false,
      run_modify_bind, run_pure]
  · intro hn
    simp only [swapBy, getPoolLiquidity, run_gets_bind, hsrc, hdst, run_okOr_some_bind,
      run_rejectIf_bind]
    split_ifs with h1 h2 h3
    · exact ⟨_, rfl⟩
    · exact ⟨_, rfl⟩
    · exact ⟨_, rfl⟩
    · exact absurd ⟨BitVec.not_lt.mp h1, BitVec.not_lt.mp h2, BitVec.not_lt.mp h3⟩ hn

theorem swapBy_none (paidOut : PoolLiquidity → PoolLiquidity → Balance)
    (h : s.pools.get poolFrom = none ∨ s.pools.get poolTo = none)
    (amountIn minAmountOut : Balance) (blockHeight : UInt64) :
    ∃ m, run (swapBy paidOut poolFrom poolTo amountIn minAmountOut blockHeight) s =
      (.error (.err m), s) := by
  simp only [swapBy, getPoolLiquidity, run_gets_bind]
  rcases hsrc : s.pools.get poolFrom with _ | src
  · exact ⟨_, run_okOr_none_bind ..⟩
  · have hdst : s.pools.get poolTo = none := by
      rcases h with h | h
      · rw [hsrc] at h; cases h
      · exact h
    simp only [run_okOr_some_bind, run_gets_bind, hdst]
    exact ⟨_, run_okOr_none_bind ..⟩

/-! ### What a run keeps -/

/-- Locked and unlocked add up to the liquidity, as numbers. -/
def Balanced (l : PoolLiquidity) : Prop :=
  l.lockedLiquidity.toNat + l.unlockedLiquidity.toNat = l.liquidity.toNat

def AllBalanced (s : DimensionalPoolState) : Prop :=
  ∀ pool l, s.pools.get pool = some l → Balanced l

/-- The sum of the liquidity over the pools. -/
def total (s : DimensionalPoolState) : ℕ := s.pools.weigh fun l => l.liquidity.toNat

/-- A swap changes the sum of the liquidity by what comes in minus what goes out. -/
def SwapExact (op : PoolOp) (s : DimensionalPoolState) : Prop :=
  match op with
  | .executeSwap paidOut poolFrom poolTo amountIn minAmountOut blockHeight => ∀ out,
      (run (swapBy paidOut poolFrom poolTo amountIn minAmountOut blockHeight) s).1 = .ok out →
        total (perform op s) + out.toNat = total s + amountIn.toNat
  | _ => True

/-- Nothing is taken off an amount that is smaller. -/
def NoUnderflow (op : PoolOp) (s : DimensionalPoolState) : Prop :=
  match op with
  | .executeSwap paidOut poolFrom poolTo amountIn minAmountOut blockHeight => ∀ src dst out,
      s.pools.get poolFrom = some src → s.pools.get poolTo = some dst →
        (run (swapBy paidOut poolFrom poolTo amountIn minAmountOut blockHeight) s).1 = .ok out →
          amountIn ≤ src.liquidity ∧ out ≤ dst.liquidity
  | .executeUnlockSchedules tokens _ _ => ∀ pool l, s.pools.get pool = some l →
      actuallyUnlocked (tokens pool l) l ≤ l.lockedLiquidity
  | _ => True

/-- A reward or a yield overflows in both of the amounts it is added to, or in neither; and a swap that
passes the checks has zero amounts on both sides. -/
def Sound (op : PoolOp) (s : DimensionalPoolState) : Prop :=
  match op with
  | .initializePools .. | .executeUnlockSchedules .. => True
  | .distributeBlockReward poolReward _ _ => ∀ pool l, s.pools.get pool = some l →
      (l.lockedLiquidity.toNat + (poolReward pool).toNat < 2 ^ 128 ↔
        l.liquidity.toNat + (poolReward pool).toNat < 2 ^ 128)
  | .distributeYields amount _ => ∀ pool l, s.pools.get pool = some l → 0 < l.unlockedLiquidity →
      (l.unlockedLiquidity.toNat + (amount pool l).toNat < 2 ^ 128 ↔
        l.liquidity.toNat + (amount pool l).toNat < 2 ^ 128)
  | .executeSwap paidOut poolFrom poolTo amountIn minAmountOut _ => ∀ src dst,
      s.pools.get poolFrom = some src → s.pools.get poolTo = some dst →
        amountIn ≤ src.liquidity → minAmountOut ≤ paidOut src dst → paidOut src dst ≤ dst.liquidity →
          amountIn = 0 ∧ paidOut src dst = 0

theorem allBalanced_updateAll_iff (f : DimensionalPool → PoolLiquidity → PoolLiquidity)
    (hkey : ∀ pool l, (f pool l).pool = l.pool) : AllBalanced (updateAll f s) ↔
      ∀ pool l, s.pools.get pool = some l → Balanced (f pool l) := by
  constructor
  · intro h pool l hget
    exact h pool (f pool l) (by rw [get_updateAll f hkey, hget]; rfl)
  · intro h pool l' hget'
    rw [get_updateAll f hkey] at hget'
    obtain ⟨l, hget, rfl⟩ := Option.map_eq_some_iff.mp hget'
    exact h pool l hget

/-- Adding to one part and to the sum. -/
theorem add_exact_iff {x y z r : Balance} (h : x.toNat + y.toNat = z.toNat) :
    (x + r).toNat + y.toNat = (z + r).toNat ↔
      (x.toNat + r.toNat < 2 ^ 128 ↔ z.toNat + r.toNat < 2 ^ 128) := by
  have hx := x.isLt
  have hz := z.isLt
  have hr := r.isLt
  simp only [BitVec.toNat_add]
  omega

theorem balanced_rewarded_iff {l : PoolLiquidity} (h : Balanced l) (poolReward : Balance)
    (ratio : F64) (blockHeight : UInt64) : Balanced (rewarded poolReward ratio blockHeight l) ↔
      (l.lockedLiquidity.toNat + poolReward.toNat < 2 ^ 128 ↔
        l.liquidity.toNat + poolReward.toNat < 2 ^ 128) :=
  add_exact_iff h

theorem balanced_yieldedBy_iff {l : PoolLiquidity} (h : Balanced l) (amount : Balance)
    (blockHeight : UInt64) : Balanced (yieldedBy amount blockHeight l) ↔
      (0 < l.unlockedLiquidity → (l.unlockedLiquidity.toNat + amount.toNat < 2 ^ 128 ↔
        l.liquidity.toNat + amount.toNat < 2 ^ 128)) := by
  unfold yieldedBy
  by_cases hpos : 0 < l.unlockedLiquidity
  swap
  · rw [if_neg fun h' => hpos h'.1]
    exact ⟨fun _ h' => absurd h' hpos, fun _ => h⟩
  by_cases hamount : 0 < amount
  · rw [if_pos ⟨hpos, hamount⟩]
    have hcomm : l.unlockedLiquidity.toNat + l.lockedLiquidity.toNat = l.liquidity.toNat := by
      rw [Nat.add_comm]; exact h
    have hadd := add_exact_iff (r := amount) hcomm
    simp only [hpos, true_implies]
    rw [← hadd, Balanced, Nat.add_comm]
  · have hzero : amount.toNat = 0 := by
      rw [BitVec.not_lt] at hamount
      exact Nat.le_zero.mp hamount
    have hunlocked := l.unlockedLiquidity.isLt
    have hliquidity := l.liquidity.isLt
    rw [if_neg fun h' => hamount h'.2, hzero]
    exact ⟨fun _ _ => by omega, fun _ => h⟩

theorem actuallyUnlocked_le (tokens : Balance) (l : PoolLiquidity) :
    actuallyUnlocked tokens l ≤ l.lockedLiquidity := by
  unfold actuallyUnlocked
  split_ifs with h
  · exact BitVec.le_of_lt h
  · exact BitVec.le_refl _

theorem balanced_unlockedBy {l : PoolLiquidity} (h : Balanced l) (tokens : Balance) (fraction : F64)
    (blockHeight : UInt64) : Balanced (unlockedBy tokens fraction blockHeight l) := by
  unfold unlockedBy
  split_ifs
  · have hle := actuallyUnlocked_le tokens l
    have hliquidity := l.liquidity.isLt
    have hle' : (actuallyUnlocked tokens l).toNat ≤ l.lockedLiquidity.toNat := hle
    have hsum : l.lockedLiquidity.toNat + l.unlockedLiquidity.toNat = l.liquidity.toNat := h
    simp only [Balanced, BitVec.toNat_sub_of_le hle, BitVec.toNat_add]
    omega
  · exact h

/-! ### Swaps -/

/-- The record of a pool after an amount was taken off its liquidity. -/
def lowered (amount : Balance) (blockHeight : UInt64) (l : PoolLiquidity) : PoolLiquidity :=
  { l with liquidity := l.liquidity - amount, lastUpdateHeight := blockHeight }

/-- The pools after a swap that passed its checks. -/
def afterSwap (src dst : PoolLiquidity) (amountIn out : Balance) (blockHeight : UInt64)
    (s : DimensionalPoolState) : DimensionalPoolState :=
  (s.savePoolLiquidity (lowered amountIn blockHeight src)).savePoolLiquidity
    (lowered out blockHeight dst)

theorem total_save {l : PoolLiquidity} (l' : PoolLiquidity) {pool : DimensionalPool}
    (hget : s.pools.get pool = some l) (hkey : l'.pool = l.pool) :
    total (s.savePoolLiquidity l') + l.liquidity.toNat = total s + l'.liquidity.toNat :=
  Keyed.weigh_insert_of_get hget hkey

theorem total_lowered {l : PoolLiquidity} {pool : DimensionalPool} {amount : Balance}
    (hget : s.pools.get pool = some l) (hle : amount ≤ l.liquidity) (blockHeight : UInt64) :
    total (s.savePoolLiquidity (lowered amount blockHeight l)) + amount.toNat = total s := by
  have hsave := total_save (lowered amount blockHeight l) hget rfl
  have hle' : amount.toNat ≤ l.liquidity.toNat := hle
  simp only [lowered, BitVec.toNat_sub_of_le hle] at hsave
  simp only [lowered]
  omega

theorem get_afterSwap_to {amountIn out : Balance} {blockHeight : UInt64}
    (hdst : s.pools.get poolTo = some dst) :
    (afterSwap src dst amountIn out blockHeight s).pools.get poolTo =
      some (lowered out blockHeight dst) := by
  have hkey : poolTo = (lowered out blockHeight dst).pool := (s.pools.keyed hdst).symm
  rw [afterSwap, savePoolLiquidity, Keyed.get_insert, if_pos hkey]

/-- A swap takes both amounts out of the pools; a swap of a pool with itself takes the second. -/
theorem total_afterSwap (hsrc : s.pools.get poolFrom = some src) (hdst : s.pools.get poolTo = some dst)
    {amountIn out : Balance} (hin : amountIn ≤ src.liquidity) (hout : out ≤ dst.liquidity)
    (blockHeight : UInt64) : total (afterSwap src dst amountIn out blockHeight s) + out.toNat +
      (if poolFrom = poolTo then 0 else amountIn.toNat) = total s := by
  by_cases h : poolFrom = poolTo
  · subst h
    rw [hsrc] at hdst
    cases hdst
    have hsame : afterSwap src src amountIn out blockHeight s =
        s.savePoolLiquidity (lowered out blockHeight src) := by
      have htwice := Keyed.insert_insert (v := lowered amountIn blockHeight src)
        (w := lowered out blockHeight src) s.pools rfl
      simp only [afterSwap, savePoolLiquidity, htwice]
    rw [if_pos rfl, hsame, Nat.add_zero]
    exact total_lowered hsrc hout blockHeight
  · have hne : poolTo ≠ (lowered amountIn blockHeight src).pool := by
      intro heq
      exact h ((s.pools.keyed hsrc).symm.trans heq.symm)
    have hdst' : (s.savePoolLiquidity (lowered amountIn blockHeight src)).pools.get poolTo =
        some dst := (Keyed.get_insert_ne _ hne).trans hdst
    have hfirst := total_lowered hsrc hin blockHeight
    have hsecond := total_lowered hdst' hout blockHeight
    rw [if_neg h, afterSwap]
    omega

theorem allBalanced_save {l : PoolLiquidity} (hs : AllBalanced s) (hl : Balanced l) :
    AllBalanced (s.savePoolLiquidity l) := by
  intro pool l' hget
  rw [savePoolLiquidity, Keyed.get_insert] at hget
  split_ifs at hget
  · cases hget
    exact hl
  · exact hs pool l' hget

/-- A swap keeps the pools balanced and their sum exact only if it moves nothing. -/
theorem swap_iff (hs : AllBalanced s) (hsrc : s.pools.get poolFrom = some src)
    (hdst : s.pools.get poolTo = some dst) {amountIn out : Balance} (hin : amountIn ≤ src.liquidity)
    (hout : out ≤ dst.liquidity) (blockHeight : UInt64) :
    amountIn = 0 ∧ out = 0 ↔ AllBalanced (afterSwap src dst amountIn out blockHeight s) ∧
      total (afterSwap src dst amountIn out blockHeight s) + out.toNat = total s + amountIn.toNat := by
  have htotal := total_afterSwap hsrc hdst hin hout blockHeight
  constructor
  · rintro ⟨rfl, rfl⟩
    have hzero : ∀ l, Balanced l → Balanced (lowered 0 blockHeight l) := by
      intro l hl
      have hsub : l.liquidity - 0 = l.liquidity := BitVec.sub_zero _
      simp only [Balanced, lowered, hsub]
      exact hl
    refine ⟨allBalanced_save (allBalanced_save hs (hzero src (hs _ _ hsrc))) (hzero dst (hs _ _ hdst)),
      ?_⟩
    split_ifs at htotal <;> exact htotal
  · rintro ⟨hbalanced, hexact⟩
    have hzero : amountIn.toNat = 0 := by
      split_ifs at htotal
      · omega
      · omega
    have hdst' : Balanced (lowered out blockHeight dst) := hbalanced _ _ (get_afterSwap_to hdst)
    have hbefore : Balanced dst := hs _ _ hdst
    have hout' : out.toNat ≤ dst.liquidity.toNat := hout
    simp only [Balanced, lowered, BitVec.toNat_sub_of_le hout] at hdst' hbefore
    have hzero' : out.toNat = 0 := by omega
    exact ⟨BitVec.eq_of_toNat_eq hzero, BitVec.eq_of_toNat_eq hzero'⟩

/-- How a swap ends. -/
theorem swap_cases (paidOut : PoolLiquidity → PoolLiquidity → Balance)
    (poolFrom poolTo : DimensionalPool) (amountIn minAmountOut : Balance) (blockHeight : UInt64)
    (s : DimensionalPoolState) :
    (∃ m, run (swapBy paidOut poolFrom poolTo amountIn minAmountOut blockHeight) s =
        (.error (.err m), s)) ∧ Sound (.executeSwap paidOut poolFrom poolTo amountIn minAmountOut
          blockHeight) s ∨
      ∃ src dst, s.pools.get poolFrom = some src ∧ s.pools.get poolTo = some dst ∧
        amountIn ≤ src.liquidity ∧ minAmountOut ≤ paidOut src dst ∧ paidOut src dst ≤ dst.liquidity ∧
        run (swapBy paidOut poolFrom poolTo amountIn minAmountOut blockHeight) s =
          (.ok (paidOut src dst), afterSwap src dst amountIn (paidOut src dst) blockHeight s) := by
  rcases hsrc : s.pools.get poolFrom with _ | src
  · refine .inl ⟨swapBy_none paidOut (.inl hsrc) .., fun src dst hsrc' => ?_⟩
    rw [hsrc] at hsrc'
    cases hsrc'
  rcases hdst : s.pools.get poolTo with _ | dst
  · refine .inl ⟨swapBy_none paidOut (.inr hdst) .., fun src dst _ hdst' => ?_⟩
    rw [hdst] at hdst'
    cases hdst'
  have hguarded := swapBy_guarded paidOut hsrc hdst amountIn minAmountOut blockHeight
  by_cases h : amountIn ≤ src.liquidity ∧ minAmountOut ≤ paidOut src dst ∧
      paidOut src dst ≤ dst.liquidity
  · exact .inr ⟨src, dst, rfl, rfl, h.1, h.2.1, h.2.2, hguarded.ok h⟩
  · refine .inl ⟨hguarded.refused h, fun src' dst' hsrc' hdst' h1 h2 h3 => ?_⟩
    rw [hsrc] at hsrc'
    rw [hdst] at hdst'
    cases hsrc'
    cases hdst'
    exact absurd ⟨h1, h2, h3⟩ h

/-! ### Every run -/

variable {op : PoolOp}

theorem noUnderflow (op : PoolOp) (s : DimensionalPoolState) : NoUnderflow op s := by
  cases op with
  | initializePools => trivial
  | distributeBlockReward => trivial
  | distributeYields => trivial
  | executeUnlockSchedules tokens fraction blockHeight =>
    exact fun pool l _ => actuallyUnlocked_le (tokens pool l) l
  | executeSwap paidOut poolFrom poolTo amountIn minAmountOut blockHeight =>
    intro src dst out hsrc hdst hok
    rcases swap_cases paidOut poolFrom poolTo amountIn minAmountOut blockHeight s with
      ⟨⟨m, hrun⟩, -⟩ | ⟨src', dst', hsrc', hdst', hin, -, hout, hrun⟩
    · rw [hrun] at hok
      cases hok
    · rw [hrun] at hok
      cases hok
      rw [hsrc] at hsrc'
      rw [hdst] at hdst'
      cases hsrc'
      cases hdst'
      exact ⟨hin, hout⟩

/-- From balanced pools, a call is sound exactly if it leaves the pools balanced and, if it is a swap,
changes the sum of the liquidity as a swap should. -/
theorem sound_iff (hs : AllBalanced s) :
    Sound op s ↔ AllBalanced (perform op s) ∧ SwapExact op s := by
  cases op with
  | initializePools initial record =>
    refine ⟨fun _ => ⟨fun pool l hget => ?_, trivial⟩, fun _ => trivial⟩
    have hget' := (get_foldl_save (initialized initial record) (fun _ => rfl) POOLS s pool).symm.trans
      hget
    rw [if_pos (mem_POOLS pool)] at hget'
    cases hget'
    exact Nat.add_zero _
  | distributeBlockReward poolReward ratio blockHeight =>
    have hiff := allBalanced_updateAll_iff (s := s)
      (fun pool => rewarded (poolReward pool) (ratio pool) blockHeight) fun _ _ => rfl
    refine ⟨fun h => ⟨hiff.mpr fun pool l hget => ?_, trivial⟩, fun h pool l hget => ?_⟩
    · exact (balanced_rewarded_iff (hs pool l hget) ..).mpr (h pool l hget)
    · exact (balanced_rewarded_iff (hs pool l hget) ..).mp (hiff.mp h.1 pool l hget)
  | executeUnlockSchedules tokens fraction blockHeight =>
    refine ⟨fun _ => ⟨?_, trivial⟩, fun _ => trivial⟩
    have hkey : ∀ pool l, (unlockedBy (tokens pool l) (fraction pool) blockHeight l).pool = l.pool := by
      intro pool l
      unfold unlockedBy
      split_ifs
      · rfl
      · rfl
    exact (allBalanced_updateAll_iff _ hkey).mpr fun pool l hget =>
      balanced_unlockedBy (hs pool l hget) ..
  | distributeYields amount blockHeight =>
    have hkey : ∀ pool l, (yieldedBy (amount pool l) blockHeight l).pool = l.pool := by
      intro pool l
      unfold yieldedBy
      split_ifs
      · rfl
      · rfl
    have hiff := allBalanced_updateAll_iff (s := s) _ hkey
    refine ⟨fun h => ⟨hiff.mpr fun pool l hget => ?_, trivial⟩, fun h pool l hget => ?_⟩
    · exact (balanced_yieldedBy_iff (hs pool l hget) ..).mpr (h pool l hget)
    · exact (balanced_yieldedBy_iff (hs pool l hget) ..).mp (hiff.mp h.1 pool l hget)
  | executeSwap paidOut poolFrom poolTo amountIn minAmountOut blockHeight =>
    rcases swap_cases paidOut poolFrom poolTo amountIn minAmountOut blockHeight s with
      ⟨⟨m, hrun⟩, hsound⟩ | ⟨src, dst, hsrc, hdst, hin, hmin, hout, hrun⟩
    · have hnext : perform (.executeSwap paidOut poolFrom poolTo amountIn minAmountOut blockHeight) s =
          s := congrArg Prod.snd hrun
      refine ⟨fun _ => ⟨by rw [hnext]; exact hs, fun out hok => ?_⟩, fun _ => hsound⟩
      rw [hrun] at hok
      cases hok
    · have hnext : perform (.executeSwap paidOut poolFrom poolTo amountIn minAmountOut blockHeight) s =
          afterSwap src dst amountIn (paidOut src dst) blockHeight s := congrArg Prod.snd hrun
      have hswap := swap_iff hs hsrc hdst hin hout blockHeight
      constructor
      · intro h
        obtain ⟨hbalanced, hexact⟩ := hswap.mp (h src dst hsrc hdst hin hmin hout)
        refine ⟨by rw [hnext]; exact hbalanced, fun out hok => ?_⟩
        rw [hrun] at hok
        cases hok
        rw [hnext]
        exact hexact
      · rintro ⟨hbalanced, hexact⟩ src' dst' hsrc' hdst' - - -
        rw [hsrc] at hsrc'
        rw [hdst] at hdst'
        cases hsrc'
        cases hdst'
        have hout' := hexact (paidOut src dst) (congrArg Prod.fst hrun)
        rw [hnext] at hbalanced hout'
        exact hswap.mpr ⟨hbalanced, hout'⟩

def noPools : DimensionalPoolState := ⟨.empty, .empty⟩

/-- What holds of a run of pool operations: before and after every call locked and unlocked add up to
the liquidity of every pool, no amount underflows, and a swap changes the sum of the liquidity by
exactly what comes in minus what goes out. -/
structure Safe (ops : List PoolOp) : Prop where
  balanced : ∀ p ∈ pools.trace ops noPools, AllBalanced p.2 ∧ AllBalanced (pools.next p.1 p.2)
  noUnderflow : ∀ p ∈ pools.trace ops noPools, NoUnderflow p.1 p.2
  swapExact : ∀ p ∈ pools.trace ops noPools, SwapExact p.1 p.2

/-- A run is safe exactly if each of its calls is sound. -/
theorem pools_safe_iff (ops : List PoolOp) :
    Safe ops ↔ ∀ p ∈ pools.trace ops noPools, Sound p.1 p.2 := by
  constructor
  · intro hsafe p hp
    exact (sound_iff (hsafe.balanced p hp).1).mpr ⟨(hsafe.balanced p hp).2, hsafe.swapExact p hp⟩
  · intro hsound
    have hbalanced := Machine.invariant_trace (M := pools) (P := AllBalanced)
      (fun p hp hs => ((sound_iff hs).mp (hsound p hp)).1) (fun _ _ hget => by cases hget)
    exact {
      balanced := fun p hp => ⟨hbalanced p hp, ((sound_iff (hbalanced p hp)).mp (hsound p hp)).1⟩
      noUnderflow := fun p _ => noUnderflow p.1 p.2
      swapExact := fun p hp => ((sound_iff (hbalanced p hp)).mp (hsound p hp)).2 }

/-! ### A swap that breaks the sums -/

/-- The pools of a supply of 10000. -/
def genesis : PoolOp := .initializePools
  (fun pool => ((F64.ofNat 10000).mul (atPool ALLOCATION_RATIOS pool)).toUnsigned 128)
  (fun pool => genesisPool 0 0 pool (atPool TAU_POINTS pool) (atPool SCALE_FACTORS pool)
    (atPool ALLOCATION_RATIOS pool))

/-- A swap of 100 atoms of the first pool for those of the second. -/
def hundredSwapped : PoolOp :=
  .executeSwap (fun src dst => amountOut src dst 100) .D1 .D2 100 0 1

/-- After the swap 115 of the 1930 locked atoms of the second pool are gone from its liquidity. -/
theorem swap_unbalances_pools :
    ((pools.final [genesis, hundredSwapped] noPools).pools.get .D2).map
        (fun l => (l.liquidity, l.lockedLiquidity, l.unlockedLiquidity)) = some (1815, 1930, 0) ∧
      ¬ ∀ ops, Safe ops := by
  have hpool : ((pools.final [genesis, hundredSwapped] noPools).pools.get .D2).map
      (fun l => (l.liquidity, l.lockedLiquidity, l.unlockedLiquidity)) = some (1815, 1930, 0) := by
    decide +kernel
  refine ⟨hpool, fun h => ?_⟩
  obtain ⟨l, hget, hl⟩ := Option.map_eq_some_iff.mp hpool
  have hbalanced := ((h [genesis, hundredSwapped]).balanced
    (hundredSwapped, pools.final [genesis] noPools) (.tail _ (.head _))).2 .D2 l hget
  simp only [Prod.mk.injEq] at hl
  obtain ⟨h1, h2, h3⟩ := hl
  rw [Balanced, h1, h2, h3] at hbalanced
  exact absurd hbalanced (by decide)

end Coinjecture.State.PoolRuns
