import Coinjecture.Lib.Trace
import Coinjecture.State.TrustLines

/-! # Runs of trust line operations

The table of trust lines under any sequence of operations. No operation thaws a frozen line; a closed
line may evolve in its phase, and nothing else of it that matters may change.

* `trustLines_iff` : closed lines stay closed and active lines stay within their limits exactly if no
  closed line is frozen and no line is created that is active and out of its limits.
-/

namespace Coinjecture.State.TrustLineRuns

open Lib.Effect Lib.Table Lib.Trace Lib.Float64
open Core.Types Core.Extern
open State.TrustLines State.TrustLines.TrustLineState

/-- A call of an operation. -/
inductive TrustLineOp where
  | createTrustline (trustline : TrustLine)
  | updateLimits (trustlineId : Hash) (limitAToB limitBToA : Option Balance) (blockHeight : UInt64)
  | updateBalance (trustlineId : Hash) (newBalance : BitVec 128) (blockHeight : UInt64)
  | freezeTrustline (trustlineId : Hash) (blockHeight : UInt64)
  | evolveTrustlinePhase (trustlineId : Hash) (deltaTau : F64) (blockHeight : UInt64)
  | closeTrustline (trustlineId : Hash) (blockHeight : UInt64)

variable (ext : Ext)

def TrustLineOp.exec : TrustLineOp → Exec Failure TrustLineState Unit
  | createTrustline trustline => TrustLineState.createTrustline trustline
  | updateLimits trustlineId limitAToB limitBToA blockHeight =>
    TrustLineState.updateLimits ext trustlineId limitAToB limitBToA blockHeight
  | updateBalance trustlineId newBalance blockHeight =>
    TrustLineState.updateBalance ext trustlineId newBalance blockHeight
  | freezeTrustline trustlineId blockHeight => TrustLineState.freezeTrustline trustlineId blockHeight
  | evolveTrustlinePhase trustlineId deltaTau blockHeight =>
    TrustLineState.evolveTrustlinePhase ext trustlineId deltaTau blockHeight
  | closeTrustline trustlineId blockHeight => TrustLineState.closeTrustline trustlineId blockHeight

def trustLines : Machine TrustLineOp TrustLineState where
  next op s := (run (op.exec ext) s).2
  halts _ _ := false

/-- The table after these operations on an empty one. -/
def after (ops : List TrustLineOp) : TrustLineState := (trustLines ext).final ops Keyed.empty

/-! ### The limits -/

/-- The balance is within what either party lends the other. -/
def Within (t : TrustLine) : Prop :=
  t.balance.toInt ≤ (t.effectiveLimitAToB ext).toNat ∧ -t.balance.toInt ≤ (t.effectiveLimitBToA ext).toNat

theorem toNat_neg_of_toInt_nonpos {b : BitVec 128} (h : ¬ 0 < b.toInt) : ((-b).toNat : ℤ) = -b.toInt := by
  have hlt : b.toNat < 2 ^ 128 := b.isLt
  rw [BitVec.toNat_neg]
  rw [BitVec.toInt_eq_toNat_cond] at h ⊢
  split_ifs at h ⊢ <;> omega

/-- `is_balanced` is right, at the ends of the 128 bits, too. -/
theorem isBalanced_iff (t : TrustLine) : t.isBalanced ext = true ↔ Within ext t := by
  unfold TrustLine.isBalanced Within
  split_ifs with hpos
  · have hval : t.balance.toInt = t.balance.toNat := by
      have hlt : t.balance.toNat < 2 ^ 128 := t.balance.isLt
      rw [BitVec.toInt_eq_toNat_cond] at hpos ⊢
      split_ifs at hpos ⊢ with hhalf
      · rfl
      · omega
    rw [decide_eq_true_eq, BitVec.le_def]
    omega
  · have hval := toNat_neg_of_toInt_nonpos hpos
    rw [decide_eq_true_eq, BitVec.le_def]
    omega

/-! ### What a step writes -/

/-- The operation is accepted and stores the line. -/
inductive Writes (s : TrustLineState) : TrustLineOp → TrustLine → Prop
  | created {t : TrustLine} (hnew : s.get t.trustlineId = none)
      (hscale : ¬ (t.dimensionalScale < 1 ∨ 8 < t.dimensionalScale))
      (hquality : ¬ (10000 < t.qualityIn ∨ 10000 < t.qualityOut)) : Writes s (.createTrustline t) t
  | limited {trustlineId : Hash} {t : TrustLine} {limitAToB limitBToA : Option Balance}
      {blockHeight : UInt64} (hget : s.get trustlineId = some t) (hactive : t.status = .Active)
      (hbalanced : (withLimits t limitAToB limitBToA blockHeight).isBalanced ext = true) :
      Writes s (.updateLimits trustlineId limitAToB limitBToA blockHeight)
        ((withLimits t limitAToB limitBToA blockHeight).updateVivianiOracle ext)
  | paid {trustlineId : Hash} {t : TrustLine} {newBalance : BitVec 128} {blockHeight : UInt64}
      (hget : s.get trustlineId = some t) (hactive : t.status = .Active)
      (hbalanced : (withBalance t newBalance blockHeight).isBalanced ext = true) :
      Writes s (.updateBalance trustlineId newBalance blockHeight)
        ((withBalance t newBalance blockHeight).updateVivianiOracle ext)
  | frozen {trustlineId : Hash} {t : TrustLine} {blockHeight : UInt64}
      (hget : s.get trustlineId = some t) :
      Writes s (.freezeTrustline trustlineId blockHeight)
        { t with status := .Frozen, modifiedAtHeight := blockHeight }
  | evolved {trustlineId : Hash} {t : TrustLine} {deltaTau : F64} {blockHeight : UInt64}
      (hget : s.get trustlineId = some t) :
      Writes s (.evolveTrustlinePhase trustlineId deltaTau blockHeight)
        { t.evolvePhase ext deltaTau with modifiedAtHeight := blockHeight }
  | closed {trustlineId : Hash} {t : TrustLine} {blockHeight : UInt64}
      (hget : s.get trustlineId = some t) (hzero : t.balance = 0) :
      Writes s (.closeTrustline trustlineId blockHeight)
        { t with status := .Closed, modifiedAtHeight := blockHeight }

variable {ext} {s : TrustLineState} {op : TrustLineOp} {t : TrustLine}

theorem run_of_writes (h : Writes ext s op t) : run (op.exec ext) s = (.ok (), s.insert t) := by
  cases h with
  | created hnew hscale hquality =>
    exact (createTrustline_guarded _ s).ok ⟨hnew, hscale, hquality⟩
  | limited hget hactive hbalanced => exact (updateLimits_guarded ext hget ..).ok ⟨hactive, hbalanced⟩
  | paid hget hactive hbalanced => exact (updateBalance_guarded ext hget ..).ok ⟨hactive, hbalanced⟩
  | frozen hget => exact (freezeTrustline_guarded hget _).ok trivial
  | evolved hget => exact (evolveTrustlinePhase_guarded ext hget ..).ok trivial
  | closed hget hzero => exact (closeTrustline_guarded hget _).ok hzero

/-- A step is refused, or writes one line. -/
theorem step_cases (ext : Ext) (op : TrustLineOp) (s : TrustLineState) :
    (∃ m, run (op.exec ext) s = (.error (.err m), s)) ∨ ∃ t, Writes ext s op t := by
  cases op with
  | createTrustline t =>
    by_cases h : s.get t.trustlineId = none ∧ ¬ (t.dimensionalScale < 1 ∨ 8 < t.dimensionalScale) ∧
        ¬ (10000 < t.qualityIn ∨ 10000 < t.qualityOut)
    · exact .inr ⟨t, .created h.1 h.2.1 h.2.2⟩
    · exact .inl ((createTrustline_guarded t s).refused h)
  | updateLimits trustlineId limitAToB limitBToA blockHeight =>
    rcases hget : s.get trustlineId with _ | t
    · exact .inl ⟨"TrustLine not found", by
        simp [TrustLineOp.exec, TrustLineState.updateLimits, getTrustline, hget]⟩
    by_cases h : t.status = .Active ∧ (withLimits t limitAToB limitBToA blockHeight).isBalanced ext = true
    · exact .inr ⟨_, .limited hget h.1 h.2⟩
    · exact .inl ((updateLimits_guarded ext hget ..).refused h)
  | updateBalance trustlineId newBalance blockHeight =>
    rcases hget : s.get trustlineId with _ | t
    · exact .inl ⟨"TrustLine not found", by
        simp [TrustLineOp.exec, TrustLineState.updateBalance, getTrustline, hget]⟩
    by_cases h : t.status = .Active ∧ (withBalance t newBalance blockHeight).isBalanced ext = true
    · exact .inr ⟨_, .paid hget h.1 h.2⟩
    · exact .inl ((updateBalance_guarded ext hget ..).refused h)
  | freezeTrustline trustlineId blockHeight =>
    rcases hget : s.get trustlineId with _ | t
    · exact .inl ⟨"TrustLine not found", by
        simp [TrustLineOp.exec, TrustLineState.freezeTrustline, getTrustline, hget]⟩
    · exact .inr ⟨_, .frozen hget⟩
  | evolveTrustlinePhase trustlineId deltaTau blockHeight =>
    rcases hget : s.get trustlineId with _ | t
    · exact .inl ⟨"TrustLine not found", by
        simp [TrustLineOp.exec, TrustLineState.evolveTrustlinePhase, getTrustline, hget]⟩
    · exact .inr ⟨_, .evolved hget⟩
  | closeTrustline trustlineId blockHeight =>
    rcases hget : s.get trustlineId with _ | t
    · exact .inl ⟨"TrustLine not found", by
        simp [TrustLineOp.exec, TrustLineState.closeTrustline, getTrustline, hget]⟩
    by_cases h : t.balance = 0
    · exact .inr ⟨_, .closed hget h⟩
    · exact .inl ((closeTrustline_guarded hget _).refused h)

theorem next_of_writes (h : Writes ext s op t) : (trustLines ext).next op s = s.insert t :=
  congrArg Prod.snd (run_of_writes h)

theorem after_concat (ops : List TrustLineOp) (op : TrustLineOp) :
    after ext (ops ++ [op]) = (trustLines ext).next op (after ext ops) := by
  have hhalted : ∀ (is : List TrustLineOp) (s : TrustLineState), (trustLines ext).halted is s = false := by
    intro is
    induction is with
    | nil => exact fun _ => rfl
    | cons op is ih =>
      intro s
      rw [Machine.halted_cons rfl]
      exact ih _
  rw [after, Machine.final_append, hhalted, if_neg Bool.false_ne_true]
  rfl

/-! ### What a run keeps -/

/-- The closed lines are still there, closed and with their balances. -/
def ClosedStay (s t : TrustLineState) : Prop :=
  ∀ id line, s.get id = some line → line.status = .Closed →
    ∃ line', t.get id = some line' ∧ line'.status = .Closed ∧ line'.balance = line.balance

/-- The active lines are within their limits. -/
def ActiveWithin (ext : Ext) (s : TrustLineState) : Prop :=
  ∀ id line, s.get id = some line → line.status = .Active → Within ext line

/-- No closed line is frozen, and a line that is created active is within its limits. -/
def Proper (ext : Ext) (op : TrustLineOp) (s : TrustLineState) : Prop :=
  match op with
  | .createTrustline t => Writes ext s op t → t.status = .Active → Within ext t
  | .freezeTrustline trustlineId _ => ∀ t, s.get trustlineId = some t → t.status ≠ .Closed
  | _ => True

theorem ClosedStay.refl (s : TrustLineState) : ClosedStay s s :=
  fun _ line hget hclosed => ⟨line, hget, hclosed, rfl⟩

theorem ClosedStay.trans {s t u : TrustLineState} (hst : ClosedStay s t) (htu : ClosedStay t u) :
    ClosedStay s u := by
  intro id line hget hclosed
  obtain ⟨line', hget', hclosed', hbalance'⟩ := hst id line hget hclosed
  obtain ⟨line'', hget'', hclosed'', hbalance''⟩ := htu id line' hget' hclosed'
  exact ⟨line'', hget'', hclosed'', hbalance''.trans hbalance'⟩

/-- A line is stored over one that is closed only if it is closed with the same balance. -/
theorem closedStay_insert {line : TrustLine}
    (h : ∀ old, s.get line.trustlineId = some old → old.status = .Closed →
      line.status = .Closed ∧ line.balance = old.balance) : ClosedStay s (s.insert line) := by
  intro id old hget hclosed
  rw [Keyed.get_insert]
  split_ifs with hid
  · subst hid
    obtain ⟨hline, hbalance⟩ := h old hget hclosed
    exact ⟨line, rfl, hline, hbalance⟩
  · exact ⟨old, hget, hclosed, rfl⟩

theorem activeWithin_insert {line : TrustLine} (hs : ActiveWithin ext s)
    (h : line.status = .Active → Within ext line) : ActiveWithin ext (s.insert line) := by
  intro id other hget hactive
  rw [Keyed.get_insert] at hget
  split_ifs at hget
  · cases hget
    exact h hactive
  · exact hs id other hget hactive

theorem get_unique {id : Hash} {line old : TrustLine} (hget : s.get id = some line)
    (hold : s.get line.trustlineId = some old) : line = old := by
  rw [s.keyed hget] at hold
  exact Option.some.inj (hget.symm.trans hold)

/-- What is stored over an existing line keeps a closed one, unless it freezes it. -/
theorem closedStay_writes (h : Writes ext s op t) (hproper : Proper ext op s) : ClosedStay s (s.insert t) := by
  refine closedStay_insert fun old hold hclosed => ?_
  cases h with
  | created hnew _ _ => exact absurd (hnew.symm.trans hold) (by simp)
  | limited hget hactive _ =>
    obtain rfl := get_unique hget hold
    exact absurd (hactive.symm.trans hclosed) (by decide)
  | paid hget hactive _ =>
    obtain rfl := get_unique hget hold
    exact absurd (hactive.symm.trans hclosed) (by decide)
  | frozen hget =>
    obtain rfl := get_unique hget hold
    exact absurd hclosed (hproper _ hget)
  | evolved hget =>
    obtain rfl := get_unique hget hold
    exact ⟨hclosed, rfl⟩
  | closed hget _ =>
    obtain rfl := get_unique hget hold
    exact ⟨rfl, rfl⟩

theorem activeWithin_writes (h : Writes ext s op t) (hproper : Proper ext op s) (hs : ActiveWithin ext s) :
    ActiveWithin ext (s.insert t) := by
  refine activeWithin_insert hs fun hactive => ?_
  cases h with
  | created hnew hscale hquality => exact hproper (.created hnew hscale hquality) hactive
  | limited _ _ hbalanced => exact (isBalanced_iff ext _).mp hbalanced
  | paid _ _ hbalanced => exact (isBalanced_iff ext _).mp hbalanced
  | frozen _ => cases hactive
  | @evolved _ t _ _ hget =>
    have hwithin : Within ext t := hs _ t hget hactive
    exact hwithin
  | closed _ _ => cases hactive

/-- A proper step keeps both. -/
theorem keeps_of_proper (hproper : Proper ext op s) (hs : ActiveWithin ext s) :
    ClosedStay s ((trustLines ext).next op s) ∧ ActiveWithin ext ((trustLines ext).next op s) := by
  rcases step_cases ext op s with ⟨m, hrefused⟩ | ⟨t, hwrites⟩
  · have hsame : (trustLines ext).next op s = s := congrArg Prod.snd hrefused
    rw [hsame]
    exact ⟨ClosedStay.refl s, hs⟩
  · rw [next_of_writes hwrites]
    exact ⟨closedStay_writes hwrites hproper, activeWithin_writes hwrites hproper hs⟩

/-- A step that keeps both is proper. -/
theorem proper_of_keeps (hclosed : ClosedStay s ((trustLines ext).next op s))
    (hwithin : ActiveWithin ext ((trustLines ext).next op s)) : Proper ext op s := by
  cases op with
  | createTrustline t =>
    intro hwrites hactive
    rw [next_of_writes hwrites] at hwithin
    exact hwithin _ t (Keyed.get_insert_self t s) hactive
  | freezeTrustline trustlineId blockHeight =>
    intro t hget hstatus
    rw [next_of_writes (.frozen hget)] at hclosed
    obtain ⟨line, hline, hstays, -⟩ := hclosed trustlineId t hget hstatus
    have hfrozen : (Keyed.insert { t with status := .Frozen, modifiedAtHeight := blockHeight } s).get
        trustlineId = _ := Keyed.get_insert_of_get hget rfl
    obtain rfl := Option.some.inj (hline.symm.trans hfrozen)
    cases hstays
  | updateLimits => trivial
  | updateBalance => trivial
  | evolveTrustlinePhase => trivial
  | closeTrustline => trivial

/-- In every run a closed line stays closed with its balance, and every active line is within its
limits. -/
def Terminal (ext : Ext) (ops : List TrustLineOp) : Prop :=
  (∀ early late rest, ops = early ++ late ++ rest →
    ClosedStay (after ext early) (after ext (early ++ late))) ∧
  ∀ early rest, ops = early ++ rest → ActiveWithin ext (after ext early)

/-- … which is so exactly for the runs with proper steps only. -/
theorem trustLines_iff (ext : Ext) (ops : List TrustLineOp) : Terminal ext ops ↔
    ∀ early op rest, ops = early ++ op :: rest → Proper ext op (after ext early) := by
  constructor
  · rintro ⟨hclosed, hwithin⟩ early op rest hops
    have hops' : ops = early ++ [op] ++ rest := by rw [hops, List.append_assoc, List.singleton_append]
    refine proper_of_keeps ?_ ?_
    · rw [← after_concat]
      exact hclosed early [op] rest hops'
    · rw [← after_concat]
      exact hwithin (early ++ [op]) rest hops'
  · intro hproper
    have hwithin : ∀ early rest, ops = early ++ rest → ActiveWithin ext (after ext early) := by
      intro early
      induction early using List.reverseRecOn with
      | nil => exact fun _ _ _ line hget => absurd hget (by simp [after])
      | append_singleton early op ih =>
        intro rest hops
        rw [List.append_assoc, List.singleton_append] at hops
        rw [after_concat]
        exact (keeps_of_proper (hproper early op rest hops) (ih _ hops)).2
    refine ⟨fun early late => ?_, hwithin⟩
    induction late using List.reverseRecOn with
    | nil =>
      intro rest _
      rw [List.append_nil]
      exact ClosedStay.refl _
    | append_singleton late op ih =>
      intro rest hops
      have hops' : ops = early ++ late ++ op :: rest := by
        rw [hops, ← List.append_assoc, List.append_assoc _ [op], List.singleton_append]
      refine (ih _ hops').trans ?_
      rw [← List.append_assoc, after_concat]
      exact (keeps_of_proper (hproper _ op rest hops') (hwithin _ _ hops')).1

/-- A line without limits. -/
def line : TrustLine where
  trustlineId := ⟨7⟩
  accountA := ⟨1⟩
  accountB := ⟨2⟩
  limitAToB := 0
  limitBToA := 0
  balance := 0
  qualityIn := 0
  qualityOut := 0
  rippleEnabled := false
  dimensionalScale := 1
  tau := F64.zero
  vivianiDelta := F64.zero
  status := .Active
  createdAtHeight := 0
  modifiedAtHeight := 0

/-- A closed line is frozen. -/
theorem closed_line_freezes : ¬ ∀ ext ops, Terminal ext ops := by
  intro h
  set ext := Ext.ofTables [] []
  obtain ⟨hstay, hwithin⟩ :=
    h ext ([.createTrustline line, .closeTrustline ⟨7⟩ 1] ++ [.freezeTrustline ⟨7⟩ 2])
  have hproper : Proper ext (.freezeTrustline ⟨7⟩ 2)
      (after ext [.createTrustline line, .closeTrustline ⟨7⟩ 1]) := by
    refine proper_of_keeps ?_ ?_
    · rw [← after_concat]
      exact hstay _ _ [] (List.append_nil _).symm
    · rw [← after_concat]
      exact hwithin _ [] (List.append_nil _).symm
  have hclosed : (after ext [.createTrustline line, .closeTrustline ⟨7⟩ 1]).get ⟨7⟩ =
      some { line with status := .Closed, modifiedAtHeight := 1 } := by decide
  exact hproper _ hclosed rfl

end Coinjecture.State.TrustLineRuns
