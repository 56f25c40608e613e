import Coinjecture.Core.Extern
import Coinjecture.Lib.Effect
import Coinjecture.Lib.Table

/-! # Trustlines

Bilateral credit lines. The limits are scaled by a dimensional factor computed in floating point; a
trustline also carries the oracle metric `vivianiDelta`, recomputed by `updateVivianiOracle` at every
change of the limits or the phase. No operation here moves money between accounts. -/

namespace Coinjecture.State.TrustLines

open Lib.Effect Lib.Table Lib.Float64
open Core.Types Core.Extern

inductive TrustLineStatus where
  | Active | Frozen | Closed
  deriving DecidableEq

structure TrustLine where
  trustlineId : Hash
  accountA : Address
  accountB : Address
  limitAToB : Balance
  limitBToA : Balance
  /-- `i128`: positive if B owes A. -/
  balance : BitVec 128
  qualityIn : UInt16
  qualityOut : UInt16
  rippleEnabled : Bool
  dimensionalScale : UInt8
  tau : F64
  vivianiDelta : F64
  status : TrustLineStatus
  createdAtHeight : UInt64
  modifiedAtHeight : UInt64
  deriving DecidableEq

/-- `ETA` and `LAMBDA`: `1/√2`. -/
def ETA : F64 := ⟨0x3FE6A09E667F3BCD⟩

def PI : F64 := ⟨0x400921FB54442D18⟩

/-- `3.0_f64.sqrt() / 2.0`. -/
def vivianiAltitude : F64 := (F64.mk 0x3FFBB67AE8584CAA).div ⟨0x4000000000000000⟩

/-- The time points of `TRUSTLINE_DIMENSIONAL_SCALES`. -/
def TRUSTLINE_DIMENSIONAL_SCALES : List F64 :=
  [⟨0x3FF0000000000000⟩, ⟨0x4000000000000000⟩, ⟨0x4008000000000000⟩, ⟨0x400E8EA9E6EEB702⟩,
    ⟨0x4018000000000000⟩, ⟨0x401E8EA9E6EEB702⟩, ⟨0x4028000000000000⟩, ⟨0x40304F51CE28ED5F⟩]

section TrustLine

variable (ext : Ext)

namespace TrustLine

/-- `TrustLine::dimensional_factor`. -/
def dimensionalFactor (t : TrustLine) : F64 :=
  if t.dimensionalScale < 1 ∨ 8 < t.dimensionalScale then F64.one
  else
    let tauN := (TRUSTLINE_DIMENSIONAL_SCALES[t.dimensionalScale.toNat - 1]?).getD F64.zero
    ext.exp (ETA.neg.mul tauN)

/-- `TrustLine::phase_evolution`. -/
def phaseEvolution (t : TrustLine) : F64 := ETA.mul t.tau

def effectiveLimitAToB (t : TrustLine) : Balance :=
  ((F64.ofNat t.limitAToB.toNat).mul (t.dimensionalFactor ext)).toUnsigned 128

def effectiveLimitBToA (t : TrustLine) : Balance :=
  ((F64.ofNat t.limitBToA.toNat).mul (t.dimensionalFactor ext)).toUnsigned 128

/-- `balance.max(0) as f64 / effective`, or 0 without credit. -/
def utilization (balance : BitVec 128) (effective : F64) : F64 :=
  if F64.zero.lt effective then (F64.ofNat balance.toInt.toNat).div effective else F64.zero

/-- `TrustLine::update_viviani_oracle`. -/
def updateVivianiOracle (t : TrustLine) : TrustLine :=
  let effectiveA := F64.ofNat (t.effectiveLimitAToB ext).toNat
  let effectiveB := F64.ofNat (t.effectiveLimitBToA ext).toNat
  let phaseNormalized := t.phaseEvolution.div PI
  let sumDistances := ((utilization t.balance effectiveA).add
    (utilization (-t.balance) effectiveB)).add phaseNormalized
  { t with vivianiDelta := (sumDistances.div vivianiAltitude).sub F64.one }

/-- `TrustLine::is_balanced`. -/
def isBalanced (t : TrustLine) : Bool :=
  if 0 < t.balance.toInt then t.balance ≤ t.effectiveLimitAToB ext
  else -t.balance ≤ t.effectiveLimitBToA ext

def isParticipant (t : TrustLine) (address : Address) : Bool :=
  address = t.accountA || address = t.accountB

/-- `TrustLine::evolve_phase`. -/
def evolvePhase (t : TrustLine) (deltaTau : F64) : TrustLine :=
  ({ t with tau := t.tau.add deltaTau }).updateVivianiOracle ext

end TrustLine

end TrustLine

/-- `TrustLineState`. -/
abbrev TrustLineState := Keyed TrustLine.trustlineId

namespace TrustLineState

variable (ext : Ext)

abbrev getTrustline (trustlineId : Hash) (s : TrustLineState) : Option TrustLine := s.get trustlineId

/-- `TrustLineState::create_trustline`. -/
def createTrustline (trustline : TrustLine) : Exec Failure TrustLineState Unit := do
  rejectIf (← gets (getTrustline trustline.trustlineId)).isSome "TrustLine already exists"
  rejectIf (trustline.dimensionalScale < 1 ∨ 8 < trustline.dimensionalScale)
    "Invalid dimensional scale (must be 1-8)"
  rejectIf (10000 < trustline.qualityIn ∨ 10000 < trustline.qualityOut)
    "Invalid quality parameters (must be 0-10000)"
  modify (Keyed.insert trustline)

/-- The record `update_balance` checks and, if it is balanced, stores. -/
def withBalance (trustline : TrustLine) (newBalance : BitVec 128) (blockHeight : UInt64) : TrustLine :=
  { trustline with balance := newBalance, modifiedAtHeight := blockHeight }

/-- `TrustLineState::update_balance`, for payments through the line. -/
def updateBalance (trustlineId : Hash) (newBalance : BitVec 128) (blockHeight : UInt64) :
    Exec Failure TrustLineState Unit := do
  let trustline ← okOr (.err "TrustLine not found") (← gets (getTrustline trustlineId))
  rejectIf (trustline.status ≠ .Active) "TrustLine is not active"
  let trustline := withBalance trustline newBalance blockHeight
  rejectIf (!trustline.isBalanced ext) "Balance exceeds dimensional credit limits"
  modify (Keyed.insert (trustline.updateVivianiOracle ext))

/-- `TrustLineState::evolve_trustline_phase`. -/
def evolveTrustlinePhase (trustlineId : Hash) (deltaTau : F64) (blockHeight : UInt64) :
    Exec Failure TrustLineState Unit := do
  let trustline ← okOr (.err "TrustLine not found") (← gets (getTrustline trustlineId))
  modify (Keyed.insert { trustline.evolvePhase ext deltaTau with modifiedAtHeight := blockHeight })

/-- The record `update_limits` checks and, if it is balanced, stores. -/
def withLimits (trustline : TrustLine) (limitAToB limitBToA : Option Balance)
    (blockHeight : UInt64) : TrustLine :=
  { trustline with
    limitAToB := limitAToB.getD trustline.limitAToB
    limitBToA := limitBToA.getD trustline.limitBToA
    modifiedAtHeight := blockHeight }

/-- `TrustLineState::update_limits`. -/
def updateLimits (trustlineId : Hash) (limitAToB limitBToA : Option Balance)
    (blockHeight : UInt64) : Exec Failure TrustLineState Unit := do
  let trustline ← okOr (.err "TrustLine not found") (← gets (getTrustline trustlineId))
  rejectIf (trustline.status ≠ .Active) "TrustLine is not active"
  let trustline := withLimits trustline limitAToB limitBToA blockHeight
  rejectIf (!trustline.isBalanced ext) "Current balance exceeds new limits"
  modify (Keyed.insert (trustline.updateVivianiOracle ext))

/-- `TrustLineState::freeze_trustline`. -/
def freezeTrustline (trustlineId : Hash) (blockHeight : UInt64) :
    Exec Failure TrustLineState Unit := do
  let trustline ← okOr (.err "TrustLine not found") (← gets (getTrustline trustlineId))
  modify (Keyed.insert { trustline with status := .Frozen, modifiedAtHeight := blockHeight })

/-- `TrustLineState::close_trustline`. -/
def closeTrustline (trustlineId : Hash) (blockHeight : UInt64) :
    Exec Failure TrustLineState Unit := do
  let trustline ← okOr (.err "TrustLine not found") (← gets (getTrustline trustlineId))
  rejectIf (trustline.balance ≠ 0) "Cannot close trustline with non-zero balance"
  modify (Keyed.insert { trustline with status := .Closed, modifiedAtHeight := blockHeight })

/-! ### What the operations do -/

theorem createTrustline_guarded (trustline : TrustLine) (s : TrustLineState) :
    Guarded (createTrustline trustline) s
      (s.get trustline.trustlineId = none ∧
        ¬ (trustline.dimensionalScale < 1 ∨ 8 < trustline.dimensionalScale) ∧
        ¬ (10000 < trustline.qualityIn ∨ 10000 < trustline.qualityOut))
      ((), s.insert trustline) := by
  constructor
  · rintro ⟨h1, h2, h3⟩
    simp only [createTrustline, getTrustline, run_gets_bind, run_rejectIf_bind, h1, h2, h3,
      Option.isSome_none, Bool.false_eq_true, if_false, run_modify]
  · intro hn
    simp only [createTrustline, run_rejectIf_bind, getTrustline, run_gets_bind]
    split_ifs with h1 h2 h3
    · exact ⟨_, rfl⟩
    · exact ⟨_, rfl⟩
    · exact ⟨_, rfl⟩
    · exact absurd ⟨by simpa using h1, h2, h3⟩ hn

variable {trustlineId : Hash} {trustline : TrustLine} {s : TrustLineState}

theorem evolveTrustlinePhase_guarded (h : s.get trustlineId = some trustline) (deltaTau : F64)
    (blockHeight : UInt64) :
    Guarded (evolveTrustlinePhase ext trustlineId deltaTau blockHeight) s True
      ((), s.insert { trustline.evolvePhase ext deltaTau with modifiedAtHeight := blockHeight }) :=
  ⟨fun _ => by simp [evolveTrustlinePhase, getTrustline, h], fun hn => absurd trivial hn⟩

theorem updateLimits_guarded (h : s.get trustlineId = some trustline)
    (limitAToB limitBToA : Option Balance) (blockHeight : UInt64) :
    Guarded (updateLimits ext trustlineId limitAToB limitBToA blockHeight) s
      (trustline.status = .Active ∧
        (withLimits trustline limitAToB limitBToA blockHeight).isBalanced ext = true)
      ((), s.insert
        ((withLimits trustline limitAToB limitBToA blockHeight).updateVivianiOracle ext)) := by
  constructor
  · rintro ⟨h1, h2⟩
    simp [updateLimits, getTrustline, h, h1, h2]
  · intro hn
    simp only [updateLimits, getTrustline, run_gets_bind, h, run_okOr_some_bind, run_rejectIf_bind]
    split_ifs with h1 h2
    · exact ⟨_, rfl⟩
    · exact ⟨_, rfl⟩
    · exact absurd ⟨by simpa using h1, by simpa using h2⟩ hn

theorem updateBalance_guarded (h : s.get trustlineId = some trustline) (newBalance : BitVec 128)
    (blockHeight : UInt64) :
    Guarded (updateBalance ext trustlineId newBalance blockHeight) s
      (trustline.status = .Active ∧ (withBalance trustline newBalance blockHeight).isBalanced ext = true)
      ((), s.insert ((withBalance trustline newBalance blockHeight).updateVivianiOracle ext)) := by
  constructor
  · rintro ⟨h1, h2⟩
    simp [updateBalance, getTrustline, h, h1, h2]
  · intro hn
    simp only [updateBalance, getTrustline, run_gets_bind, h, run_okOr_some_bind, run_rejectIf_bind]
    split_ifs with h1 h2
    · exact ⟨_, rfl⟩
    · exact ⟨_, rfl⟩
    · exact absurd ⟨by simpa using h1, by simpa using h2⟩ hn

theorem freezeTrustline_guarded (h : s.get trustlineId = some trustline) (blockHeight : UInt64) :
    Guarded (freezeTrustline trustlineId blockHeight) s True
      ((), s.insert { trustline with status := .Frozen, modifiedAtHeight := blockHeight }) :=
  ⟨fun _ => by simp [freezeTrustline, getTrustline, h], fun hn => absurd trivial hn⟩

theorem closeTrustline_guarded (h : s.get trustlineId = some trustline) (blockHeight : UInt64) :
    Guarded (closeTrustline trustlineId blockHeight) s (trustline.balance = 0)
      ((), s.insert { trustline with status := .Closed, modifiedAtHeight := blockHeight }) := by
  constructor
  · intro h1
    simp [closeTrustline, getTrustline, h, h1]
  · intro hn
    simp only [closeTrustline, getTrustline, run_gets_bind, h, run_okOr_some_bind,
      run_rejectIf_bind, ne_eq, hn, not_false_eq_true, if_true]
    exact ⟨_, rfl⟩

end TrustLineState

end Coinjecture.State.TrustLines
