import Coinjecture.Core.Types
import Coinjecture.Lib.Effect
import Coinjecture.Lib.Table

/-! # Escrows

One record per escrow id. `createEscrow` and `updateEscrowStatus` are the writes the block applier
makes; `canRelease` and `canRefund` are the checks it makes before a release or a refund, by address
only. -/

namespace Coinjecture.State.Escrows

open Lib.Effect Lib.Table
open Core.Types

inductive EscrowStatus where
  | Active | Released | Refunded | Expired
  deriving DecidableEq

structure Escrow where
  escrowId : Hash
  sender : Address
  recipient : Address
  arbiter : Option Address
  amount : Balance
  timeout : Int64
  conditionsHash : Hash
  status : EscrowStatus
  createdAtHeight : UInt64
  resolvedAtHeight : Option UInt64
  deriving DecidableEq

/-- `EscrowState`. -/
abbrev EscrowState := Keyed Escrow.escrowId

namespace EscrowState

abbrev getEscrow (escrowId : Hash) (s : EscrowState) : Option Escrow := s.get escrowId

/-- `EscrowState::create_escrow`. -/
def createEscrow (escrow : Escrow) : Exec Failure EscrowState Unit := do
  rejectIf (← gets (getEscrow escrow.escrowId)).isSome "Escrow already exists"
  modify (Keyed.insert escrow)

/-- `EscrowState::update_escrow_status`. -/
def updateEscrowStatus (escrowId : Hash) (status : EscrowStatus) (resolvedHeight : Option UInt64) :
    Exec Failure EscrowState Unit := do
  let escrow ← okOr (.err "Escrow not found") (← gets (getEscrow escrowId))
  modify (Keyed.insert { escrow with status := status, resolvedAtHeight := resolvedHeight })

/-- `EscrowState::can_release`: the arbiter, or the recipient. -/
def canRelease (escrowId : Hash) (releaser : Address) (s : EscrowState) : Bool :=
  match s.getEscrow escrowId with
  | some escrow =>
    if escrow.status ≠ .Active then false
    else if escrow.arbiter = some releaser then true
    else releaser = escrow.recipient
  | none => false

/-- `EscrowState::can_refund`: the arbiter, or the sender once the timeout has passed. -/
def canRefund (now : Int64) (escrowId : Hash) (refunder : Address) (s : EscrowState) : Bool :=
  match s.getEscrow escrowId with
  | some escrow =>
    if escrow.status ≠ .Active then false
    else if escrow.arbiter = some refunder then true
    else refunder = escrow.sender && escrow.timeout ≤ now
  | none => false

/-! ### What the operations do -/

theorem createEscrow_guarded (escrow : Escrow) (s : EscrowState) :
    Guarded (createEscrow escrow) s (s.get escrow.escrowId = none) ((), s.insert escrow) := by
  constructor <;> intro h
  · simp [createEscrow, getEscrow, h]
  · rw [← ne_eq, Option.ne_none_iff_isSome] at h
    simp [createEscrow, getEscrow, h]

theorem run_updateEscrowStatus {escrowId : Hash} {escrow : Escrow} {s : EscrowState}
    (h : s.get escrowId = some escrow) (status : EscrowStatus) (resolvedHeight : Option UInt64) :
    run (updateEscrowStatus escrowId status resolvedHeight) s =
      (.ok (), s.insert { escrow with status := status, resolvedAtHeight := resolvedHeight }) := by
  simp [updateEscrowStatus, getEscrow, h]

theorem active_of_canRelease {escrowId : Hash} {releaser : Address} {s : EscrowState}
    (h : s.canRelease escrowId releaser = true) :
    ∃ escrow, s.get escrowId = some escrow ∧ escrow.status = .Active := by
  unfold canRelease at h
  split at h
  · rename_i escrow he
    split_ifs at h with h1
    · exact ⟨escrow, he, by simpa using h1⟩
    · exact ⟨escrow, he, by simpa using h1⟩
  · cases h

theorem active_of_canRefund {now : Int64} {escrowId : Hash} {refunder : Address} {s : EscrowState}
    (h : s.canRefund now escrowId refunder = true) :
    ∃ escrow, s.get escrowId = some escrow ∧ escrow.status = .Active := by
  unfold canRefund at h
  split at h
  · rename_i escrow he
    split_ifs at h with h1
    · exact ⟨escrow, he, by simpa using h1⟩
    · exact ⟨escrow, he, by simpa using h1⟩
  · cases h

end EscrowState

end Coinjecture.State.Escrows
