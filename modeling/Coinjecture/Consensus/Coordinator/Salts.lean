import Coinjecture.Consensus.Coordinator.Machine

/-! # The salt of an epoch

A node starts an epoch with the salt it derives from the epoch and its tip. After that the salt is what the
leader says, in every phase; without peers there is no leader and anyone may say it. Nodes that start
an epoch on the same tip work with one salt if every salt that is accepted is the derived one. -/

namespace Coinjecture.Consensus.Coordinator.Salts

open Lib.Trace
open Core.Types Core.Extern
open Consensus.Coordinator.Commit Consensus.Coordinator.Epoch
open Consensus.Coordinator.Machine

section OneNode

variable (env : Env)

/-- Every salt in force since the Mine phase of an epoch is derived from the epoch and the tip it started
on, and so is the salt that the node is at. -/
structure Derived (n : Node) : Prop where
  used : ∀ r ∈ n.records, ∀ salt ∈ r.used, salt = deriveSalt env.ext r.epoch r.tip
  current : ∃ r ∈ n.records.head?, r.epoch = n.coordinator.epochState.epoch ∧
    n.coordinator.epochState.salt = some r.salt ∧
    (n.coordinator.epochState.phase ≠ .Salt → r.salt ∈ r.used)

/-- A salt message that is accepted carries the salt derived from the epoch and the tip it started on. -/
def LeaderHonest (p : Input × Node) : Prop :=
  match p.1, p.2.records with
  | .command (.SaltReceived epoch salt src), r :: _ =>
    p.2.coordinator.acceptsSalt env epoch src = true → salt = deriveSalt env.ext epoch r.tip
  | _, _ => True

instance : DecidablePred (LeaderHonest env) := fun p =>
  match p with
  | (.command (.SaltReceived ..), ⟨_, _ :: _⟩) => inferInstanceAs (Decidable (_ → _ = _))
  | (.command (.SaltReceived ..), ⟨_, []⟩) => isTrue trivial
  | (.phaseExpiry _, _) => isTrue trivial
  | (.command (.ChainTipUpdated ..), _) => isTrue trivial
  | (.command (.LocalSolutionReady ..), _) => isTrue trivial
  | (.command (.CommitReceived ..), _) => isTrue trivial
  | (.command (.PeerJoined _), _) => isTrue trivial
  | (.command (.PeerLeft _), _) => isTrue trivial

/-- The record of the epoch that the coordinator is in. -/
structure Current (s : EpochCoordinator) (r : EpochRecord) : Prop where
  epoch_eq : r.epoch = s.epochState.epoch
  salt_eq : s.epochState.salt = some r.salt
  mine_iff : .Mine ∈ r.phases ↔ s.epochState.phase ≠ .Salt
  used_of_mine : s.epochState.phase ≠ .Salt → r.salt ∈ r.used
  derived : r.salt = deriveSalt env.ext r.epoch r.tip
  used : ∀ salt ∈ r.used, salt = deriveSalt env.ext r.epoch r.tip

/-- The invariant of the task. -/
def Inv (n : Node) : Prop :=
  ∃ r rs, n.records = r :: rs ∧ Current env n.coordinator r ∧
    ∀ r' ∈ rs, ∀ salt ∈ r'.used, salt = deriveSalt env.ext r'.epoch r'.tip

variable {env}

theorem Inv.derived {n : Node} (h : Inv env n) : Derived env n := by
  obtain ⟨r, rs, hrecords, hcurrent, hpast⟩ := h
  refine ⟨fun r' hr' => ?_, r, ?_, hcurrent.epoch_eq, hcurrent.salt_eq, hcurrent.used_of_mine⟩
  · rw [hrecords] at hr'
    rcases List.mem_cons.mp hr' with rfl | hr'
    · exact hcurrent.used
    · exact hpast r' hr'
  · rw [hrecords]
    rfl

theorem current_started {s s' : EpochCoordinator} {epoch : UInt64} (h : Restarted env epoch s s') :
    Current env s' (.started epoch s.chainHash (deriveSalt env.ext epoch s.chainHash)) where
  epoch_eq := h.epoch_eq.symm
  salt_eq := h.salt_eq
  mine_iff := by
    have hnot : EpochPhase.Mine ∉ [EpochPhase.Salt] := by decide
    exact iff_of_false hnot (not_not.mpr h.phase_eq)
  used_of_mine hphase := absurd h.phase_eq hphase
  derived := rfl
  used _ hsalt := nomatch hsalt

/-- A step that changes the current record only. -/
theorem Inv.update {n : Node} {s' : EpochCoordinator} {f : EpochRecord → EpochRecord}
    (h : Inv env n) (hf : ∀ r, Current env n.coordinator r → Current env s' (f r)) :
    Inv env ⟨s', updateCurrent f n.records⟩ := by
  obtain ⟨r, rs, hrecords, hcurrent, hpast⟩ := h
  rw [hrecords]
  exact ⟨f r, rs, rfl, hf r hcurrent, hpast⟩

/-- A step that changes the coordinator only, and neither its epoch nor its salt. -/
theorem Inv.keep {n : Node} {s' : EpochCoordinator} (h : Inv env n)
    (hstate : s'.epochState = n.coordinator.epochState) : Inv env ⟨s', n.records⟩ := by
  obtain ⟨r, rs, hrecords, hcurrent, hpast⟩ := h
  refine ⟨r, rs, hrecords, ⟨?_, ?_, ?_, ?_, hcurrent.derived, hcurrent.used⟩, hpast⟩
  all_goals rw [hstate]
  · exact hcurrent.epoch_eq
  · exact hcurrent.salt_eq
  · exact hcurrent.mine_iff
  · exact hcurrent.used_of_mine

theorem current_enter {s : EpochCoordinator} {r : EpochRecord} {phase : EpochPhase} {phaseStart : ℕ}
    {localSolution : Option LocalSolution} (h : Current env s r)
    (hnext : s.epochState.phase.next = some phase) :
    Current env (s.inPhase phase phaseStart localSolution) (r.enter phase) := by
  have hnotSalt : phase ≠ .Salt := by
    rintro rfl
    cases hphase : s.epochState.phase
    all_goals
      rw [hphase] at hnext
      cases hnext
  refine ⟨h.epoch_eq, h.salt_eq, iff_of_true ?_ hnotSalt, fun _ => ?_, h.derived, fun salt hsalt => ?_⟩
  · -- either the Mine phase is entered, or it was before
    cases hphase : s.epochState.phase with
    | Salt =>
      rw [hphase] at hnext
      cases hnext
      exact List.mem_append_right _ (List.mem_singleton_self _)
    | Mine => exact List.mem_append_left _ (h.mine_iff.mpr (by rw [hphase]; nofun))
    | Commit => exact List.mem_append_left _ (h.mine_iff.mpr (by rw [hphase]; nofun))
    | Seal => exact List.mem_append_left _ (h.mine_iff.mpr (by rw [hphase]; nofun))
  · simp only [EpochRecord.enter]
    split_ifs with hmine
    · exact List.mem_append_right _ (List.mem_singleton_self _)
    · refine h.used_of_mine fun hphase => hmine ?_
      rw [hphase] at hnext
      cases hnext
      rfl
  · simp only [EpochRecord.enter] at hsalt
    split_ifs at hsalt with hmine
    · rcases List.mem_append.mp hsalt with hsalt | hsalt
      · exact h.used salt hsalt
      · rw [List.mem_singleton.mp hsalt]
        exact h.derived
    · exact h.used salt hsalt

theorem current_setSalt {s : EpochCoordinator} {r : EpochRecord} {salt : Bytes32}
    (h : Current env s r) (hsalt : salt = deriveSalt env.ext r.epoch r.tip) :
    Current env { s with epochState := s.epochState.setSalt salt } (r.setSalt salt) := by
  refine ⟨h.epoch_eq, rfl, h.mine_iff, fun hphase => ?_, hsalt, fun salt' hsalt' => ?_⟩
  · simp only [EpochRecord.setSalt]
    rw [if_pos (h.mine_iff.mpr hphase)]
    exact List.mem_append_right _ (List.mem_singleton_self _)
  · simp only [EpochRecord.setSalt] at hsalt'
    split_ifs at hsalt' with hmine
    · rcases List.mem_append.mp hsalt' with hsalt' | hsalt'
      · exact h.used salt' hsalt'
      · rw [List.mem_singleton.mp hsalt']
        exact hsalt
    · exact h.used salt' hsalt'

/-- Every step keeps the invariant. -/
theorem inv_step {input : Input} {n n' : Node} (h : Inv env n) (hleader : LeaderHonest env (input, n))
    (hstep : Step env input n n') : Inv env n' := by
  cases hstep with
  | restarted hs =>
    obtain ⟨r, rs, hrecords, hcurrent, hpast⟩ := h
    refine ⟨_, _, rfl, current_started hs, fun r' hr' => ?_⟩
    rw [hrecords] at hr'
    rcases List.mem_cons.mp hr' with rfl | hr'
    · exact hcurrent.used
    · exact hpast r' hr'
  | advanced hnext hseal => exact h.update fun r hr => current_enter hr hnext
  | sealed hphase => exact h.update fun r hr => current_enter hr (by rw [hphase]; rfl)
  | @produced clocks _ phaseStart block chainHeight work hphase hquorum hprev =>
    rw [updateCurrent_updateCurrent]
    refine h.update fun r hr => ?_
    have hentered := @current_enter env _ r .Seal phaseStart none hr (by rw [hphase]; rfl)
    exact ⟨hentered.epoch_eq, hentered.salt_eq, hentered.mine_iff, hentered.used_of_mine,
      hentered.derived, hentered.used⟩
  | @saltSet _ epoch salt src haccepts =>
    have hepoch : epoch = n.coordinator.epochState.epoch := by
      simp only [EpochCoordinator.acceptsSalt, Bool.and_eq_true, decide_eq_true_eq] at haccepts
      exact haccepts.1
    obtain ⟨r, rs, hrecords, hcurrent, hpast⟩ := h
    simp only [LeaderHonest, hrecords] at hleader
    have hsalt := hleader haccepts
    rw [hepoch, ← hcurrent.epoch_eq] at hsalt
    rw [hrecords]
    exact ⟨_, rs, rfl, current_setSalt hcurrent hsalt, hpast⟩
  | committed hbrings =>
    split_ifs
    · exact h.update fun r hr =>
        ⟨hr.epoch_eq, hr.salt_eq, hr.mine_iff, hr.used_of_mine, hr.derived, hr.used⟩
    · exact h.keep rfl
  | peerJoined nodeId => exact h.keep rfl
  | peerLeft nodeId => exact h.keep rfl
  | tipUpdated height hash work => exact h.keep rfl
  | idle => exact h

theorem inv_start (now : ℕ) (s : EpochCoordinator) : Inv env (start env now s) := by
  have hcurrent := current_started (@start_coordinator env now s)
  exact ⟨_, _, start_records now s, hcurrent, fun r hr => absurd hr List.not_mem_nil⟩

theorem derived_final (now : ℕ) (s : EpochCoordinator) (inputs : List Input)
    (hleader : ∀ p ∈ (machine env).trace inputs (start env now s), LeaderHonest env p) :
    Derived env ((machine env).final inputs (start env now s)) :=
  (Machine.invariant (fun p hp hinv => inv_step hinv (hleader p hp) (step_next p.1 p.2))
    (inv_start now s)).derived

end OneNode

/-! ### Several nodes -/

/-- A node and what reaches it. -/
structure Participant where
  env : Env
  now : ℕ
  coordinator : EpochCoordinator
  inputs : List Input

namespace Participant

def steps (q : Participant) : List (Input × Node) :=
  (machine q.env).trace q.inputs (start q.env q.now q.coordinator)

def node (q : Participant) : Node := (machine q.env).final q.inputs (start q.env q.now q.coordinator)

end Participant

/-- The nodes work with the derived salts only, and those that started an epoch on one tip with the same
salt. -/
def SaltsAgree {ι : Type} (nodes : ι → Participant) : Prop :=
  (∀ i, Derived (nodes i).env (nodes i).node) ∧
  ∀ i j, ∀ r ∈ (nodes i).node.records, ∀ r' ∈ (nodes j).node.records, r.epoch = r'.epoch →
    r.tip = r'.tip → ∀ salt ∈ r.used, ∀ salt' ∈ r'.used, salt = salt'

/-- Whatever else the nodes receive, they agree on the salts if no other salt than the derived one is
accepted. -/
theorem salts_agree {ι : Type} {ext : Ext} (nodes : ι → Participant)
    (hext : ∀ i, (nodes i).env.ext = ext)
    (hleader : ∀ i, ∀ p ∈ (nodes i).steps, LeaderHonest (nodes i).env p) : SaltsAgree nodes := by
  have hderived : ∀ i, Derived (nodes i).env (nodes i).node := fun i =>
    derived_final _ _ _ (hleader i)
  refine ⟨hderived, fun i j r hr r' hr' hepoch htip salt hsalt salt' hsalt' => ?_⟩
  calc salt = deriveSalt (nodes i).env.ext r.epoch r.tip := (hderived i).used r hr salt hsalt
    _ = deriveSalt (nodes j).env.ext r'.epoch r'.tip := by rw [hext i, hext j, hepoch, htip]
    _ = salt' := ((hderived j).used r' hr' salt' hsalt').symm

namespace Sample

/-- The node 1, which is the leader, says this salt to the node 2 in the Mine phase. -/
def receives (salt : Bytes32) : Participant where
  env := Machine.Sample.environment
  now := 0
  coordinator := Machine.Sample.node
  inputs := [.command (.PeerJoined 1), Machine.Sample.expiry 2, .command (.SaltReceived 1 salt 1)]

end Sample

/-- Two nodes to which the leader says the derived salt. -/
theorem salts_agree_receives : SaltsAgree fun _ : Bool => Sample.receives 0 := by
  refine @salts_agree _ (.ofTables [] []) _ (fun _ => rfl) fun _ => ?_
  have hhonest : ∀ p ∈ (Sample.receives 0).steps, LeaderHonest Machine.Sample.environment p := by
    decide +kernel
  exact hhonest

/-- Two nodes on one tip to which the leader says different salts. -/
theorem leader_splits_salts :
    (Sample.receives 7).node.coordinator.epochState.salt = some 7 ∧
    ¬ SaltsAgree (fun b : Bool => if b then Sample.receives 7 else Sample.receives 8) := by
  refine ⟨by decide +kernel, fun hagree => ?_⟩
  have hused : ∀ salt : Bytes32, salt = 7 ∨ salt = 8 →
      ((Sample.receives salt).node.records.map fun r => (r.epoch, r.tip, r.used)) =
        [(1, ⟨5⟩, [0, salt])] := by
    rintro salt (rfl | rfl)
    · decide +kernel
    · decide +kernel
  have hrecord : ∀ salt : Bytes32, salt = 7 ∨ salt = 8 →
      ∃ r ∈ (Sample.receives salt).node.records, r.epoch = 1 ∧ r.tip = ⟨5⟩ ∧ salt ∈ r.used := by
    intro salt hsalt
    have hmem : ((1, ⟨5⟩, [0, salt]) : UInt64 × Hash × List Bytes32) ∈
        (Sample.receives salt).node.records.map fun r => (r.epoch, r.tip, r.used) := by
      rw [hused salt hsalt]
      exact List.mem_singleton_self _
    obtain ⟨r, hr, heq⟩ := List.mem_map.mp hmem
    obtain ⟨hepoch, hrest⟩ := Prod.mk.inj heq
    obtain ⟨htip, husedr⟩ := Prod.mk.inj hrest
    refine ⟨r, hr, hepoch, htip, ?_⟩
    rw [husedr]
    exact List.mem_cons_of_mem _ (List.mem_singleton_self _)
  obtain ⟨r, hr, hepoch, htip, hsalt⟩ := hrecord 7 (.inl rfl)
  obtain ⟨r', hr', hepoch', htip', hsalt'⟩ := hrecord 8 (.inr rfl)
  have heq := hagree.2 true false r hr r' hr' (hepoch.trans hepoch'.symm) (htip.trans htip'.symm)
    7 hsalt 8 hsalt'
  exact absurd heq (by decide)

end Coinjecture.Consensus.Coordinator.Salts
