import Coinjecture.Consensus.Coordinator.Machine

/-! # The epochs of a run

Epochs follow one another without a gap, phases come in order, and an epoch counts its own commits only
and produces at most one block. That the block extends the tip that the salt was derived from needs two
things: the tip does not move before the Seal phase, and the leader sends the derived salt (`InOrder`). -/

namespace Coinjecture.Consensus.Coordinator.Epochs

open Lib.Trace
open Core.Types
open Consensus.Coordinator.Commit Consensus.Coordinator.Epoch
open Consensus.Coordinator.Machine

variable (env : Env)

/-- What the record of an epoch has to show. -/
structure RecordSound (r : EpochRecord) : Prop where
  phases : r.phases <+: [.Salt, .Mine, .Commit, .Seal]
  counted : ∀ c ∈ r.counted, c.1 = r.epoch
  oneBlock : r.blocks.length ≤ 1
  onTip : ∀ b ∈ r.blocks, b.1.header.prevHash = r.tip ∧ b.2 = deriveSalt env.ext r.epoch r.tip

/-- Epochs are numbered 1, 2, 3 …, the collector holds counted commits of the current epoch, and every
record is sound. -/
structure Sound (n : Node) : Prop where
  numbered : n.records.map (fun r => r.epoch.toNat) = (List.range' 1 n.records.length).reverse
  current : ∃ r ∈ n.records.head?, r.epoch = n.coordinator.epochState.epoch ∧
    ∀ c ∈ n.coordinator.collector.commits, (r.epoch, c) ∈ r.counted
  records : ∀ r ∈ n.records, RecordSound env r

/-- Until the Seal phase the tip stays where it is and the salt the leader sends is the derived one; and
the epoch has a successor. -/
def InOrder (p : Input × Node) : Prop :=
  let s := p.2.coordinator
  match p.1 with
  | .phaseExpiry _ => s.epochState.epoch.toNat + 1 < 2 ^ 64
  | .command (.ChainTipUpdated _ hash _) => s.epochState.phase = .Seal ∨ hash = s.chainHash
  | .command (.SaltReceived epoch salt src) => s.acceptsSalt env epoch src = true →
      s.epochState.phase = .Seal ∨ salt = deriveSalt env.ext epoch s.chainHash
  | .command _ => True

/-! ### What a step preserves -/

/-- The phases up to the current one. -/
def upTo : EpochPhase → List EpochPhase
  | .Salt => [.Salt]
  | .Mine => [.Salt, .Mine]
  | .Commit => [.Salt, .Mine, .Commit]
  | .Seal => [.Salt, .Mine, .Commit, .Seal]

/-- The record of the epoch that the coordinator is in. -/
structure Current (s : EpochCoordinator) (r : EpochRecord) : Prop where
  epoch_eq : r.epoch = s.epochState.epoch
  phases_eq : r.phases = upTo s.epochState.phase
  collected : ∀ c ∈ s.collector.commits, (r.epoch, c) ∈ r.counted
  pending : s.epochState.phase ≠ .Seal →
    s.chainHash = r.tip ∧ r.salt = deriveSalt env.ext r.epoch r.tip ∧ r.blocks = []
  sound : RecordSound env r

/-- The invariant of the task. -/
def Inv (n : Node) : Prop :=
  ∃ r rs, n.records = r :: rs ∧ Current env n.coordinator r ∧ (∀ r' ∈ rs, RecordSound env r') ∧
    n.records.map (fun r => r.epoch.toNat) = (List.range' 1 n.records.length).reverse

variable {env}

theorem upTo_isPrefix (phase : EpochPhase) : upTo phase <+: [.Salt, .Mine, .Commit, .Seal] := by
  cases phase with
  | Salt => exact ⟨[.Mine, .Commit, .Seal], rfl⟩
  | Mine => exact ⟨[.Commit, .Seal], rfl⟩
  | Commit => exact ⟨[.Seal], rfl⟩
  | Seal => exact ⟨[], rfl⟩

theorem upTo_next {phase next : EpochPhase} (h : phase.next = some next) :
    upTo next = upTo phase ++ [next] := by
  cases phase with
  | Seal => cases h
  | _ =>
    cases h
    rfl

theorem Inv.sound {n : Node} (h : Inv env n) : Sound env n := by
  obtain ⟨r, rs, hrecords, hcurrent, hpast, hnumbered⟩ := h
  refine ⟨hnumbered, ⟨r, ?_, hcurrent.epoch_eq, hcurrent.collected⟩, fun r' hr' => ?_⟩
  · rw [hrecords]
    rfl
  · rw [hrecords] at hr'
    rcases List.mem_cons.mp hr' with rfl | hr'
    · exact hcurrent.sound
    · exact hpast r' hr'

/-- A record that has just been started. -/
theorem current_started {s s' : EpochCoordinator} {epoch : UInt64} (h : Restarted env epoch s s') :
    Current env s' (.started epoch s.chainHash (deriveSalt env.ext epoch s.chainHash)) where
  epoch_eq := h.epoch_eq.symm
  phases_eq := by
    rw [h.phase_eq]
    rfl
  collected c hc := by
    rw [h.collector_eq] at hc
    cases hc
  pending _ := ⟨h.chainHash_eq, rfl, rfl⟩
  sound := {
    phases := upTo_isPrefix .Salt
    counted := fun _ hc => nomatch hc
    oneBlock := Nat.zero_le 1
    onTip := fun _ hb => nomatch hb }

/-- A step that changes the current record only. -/
theorem Inv.update {n : Node} {s' : EpochCoordinator} {f : EpochRecord → EpochRecord}
    (h : Inv env n) (hepoch : ∀ r, (f r).epoch = r.epoch)
    (hf : ∀ r, Current env n.coordinator r → Current env s' (f r)) :
    Inv env ⟨s', updateCurrent f n.records⟩ := by
  obtain ⟨r, rs, hrecords, hcurrent, hpast, hnumbered⟩ := h
  rw [hrecords] at hnumbered ⊢
  refine ⟨f r, rs, rfl, hf r hcurrent, hpast, ?_⟩
  rw [updateCurrent, List.map_cons, hepoch]
  exact hnumbered

/-- A step that changes the coordinator only. -/
theorem Inv.keep {n : Node} {s' : EpochCoordinator} (h : Inv env n)
    (hf : ∀ r, Current env n.coordinator r → Current env s' r) : Inv env ⟨s', n.records⟩ := by
  obtain ⟨r, rs, hrecords, hcurrent, hpast, hnumbered⟩ := h
  exact ⟨r, rs, hrecords, hf r hcurrent, hpast, hnumbered⟩

theorem inv_restarted {n : Node} {s' : EpochCoordinator} (h : Inv env n)
    (hlast : n.coordinator.epochState.epoch.toNat + 1 < 2 ^ 64)
    (hs : Restarted env (n.coordinator.epochState.epoch + 1) n.coordinator s') :
    Inv env ⟨s', .started (n.coordinator.epochState.epoch + 1) n.coordinator.chainHash
      (deriveSalt env.ext (n.coordinator.epochState.epoch + 1) n.coordinator.chainHash) :: n.records⟩ := by
  obtain ⟨r, rs, hrecords, hcurrent, hpast, hnumbered⟩ := h
  refine ⟨_, _, rfl, current_started hs, fun r' hr' => ?_, ?_⟩
  · rw [hrecords] at hr'
    rcases List.mem_cons.mp hr' with rfl | hr'
    · exact hcurrent.sound
    · exact hpast r' hr'
  · have hsucc : (n.coordinator.epochState.epoch + 1).toNat = n.records.length + 1 := by
      rw [hrecords] at hnumbered ⊢
      rw [List.map_cons, List.length_cons, List.range'_1_concat, List.reverse_append] at hnumbered
      have hhead := (List.cons.inj hnumbered).1
      rw [hcurrent.epoch_eq] at hhead
      rw [UInt64.toNat_add, List.length_cons]
      change (n.coordinator.epochState.epoch.toNat + 1) % 2 ^ 64 = _
      omega
    rw [List.map_cons, hnumbered, List.length_cons, List.range'_1_concat, List.reverse_append]
    change (n.coordinator.epochState.epoch + 1).toNat :: _ = _
    rw [hsucc, Nat.add_comm]
    rfl

theorem current_enter {s : EpochCoordinator} {r : EpochRecord} {phase : EpochPhase} {phaseStart : ℕ}
    {localSolution : Option LocalSolution} (h : Current env s r)
    (hnext : s.epochState.phase.next = some phase) :
    Current env (s.inPhase phase phaseStart localSolution) (r.enter phase) where
  epoch_eq := h.epoch_eq
  phases_eq := by
    rw [EpochRecord.enter, h.phases_eq]
    exact (upTo_next hnext).symm
  collected := h.collected
  pending _ := h.pending (by
    rintro hseal
    rw [hseal] at hnext
    cases hnext)
  sound := {
    phases := by
      rw [EpochRecord.enter, h.phases_eq, ← upTo_next hnext]
      exact upTo_isPrefix phase
    counted := h.sound.counted
    oneBlock := h.sound.oneBlock
    onTip := h.sound.onTip }

/-- Every step keeps the invariant. -/
theorem inv_step {input : Input} {n n' : Node} (h : Inv env n) (hin : InOrder env (input, n))
    (hstep : Step env input n n') : Inv env n' := by
  cases hstep with
  | restarted hs => exact inv_restarted h hin hs
  | advanced hnext hseal => exact h.update (fun _ => rfl) fun r hr => current_enter hr hnext
  | sealed hphase => exact h.update (fun _ => rfl) fun r hr => current_enter hr (by rw [hphase]; rfl)
  | @produced clocks _ phaseStart block chainHeight work hphase hquorum hprev =>
    rw [updateCurrent_updateCurrent]
    refine h.update (fun _ => rfl) fun r hr => ?_
    obtain ⟨hchain, hsalt, hblocks⟩ := hr.pending (by rw [hphase]; nofun)
    have hentered := @current_enter env _ r .Seal phaseStart none hr (by rw [hphase]; rfl)
    -- the only block of the record is the new one
    have honly : ∀ b ∈ (r.blocks ++ [(block, r.salt)]), b = (block, r.salt) := by
      rw [hblocks]
      exact fun b hb => List.mem_singleton.mp hb
    refine ⟨hentered.epoch_eq, hentered.phases_eq, hentered.collected, fun hseal => absurd rfl hseal,
      ⟨hentered.sound.phases, hentered.sound.counted, ?_, fun b hb => ?_⟩⟩
    · change (r.blocks ++ [(block, r.salt)]).length ≤ 1
      rw [hblocks]
      exact le_rfl
    · rw [honly b hb]
      exact ⟨hprev.trans hchain, hsalt⟩
  | @saltSet _ epoch salt src haccepts =>
    have hepoch : epoch = n.coordinator.epochState.epoch := by
      simp only [EpochCoordinator.acceptsSalt, Bool.and_eq_true, decide_eq_true_eq] at haccepts
      exact haccepts.1
    refine h.update (fun _ => rfl) fun r hr => ⟨hr.epoch_eq, hr.phases_eq, hr.collected, ?_,
      ⟨hr.sound.phases, hr.sound.counted, hr.sound.oneBlock, hr.sound.onTip⟩⟩
    intro hseal
    obtain ⟨hchain, -, hblocks⟩ := hr.pending hseal
    rcases hin haccepts with hphase | hsalt
    · exact absurd hphase hseal
    · refine ⟨hchain, ?_, hblocks⟩
      change salt = _
      rw [hsalt, hepoch, ← hr.epoch_eq, hchain]
      rfl
  | @committed cmd _ commit localSolution hbrings =>
    by_cases haccepts : n.coordinator.collector.accepts env.ext env.allowUnsigned commit = true
    · rw [if_pos haccepts]
      refine h.update (fun _ => rfl) fun r hr => ⟨hr.epoch_eq, hr.phases_eq, fun c hc => ?_, hr.pending,
        ⟨hr.sound.phases, fun c hc => ?_, hr.sound.oneBlock, hr.sound.onTip⟩⟩
      · rcases mem_addCommit.mp hc with hc | ⟨rfl, -⟩
        · exact List.mem_append_left _ (hr.collected c hc)
        · exact List.mem_append_right _ (List.mem_singleton.mpr (by rw [← hr.epoch_eq]; rfl))
      · rcases List.mem_append.mp hc with hc | hc
        · exact hr.sound.counted c hc
        · rw [List.mem_singleton.mp hc]
          exact hr.epoch_eq.symm
    · rw [if_neg haccepts]
      refine h.keep fun r hr => ⟨hr.epoch_eq, hr.phases_eq, fun c hc => ?_, hr.pending, hr.sound⟩
      rcases mem_addCommit.mp hc with hc | ⟨-, hc⟩
      · exact hr.collected c hc
      · exact absurd hc haccepts
  | peerJoined nodeId =>
    exact h.keep fun r hr => ⟨hr.epoch_eq, hr.phases_eq, hr.collected, hr.pending, hr.sound⟩
  | peerLeft nodeId =>
    exact h.keep fun r hr => ⟨hr.epoch_eq, hr.phases_eq, hr.collected, hr.pending, hr.sound⟩
  | tipUpdated height hash work =>
    refine h.keep fun r hr => ⟨hr.epoch_eq, hr.phases_eq, hr.collected, fun hseal => ?_, hr.sound⟩
    obtain ⟨hchain, hsalt, hblocks⟩ := hr.pending hseal
    rcases hin with hphase | heq
    · exact absurd hphase hseal
    · exact ⟨heq.trans hchain, hsalt, hblocks⟩
  | idle => exact h

theorem inv_start (now : ℕ) (s : EpochCoordinator) : Inv env (start env now s) := by
  have hcurrent := current_started (@start_coordinator env now s)
  refine ⟨_, _, start_records now s, hcurrent, fun r hr => absurd hr List.not_mem_nil, ?_⟩
  rw [start_records]
  rfl

/-- In a run whose steps are in order, the epochs are sound at every point. -/
theorem epochs_sound (env : Env) (now : ℕ) (s : EpochCoordinator) (inputs : List Input)
    (hin : ∀ p ∈ (machine env).trace inputs (start env now s), InOrder env p) :
    (∀ p ∈ (machine env).trace inputs (start env now s), Sound env p.2) ∧
      Sound env ((machine env).final inputs (start env now s)) := by
  have hstep : ∀ p ∈ (machine env).trace inputs (start env now s), Inv env p.2 →
      Inv env ((machine env).next p.1 p.2) := fun p hp hinv =>
    inv_step hinv (hin p hp) (step_next p.1 p.2)
  exact ⟨fun p hp => (Machine.invariant_trace hstep (inv_start now s) p hp).sound,
    (Machine.invariant hstep (inv_start now s)).sound⟩

instance : DecidablePred (InOrder env) := fun p =>
  match p with
  | (.phaseExpiry _, _) => inferInstanceAs (Decidable (_ < _))
  | (.command (.ChainTipUpdated ..), _) => inferInstanceAs (Decidable (_ ∨ _))
  | (.command (.SaltReceived ..), _) => inferInstanceAs (Decidable (_ → _ ∨ _))
  | (.command (.LocalSolutionReady ..), _) => isTrue trivial
  | (.command (.CommitReceived ..), _) => isTrue trivial
  | (.command (.PeerJoined _), _) => isTrue trivial
  | (.command (.PeerLeft _), _) => isTrue trivial

namespace Sample

/-- The first epoch up to its block, and the same with a new tip in the Mine phase. -/
def quietEpoch : List Input :=
  [Machine.Sample.expiry 2, Machine.Sample.solved, Machine.Sample.expiry 22, Machine.Sample.expiry 27]
def movedTip : List Input :=
  [Machine.Sample.expiry 2, Machine.Sample.solved, .command (.ChainTipUpdated 7 ⟨9⟩ 100),
    Machine.Sample.expiry 22, Machine.Sample.expiry 27]

/-- The tips of the epochs and the parents of their blocks. -/
def parents (n : Node) : List (Hash × List Hash) :=
  n.records.map fun r => (r.tip, r.blocks.map fun b => b.1.header.prevHash)

end Sample

/-- A node that is alone produces a block on the tip it started on. -/
theorem epochs_sound_quietEpoch :
    Sample.parents ((machine Sample.environment).final Sample.quietEpoch
      (start Sample.environment 0 Sample.node)) = [(⟨5⟩, [⟨5⟩])] ∧
    Sound Sample.environment ((machine Sample.environment).final Sample.quietEpoch
      (start Sample.environment 0 Sample.node)) := by
  have hin : ∀ p ∈ (machine Sample.environment).trace Sample.quietEpoch
      (start Sample.environment 0 Sample.node), InOrder Sample.environment p := by decide +kernel
  exact ⟨by decide +kernel, (epochs_sound Sample.environment 0 Sample.node Sample.quietEpoch hin).2⟩

/-- The tip moves in the Mine phase: the block extends the new tip, while the salt and the commits belong
to the old one. -/
theorem moved_tip_is_extended :
    Sample.parents ((machine Sample.environment).final Sample.movedTip
      (start Sample.environment 0 Sample.node)) = [(⟨5⟩, [⟨9⟩])] ∧
    ¬ Sound Sample.environment ((machine Sample.environment).final Sample.movedTip
      (start Sample.environment 0 Sample.node)) := by
  have hparents : Sample.parents ((machine Sample.environment).final Sample.movedTip
      (start Sample.environment 0 Sample.node)) = [(⟨5⟩, [⟨9⟩])] := by decide +kernel
  refine ⟨hparents, fun hsound => ?_⟩
  generalize (machine Sample.environment).final Sample.movedTip
    (start Sample.environment 0 Sample.node) = n at hparents hsound
  have hmem : ((⟨5⟩, [⟨9⟩]) : Hash × List Hash) ∈ Sample.parents n := by
    rw [hparents]
    exact List.mem_singleton_self _
  obtain ⟨r, hr, hpair⟩ := List.mem_map.mp hmem
  obtain ⟨htip, hblocks⟩ := Prod.mk.inj hpair
  have hparent : (⟨9⟩ : Hash) ∈ r.blocks.map fun b => b.1.header.prevHash := by
    rw [hblocks]
    exact List.mem_singleton_self _
  obtain ⟨b, hb, hprev⟩ := List.mem_map.mp hparent
  have honTip := ((hsound.records r hr).onTip b hb).1
  rw [hprev, htip] at honTip
  exact absurd honTip (by decide)

end Coinjecture.Consensus.Coordinator.Epochs
