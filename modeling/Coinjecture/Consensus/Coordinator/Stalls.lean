import Coinjecture.Consensus.Coordinator.Machine

/-! # Stalled epochs

An observer of the task counts the epochs that end one after the other without an `EpochSealed`, and
expects the hard reset when their number comes to `max_consecutive_stalls`. The coordinator's own count never
gets there: starting the next epoch sets it to zero (`consecutiveStalls_eq_zero`), and of the three ways in
which an epoch ends without a seal only the stall timeout looks at it at all. -/

namespace Coinjecture.Consensus.Coordinator.Stalls

open Lib.Trace
open Consensus.Coordinator.Commit Consensus.Coordinator.Epoch
open Consensus.Coordinator.Machine

/-- An epoch started. -/
def starts (outputs : List Output) : Bool := outputs.any fun
  | .epochStarted .. => true
  | _ => false

/-- An epoch was sealed. -/
def seals (outputs : List Output) : Bool := outputs.any fun
  | .sent (.EpochSealed ..) => true
  | _ => false

/-- A coordinator under observation: whether its epoch has been sealed, and how many epochs in a row ended
without a seal, since the last hard reset that was due. -/
structure Watched where
  coordinator : EpochCoordinator
  epochSealed : Bool
  unsealed : ℕ

namespace Watched

/-- The threshold of the hard reset. -/
def threshold (w : Watched) : ℕ := w.coordinator.config.maxConsecutiveStalls.toNat

/-- The count when the epoch ends. -/
def atEnd (w : Watched) : ℕ :=
  if w.epochSealed then 0 else if w.threshold ≤ w.unsealed + 1 then 0 else w.unsealed + 1

end Watched

/-- The task under observation. -/
def watchMachine (env : Env) : Machine Input Watched where
  next input w :=
    match w.coordinator.handle env input with
    | .error _ => w
    | .ok (s, outputs) =>
      if starts outputs then ⟨s, false, w.atEnd⟩
      else ⟨s, w.epochSealed || seals outputs, w.unsealed⟩
  halts input w :=
    match w.coordinator.handle env input with
    | .ok _ => false
    | .error _ => true

/-- The task has started its first epoch. -/
def watch (env : Env) (now : ℕ) (s : EpochCoordinator) : Watched := ⟨(s.begin env now).1, false, 0⟩

/-! ### What is read off a step -/

/-- The stall timeout of the phase has run out, and the epoch's hard deadline has not. -/
def timesOut (input : Input) (s : EpochCoordinator) : Bool :=
  match input with
  | .phaseExpiry clocks => !s.epochState.hasExceededHardDeadline s.config (clocks.clock 0) &&
      s.epochState.isStalled s.config (clocks.clock 1)
  | .command _ => false

/-- The input ends the epoch: at its hard deadline, by the stall timeout, or after the Seal phase. -/
def ends (input : Input) (s : EpochCoordinator) : Bool :=
  match input with
  | .phaseExpiry clocks => s.epochState.hasExceededHardDeadline s.config (clocks.clock 0) ||
      s.epochState.isStalled s.config (clocks.clock 1) ||
        (s.epochState.phase = .Seal && s.epochState.phaseExpired s.config (clocks.clock 2))
  | .command _ => false

/-- `handle_stall` comes to its hard reset. -/
def hardReset (input : Input) (s : EpochCoordinator) : Bool :=
  timesOut input s && s.config.maxConsecutiveStalls ≤ s.consecutiveStalls + 1

/-- The count of the coordinator is that of the observer. -/
def Counts (w : Watched) : Prop := w.coordinator.consecutiveStalls.toNat = w.unsealed

/-- The epoch that ends makes the unsealed ones as many as the threshold. -/
def Due (p : Input × Watched) : Prop :=
  ends p.1 p.2.coordinator = true ∧ p.2.epochSealed = false ∧ p.2.threshold ≤ p.2.unsealed + 1

/-- Every state of the run has the right count, and a hard reset that is due is made. -/
def Tracks (env : Env) (inputs : List Input) (w : Watched) : Prop :=
  ∀ p ∈ (watchMachine env).trace inputs w, Counts p.2 ∧ Counts ((watchMachine env).next p.1 p.2) ∧
    (Due p → hardReset p.1 p.2.coordinator = true)

/-- An epoch that ends was sealed, or it ends by the stall timeout and one stall is enough for the reset. -/
def Harmless (p : Input × Watched) : Prop :=
  ends p.1 p.2.coordinator = true → p.2.epochSealed = true ∨
    (p.2.threshold ≤ 1 ∧ timesOut p.1 p.2.coordinator = true)

variable {env : Env}

/-! ### What a step does to the count -/

theorem startEpoch_spec (now : ℕ) (epoch : UInt64) (s : EpochCoordinator) :
    (s.startEpoch env now epoch).1.consecutiveStalls = 0 ∧
      (s.startEpoch env now epoch).1.config = s.config ∧
      starts (s.startEpoch env now epoch).2 = true := by
  unfold EpochCoordinator.startEpoch
  rcases electLeader env.ext epoch s.chainHash s.peers with _ | leader
  · exact ⟨rfl, rfl, rfl⟩
  · exact ⟨rfl, rfl, rfl⟩

/-- The count, the configuration and the start of an epoch after an input. -/
structure Stepped (input : Input) (s s' : EpochCoordinator) (outputs : List Output) : Prop where
  starts_eq : starts outputs = ends input s
  config_eq : s'.config = s.config
  stalls_eq : s'.consecutiveStalls = if ends input s then 0 else s.consecutiveStalls

/-- What keeps count and configuration and starts no epoch. -/
structure Quiet (s s' : EpochCoordinator) (outputs : List Output) : Prop where
  starts_eq : starts outputs = false
  config_eq : s'.config = s.config
  stalls_eq : s'.consecutiveStalls = s.consecutiveStalls

theorem Quiet.stepped {input : Input} {s s' : EpochCoordinator} {outputs : List Output}
    (h : Quiet s s' outputs) (hends : ends input s = false) : Stepped input s s' outputs where
  starts_eq := h.starts_eq.trans hends.symm
  config_eq := h.config_eq
  stalls_eq := by rw [hends, if_neg Bool.false_ne_true, h.stalls_eq]

theorem quiet_handleSeal {unixNowSecs : UInt64} {s s' : EpochCoordinator} {outputs : List Output}
    (h : s.handleSeal env unixNowSecs = .ok (s', outputs)) : Quiet s s' outputs := by
  unfold EpochCoordinator.handleSeal at h
  split_ifs at h
  · rcases hwinner : s.collector.selectWinner env.values with _ | winner
    · rw [hwinner] at h
      cases h
      exact ⟨rfl, rfl, rfl⟩
    · rw [hwinner] at h
      simp only at h
      split_ifs at h
      · rcases hbuild : s.buildWon env unixNowSecs with e | ⟨s₁, built⟩
        · rw [hbuild] at h
          cases h
        · rw [hbuild] at h
          cases h
          unfold EpochCoordinator.buildWon at hbuild
          split at hbuild
          · cases hbuild
            exact ⟨rfl, rfl, rfl⟩
          · simp only at hbuild
            split at hbuild
            · cases hbuild
            · cases hbuild
              exact ⟨rfl, rfl, rfl⟩
            · cases hbuild
              exact ⟨rfl, rfl, rfl⟩
      · cases h
        exact ⟨rfl, rfl, rfl⟩
  · cases h
    exact ⟨rfl, rfl, rfl⟩

theorem quiet_enterPhase {unixNowSecs : UInt64} {phase : EpochPhase} {s s' : EpochCoordinator}
    {outputs : List Output} (h : s.enterPhase env unixNowSecs phase = .ok (s', outputs)) :
    Quiet s s' outputs := by
  cases phase with
  | Mine =>
    rw [EpochCoordinator.enterPhase] at h
    split at h
    · cases h
      exact ⟨rfl, rfl, rfl⟩
    · cases h
      exact ⟨rfl, rfl, rfl⟩
  | Commit =>
    cases h
    exact ⟨rfl, rfl, rfl⟩
  | Seal => exact quiet_handleSeal h
  | Salt =>
    cases h
    exact ⟨rfl, rfl, rfl⟩

theorem quiet_countCommit (epoch : UInt64) (commit : SolutionCommit) (s : EpochCoordinator) :
    Quiet s (s.countCommit env epoch commit).1 (s.countCommit env epoch commit).2 := by
  unfold EpochCoordinator.countCommit
  refine ⟨?_, rfl, rfl⟩
  split_ifs
  · rfl
  · rfl

theorem quiet_handleCommand (command : CoordinatorCommand) (s : EpochCoordinator) :
    Quiet s (s.handleCommand env command).1 (s.handleCommand env command).2 := by
  cases command with
  | SaltReceived epoch salt src =>
    rw [EpochCoordinator.handleCommand]
    split_ifs
    · exact ⟨rfl, rfl, rfl⟩
    · exact ⟨rfl, rfl, rfl⟩
  | LocalSolutionReady epoch solutionHash workScore problem solution solveTime =>
    rw [EpochCoordinator.handleCommand]
    split_ifs
    · exact ⟨rfl, rfl, rfl⟩
    · have hcounted := @quiet_countCommit env epoch (s.ownCommit epoch solutionHash workScore)
        { s with localSolution := some ⟨problem, solution, workScore, solveTime⟩ }
      refine ⟨?_, hcounted.config_eq, hcounted.stalls_eq⟩
      have hstarts := hcounted.starts_eq
      unfold starts at hstarts ⊢
      rw [List.any_append, hstarts]
      rfl
  | CommitReceived epoch commit =>
    rw [EpochCoordinator.handleCommand]
    split_ifs
    · exact ⟨rfl, rfl, rfl⟩
    · exact quiet_countCommit epoch commit s
  | PeerJoined nodeId => exact ⟨rfl, rfl, rfl⟩
  | PeerLeft nodeId => exact ⟨rfl, rfl, rfl⟩
  | ChainTipUpdated height hash bestCumulativeWork => exact ⟨rfl, rfl, rfl⟩

theorem stepped_startEpoch {input : Input} {s t : EpochCoordinator} (now : ℕ) (epoch : UInt64)
    (hconfig : t.config = s.config) (hends : ends input s = true) :
    Stepped input s (t.startEpoch env now epoch).1 (t.startEpoch env now epoch).2 := by
  obtain ⟨hstalls, hcfg, hstarts⟩ := @startEpoch_spec env now epoch t
  exact ⟨hstarts.trans hends.symm, hcfg.trans hconfig, by rw [hstalls, hends, if_pos rfl]⟩

/-- An epoch that is stalled. -/
theorem stepped_stalled {input : Input} {s t : EpochCoordinator} (event : CoordinatorEvent) (now : ℕ)
    (epoch : UInt64) (hconfig : t.config = s.config) (hends : ends input s = true) :
    Stepped input s (t.startEpoch env now epoch).1 (.sent event :: (t.startEpoch env now epoch).2) := by
  obtain ⟨hstarts, hcfg, hstalls⟩ := @stepped_startEpoch env input s t now epoch hconfig hends
  exact ⟨hstarts, hcfg, hstalls⟩

theorem stepped_handleStall {clocks : Clocks} {s : EpochCoordinator} (now : ℕ)
    (hends : ends (.phaseExpiry clocks) s = true) :
    Stepped (.phaseExpiry clocks) s (s.handleStall env now).1 (s.handleStall env now).2 :=
  @stepped_stalled env _ s { s with
    consecutiveStalls := if s.config.maxConsecutiveStalls ≤ s.consecutiveStalls + 1 then 0
      else s.consecutiveStalls + 1 } _ now _ rfl hends

theorem stepped_handle {input : Input} {s s' : EpochCoordinator} {outputs : List Output}
    (h : s.handle env input = .ok (s', outputs)) : Stepped input s s' outputs := by
  cases input with
  | command cmd =>
    have hquiet := @quiet_handleCommand env cmd s
    have hpair : s.handleCommand env cmd = (s', outputs) := Except.ok.inj h
    rw [hpair] at hquiet
    exact hquiet.stepped rfl
  | phaseExpiry clocks =>
    rw [EpochCoordinator.handle, EpochCoordinator.handlePhaseExpiry] at h
    simp only at h
    split_ifs at h with hdeadline hstalled
    · obtain ⟨rfl, rfl⟩ := Prod.mk.inj (Except.ok.inj h)
      have hends : ends (.phaseExpiry clocks) s = true := by simp [ends, hdeadline]
      exact @stepped_stalled env _ s { s with consecutiveStalls := s.consecutiveStalls + 1 } _ _ _ rfl hends
    · have hends : ends (.phaseExpiry clocks) s = true := by simp [ends, hstalled]
      have hpair : s.handleStall env (clocks.clock 2) = (s', outputs) := Except.ok.inj h
      have hstepped := @stepped_handleStall env clocks s (clocks.clock 2) hends
      rw [hpair] at hstepped
      exact hstepped
    · rw [Bool.not_eq_true] at hdeadline hstalled
      unfold EpochState.tryAdvance at h
      cases hexpired : s.epochState.phaseExpired s.config (clocks.clock 2) with
      | false =>
        rw [hexpired, Bool.not_false, if_pos rfl] at h
        simp only [ne_eq, not_true_eq_false, if_false] at h
        cases h
        have hends : ends (.phaseExpiry clocks) s = false := by simp [ends, hdeadline, hstalled, hexpired]
        exact Quiet.stepped ⟨rfl, rfl, rfl⟩ hends
      | true =>
        rw [hexpired, Bool.not_true, if_neg Bool.false_ne_true] at h
        by_cases hseal : s.epochState.phase = .Seal
        · simp only [hseal, EpochPhase.next] at h
          obtain ⟨rfl, rfl⟩ := Prod.mk.inj (Except.ok.inj h)
          have hends : ends (.phaseExpiry clocks) s = true := by simp [ends, hseal, hexpired]
          exact stepped_startEpoch _ _ rfl hends
        · have hends : ends (.phaseExpiry clocks) s = false := by
            simp [ends, hdeadline, hstalled, hseal]
          -- the phase moves on, and what its entry puts out comes after
          have hmoved : ∃ phase, s.epochState.phase.next = some phase ∧ phase ≠ s.epochState.phase := by
            cases hphase : s.epochState.phase with
            | Salt => exact ⟨.Mine, rfl, by decide⟩
            | Mine => exact ⟨.Commit, rfl, by decide⟩
            | Commit => exact ⟨.Seal, rfl, by decide⟩
            | Seal => exact absurd hphase hseal
          obtain ⟨phase, hnext, hne⟩ := hmoved
          simp only [hnext, if_pos hne] at h
          split at h
          · rename_i s₁ entered henter
            cases h
            have hquiet := quiet_enterPhase henter
            exact Quiet.stepped ⟨hquiet.starts_eq, hquiet.config_eq, hquiet.stalls_eq⟩ hends
          · cases h

/-- An epoch that ends does so without a panic. -/
theorem handle_of_ends {input : Input} {s : EpochCoordinator} (hends : ends input s = true) :
    ∃ s' outputs, s.handle env input = .ok (s', outputs) := by
  cases input with
  | command cmd => cases hends
  | phaseExpiry clocks =>
    rw [EpochCoordinator.handle, EpochCoordinator.handlePhaseExpiry]
    simp only
    split_ifs with hdeadline hstalled
    · exact ⟨_, _, rfl⟩
    · exact ⟨_, _, rfl⟩
    · simp only [ends, hdeadline, hstalled, Bool.false_or, Bool.and_eq_true, decide_eq_true_eq] at hends
      obtain ⟨hseal, hexpired⟩ := hends
      simp only [EpochState.tryAdvance, hexpired, Bool.not_true, if_neg Bool.false_ne_true, hseal,
        EpochPhase.next]
      exact ⟨_, _, rfl⟩

/-! ### Runs -/

/-- What every step keeps. -/
theorem stalls_next {input : Input} {w : Watched} (h : w.coordinator.consecutiveStalls = 0) :
    ((watchMachine env).next input w).coordinator.consecutiveStalls = 0 := by
  simp only [watchMachine]
  rcases hhandle : w.coordinator.handle env input with e | ⟨s', outputs⟩
  · exact h
  · have hstalls := (stepped_handle hhandle).stalls_eq
    rw [h, ite_self] at hstalls
    simp only
    split_ifs
    · exact hstalls
    · exact hstalls

theorem stalls_watch (now : ℕ) (s : EpochCoordinator) :
    (watch env now s).coordinator.consecutiveStalls = 0 :=
  (startEpoch_spec now 1 _).1

/-- No stall is ever remembered. -/
theorem consecutiveStalls_eq_zero (now : ℕ) (s : EpochCoordinator) (inputs : List Input) :
    (∀ p ∈ (watchMachine env).trace inputs (watch env now s), p.2.coordinator.consecutiveStalls = 0) ∧
      ((watchMachine env).final inputs (watch env now s)).coordinator.consecutiveStalls = 0 := by
  have hstep : ∀ p ∈ (watchMachine env).trace inputs (watch env now s),
      p.2.coordinator.consecutiveStalls = 0 →
        ((watchMachine env).next p.1 p.2).coordinator.consecutiveStalls = 0 := fun _ _ => stalls_next
  exact ⟨Machine.invariant_trace (P := fun w : Watched => w.coordinator.consecutiveStalls = 0) hstep
      (stalls_watch now s),
    Machine.invariant (P := fun w : Watched => w.coordinator.consecutiveStalls = 0) hstep (stalls_watch now s)⟩

/-- The observer's count after an input. -/
theorem unsealed_next (input : Input) (w : Watched) :
    ((watchMachine env).next input w).unsealed =
      if ends input w.coordinator then w.atEnd else w.unsealed := by
  simp only [watchMachine]
  rcases hhandle : w.coordinator.handle env input with e | ⟨s', outputs⟩
  · cases hends : ends input w.coordinator with
    | false => rfl
    | true =>
      obtain ⟨s', outputs, hok⟩ := @handle_of_ends env input w.coordinator hends
      rw [hhandle] at hok
      cases hok
  · rw [← (stepped_handle hhandle).starts_eq]
    simp only
    split_ifs
    · rfl
    · rfl

/-- One step from a state with both counts at zero. -/
theorem step_iff {input : Input} {w : Watched} (hstalls : w.coordinator.consecutiveStalls = 0)
    (hunsealed : w.unsealed = 0) :
    (Counts w ∧ Counts ((watchMachine env).next input w) ∧
      (Due (input, w) → hardReset input w.coordinator = true)) ↔ Harmless (input, w) := by
  have hcounts : Counts w := by rw [Counts, hstalls, hunsealed]; rfl
  have hnext : Counts ((watchMachine env).next input w) ↔
      (ends input w.coordinator = true → w.atEnd = 0) := by
    rw [Counts, stalls_next hstalls, unsealed_next, hunsealed]
    cases ends input w.coordinator with
    | false => simp
    | true =>
      simp only [if_true, true_implies]
      exact eq_comm
  have hreset : hardReset input w.coordinator = true ↔
      timesOut input w.coordinator = true ∧ w.threshold ≤ 1 := by
    rw [hardReset, Bool.and_eq_true, decide_eq_true_eq, hstalls, UInt32.le_iff_toNat_le]
    rfl
  rw [hnext, hreset, Due, Harmless]
  simp only [Watched.atEnd, hunsealed, hcounts, true_and]
  cases ends input w.coordinator with
  | false => simp
  | true =>
    cases w.epochSealed with
    | true => simp
    | false =>
      by_cases hthreshold : w.threshold ≤ 0 + 1
      · simp only [if_pos hthreshold]
        tauto
      · simp only [if_neg hthreshold]
        simp
        omega

/-- The count is right in every state of a run, and every hard reset that is due is made, exactly if every
epoch that ends in the run was sealed or ends by the stall timeout at a threshold of one. -/
theorem stalls_tracked_iff (env : Env) (now : ℕ) (s : EpochCoordinator) (inputs : List Input) :
    Tracks env inputs (watch env now s) ↔
      ∀ p ∈ (watchMachine env).trace inputs (watch env now s), Harmless p := by
  refine Machine.forall_trace_iff
    (Q := fun _ w => w.coordinator.consecutiveStalls = 0 ∧ w.unsealed = 0) ?_ ?_ ⟨stalls_watch now s, rfl⟩
  · rintro input inputs w ⟨hstalls, hunsealed⟩
    exact step_iff hstalls hunsealed
  · rintro input inputs w ⟨hstalls, hunsealed⟩ hharmless
    obtain ⟨-, hcounts, -⟩ := (@step_iff env input w hstalls hunsealed).mpr hharmless
    rw [Counts, stalls_next hstalls] at hcounts
    exact ⟨stalls_next hstalls, hcounts.symm⟩

instance : DecidablePred Counts := fun _ => inferInstanceAs (Decidable (_ = _))

instance : DecidablePred Due := fun _ => inferInstanceAs (Decidable (_ ∧ _ ∧ _))

instance (env : Env) (inputs : List Input) (w : Watched) : Decidable (Tracks env inputs w) :=
  inferInstanceAs (Decidable (∀ p ∈ _, _))

namespace Sample

/-- Three epochs in a row time out in their Salt phase. -/
def threeStalls : List (Input × Watched) :=
  (watchMachine Machine.Sample.environment).trace
    [Machine.Sample.expiry 15, Machine.Sample.expiry 30, Machine.Sample.expiry 45]
    (watch Machine.Sample.environment 0 Machine.Sample.node)

end Sample

/-- The count of the unsealed epochs stays at zero, and the third one brings no hard reset. -/
theorem three_stalls_forgotten :
    (Sample.threeStalls.map fun p => (timesOut p.1 p.2.coordinator, p.2.unsealed,
        p.2.coordinator.consecutiveStalls, decide (Due p), hardReset p.1 p.2.coordinator)) =
      [(true, 0, 0, false, false), (true, 1, 0, false, false), (true, 2, 0, true, false)] ∧
    ¬ ∀ env now s inputs, Tracks env inputs (watch env now s) := by
  refine ⟨by decide +kernel, fun h => ?_⟩
  have hfalse : ¬ Tracks Machine.Sample.environment [Machine.Sample.expiry 15]
      (watch Machine.Sample.environment 0 Machine.Sample.node) := by decide +kernel
  exact hfalse (h _ _ _ _)

end Coinjecture.Consensus.Coordinator.Stalls
