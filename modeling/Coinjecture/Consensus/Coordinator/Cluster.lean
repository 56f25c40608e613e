import Coinjecture.Consensus.Coordinator.Stalls

/-! # Coordinators that hear of one another

The nodes of a mesh run their coordinators side by side. The commit that a node broadcasts is relayed without its
key and signature; what is delivered, to whom, in which order and how often is up to the network, and anyone may
send commits under any id. `mail` has all commits that were ever sent for an epoch.

* `seal_of_mail` : what a node makes of its Seal phase is settled by the commits sent for the epoch and the number
  of its peers, if it has been handed all admissible ones and no id has sent two of them; and only the winner
  produces a block. -/

namespace Coinjecture.Consensus.Coordinator.Cluster

open Lib.Float64
open Core.Types Core.Blocks Core.Extern
open Consensus.Coordinator.Commit Consensus.Coordinator.Commit.CommitCollector
open Consensus.Coordinator.Epoch Consensus.Coordinator.Machine
open Consensus.Coordinator.Stalls

/-- `EpochCoordinator::new`: without a signing key, rewards to the node's own id. -/
def newCoordinator (now : ℕ) (ourId : NodeId) (config : CoordinatorConfig) (chainHeight : UInt64) (chainHash : Hash)
    (tipCumulativeWork : BitVec 128) : EpochCoordinator :=
  .withSigningKey now ourId config chainHeight chainHash tipCumulativeWork ⟨ourId⟩ none

/-- What arrives elsewhere of a commit that is broadcast: no signature goes out, and no key comes in. -/
def relayed (nodeId : NodeId) (solutionHash : Hash) (workScore : F64) : SolutionCommit :=
  ⟨nodeId, ⟨0⟩, solutionHash, workScore, []⟩

/-! ### What is read off the outputs -/

def entersSeal (outputs : List Output) : Bool := outputs.any fun output => output = .phaseEntered .Seal

def winnerOf (outputs : List Output) : Option NodeId := outputs.findSome? fun
  | .sent (.EpochSealed _ winner _ _) => some winner
  | _ => none

def blockOf (outputs : List Output) : Option Block := outputs.findSome? fun
  | .sent (.BlockProduced block _) => some block
  | _ => none

/-- The commits that a node broadcasts, as they are relayed. -/
def broadcastBy (nodeId : NodeId) (outputs : List Output) : List (UInt64 × SolutionCommit) := outputs.filterMap fun
  | .sent (.BroadcastCommit epoch solutionHash workScore) => some (epoch, relayed nodeId solutionHash workScore)
  | _ => none

/-! ### The mesh -/

/-- A node enters its Seal phase: what it had been handed in the epoch by then, the peers it knew, and what comes
of it. -/
structure Entry (ι : Type) where
  node : ι
  epoch : UInt64
  handed : List SolutionCommit
  peers : ℕ
  winner : Option NodeId
  block : Option Block

/-- The tasks of the nodes, none of one that has ended; what each has been handed in its epoch; and the commits
that were ever sent. -/
structure Mesh (ι : Type) where
  nodes : ι → Option EpochCoordinator
  handed : ι → List SolutionCommit
  mail : List (UInt64 × SolutionCommit)
  entries : List (Entry ι)

/-- The commit for the current epoch that the input brings: one that was received, or the node's own. -/
def brought (s : EpochCoordinator) : Input → Option SolutionCommit
  | .command (.CommitReceived epoch commit) => if epoch = s.epochState.epoch then some commit else none
  | .command (.LocalSolutionReady epoch solutionHash workScore ..) =>
    if epoch = s.epochState.epoch then some (s.ownCommit epoch solutionHash workScore) else none
  | _ => none

/-- A commit that is received has been sent. -/
def arriving : Input → List (UInt64 × SolutionCommit)
  | .command (.CommitReceived epoch commit) => [(epoch, commit)]
  | _ => []

variable {ι : Type} [DecidableEq ι]

/-- The task of a node has ended. -/
def Mesh.ended (i : ι) (c : Mesh ι) : Mesh ι := { c with nodes := Function.update c.nodes i none }

/-- A node has taken an input. -/
def Mesh.took (i : ι) (input : Input) (s s' : EpochCoordinator) (outputs : List Output) (c : Mesh ι) : Mesh ι where
  nodes := Function.update c.nodes i (some s')
  handed := Function.update c.handed i
    (if starts outputs then [] else c.handed i ++ (brought s input).toList)
  mail := c.mail ++ (arriving input ++ broadcastBy s.ourId outputs)
  entries :=
    if entersSeal outputs || (winnerOf outputs).isSome || (blockOf outputs).isSome then
      c.entries ++ [⟨i, s.epochState.epoch, c.handed i, s.peers.len, winnerOf outputs, blockOf outputs⟩]
    else c.entries

/-- One node takes an input. -/
def Mesh.step (env : ι → Env) (c : Mesh ι) (i : ι) (input : Input) : Mesh ι :=
  match c.nodes i with
  | none => c
  | some s =>
    match s.handle (env i) input with
    | .error _ => c.ended i
    | .ok (s', outputs) => c.took i input s s' outputs

def Mesh.run (env : ι → Env) (c : Mesh ι) (inputs : List (ι × Input)) : Mesh ι :=
  inputs.foldl (fun c p => c.step env p.1 p.2) c

/-- What a node starts from. -/
structure Member where
  now : ℕ
  id : NodeId
  chainHeight : UInt64
  chainHash : Hash
  tipCumulativeWork : BitVec 128

/-- Every node has started its first epoch. -/
def Mesh.start (env : ι → Env) (config : CoordinatorConfig) (members : ι → Member) : Mesh ι where
  nodes i := some (Machine.start (env i) (members i).now (newCoordinator (members i).now (members i).id config
    (members i).chainHeight (members i).chainHash (members i).tipCumulativeWork)).coordinator
  handed _ := []
  mail := []
  entries := []

/-- The commits that were sent for the epoch. -/
def Mesh.sentFor (epoch : UInt64) (c : Mesh ι) : List SolutionCommit :=
  (c.mail.filter fun m => m.1 = epoch).map Prod.snd

/-- The node had been handed all admissible commits that were sent for the epoch, before or after. -/
def Complete (ext : Ext) (allowUnsigned : Bool) (c : Mesh ι) (x : Entry ι) : Prop :=
  ∀ commit ∈ c.sentFor x.epoch, admissible ext allowUnsigned x.epoch commit = true → commit ∈ x.handed

/-- The winner among all commits that were sent for the epoch. -/
def outcome (ext : Ext) (allowUnsigned : Bool) (config : CoordinatorConfig) (c : Mesh ι) (epoch : UInt64)
    (peers : ℕ) : Option NodeId :=
  ((collect ext allowUnsigned epoch (c.sentFor epoch)).sealedWinner .id peers config.quorumThreshold).map
    SolutionCommit.nodeId

/-! ### One input -/

section Handle

variable {env : Env}

/-- What an input does to a coordinator, as far as commits and seals go. -/
structure Handled (env : Env) (input : Input) (s s' : EpochCoordinator) (outputs : List Output) : Prop where
  kept : s'.ourId = s.ourId ∧ s'.config = s.config ∧ s'.signingKey = s.signingKey
  started : starts outputs = true → s'.collector = .new s'.epochState.epoch
  collected : starts outputs = false → s'.epochState.epoch = s.epochState.epoch ∧ s'.collector =
    (brought s input).elim s.collector fun commit => s.collector.addCommit env.ext env.allowUnsigned commit
  sealed : entersSeal outputs = true → winnerOf outputs =
    (s.collector.sealedWinner env.values s.peers.len s.config.quorumThreshold).map SolutionCommit.nodeId
  won : blockOf outputs ≠ none → winnerOf outputs = some s.ourId
  quiet : entersSeal outputs = false → winnerOf outputs = none ∧ blockOf outputs = none

/-- Outputs that start no epoch and have nothing to do with seals. -/
def Plain (outputs : List Output) : Prop :=
  starts outputs = false ∧ entersSeal outputs = false ∧ winnerOf outputs = none ∧ blockOf outputs = none

/-- A step that leaves the commits alone. -/
theorem Handled.of_plain {input : Input} {s s' : EpochCoordinator} {outputs : List Output} (h : Plain outputs)
    (hkept : s'.ourId = s.ourId ∧ s'.config = s.config ∧ s'.signingKey = s.signingKey)
    (hcollected : s'.epochState.epoch = s.epochState.epoch ∧ s'.collector =
      (brought s input).elim s.collector fun commit => s.collector.addCommit env.ext env.allowUnsigned commit) :
    Handled env input s s' outputs := by
  obtain ⟨hstarts, henters, hwinner, hblock⟩ := h
  refine ⟨hkept, fun h => ?_, fun _ => hcollected, fun h => ?_, fun h => absurd hblock h, fun _ => ⟨hwinner, hblock⟩⟩
  · rw [hstarts] at h
    cases h
  · rw [henters] at h
    cases h

theorem handled_startEpoch {clocks : Clocks} {s t : EpochCoordinator} (now : ℕ) (epoch : UInt64)
    (hkept : t.ourId = s.ourId ∧ t.config = s.config ∧ t.signingKey = s.signingKey) (stalled : List Output)
    (hstalled : stalled = [] ∨ ∃ e p r, stalled = [.sent (.EpochStalled e p r)]) :
    Handled env (.phaseExpiry clocks) s (t.startEpoch env now epoch).1
      (stalled ++ (t.startEpoch env now epoch).2) := by
  have hrestarted := @restarted_startEpoch env now epoch t
  have houtputs : starts (stalled ++ (t.startEpoch env now epoch).2) = true ∧
      entersSeal (stalled ++ (t.startEpoch env now epoch).2) = false ∧
      winnerOf (stalled ++ (t.startEpoch env now epoch).2) = none ∧
      blockOf (stalled ++ (t.startEpoch env now epoch).2) = none := by
    unfold EpochCoordinator.startEpoch
    rcases electLeader env.ext epoch t.chainHash t.peers with _ | leader
    · rcases hstalled with rfl | ⟨e, p, r, rfl⟩
      · exact ⟨rfl, rfl, rfl, rfl⟩
      · exact ⟨rfl, rfl, rfl, rfl⟩
    · simp only
      rcases hstalled with rfl | ⟨e, p, r, rfl⟩
      · split_ifs
        · exact ⟨rfl, rfl, rfl, rfl⟩
        · exact ⟨rfl, rfl, rfl, rfl⟩
      · split_ifs
        · exact ⟨rfl, rfl, rfl, rfl⟩
        · exact ⟨rfl, rfl, rfl, rfl⟩
  obtain ⟨hstarts, henters, hwinner, hblock⟩ := houtputs
  refine ⟨⟨hrestarted.ourId_eq.trans hkept.1, hrestarted.config_eq.trans hkept.2.1,
    hrestarted.signingKey_eq.trans hkept.2.2⟩, fun _ => ?_, fun h => ?_, fun h => ?_, fun h => absurd hblock h,
    fun _ => ⟨hwinner, hblock⟩⟩
  · rw [hrestarted.collector_eq, hrestarted.epoch_eq]
  · rw [hstarts] at h
    cases h
  · rw [henters] at h
    cases h

theorem plain_countCommit (epoch : UInt64) (commit : SolutionCommit) (s : EpochCoordinator)
    (broadcast : List Output) (hbroadcast : broadcast = [] ∨ ∃ e h w, broadcast = [.sent (.BroadcastCommit e h w)]) :
    Plain ((s.countCommit env epoch commit).2 ++ broadcast) := by
  unfold EpochCoordinator.countCommit
  rcases hbroadcast with rfl | ⟨e, h, w, rfl⟩
  · split_ifs
    · exact ⟨rfl, rfl, rfl, rfl⟩
    · exact ⟨rfl, rfl, rfl, rfl⟩
  · split_ifs
    · exact ⟨rfl, rfl, rfl, rfl⟩
    · exact ⟨rfl, rfl, rfl, rfl⟩

theorem handled_command (cmd : CoordinatorCommand) (s : EpochCoordinator) :
    Handled env (.command cmd) s (s.handleCommand env cmd).1 (s.handleCommand env cmd).2 := by
  cases cmd with
  | SaltReceived epoch salt src =>
    rw [EpochCoordinator.handleCommand]
    split_ifs
    · exact .of_plain ⟨rfl, rfl, rfl, rfl⟩ ⟨rfl, rfl, rfl⟩ ⟨rfl, rfl⟩
    · exact .of_plain ⟨rfl, rfl, rfl, rfl⟩ ⟨rfl, rfl, rfl⟩ ⟨rfl, rfl⟩
  | LocalSolutionReady epoch solutionHash workScore problem solution solveTime =>
    rw [EpochCoordinator.handleCommand]
    split_ifs with hepoch
    · exact .of_plain ⟨rfl, rfl, rfl, rfl⟩ ⟨rfl, rfl, rfl⟩ ⟨rfl, by rw [brought, if_neg hepoch]; rfl⟩
    · refine .of_plain (plain_countCommit _ _ _ _ (.inr ⟨epoch, solutionHash, workScore, rfl⟩)) ⟨rfl, rfl, rfl⟩
        ⟨rfl, ?_⟩
      rw [brought, if_pos (not_not.mp hepoch)]
      rfl
  | CommitReceived epoch commit =>
    rw [EpochCoordinator.handleCommand]
    split_ifs with hepoch
    · exact .of_plain ⟨rfl, rfl, rfl, rfl⟩ ⟨rfl, rfl, rfl⟩ ⟨rfl, by rw [brought, if_neg hepoch]; rfl⟩
    · have hplain := @plain_countCommit env epoch commit s [] (.inl rfl)
      rw [List.append_nil] at hplain
      refine .of_plain hplain ⟨rfl, rfl, rfl⟩ ⟨rfl, ?_⟩
      rw [brought, if_pos (not_not.mp hepoch)]
      rfl
  | PeerJoined nodeId => exact .of_plain ⟨rfl, rfl, rfl, rfl⟩ ⟨rfl, rfl, rfl⟩ ⟨rfl, rfl⟩
  | PeerLeft nodeId => exact .of_plain ⟨rfl, rfl, rfl, rfl⟩ ⟨rfl, rfl, rfl⟩ ⟨rfl, rfl⟩
  | ChainTipUpdated height hash work => exact .of_plain ⟨rfl, rfl, rfl, rfl⟩ ⟨rfl, rfl, rfl⟩ ⟨rfl, rfl⟩

/-- What comes of the entry into the Seal phase. -/
theorem handleSeal_spec {unixNowSecs : UInt64} {s s' : EpochCoordinator} {outputs : List Output}
    (h : s.handleSeal env unixNowSecs = .ok (s', outputs)) :
    ((s'.ourId = s.ourId ∧ s'.config = s.config ∧ s'.signingKey = s.signingKey) ∧
      s'.epochState.epoch = s.epochState.epoch ∧ s'.collector = s.collector) ∧ starts outputs = false ∧
    winnerOf outputs = (s.collector.sealedWinner env.values s.peers.len s.config.quorumThreshold).map
      SolutionCommit.nodeId ∧
    (blockOf outputs ≠ none → winnerOf outputs = some s.ourId) := by
  unfold EpochCoordinator.handleSeal at h
  unfold sealedWinner
  split_ifs at h ⊢ with hquorum
  · cases hwinner : s.collector.selectWinner env.values with
    | none =>
      rw [hwinner] at h
      cases h
      exact ⟨⟨⟨rfl, rfl, rfl⟩, rfl, rfl⟩, rfl, rfl, fun hblock => absurd rfl hblock⟩
    | some winner =>
      rw [hwinner] at h
      simp only at h
      split_ifs at h with hours
      · unfold EpochCoordinator.buildWon at h
        split at h
        · rename_i built hbuilt
          cases h
          split at hbuilt
          · cases hbuilt
            exact ⟨⟨⟨rfl, rfl, rfl⟩, rfl, rfl⟩, rfl, rfl, fun _ => congrArg some hours⟩
          · simp only at hbuilt
            split at hbuilt
            · cases hbuilt
            · cases hbuilt
              exact ⟨⟨⟨rfl, rfl, rfl⟩, rfl, rfl⟩, rfl, rfl, fun _ => congrArg some hours⟩
            · cases hbuilt
              exact ⟨⟨⟨rfl, rfl, rfl⟩, rfl, rfl⟩, rfl, rfl, fun _ => congrArg some hours⟩
        · cases h
      · cases h
        exact ⟨⟨⟨rfl, rfl, rfl⟩, rfl, rfl⟩, rfl, rfl, fun hblock => absurd rfl hblock⟩
  · cases h
    exact ⟨⟨⟨rfl, rfl, rfl⟩, rfl, rfl⟩, rfl, rfl, fun hblock => absurd rfl hblock⟩

theorem handled_sealed {clocks : Clocks} {s t s' : EpochCoordinator} {outputs : List Output}
    (hkept : (t.ourId = s.ourId ∧ t.config = s.config ∧ t.signingKey = s.signingKey) ∧
      t.epochState.epoch = s.epochState.epoch ∧ t.collector = s.collector ∧ t.peers = s.peers)
    (h : t.handleSeal env clocks.unixNowSecs = .ok (s', outputs)) :
    Handled env (.phaseExpiry clocks) s s' (.phaseEntered .Seal :: outputs) := by
  obtain ⟨⟨hids, hepoch, hcollector⟩, hstarts, hwinner, hwon⟩ := handleSeal_spec h
  obtain ⟨hids', hepoch', hcollector', hpeers⟩ := hkept
  refine ⟨⟨hids.1.trans hids'.1, hids.2.1.trans hids'.2.1, hids.2.2.trans hids'.2.2⟩, fun hstarts' => ?_,
    fun _ => ⟨hepoch.trans hepoch', hcollector.trans hcollector'⟩, fun _ => ?_, fun hblock => ?_, fun hnone => ?_⟩
  · change starts outputs = true at hstarts'
    rw [hstarts] at hstarts'
    cases hstarts'
  · change winnerOf outputs = _
    rw [hwinner, hcollector', hpeers, hids'.2.1]
  · change winnerOf outputs = _
    rw [hwon hblock, hids'.1]
  · cases hnone

theorem handled_phaseExpiry {clocks : Clocks} {s s' : EpochCoordinator} {outputs : List Output}
    (h : s.handlePhaseExpiry env clocks = .ok (s', outputs)) : Handled env (.phaseExpiry clocks) s s' outputs := by
  unfold EpochCoordinator.handlePhaseExpiry at h
  simp only at h
  split_ifs at h with hdeadline hstalled
  · obtain ⟨rfl, rfl⟩ := Prod.mk.inj (Except.ok.inj h)
    exact handled_startEpoch _ _ ⟨rfl, rfl, rfl⟩ [_] (.inr ⟨_, _, _, rfl⟩)
  · unfold EpochCoordinator.handleStall at h
    obtain ⟨rfl, rfl⟩ := Prod.mk.inj (Except.ok.inj h)
    exact handled_startEpoch _ _ ⟨rfl, rfl, rfl⟩ [_] (.inr ⟨_, _, _, rfl⟩)
  · unfold EpochState.tryAdvance at h
    cases hexpired : s.epochState.phaseExpired s.config (clocks.clock 2) with
    | false =>
      rw [hexpired, Bool.not_false, if_pos rfl] at h
      simp only [ne_eq, not_true_eq_false, if_false] at h
      cases h
      exact .of_plain ⟨rfl, rfl, rfl, rfl⟩ ⟨rfl, rfl, rfl⟩ ⟨rfl, rfl⟩
    | true =>
      rw [hexpired, Bool.not_true, if_neg Bool.false_ne_true] at h
      cases hphase : s.epochState.phase with
      | Salt =>
        simp only [hphase, EpochPhase.next, EpochCoordinator.enterPhase, ne_eq, reduceCtorEq, not_false_eq_true,
          if_true] at h
        cases hsalt : s.epochState.salt with
        | none =>
          simp only [hsalt] at h
          cases h
          exact .of_plain ⟨rfl, rfl, rfl, rfl⟩ ⟨rfl, rfl, rfl⟩ ⟨rfl, rfl⟩
        | some salt =>
          simp only [hsalt] at h
          cases h
          exact .of_plain ⟨rfl, rfl, rfl, rfl⟩ ⟨rfl, rfl, rfl⟩ ⟨rfl, rfl⟩
      | Mine =>
        simp only [hphase, EpochPhase.next, EpochCoordinator.enterPhase, ne_eq, reduceCtorEq, not_false_eq_true,
          if_true] at h
        cases h
        exact .of_plain ⟨rfl, rfl, rfl, rfl⟩ ⟨rfl, rfl, rfl⟩ ⟨rfl, rfl⟩
      | Commit =>
        simp only [hphase, EpochPhase.next, EpochCoordinator.enterPhase, ne_eq, reduceCtorEq, not_false_eq_true,
          if_true] at h
        split at h
        · cases h
          rename_i hseal
          refine handled_sealed ?_ hseal
          exact ⟨⟨rfl, rfl, rfl⟩, rfl, rfl, rfl⟩
        · cases h
      | Seal =>
        simp only [hphase, EpochPhase.next] at h
        obtain ⟨rfl, rfl⟩ := Prod.mk.inj (Except.ok.inj h)
        exact handled_startEpoch _ _ ⟨rfl, rfl, rfl⟩ [] (.inl rfl)

theorem handled {input : Input} {s s' : EpochCoordinator} {outputs : List Output}
    (h : s.handle env input = .ok (s', outputs)) : Handled env input s s' outputs := by
  cases input with
  | phaseExpiry clocks => exact handled_phaseExpiry h
  | command cmd =>
    have hpair : s.handleCommand env cmd = (s', outputs) := Except.ok.inj h
    have hhandled := @handled_command env cmd s
    rw [hpair] at hhandled
    exact hhandled

/-- The commit of a node without a key is the one that is relayed. -/
theorem mem_broadcastBy {cmd : CoordinatorCommand} {s : EpochCoordinator} (hkey : s.signingKey = none)
    {commit : SolutionCommit} (hbrought : brought s (.command cmd) = some commit) :
    (s.epochState.epoch, commit) ∈ arriving (.command cmd) ++ broadcastBy s.ourId (s.handleCommand env cmd).2 := by
  cases cmd with
  | CommitReceived epoch received =>
    rw [brought] at hbrought
    split_ifs at hbrought with hepoch
    · obtain rfl := Option.some.inj hbrought
      rw [hepoch]
      exact List.mem_cons_self
  | LocalSolutionReady epoch solutionHash workScore problem solution solveTime =>
    rw [brought] at hbrought
    split_ifs at hbrought with hepoch
    · obtain rfl := Option.some.inj hbrought
      have hown : s.ownCommit epoch solutionHash workScore = relayed s.ourId solutionHash workScore := by
        rw [EpochCoordinator.ownCommit, hkey]
        rfl
      rw [EpochCoordinator.handleCommand, if_neg (not_not.mpr hepoch), hown, ← hepoch]
      refine List.mem_append_right _ (List.mem_filterMap.mpr ⟨.sent (.BroadcastCommit epoch solutionHash workScore),
        List.mem_append_right _ List.mem_cons_self, rfl⟩)
  | SaltReceived => cases hbrought
  | PeerJoined => cases hbrought
  | PeerLeft => cases hbrought
  | ChainTipUpdated => cases hbrought

end Handle

/-! ### Runs -/

section Runs

variable (env : Env) (values : ι → ValueOrder) (config : CoordinatorConfig) (ids : ι → NodeId)

/-- The nodes differ in the order in which their maps give out values. -/
def envOf (i : ι) : Env := { env with values := values i }

/-- What has been entered for a Seal phase comes from the commits handed to the node, and these have been sent. -/
structure Recorded (c : Mesh ι) (x : Entry ι) : Prop where
  winner : x.winner = ((collect env.ext env.allowUnsigned x.epoch x.handed).sealedWinner (values x.node) x.peers
    config.quorumThreshold).map SolutionCommit.nodeId
  handed : ∀ commit ∈ x.handed, commit ∈ c.sentFor x.epoch
  block : x.block ≠ none → x.winner = some (ids x.node)

/-- Every collector holds what its node has been handed, and that has been sent. -/
structure Inv (c : Mesh ι) : Prop where
  nodes : ∀ i s, c.nodes i = some s → (s.ourId = ids i ∧ s.config = config ∧ s.signingKey = none) ∧
    s.collector = collect env.ext env.allowUnsigned s.epochState.epoch (c.handed i) ∧
      ∀ commit ∈ c.handed i, commit ∈ c.sentFor s.epochState.epoch
  entries : ∀ x ∈ c.entries, Recorded env values config ids c x

variable {env values config ids}

omit [DecidableEq ι] in
theorem mem_sentFor {c : Mesh ι} {epoch : UInt64} {commit : SolutionCommit} :
    commit ∈ c.sentFor epoch ↔ (epoch, commit) ∈ c.mail := by
  simp [Mesh.sentFor]

omit [DecidableEq ι] in
theorem nodes_start (members : ι → Member) (i : ι) : (Mesh.start (envOf env values) config members).nodes i =
    some (Machine.start (envOf env values i) (members i).now (newCoordinator (members i).now (members i).id config
      (members i).chainHeight (members i).chainHash (members i).tipCumulativeWork)).coordinator := rfl

omit [DecidableEq ι] in
theorem inv_start (members : ι → Member) :
    Inv env values config (fun i => (members i).id) (.start (envOf env values) config members) := by
  refine ⟨fun i s hs => ?_, fun x hx => absurd hx List.not_mem_nil⟩
  rw [nodes_start] at hs
  have hrestarted := @start_coordinator (envOf env values i) (members i).now
    (newCoordinator (members i).now (members i).id config (members i).chainHeight (members i).chainHash
      (members i).tipCumulativeWork)
  rw [Option.some.inj hs] at hrestarted
  refine ⟨⟨hrestarted.ourId_eq, hrestarted.config_eq, hrestarted.signingKey_eq⟩, ?_,
    fun commit hcommit => absurd hcommit List.not_mem_nil⟩
  rw [hrestarted.collector_eq, hrestarted.epoch_eq]
  rfl

omit [DecidableEq ι] in
theorem Recorded.mono {c d : Mesh ι} (hmail : c.mail ⊆ d.mail) {x : Entry ι}
    (h : Recorded env values config ids c x) : Recorded env values config ids d x where
  winner := h.winner
  handed commit hcommit := mem_sentFor.mpr (hmail (mem_sentFor.mp (h.handed commit hcommit)))
  block := h.block

omit [DecidableEq ι] in
theorem arriving_or_broadcast {i : ι} {s s' : EpochCoordinator} {input : Input} {outputs : List Output}
    (hhandle : s.handle (envOf env values i) input = .ok (s', outputs)) (hkey : s.signingKey = none)
    {commit : SolutionCommit} (hbrought : brought s input = some commit) :
    (s.epochState.epoch, commit) ∈ arriving input ++ broadcastBy s.ourId outputs := by
  cases input with
  | phaseExpiry clocks => cases hbrought
  | command cmd =>
    have hpair : s.handleCommand (envOf env values i) cmd = (s', outputs) := Except.ok.inj hhandle
    have hmem := @mem_broadcastBy (envOf env values i) cmd s hkey _ hbrought
    rw [hpair] at hmem
    exact hmem

variable {c : Mesh ι} {i : ι} {input : Input} {s s' : EpochCoordinator} {outputs : List Output}

theorem nodes_ended (j : ι) : (c.ended i).nodes j = if j = i then none else c.nodes j :=
  Function.update_apply ..

theorem nodes_took (j : ι) : (c.took i input s s' outputs).nodes j = if j = i then some s' else c.nodes j :=
  Function.update_apply ..

theorem Inv.ended (h : Inv env values config ids c) (i : ι) : Inv env values config ids (c.ended i) := by
  constructor
  · intro j t ht
    rw [nodes_ended] at ht
    split_ifs at ht
    exact h.nodes j t ht
  · intro x hx
    obtain ⟨hwinner, hhanded, hblock⟩ := h.entries x hx
    exact ⟨hwinner, hhanded, hblock⟩

/-- The node that took the input. -/
theorem took_self (h : Inv env values config ids c) (hnode : c.nodes i = some s)
    (hhandle : s.handle (envOf env values i) input = .ok (s', outputs)) :
    s'.collector = collect env.ext env.allowUnsigned s'.epochState.epoch ((c.took i input s s' outputs).handed i) ∧
      ∀ commit ∈ (c.took i input s s' outputs).handed i,
        commit ∈ (c.took i input s s' outputs).sentFor s'.epochState.epoch := by
  obtain ⟨⟨-, -, hkey⟩, hcollector, hsent⟩ := h.nodes i s hnode
  have hh := handled hhandle
  have hhanded : (c.took i input s s' outputs).handed i =
      if starts outputs then [] else c.handed i ++ (brought s input).toList := Function.update_self ..
  rw [hhanded]
  cases hstarts : starts outputs with
  | true => exact ⟨hh.started hstarts, nofun⟩
  | false =>
    obtain ⟨hepoch, hcollected⟩ := hh.collected hstarts
    rw [if_neg Bool.false_ne_true, hcollected, hepoch, hcollector]
    constructor
    · cases brought s input with
      | none => rw [Option.toList_none, List.append_nil, Option.elim_none]
      | some commit =>
        rw [Option.toList_some, collect_append, Option.elim_some]
        rfl
    · intro commit hcommit
      rw [mem_sentFor]
      rcases List.mem_append.mp hcommit with hold | hnew
      · exact List.mem_append_left _ (mem_sentFor.mp (hsent commit hold))
      · exact List.mem_append_right _ (arriving_or_broadcast hhandle hkey (Option.mem_toList.mp hnew))

theorem Inv.took (h : Inv env values config ids c) (hnode : c.nodes i = some s)
    (hhandle : s.handle (envOf env values i) input = .ok (s', outputs)) :
    Inv env values config ids (c.took i input s s' outputs) := by
  obtain ⟨⟨hid, hconfig, hkey⟩, hcollector, hsent⟩ := h.nodes i s hnode
  have hh := handled hhandle
  have hmail : c.mail ⊆ (c.took i input s s' outputs).mail := fun m hm => List.mem_append_left _ hm
  constructor
  · intro j t ht
    rw [nodes_took] at ht
    split_ifs at ht with hij
    · subst hij
      obtain rfl := Option.some.inj ht
      exact ⟨⟨hh.kept.1.trans hid, hh.kept.2.1.trans hconfig, hh.kept.2.2.trans hkey⟩, took_self h hnode hhandle⟩
    · obtain ⟨hkept, hcollect, hmem⟩ := h.nodes j t ht
      have hhanded : (c.took i input s s' outputs).handed j = c.handed j := Function.update_of_ne hij ..
      rw [hhanded]
      exact ⟨hkept, hcollect, fun commit hcommit => mem_sentFor.mpr (hmail (mem_sentFor.mp (hmem commit hcommit)))⟩
  · intro x hx
    refine Recorded.mono hmail ?_
    unfold Mesh.took at hx
    simp only at hx
    split_ifs at hx with henters
    · rcases List.mem_append.mp hx with hold | hnew
      · exact h.entries x hold
      · rw [List.mem_singleton.mp hnew]
        have hseal : entersSeal outputs = true := by
          by_contra hnot
          rw [Bool.not_eq_true] at hnot
          obtain ⟨hwinner, hblock⟩ := hh.quiet hnot
          rw [hnot, hwinner, hblock] at henters
          cases henters
        refine ⟨?_, hsent, fun hblock => ?_⟩
        · rw [hh.sealed hseal, hcollector, hconfig]
          rfl
        · rw [hh.won hblock, hid]
    · exact h.entries x hx

/-- Every step keeps it. -/
theorem Inv.step (h : Inv env values config ids c) (i : ι) (input : Input) :
    Inv env values config ids (c.step (envOf env values) i input) := by
  unfold Mesh.step
  cases hnode : c.nodes i with
  | none => exact h
  | some s =>
    simp only
    cases hhandle : s.handle (envOf env values i) input with
    | error e => exact h.ended i
    | ok result => exact h.took hnode hhandle

theorem inv_run {c : Mesh ι} (h : Inv env values config ids c) (inputs : List (ι × Input)) :
    Inv env values config ids (c.run (envOf env values) inputs) := by
  induction inputs generalizing c with
  | nil => exact h
  | cons p ps ih => exact ih (h.step p.1 p.2)

end Runs

/-- A collector that has been handed all admissible commits of a list without equivocation has the winner of the
whole list. -/
theorem sealedWinner_of_complete {ext : Ext} {allowUnsigned : Bool} {epoch : UInt64}
    {sent handed : List SolutionCommit} (hno : NoEquivocation ext allowUnsigned epoch sent)
    (hsent : ∀ commit ∈ handed, commit ∈ sent)
    (hcomplete : ∀ commit ∈ sent, admissible ext allowUnsigned epoch commit = true → commit ∈ handed)
    (values values' : ValueOrder) (peers : ℕ) (threshold : F64) :
    (collect ext allowUnsigned epoch handed).sealedWinner values peers threshold =
      (collect ext allowUnsigned epoch sent).sealedWinner values' peers threshold := by
  have hs := @wellFormed_collect ext allowUnsigned epoch handed
  have ht := @wellFormed_collect ext allowUnsigned epoch sent
  have hnoHanded : NoEquivocation ext allowUnsigned epoch handed := fun a ha b hb =>
    hno a (hsent a ha) b (hsent b hb)
  have hperm : (collect ext allowUnsigned epoch handed).commits.Perm
      (collect ext allowUnsigned epoch sent).commits := by
    rw [List.perm_ext_iff_of_nodup hs.nodup ht.nodup]
    intro c
    rw [mem_collect_iff hnoHanded ⟨List.Subperm.refl _, fun _ => id⟩,
      mem_collect_iff hno ⟨List.Subperm.refl _, fun _ => id⟩]
    exact ⟨fun h => ⟨hsent c h.1, h.2⟩, fun h => ⟨hcomplete c h.1 h.2, h.2⟩⟩
  rw [sealedWinner, sealedWinner, selectWinner_perm hs ht hperm values values', hasQuorum, hasQuorum,
    hperm.length_eq]

/-- Where no id sends two different admissible commits for an epoch, every node that has been handed all of them
by its Seal phase finds the winner among all commits that were sent, if there is a quorum for its number of
peers; and who produces a block is that winner. -/
theorem seal_of_mail (env : Env) (values : ι → ValueOrder) (config : CoordinatorConfig) (members : ι → Member)
    (inputs : List (ι × Input)) (x : Entry ι)
    (hx : x ∈ ((Mesh.start (envOf env values) config members).run (envOf env values) inputs).entries)
    (hno : NoEquivocation env.ext env.allowUnsigned x.epoch
      (((Mesh.start (envOf env values) config members).run (envOf env values) inputs).sentFor x.epoch))
    (hcomplete : Complete env.ext env.allowUnsigned
      ((Mesh.start (envOf env values) config members).run (envOf env values) inputs) x) :
    x.winner = outcome env.ext env.allowUnsigned config
        ((Mesh.start (envOf env values) config members).run (envOf env values) inputs) x.epoch x.peers ∧
      (x.block ≠ none → x.winner = some (members x.node).id) := by
  have hinv := inv_run (@inv_start _ env values config members) inputs
  obtain ⟨hwinner, hhanded, hblock⟩ := hinv.entries x hx
  refine ⟨?_, hblock⟩
  rw [hwinner, outcome, sealedWinner_of_complete hno hhanded hcomplete]

/-! ### Two nodes, one solution -/

namespace Sample

/-- The nodes 2 and 4 on tip 5. -/
def members (b : Bool) : Member := ⟨0, if b then 2 else 4, 6, ⟨5⟩, 100⟩

/-- The first node has solved the problem, and the second one hears of it. -/
def inputs : List (Bool × Input) :=
  [(true, Machine.Sample.expiry 2), (true, Machine.Sample.solved), (false, Machine.Sample.expiry 3),
    (false, .command (.CommitReceived 1 (relayed 2 ⟨3⟩ F64.one))), (true, Machine.Sample.expiry 22),
    (false, Machine.Sample.expiry 23), (false, Machine.Sample.expiry 28), (true, Machine.Sample.expiry 27)]

def mesh : Mesh Bool :=
  (Mesh.start (envOf Machine.Sample.environment fun _ => .id) .default members).run
    (envOf Machine.Sample.environment fun _ => .id) inputs

end Sample

/-- Both find the first one, which produces the block. -/
theorem seal_of_mail_solved :
    Sample.mesh.entries.map (fun x => (x.node, x.winner, x.block.isSome)) =
      [(false, some 2, false), (true, some 2, true)] ∧
    ∀ x ∈ Sample.mesh.entries, x.winner = outcome (.ofTables [] []) true .default Sample.mesh x.epoch x.peers ∧
      (x.block ≠ none → x.winner = some (Sample.members x.node).id) := by
  refine ⟨by decide +kernel, fun x hx => ?_⟩
  have hepoch : ∀ y ∈ Sample.mesh.entries, y.epoch = 1 ∧ y.handed = [relayed 2 ⟨3⟩ F64.one] := by decide +kernel
  have hsent : Sample.mesh.sentFor 1 = [relayed 2 ⟨3⟩ F64.one, relayed 2 ⟨3⟩ F64.one] := by decide +kernel
  obtain ⟨hone, hhanded⟩ := hepoch x hx
  refine seal_of_mail Machine.Sample.environment (fun _ => .id) .default Sample.members Sample.inputs x hx ?_ ?_
  · change NoEquivocation _ _ _ (Sample.mesh.sentFor x.epoch)
    rw [hone, hsent]
    intro a ha b hb
    simp only [List.mem_cons, List.not_mem_nil, or_false, or_self] at ha hb
    exact fun _ _ _ => ha.trans hb.symm
  · change ∀ commit ∈ Sample.mesh.sentFor x.epoch, _ → commit ∈ x.handed
    rw [hone, hsent, hhanded]
    intro commit hcommit _
    simpa using hcommit

end Coinjecture.Consensus.Coordinator.Cluster
