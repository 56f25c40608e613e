import Coinjecture.Lib.Trace
import Coinjecture.State.Channels

/-! # Runs of channel operations

The channel table under any sequence of operations. Deposits stay, balances always add up to them
modulo 2^128, and a closed channel stays as it is. That they add up exactly, and that no sequence
number goes back, is up to the caller of an update, a close or a dispute (`Sound`). -/

namespace Coinjecture.State.ChannelRuns

open Lib.Effect Lib.Table Lib.Trace
open Core.Types State.Channels State.Channels.ChannelState

/-- A call of an operation, with what the clock says where it is read. -/
inductive ChannelOp where
  | openChannel (channel : Channel)
  | updateChannelState (channelId : Hash) (sequence : UInt64) (balanceA balanceB : Balance)
  | closeCooperative (channelId : Hash) (finalBalanceA finalBalanceB : Balance)
      (blockHeight : UInt64)
  | startDispute (now : Int64) (channelId : Hash) (sequence : UInt64) (balanceA balanceB : Balance)
  | finalizeDispute (now : Int64) (channelId : Hash) (blockHeight : UInt64)

def ChannelOp.exec : ChannelOp → Exec Failure ChannelState Unit
  | openChannel channel => ChannelState.openChannel channel
  | updateChannelState channelId sequence balanceA balanceB =>
    ChannelState.updateChannelState channelId sequence balanceA balanceB
  | closeCooperative channelId finalBalanceA finalBalanceB blockHeight =>
    ChannelState.closeCooperative channelId finalBalanceA finalBalanceB blockHeight
  | startDispute now channelId sequence balanceA balanceB =>
    ChannelState.startDispute now channelId sequence balanceA balanceB
  | finalizeDispute now channelId blockHeight =>
    ChannelState.finalizeDispute now channelId blockHeight

def channels : Machine ChannelOp ChannelState where
  next op s := (run op.exec s).2
  halts _ _ := false

/-! ### What a step writes -/

/-- The operation is accepted and stores the channel. -/
inductive Writes (s : ChannelState) : ChannelOp → Channel → Prop
  | opened {channel : Channel} (hnew : s.get channel.channelId = none)
      (ha : channel.balanceA = channel.depositA) (hb : channel.balanceB = channel.depositB) :
      Writes s (.openChannel channel) channel
  | updated {channelId : Hash} {channel : Channel} {sequence : UInt64} {balanceA balanceB : Balance}
      (hget : s.get channelId = some channel) (hopen : channel.status = .Open)
      (hsequence : channel.sequence < sequence) (hsum : balanceA + balanceB = channel.capacity) :
      Writes s (.updateChannelState channelId sequence balanceA balanceB)
        { channel with sequence := sequence, balanceA := balanceA, balanceB := balanceB }
  | closed {channelId : Hash} {channel : Channel} {balanceA balanceB : Balance}
      {blockHeight : UInt64} (hget : s.get channelId = some channel) (hopen : channel.status = .Open)
      (hsum : balanceA + balanceB = channel.capacity) :
      Writes s (.closeCooperative channelId balanceA balanceB blockHeight)
        { channel with
          status := .ClosedCooperative
          balanceA := balanceA
          balanceB := balanceB
          closedAtHeight := some blockHeight }
  | disputed {now : Int64} {channelId : Hash} {channel : Channel} {sequence : UInt64}
      {balanceA balanceB : Balance} (hget : s.get channelId = some channel)
      (hopen : channel.status = .Open) (hsum : balanceA + balanceB = channel.capacity) :
      Writes s (.startDispute now channelId sequence balanceA balanceB)
        { channel with
          status := .InDispute
          sequence := sequence
          balanceA := balanceA
          balanceB := balanceB
          disputeStartedAt := some now }
  | finalized {now : Int64} {channelId : Hash} {channel : Channel} {blockHeight : UInt64}
      (hget : s.get channelId = some channel) (hdispute : channel.status = .InDispute)
      (hexpired : channel.isDisputeExpired now = true) :
      Writes s (.finalizeDispute now channelId blockHeight)
        { channel with status := .ClosedDispute, closedAtHeight := some blockHeight }

variable {s t : ChannelState} {op : ChannelOp} {c : Channel}

theorem run_of_writes (h : Writes s op c) : run op.exec s = (.ok (), s.insert c) := by
  cases h with
  | opened hnew ha hb => exact (openChannel_guarded _ ha hb s).ok hnew
  | updated hget hopen hsequence hsum =>
    exact (updateChannelState_guarded hget ..).ok ⟨hopen, hsequence, hsum⟩
  | closed hget hopen hsum => exact (closeCooperative_guarded hget ..).ok ⟨hopen, hsum⟩
  | disputed hget hopen hsum => exact (startDispute_guarded hget ..).ok ⟨hopen, hsum⟩
  | finalized hget hdispute hexpired =>
    exact (finalizeDispute_guarded hget ..).ok ⟨hdispute, hexpired⟩

/-- A step is refused, or writes one channel. -/
theorem step_cases (op : ChannelOp) (s : ChannelState) :
    (∃ m, run op.exec s = (.error (.err m), s)) ∨ ∃ c, Writes s op c := by
  cases op with
  | openChannel channel =>
    by_cases hnew : s.get channel.channelId = none
    swap
    · refine .inl ?_
      rw [← ne_eq, Option.ne_none_iff_isSome] at hnew
      simp [ChannelOp.exec, openChannel, getChannel, hnew]
    by_cases hbalances : channel.balanceA = channel.depositA ∧ channel.balanceB = channel.depositB
    · exact .inr ⟨_, .opened hnew hbalances.1 hbalances.2⟩
    · refine .inl ⟨"Initial balances must equal deposits", ?_⟩
      have hne : channel.balanceA ≠ channel.depositA ∨ channel.balanceB ≠ channel.depositB := by
        rw [not_and_or] at hbalances
        exact hbalances
      simp only [ChannelOp.exec, openChannel, getChannel, run_gets_bind, run_rejectIf_bind, hnew,
        Option.isSome_none, Bool.false_eq_true, if_false, if_pos hne]
  | updateChannelState channelId sequence balanceA balanceB =>
    rcases hget : s.get channelId with _ | channel
    · exact .inl ⟨_, updateChannelState_none hget ..⟩
    have hguarded := updateChannelState_guarded hget sequence balanceA balanceB
    by_cases h : channel.status = .Open ∧ channel.sequence < sequence ∧
        balanceA + balanceB = channel.capacity
    · exact .inr ⟨_, .updated hget h.1 h.2.1 h.2.2⟩
    · exact .inl (hguarded.refused h)
  | closeCooperative channelId balanceA balanceB blockHeight =>
    rcases hget : s.get channelId with _ | channel
    · exact .inl ⟨"Channel not found", by simp [ChannelOp.exec, closeCooperative, getChannel, hget]⟩
    have hguarded := closeCooperative_guarded hget balanceA balanceB blockHeight
    by_cases h : channel.status = .Open ∧ balanceA + balanceB = channel.capacity
    · exact .inr ⟨_, .closed hget h.1 h.2⟩
    · exact .inl (hguarded.refused h)
  | startDispute now channelId sequence balanceA balanceB =>
    rcases hget : s.get channelId with _ | channel
    · exact .inl ⟨"Channel not found", by simp [ChannelOp.exec, startDispute, getChannel, hget]⟩
    have hguarded := startDispute_guarded hget now sequence balanceA balanceB
    by_cases h : channel.status = .Open ∧ balanceA + balanceB = channel.capacity
    · exact .inr ⟨_, .disputed hget h.1 h.2⟩
    · exact .inl (hguarded.refused h)
  | finalizeDispute now channelId blockHeight =>
    rcases hget : s.get channelId with _ | channel
    · exact .inl ⟨"Channel not found", by simp [ChannelOp.exec, finalizeDispute, getChannel, hget]⟩
    have hguarded := finalizeDispute_guarded hget now blockHeight
    by_cases h : channel.status = .InDispute ∧ channel.isDisputeExpired now = true
    · exact .inr ⟨_, .finalized hget h.1 h.2⟩
    · exact .inl (hguarded.refused h)

theorem next_of_writes (h : Writes s op c) : channels.next op s = s.insert c :=
  congrArg Prod.snd (run_of_writes h)

/-! ### What a run keeps -/

/-- The balances add up to the deposits, as numbers. -/
def Balanced (c : Channel) : Prop :=
  c.balanceA.toNat + c.balanceB.toNat = c.depositA.toNat + c.depositB.toNat

def AllBalanced (s : ChannelState) : Prop := ∀ channelId c, s.get channelId = some c → Balanced c

def Closed (c : Channel) : Prop := c.status = .ClosedCooperative ∨ c.status = .ClosedDispute

/-- No channel is lost, no sequence number has gone back, and no closed channel has changed. -/
def Follows (s t : ChannelState) : Prop :=
  ∀ channelId c, s.get channelId = some c →
    ∃ c', t.get channelId = some c' ∧ c.sequence ≤ c'.sequence ∧ (Closed c → c' = c)

/-- An update or a dispute that is accepted raises the sequence number. -/
def Raises (op : ChannelOp) (s : ChannelState) : Prop :=
  match op with
  | .updateChannelState channelId .. | .startDispute _ channelId .. =>
    (run op.exec s).1 = .ok () → ∀ c, s.get channelId = some c →
      ∃ c', (channels.next op s).get channelId = some c' ∧ c.sequence < c'.sequence
  | _ => True

/-- The balances that an update, a close or a dispute of an open channel names add up to the deposits
as numbers if they do so modulo 2^128, and the sequence number of a dispute is above that of the
channel. -/
def Sound (op : ChannelOp) (s : ChannelState) : Prop :=
  match op with
  | .openChannel _ | .finalizeDispute .. => True
  | .updateChannelState channelId sequence balanceA balanceB =>
    ∀ c, s.get channelId = some c → c.status = .Open → c.sequence < sequence →
      balanceA + balanceB = c.capacity →
        balanceA.toNat + balanceB.toNat = c.depositA.toNat + c.depositB.toNat
  | .closeCooperative channelId balanceA balanceB _ =>
    ∀ c, s.get channelId = some c → c.status = .Open → balanceA + balanceB = c.capacity →
      balanceA.toNat + balanceB.toNat = c.depositA.toNat + c.depositB.toNat
  | .startDispute _ channelId sequence balanceA balanceB =>
    ∀ c, s.get channelId = some c → c.status = .Open → balanceA + balanceB = c.capacity →
      balanceA.toNat + balanceB.toNat = c.depositA.toNat + c.depositB.toNat ∧ c.sequence < sequence

theorem Follows.refl (s : ChannelState) : Follows s s :=
  fun _ c hget => ⟨c, hget, UInt64.le_refl _, fun _ => rfl⟩

theorem Follows.trans {u : ChannelState} (hst : Follows s t) (htu : Follows t u) : Follows s u := by
  intro channelId c hget
  obtain ⟨c', hget', hle, hclosed⟩ := hst channelId c hget
  obtain ⟨c'', hget'', hle', hclosed'⟩ := htu channelId c' hget'
  refine ⟨c'', hget'', UInt64.le_trans hle hle', fun hc => ?_⟩
  have heq := hclosed hc
  subst heq
  exact hclosed' hc

theorem follows_insert_new (hnew : s.get c.channelId = none) : Follows s (s.insert c) := by
  intro channelId c' hget
  have hne : channelId ≠ c.channelId := by
    rintro rfl
    rw [hnew] at hget
    cases hget
  exact ⟨c', by rw [Keyed.get_insert_ne s hne, hget], UInt64.le_refl _, fun _ => rfl⟩

theorem follows_insert {channelId : Hash} {old : Channel} (hget : s.get channelId = some old)
    (hid : c.channelId = old.channelId) (hsequence : old.sequence ≤ c.sequence)
    (hclosed : ¬ Closed old) : Follows s (s.insert c) := by
  intro channelId' c' hget'
  by_cases h : channelId' = channelId
  · subst h
    rw [hget] at hget'
    cases hget'
    exact ⟨c, Keyed.get_insert_of_get hget hid, hsequence, fun hc => (hclosed hc).elim⟩
  · have hne : channelId' ≠ c.channelId := by rwa [hid, s.keyed hget]
    exact ⟨c', by rw [Keyed.get_insert_ne s hne, hget'], UInt64.le_refl _, fun _ => rfl⟩

theorem allBalanced_insert (hs : AllBalanced s) (hc : Balanced c) : AllBalanced (s.insert c) := by
  intro channelId c' hget
  rw [Keyed.get_insert] at hget
  split_ifs at hget
  · cases hget
    exact hc
  · exact hs channelId c' hget

theorem not_closed_of_open (h : c.status = .Open) : ¬ Closed c := by
  rintro (hc | hc)
  · rw [h] at hc; cases hc
  · rw [h] at hc; cases hc

theorem not_closed_of_inDispute (h : c.status = .InDispute) : ¬ Closed c := by
  rintro (hc | hc)
  · rw [h] at hc; cases hc
  · rw [h] at hc; cases hc

theorem next_of_refused {m : String} (h : run op.exec s = (.error (.err m), s)) :
    channels.next op s = s :=
  congrArg Prod.snd h

/-- A sound step leaves the channels balanced. -/
theorem balanced_next (hsound : Sound op s) (hs : AllBalanced s) :
    AllBalanced (channels.next op s) := by
  rcases step_cases op s with ⟨m, hrefused⟩ | ⟨c, hwrites⟩
  · rw [next_of_refused hrefused]
    exact hs
  rw [next_of_writes hwrites]
  cases hwrites with
  | opened hnew ha hb =>
    refine allBalanced_insert hs ?_
    rw [Balanced, ha, hb]
  | updated hget hopen hsequence hsum =>
    have hexact := hsound _ hget hopen hsequence hsum
    exact allBalanced_insert hs hexact
  | closed hget hopen hsum =>
    have hexact := hsound _ hget hopen hsum
    exact allBalanced_insert hs hexact
  | disputed hget hopen hsum =>
    have hexact := (hsound _ hget hopen hsum).1
    exact allBalanced_insert hs hexact
  | finalized hget hdispute hexpired =>
    have hbefore := hs _ _ hget
    exact allBalanced_insert hs hbefore

/-- A sound step takes nothing back. -/
theorem follows_next (hsound : Sound op s) : Follows s (channels.next op s) := by
  rcases step_cases op s with ⟨m, hrefused⟩ | ⟨c, hwrites⟩
  · rw [next_of_refused hrefused]
    exact .refl s
  rw [next_of_writes hwrites]
  cases hwrites with
  | opened hnew ha hb => exact follows_insert_new hnew
  | updated hget hopen hsequence hsum =>
    exact follows_insert hget rfl (UInt64.le_of_lt hsequence) (not_closed_of_open hopen)
  | closed hget hopen hsum => exact follows_insert hget rfl (UInt64.le_refl _) (not_closed_of_open hopen)
  | disputed hget hopen hsum =>
    exact follows_insert hget rfl (UInt64.le_of_lt (hsound _ hget hopen hsum).2)
      (not_closed_of_open hopen)
  | finalized hget hdispute hexpired =>
    exact follows_insert hget rfl (UInt64.le_refl _) (not_closed_of_inDispute hdispute)

theorem raises_next (hsound : Sound op s) : Raises op s := by
  rcases step_cases op s with ⟨m, hrefused⟩ | ⟨c, hwrites⟩
  · unfold Raises
    split
    · intro hok
      rw [hrefused] at hok
      cases hok
    · intro hok
      rw [hrefused] at hok
      cases hok
    · trivial
  cases hwrites with
  | opened hnew ha hb => trivial
  | closed hget hopen hsum => trivial
  | finalized hget hdispute hexpired => trivial
  | updated hget hopen hsequence hsum =>
    intro _ c hget'
    rw [hget] at hget'
    cases hget'
    exact ⟨_, by rw [next_of_writes (.updated hget hopen hsequence hsum)]
                 exact Keyed.get_insert_of_get hget rfl, hsequence⟩
  | disputed hget hopen hsum =>
    intro _ c hget'
    rw [hget] at hget'
    cases hget'
    exact ⟨_, by rw [next_of_writes (.disputed hget hopen hsum)]
                 exact Keyed.get_insert_of_get hget rfl, (hsound _ hget hopen hsum).2⟩

/-- A step that leaves the channels balanced and raises the sequence number was sound. -/
theorem sound_of_next (hbalanced : AllBalanced (channels.next op s)) (hraises : Raises op s) :
    Sound op s := by
  cases op with
  | openChannel channel => trivial
  | finalizeDispute now channelId blockHeight => trivial
  | updateChannelState channelId sequence balanceA balanceB =>
    intro c hget hopen hsequence hsum
    rw [next_of_writes (.updated hget hopen hsequence hsum)] at hbalanced
    exact hbalanced channelId _ (Keyed.get_insert_of_get hget rfl)
  | closeCooperative channelId balanceA balanceB blockHeight =>
    intro c hget hopen hsum
    rw [next_of_writes (.closed hget hopen hsum)] at hbalanced
    exact hbalanced channelId _ (Keyed.get_insert_of_get hget rfl)
  | startDispute now channelId sequence balanceA balanceB =>
    intro c hget hopen hsum
    have hwrites : Writes s (.startDispute now channelId sequence balanceA balanceB) _ :=
      .disputed hget hopen hsum
    have hstored := Keyed.get_insert_of_get hget (w := { c with
      status := .InDispute
      sequence := sequence
      balanceA := balanceA
      balanceB := balanceB
      disputeStartedAt := some now }) rfl
    obtain ⟨c', hget', hlt⟩ := hraises (congrArg Prod.fst (run_of_writes hwrites)) c hget
    rw [next_of_writes hwrites] at hbalanced hget'
    rw [hstored] at hget'
    cases hget'
    exact ⟨hbalanced channelId _ hstored, hlt⟩

/-- What holds of every run of channel operations: in every state the balances of every channel add up
to its deposits, every accepted update or dispute raises the sequence number, and no later state loses
a channel, takes a sequence number back or changes a closed channel. -/
structure Safe (ops : List ChannelOp) : Prop where
  balanced : ∀ p ∈ channels.trace ops .empty, AllBalanced p.2 ∧ AllBalanced (channels.next p.1 p.2)
  raises : ∀ p ∈ channels.trace ops .empty, Raises p.1 p.2
  follows : ∀ p ∈ channels.trace ops .empty, Follows p.2 (channels.next p.1 p.2)
  follows_later : (channels.trace ops .empty).Pairwise fun p q => Follows (channels.next p.1 p.2) q.2

/-- A run is safe exactly if each of its steps is sound. -/
theorem channels_safe_iff (ops : List ChannelOp) :
    Safe ops ↔ ∀ p ∈ channels.trace ops .empty, Sound p.1 p.2 := by
  constructor
  · intro hsafe p hp
    exact sound_of_next (hsafe.balanced p hp).2 (hsafe.raises p hp)
  · intro hsound
    have hempty : AllBalanced (.empty : ChannelState) := fun _ _ hget => by cases hget
    have hbalanced := Machine.invariant_trace (M := channels) (P := AllBalanced)
      (fun p hp hs => balanced_next (hsound p hp) hs) hempty
    have hfollows := fun p hp => follows_next (hsound p hp)
    exact {
      balanced := fun p hp => ⟨hbalanced p hp, balanced_next (hsound p hp) (hbalanced p hp)⟩
      raises := fun p hp => raises_next (hsound p hp)
      follows := hfollows
      follows_later := Machine.pairwise_of_preorder Follows.refl Follows.trans hfollows }

/-! ### An outdated dispute -/

/-- A channel of Alice and Bob with 10 each. -/
def aliceBob : Channel where
  channelId := ⟨1⟩
  participantA := ⟨1⟩
  participantB := ⟨2⟩
  depositA := 10
  depositB := 10
  balanceA := 10
  balanceB := 10
  sequence := 0
  disputeTimeout := 3600
  status := .Open
  openedAtHeight := 1
  closedAtHeight := none
  disputeStartedAt := none

/-- Alice pays Bob 8 and then disputes with the opening balances. -/
def oldSplit : List ChannelOp :=
  [.openChannel aliceBob, .updateChannelState ⟨1⟩ 5 2 18, .startDispute 1767225600 ⟨1⟩ 0 10 10]

/-- The dispute is accepted, and the sequence number goes back from 5 to 0. -/
theorem old_split_replaces_new :
    ((channels.final oldSplit .empty).get ⟨1⟩).map (fun c => (c.status, c.sequence, c.balanceA)) =
      some (.InDispute, 0, 10) ∧ ¬ ∀ ops, Safe ops := by
  refine ⟨by decide, fun h => ?_⟩
  obtain ⟨c', hget', hle, -⟩ := (h oldSplit).follows
    (.startDispute 1767225600 ⟨1⟩ 0 10 10, channels.final (oldSplit.take 2) .empty)
    (.tail _ (.tail _ (.head _))) ⟨1⟩
    { aliceBob with sequence := 5, balanceA := 2, balanceB := 18 } (by decide)
  have hafter : ((channels.next (.startDispute 1767225600 ⟨1⟩ 0 10 10)
      (channels.final (oldSplit.take 2) .empty)).get ⟨1⟩).map Channel.sequence = some 0 := by decide
  rw [hget'] at hafter
  rw [Option.some.inj hafter] at hle
  exact absurd hle (by decide)

end Coinjecture.State.ChannelRuns
