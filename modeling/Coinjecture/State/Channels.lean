import Coinjecture.Core.Types
import Coinjecture.Lib.Effect
import Coinjecture.Lib.Table

/-! # Payment channels

One record per channel id. A channel is opened with its deposits as balances, updated and disputed
while it is open, and closed once: by `closeCooperative`, or by `finalizeDispute` after its dispute.
Sums of two amounts wrap, as `capacity` does. -/

namespace Coinjecture.State.Channels

open Lib.Effect Lib.Table
open Core.Types

inductive ChannelStatus where
  | Open | ClosedCooperative | ClosedDispute | InDispute
  deriving DecidableEq

structure Channel where
  channelId : Hash
  participantA : Address
  participantB : Address
  depositA : Balance
  depositB : Balance
  balanceA : Balance
  balanceB : Balance
  sequence : UInt64
  disputeTimeout : Int64
  status : ChannelStatus
  openedAtHeight : UInt64
  closedAtHeight : Option UInt64
  disputeStartedAt : Option Int64
  deriving DecidableEq

def Channel.capacity (c : Channel) : Balance := c.depositA + c.depositB

/-- `Channel::is_dispute_expired`. -/
def Channel.isDisputeExpired (now : Int64) (c : Channel) : Bool :=
  match c.disputeStartedAt with
  | some disputeStart => decide (disputeStart + c.disputeTimeout ≤ now)
  | none => false

/-- `ChannelState`. -/
abbrev ChannelState := Keyed Channel.channelId

namespace ChannelState

abbrev getChannel (channelId : Hash) (s : ChannelState) : Option Channel := s.get channelId

/-- `ChannelState::open_channel`. -/
def openChannel (channel : Channel) : Exec Failure ChannelState Unit := do
  rejectIf (← gets (getChannel channel.channelId)).isSome "Channel already exists"
  rejectIf (channel.balanceA ≠ channel.depositA ∨ channel.balanceB ≠ channel.depositB)
    "Initial balances must equal deposits"
  modify (Keyed.insert channel)

/-- `ChannelState::update_channel_state`. -/
def updateChannelState (channelId : Hash) (sequence : UInt64) (balanceA balanceB : Balance) :
    Exec Failure ChannelState Unit := do
  let channel ← okOr (.err "Channel not found") (← gets (getChannel channelId))
  rejectIf (channel.status ≠ .Open) "Channel is not open"
  rejectIf (sequence ≤ channel.sequence) "Invalid sequence number"
  rejectIf (balanceA + balanceB ≠ channel.capacity) "Balances do not equal capacity"
  modify (Keyed.insert
    { channel with sequence := sequence, balanceA := balanceA, balanceB := balanceB })

/-- `ChannelState::close_cooperative`. -/
def closeCooperative (channelId : Hash) (finalBalanceA finalBalanceB : Balance)
    (blockHeight : UInt64) : Exec Failure ChannelState Unit := do
  let channel ← okOr (.err "Channel not found") (← gets (getChannel channelId))
  rejectIf (channel.status ≠ .Open) "Channel is not open"
  rejectIf (finalBalanceA + finalBalanceB ≠ channel.capacity) "Final balances do not equal capacity"
  modify (Keyed.insert
    { channel with
      status := .ClosedCooperative
      balanceA := finalBalanceA
      balanceB := finalBalanceB
      closedAtHeight := some blockHeight })

/-- `ChannelState::start_dispute`. The sequence number may go back. -/
def startDispute (now : Int64) (channelId : Hash) (sequence : UInt64) (balanceA balanceB : Balance) :
    Exec Failure ChannelState Unit := do
  let channel ← okOr (.err "Channel not found") (← gets (getChannel channelId))
  rejectIf (channel.status ≠ .Open) "Channel is not open"
  rejectIf (balanceA + balanceB ≠ channel.capacity) "Balances do not equal capacity"
  modify (Keyed.insert
    { channel with
      status := .InDispute
      sequence := sequence
      balanceA := balanceA
      balanceB := balanceB
      disputeStartedAt := some now })

/-- `ChannelState::finalize_dispute`. -/
def finalizeDispute (now : Int64) (channelId : Hash) (blockHeight : UInt64) :
    Exec Failure ChannelState Unit := do
  let channel ← okOr (.err "Channel not found") (← gets (getChannel channelId))
  rejectIf (channel.status ≠ .InDispute) "Channel is not in dispute"
  rejectIf (!channel.isDisputeExpired now) "Dispute period not expired"
  modify (Keyed.insert
    { channel with status := .ClosedDispute, closedAtHeight := some blockHeight })

/-! ### What the operations do -/

theorem openChannel_guarded (channel : Channel) (ha : channel.balanceA = channel.depositA)
    (hb : channel.balanceB = channel.depositB) (s : ChannelState) :
    Guarded (openChannel channel) s (s.get channel.channelId = none) ((), s.insert channel) := by
  constructor <;> intro h
  · simp [openChannel, getChannel, h, ha, hb]
  · rw [← ne_eq, Option.ne_none_iff_isSome] at h
    simp [openChannel, getChannel, h]

variable {channelId : Hash} {channel : Channel} {s : ChannelState}

theorem updateChannelState_guarded (h : s.get channelId = some channel) (sequence : UInt64)
    (balanceA balanceB : Balance) :
    Guarded (updateChannelState channelId sequence balanceA balanceB) s
      (channel.status = .Open ∧ channel.sequence < sequence ∧
        balanceA + balanceB = channel.capacity)
      ((), s.insert
        { channel with sequence := sequence, balanceA := balanceA, balanceB := balanceB }) := by
  constructor
  · rintro ⟨h1, h2, h3⟩
    simp [updateChannelState, run_rejectIf_bind, getChannel, h, h1, h2, h3]
  · intro hn
    simp only [updateChannelState, getChannel, run_gets_bind, h, run_okOr_some_bind, run_rejectIf_bind]
    split_ifs with h1 h2 h3
    · exact ⟨_, rfl⟩
    · exact ⟨_, rfl⟩
    · exact ⟨_, rfl⟩
    · exact absurd ⟨by simpa using h1, UInt64.not_le.mp h2, by simpa using h3⟩ hn

theorem updateChannelState_none (h : s.get channelId = none) (sequence : UInt64)
    (balanceA balanceB : Balance) :
    run (updateChannelState channelId sequence balanceA balanceB) s =
      (.error (.err "Channel not found"), s) := by
  simp [updateChannelState, getChannel, h]

theorem closeCooperative_guarded (h : s.get channelId = some channel)
    (finalBalanceA finalBalanceB : Balance) (blockHeight : UInt64) :
    Guarded (closeCooperative channelId finalBalanceA finalBalanceB blockHeight) s
      (channel.status = .Open ∧ finalBalanceA + finalBalanceB = channel.capacity)
      ((), s.insert { channel with
        status := .ClosedCooperative
        balanceA := finalBalanceA
        balanceB := finalBalanceB
        closedAtHeight := some blockHeight }) := by
  constructor
  · rintro ⟨h1, h2⟩
    simp [closeCooperative, getChannel, h, h1, h2]
  · intro hn
    simp only [closeCooperative, getChannel, run_gets_bind, h, run_okOr_some_bind, run_rejectIf_bind]
    split_ifs with h1 h2
    · exact ⟨_, rfl⟩
    · exact ⟨_, rfl⟩
    · exact absurd ⟨by simpa using h1, by simpa using h2⟩ hn

theorem startDispute_guarded (h : s.get channelId = some channel) (now : Int64) (sequence : UInt64)
    (balanceA balanceB : Balance) :
    Guarded (startDispute now channelId sequence balanceA balanceB) s
      (channel.status = .Open ∧ balanceA + balanceB = channel.capacity)
      ((), s.insert { channel with
        status := .InDispute
        sequence := sequence
        balanceA := balanceA
        balanceB := balanceB
        disputeStartedAt := some now }) := by
  constructor
  · rintro ⟨h1, h2⟩
    simp [startDispute, getChannel, h, h1, h2]
  · intro hn
    simp only [startDispute, getChannel, run_gets_bind, h, run_okOr_some_bind, run_rejectIf_bind]
    split_ifs with h1 h2
    · exact ⟨_, rfl⟩
    · exact ⟨_, rfl⟩
    · exact absurd ⟨by simpa using h1, by simpa using h2⟩ hn

theorem finalizeDispute_guarded (h : s.get channelId = some channel) (now : Int64)
    (blockHeight : UInt64) :
    Guarded (finalizeDispute now channelId blockHeight) s
      (channel.status = .InDispute ∧ channel.isDisputeExpired now = true)
      ((), s.insert { channel with status := .ClosedDispute, closedAtHeight := some blockHeight }) := by
  constructor
  · rintro ⟨h1, h2⟩
    simp [finalizeDispute, getChannel, h, h1, h2]
  · intro hn
    simp only [finalizeDispute, getChannel, run_gets_bind, h, run_okOr_some_bind, run_rejectIf_bind]
    split_ifs with h1 h2
    · exact ⟨_, rfl⟩
    · exact ⟨_, rfl⟩
    · exact absurd ⟨by simpa using h1, by simpa using h2⟩ hn

end ChannelState

end Coinjecture.State.Channels
