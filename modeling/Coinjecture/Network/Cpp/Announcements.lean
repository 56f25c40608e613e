import Coinjecture.Lib.RecentKeys
import Coinjecture.Network.Cpp.SyncResponses

/-! # Announcements of blocks and transactions

All connections of a node share one cache of the payloads that they have seen. The clock is read before the
cache is locked, so announcements may take it in another order than that of their times: the times are given
with the announcements, in the order in which the cache is taken.

* `gossip_delivered` : nothing is lost and nothing is passed on twice within the window of the cache. It is the
  payload that is not lost: its kind is not part of what the cache remembers, so a payload that is announced as
  the wrong kind is passed on as neither. -/

namespace Coinjecture.Network.Cpp.Announcements

open Lib.Bincode Lib.RecentKeys
open Core.Types Core.Transactions Core.Blocks Core.Extern
open Network.Cpp.Connections (PeerId)
open Network.Cpp.Framing

/-- `bincode::deserialize` on `NewBlockMessage` and `NewTransactionMessage`. -/
structure Codec where
  newBlock : Bytes → Option Block
  newTransaction : Bytes → Option Transaction

inductive NetworkEvent where
  | BlockReceived (block : Block) (peerId : PeerId)
  | TransactionReceived (transaction : Transaction) (peerId : PeerId)
  deriving DecidableEq

/-- A message of a peer, and the time read for it in nanoseconds. -/
structure Message where
  peerId : PeerId
  envelope : MessageEnvelope
  now : ℕ
  deriving DecidableEq

abbrev SeenMessages := List (Bytes32 × ℕ)

/-- The cache, and what has been sent to the node. -/
structure State where
  seenMessages : SeenMessages
  events : List NetworkEvent
  deriving DecidableEq

def SEEN_LIFETIME : ℕ := 60 * 1000000000

def SEEN_CAPACITY : ℕ := 5000

section Handlers

variable (ext : Ext) (codec : Codec)

/-- `check_seen`: whether the payload has been seen, and the cache. -/
def checkSeen (now : ℕ) (payload : Bytes) (cache : SeenMessages) : Bool × SeenMessages :=
  see SEEN_CAPACITY SEEN_LIFETIME now (ext.blake3 payload) cache

/-- What the two handlers share; an error of the payload is logged only. -/
def handleAnnouncement (m : Message) (event? : Option NetworkEvent) (s : State) : State :=
  let (seen, cache) := checkSeen ext m.now m.envelope.payload s.seenMessages
  if seen then ⟨cache, s.events⟩
  else ⟨cache, s.events ++ event?.toList⟩

def handleNewBlock (m : Message) (s : State) : State :=
  handleAnnouncement ext m ((codec.newBlock m.envelope.payload).map fun block => .BlockReceived block m.peerId) s

def handleNewTransaction (m : Message) (s : State) : State :=
  handleAnnouncement ext m ((codec.newTransaction m.envelope.payload).map fun transaction =>
    .TransactionReceived transaction m.peerId) s

/-- `handle_peer_message`; the other handlers do not touch the cache. -/
def handlePeerMessage (s : State) (m : Message) : State :=
  match m.envelope.msgType with
  | .NewBlock => handleNewBlock ext codec m s
  | .NewTransaction => handleNewTransaction ext codec m s
  | _ => s

def run (messages : List Message) : State := messages.foldl (handlePeerMessage ext codec) ⟨[], []⟩

/-! ### What is announced -/

def IsAnnouncement (m : Message) : Prop :=
  m.envelope.msgType = .NewBlock ∨ m.envelope.msgType = .NewTransaction

instance : DecidablePred IsAnnouncement := fun _ => inferInstanceAs (Decidable (_ ∨ _))

/-- The event of an announcement whose payload is of its kind. -/
def announced (m : Message) : Option NetworkEvent :=
  match m.envelope.msgType with
  | .NewBlock => (codec.newBlock m.envelope.payload).map fun block => .BlockReceived block m.peerId
  | .NewTransaction => (codec.newTransaction m.envelope.payload).map fun transaction =>
      .TransactionReceived transaction m.peerId
  | _ => none

def digest (m : Message) : Bytes32 := ext.blake3 m.envelope.payload

def announcements (messages : List Message) : List Message := messages.filter fun m => IsAnnouncement m

/-- The announcements that are not dropped as seen. -/
def passed (messages : List Message) : List Message :=
  (seen SEEN_CAPACITY SEEN_LIFETIME (digest ext) Message.now (announcements messages)).passed

variable {ext codec} {messages : List Message} {m : Message}

theorem announcements_concat (messages : List Message) (h : IsAnnouncement m) :
    announcements (messages ++ [m]) = announcements messages ++ [m] := by
  unfold announcements
  rw [List.filter_append, List.filter_cons_of_pos (by simpa using h), List.filter_nil]

theorem announcements_concat_of_not (messages : List Message) (h : ¬ IsAnnouncement m) :
    announcements (messages ++ [m]) = announcements messages := by
  unfold announcements
  rw [List.filter_append, List.filter_cons_of_neg (by simpa using h), List.filter_nil, List.append_nil]

theorem handlePeerMessage_of_announcement (h : IsAnnouncement m) (s : State) :
    handlePeerMessage ext codec s m = handleAnnouncement ext m (announced codec m) s := by
  unfold handlePeerMessage announced
  rcases h with h | h
  · rw [h]
    rfl
  · rw [h]
    rfl

theorem handlePeerMessage_of_not (h : ¬ IsAnnouncement m) (s : State) : handlePeerMessage ext codec s m = s := by
  unfold handlePeerMessage
  unfold IsAnnouncement at h
  split
  · exact absurd (.inl ‹_›) h
  · exact absurd (.inr ‹_›) h
  · rfl

theorem run_concat (messages : List Message) (m : Message) :
    run ext codec (messages ++ [m]) = handlePeerMessage ext codec (run ext codec messages) m := by
  unfold run
  rw [List.foldl_append]
  rfl

/-- The node runs the queue on its announcements and sends the events of those that are new. -/
theorem run_eq (messages : List Message) : run ext codec messages =
    ⟨(seen SEEN_CAPACITY SEEN_LIFETIME (digest ext) Message.now (announcements messages)).queue,
      (passed ext messages).filterMap (announced codec)⟩ := by
  induction messages using List.reverseRecOn with
  | nil => rfl
  | append_singleton messages m ih =>
    rw [run_concat, ih]
    unfold passed
    by_cases hannounced : IsAnnouncement m
    · rw [handlePeerMessage_of_announcement hannounced, announcements_concat messages hannounced, seen_concat]
      unfold handleAnnouncement checkSeen Seen.next digest
      simp only
      split_ifs
      · rfl
      · rw [List.filterMap_append]
        cases hevent : announced codec m with
        | none => simp [hevent]
        | some e => simp [hevent]
    · rw [handlePeerMessage_of_not hannounced, announcements_concat_of_not messages hannounced]

theorem skewed_announcements {skew : ℕ} (h : Skewed Message.now skew messages) :
    Skewed Message.now skew (announcements messages) :=
  List.Pairwise.sublist List.filter_sublist h

/-- The node gets the events of announcements of the run, in their order. Of every announcement there is one with
its payload that was passed, at most a minute and the skew older and followed by fewer than 5000; the node has got
its event if the payload is of its kind. An announcement that is passed with a payload that was passed before
comes more than a minute after that, up to the skew, or after 5000 others. -/
theorem gossip_delivered {skew : ℕ} (hskew : Skewed Message.now skew messages) :
    (passed ext messages).Sublist messages ∧
      (run ext codec messages).events = (passed ext messages).filterMap (announced codec) ∧
      (∀ before m after, messages = before ++ m :: after → IsAnnouncement m →
        ∃ xs b ys, passed ext (before ++ [m]) = xs ++ b :: ys ∧ digest ext b = digest ext m ∧
          m.now ≤ b.now + SEEN_LIFETIME + skew ∧ ys.length < SEEN_CAPACITY ∧
          ∀ e, announced codec b = some e → e ∈ (run ext codec (before ++ [m])).events) ∧
      ∀ xs b ys m zs, passed ext messages = xs ++ b :: ys ++ m :: zs → digest ext b = digest ext m →
        b.now + SEEN_LIFETIME < m.now + skew ∨ SEEN_CAPACITY ≤ ys.length := by
  have hcapacity : 0 < SEEN_CAPACITY := by decide
  refine ⟨(passed_sublist _ _ _ _ _).trans List.filter_sublist, by rw [run_eq], ?_, ?_⟩
  · rintro before m after rfl hannounced
    have hbefore : Skewed Message.now skew (before ++ [m]) := by
      refine List.Pairwise.sublist ?_ hskew
      exact (List.append_sublist_append_left before).mpr (List.singleton_sublist.mpr List.mem_cons_self)
    have hskewed := skewed_announcements hbefore
    rw [announcements_concat before hannounced] at hskewed
    obtain ⟨xs, b, ys, hpassed, hkey, htime, hlength⟩ :=
      passed_before SEEN_CAPACITY SEEN_LIFETIME (digest ext) Message.now hcapacity hskewed
    rw [← announcements_concat before hannounced] at hpassed
    refine ⟨xs, b, ys, hpassed, hkey, htime, hlength, fun e he => ?_⟩
    have hmem : b ∈ passed ext (before ++ [m]) := by
      unfold passed
      rw [hpassed]
      exact List.mem_append_right _ List.mem_cons_self
    rw [run_eq]
    exact List.mem_filterMap.mpr ⟨b, hmem, he⟩
  · intro xs b ys m zs hpassed hkey
    exact passed_again hcapacity (skewed_announcements hskew) hpassed hkey

end Handlers

/-! ### A block that is announced as a transaction first -/

namespace Sample

def ext : Ext := Ext.ofTables [] []

/-- One payload is a block, and none is a transaction. -/
def codec : Codec where
  newBlock payload := if payload = [1] then some (SyncResponses.Sample.block 1) else none
  newTransaction _ := none

def spoiling : Message := ⟨1, ⟨.NewTransaction, [1]⟩, 0⟩

def offer : Message := ⟨2, ⟨.NewBlock, [1]⟩, 10000000000⟩

end Sample

open Sample in
theorem gossip_delivered_spoilt :
    announced codec offer = some (.BlockReceived (SyncResponses.Sample.block 1) 2) ∧
      (run ext codec [spoiling, offer]).events = [] ∧
      ∃ xs b ys, passed ext [spoiling, offer] = xs ++ b :: ys ∧ digest ext b = digest ext offer ∧
        offer.now ≤ b.now + SEEN_LIFETIME + 0 ∧ ys.length < SEEN_CAPACITY ∧
        ∀ e, announced codec b = some e → e ∈ (run ext codec [spoiling, offer]).events := by
  have hskew : Skewed Message.now 0 [spoiling, offer] := by
    unfold Skewed
    decide
  exact ⟨by decide, by decide, (gossip_delivered hskew).2.2.1 [spoiling] offer [] rfl (by decide)⟩

end Coinjecture.Network.Cpp.Announcements
