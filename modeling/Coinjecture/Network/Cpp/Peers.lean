import Mathlib.Data.Finset.Filter
import Coinjecture.Lib.Trace
import Coinjecture.Network.Security

/-! # The peers of a node

The peer list, the router's copy of it, the bans, the strikes and the tasks of the connections. An event is
what a task does from one wait for the network, or for a lock it decides under, to the next; which
connections and messages come, and when, is up to the events. Whether the limiter and the eclipse guard have
a slot, how far a bucket of the rate limiter is overdrawn and how many timeouts a peer has had is up to
them as well. -/

namespace Coinjecture.Network.Cpp.Peers

open Lib.Trace
open Core.Types
open Network.Security

abbrev PeerId := Bytes32

structure SocketAddr where
  ip : IpAddr
  port : BitVec 16
  deriving DecidableEq

/-- Where a task is that has put its peer on the list: it adds it to the router, starts the message loop,
is before the check or the read of a round of the loop, or has broken out of it. -/
inductive Progress where
  | inserted
  | routed
  | checking
  | reading
  | leaving
  deriving DecidableEq

/-- How far the task of a connection is: in the handshake, past the check that its peer is not connected,
from putting it on the list to taking it off, and after that. -/
inductive Stage where
  | handshaking
  | admitted (peerId : PeerId)
  | registered (peerId : PeerId) (progress : Progress)
  | left (peerId : PeerId)
  deriving DecidableEq

structure Connection where
  addr : SocketAddr
  isOutbound : Bool
  stage : Stage
  deriving DecidableEq

/-- An entry of the peer list. `connection` tells the instances of `Peer` apart. -/
structure Peer where
  id : PeerId
  connection : ℕ
  addr : SocketAddr
  lastSeen : ℕ
  deriving DecidableEq

/-- `sent` counts the malformed messages of a peer id over all its connections: the code has no such count. -/
structure CppNetwork where
  now : ℕ
  bans : PeerBanList
  peers : List Peer
  router : Finset PeerId
  malformedStrikes : PeerId → ℕ
  live : ℕ → Option Connection
  opened : ℕ
  sent : PeerId → ℕ

def PEER_TIMEOUT : ℕ := 90

def SECURITY_MALFORMED_STRIKE_THRESHOLD : ℕ := 5

def SECURITY_RATE_STRIKE_THRESHOLD : ℕ := 50

/-- What a read of the message loop comes to. -/
inductive Read where
  | message
  | rateLimited (strikes : ℕ)
  | timeout (exceeded : Bool)
  | malformed
  | failed
  deriving DecidableEq

namespace CppNetwork

def new (banDuration : ℕ) : CppNetwork where
  now := 0
  bans := .new banDuration
  peers := []
  router := ∅
  malformedStrikes _ := 0
  live _ := none
  opened := 0
  sent _ := 0

/-- `contains_key`. -/
def hasPeer (peerId : PeerId) (n : CppNetwork) : Bool := n.peers.any fun p => p.id = peerId

def peer (peerId : PeerId) (n : CppNetwork) : Option Peer := n.peers.find? fun p => p.id = peerId

def opens (c : Connection) (n : CppNetwork) : CppNetwork :=
  { n with live := Function.update n.live n.opened (some c), opened := n.opened + 1 }

def restage (id : ℕ) (c : Connection) (stage : Stage) (n : CppNetwork) : CppNetwork :=
  { n with live := Function.update n.live id (some { c with stage := stage }) }

/-- The task of a connection ends. -/
def close (id : ℕ) (n : CppNetwork) : CppNetwork := { n with live := Function.update n.live id none }

def insertPeer (p : Peer) (n : CppNetwork) : CppNetwork :=
  { n with peers := p :: n.peers.filter fun q => q.id ≠ p.id }

/-- The peers of these ids are taken off the list and out of the router. -/
def dropPeers (gone : PeerId → Bool) (n : CppNetwork) : CppNetwork :=
  { n with
    peers := n.peers.filter fun q => !gone q.id
    router := n.router.filter fun peerId => ¬ gone peerId = true }

/-- A peer is heard of, or a message is sent to it. -/
def touch (peerId : PeerId) (n : CppNetwork) : CppNetwork :=
  { n with peers := n.peers.map fun p => if p.id = peerId then { p with lastSeen := n.now } else p }

/-! ### The handshakes -/

/-- The security gate of the accept loop. -/
def accept (addr : SocketAddr) (free : Bool) (n : CppNetwork) : CppNetwork :=
  if n.bans.isIpBanned n.now addr.ip then n
  else if free then n.opens ⟨addr, false, .handshaking⟩
  else n

/-- `connect_bootnode` up to the Hello. -/
def dial (addr : SocketAddr) (n : CppNetwork) : CppNetwork :=
  if n.peers.any fun p => p.addr = addr then n else n.opens ⟨addr, true, .handshaking⟩

/-- Any failure of a handshake. A peer id that does not match the key of an inbound connection bans the
address. -/
def handshakeFailed (id : ℕ) (mismatch : Bool) (n : CppNetwork) : CppNetwork :=
  match n.live id with
  | some ⟨addr, isOutbound, .handshaking⟩ =>
    if mismatch && !isOutbound then { n.close id with bans := n.bans.banAddress n.now addr.ip } else n.close id
  | _ => n

/-- The check that the peer is not connected yet. -/
def helloPassed (id : ℕ) (peerId : PeerId) (n : CppNetwork) : CppNetwork :=
  match n.live id with
  | some ⟨addr, isOutbound, .handshaking⟩ =>
    if n.hasPeer peerId then n.close id
    else n.restage id ⟨addr, isOutbound, .handshaking⟩ (.admitted peerId)
  | _ => n

/-- The peer is put on the list, for an outbound connection after another check. -/
def register (id : ℕ) (n : CppNetwork) : CppNetwork :=
  match n.live id with
  | some ⟨addr, isOutbound, .admitted peerId⟩ =>
    if isOutbound && n.hasPeer peerId then n.close id
    else (n.insertPeer ⟨peerId, id, addr, n.now⟩).restage id ⟨addr, isOutbound, .admitted peerId⟩
      (.registered peerId .inserted)
  | _ => n

/-- The peer is added to the router, if it is on the list. -/
def route (id : ℕ) (n : CppNetwork) : CppNetwork :=
  match n.live id with
  | some ⟨addr, isOutbound, .registered peerId .inserted⟩ =>
    { n.restage id ⟨addr, isOutbound, .registered peerId .inserted⟩ (.registered peerId .routed) with
      router := if n.hasPeer peerId then insert peerId n.router else n.router }
  | _ => n

/-- The message loop is spawned. -/
def spawn (id : ℕ) (n : CppNetwork) : CppNetwork :=
  match n.live id with
  | some ⟨addr, isOutbound, .registered peerId .routed⟩ =>
    n.restage id ⟨addr, isOutbound, .registered peerId .routed⟩ (.registered peerId .checking)
  | _ => n

/-! ### `peer_message_loop` -/

/-- A round of the loop begins if the peer is on the list: all its entries are connected. -/
def loopChecked (id : ℕ) (n : CppNetwork) : CppNetwork :=
  match n.live id with
  | some ⟨addr, isOutbound, .registered peerId .checking⟩ =>
    n.restage id ⟨addr, isOutbound, .registered peerId .checking⟩
      (.registered peerId (if n.hasPeer peerId then .reading else .leaving))
  | _ => n

/-- The bans for too many strikes: of the address on the list, and of the id. -/
def punish (peerId : PeerId) (short : Bool) (n : CppNetwork) : CppNetwork :=
  match n.peer peerId with
  | some p => { n with bans :=
      if short then (n.bans.banAddressShort n.now p.addr.ip).banPeerShort n.now peerId
      else (n.bans.banAddress n.now p.addr.ip).banPeer n.now peerId }
  | none => n

/-- A malformed message is counted. -/
def strike (peerId : PeerId) (n : CppNetwork) : CppNetwork :=
  { n with
    malformedStrikes := Function.update n.malformedStrikes peerId (n.malformedStrikes peerId + 1)
    sent := Function.update n.sent peerId (n.sent peerId + 1) }

/-- What a read does to the node, and whether the loop goes on. -/
def afterRead (peerId : PeerId) (n : CppNetwork) : Read → CppNetwork × Bool
  | .message => (n.touch peerId, true)
  | .rateLimited strikes =>
    if SECURITY_RATE_STRIKE_THRESHOLD ≤ strikes then ((n.touch peerId).punish peerId true, false)
    else (n.touch peerId, true)
  | .timeout exceeded => (n, n.hasPeer peerId && !exceeded)
  | .malformed =>
    if SECURITY_MALFORMED_STRIKE_THRESHOLD ≤ n.malformedStrikes peerId + 1 then
      ((n.strike peerId).punish peerId false, false)
    else (n.strike peerId, false)
  | .failed => (n, false)

/-- A read of the loop ends and what came is handled. -/
def received (id : ℕ) (r : Read) (n : CppNetwork) : CppNetwork :=
  match n.live id with
  | some ⟨addr, isOutbound, .registered peerId .reading⟩ =>
    let after := n.afterRead peerId r
    after.1.restage id ⟨addr, isOutbound, .registered peerId .reading⟩
      (.registered peerId (if after.2 then .checking else .leaving))
  | _ => n

/-- The end of the loop takes its peer off the list, and out of the router if it was on the list. -/
def loopEnded (id : ℕ) (n : CppNetwork) : CppNetwork :=
  match n.live id with
  | some ⟨addr, isOutbound, .registered peerId .leaving⟩ =>
    (if n.hasPeer peerId then n.dropPeers fun q => q = peerId else n).restage id
      ⟨addr, isOutbound, .registered peerId .leaving⟩ (.left peerId)
  | _ => n

/-- The strikes of its peer id are forgotten. -/
def strikesCleared (id : ℕ) (n : CppNetwork) : CppNetwork :=
  match n.live id with
  | some ⟨_, _, .left peerId⟩ =>
    { n.close id with malformedStrikes := Function.update n.malformedStrikes peerId 0 }
  | _ => n

/-! ### Other tasks -/

def removePeer (peerId : PeerId) (n : CppNetwork) : CppNetwork :=
  if n.hasPeer peerId then n.dropPeers fun q => q = peerId else n

def isStale (peerId : PeerId) (n : CppNetwork) : Bool :=
  n.peers.any fun p => p.id = peerId && PEER_TIMEOUT < n.now - p.lastSeen

def cleanupStalePeers (n : CppNetwork) : CppNetwork :=
  { n.dropPeers (n.isStale ·) with
    malformedStrikes := fun peerId => if n.isStale peerId then 0 else n.malformedStrikes peerId
    bans := n.bans.cleanupExpiredBans n.now }

end CppNetwork

inductive Event where
  | tick (d : ℕ)
  | accept (addr : SocketAddr) (free : Bool)
  | dial (addr : SocketAddr)
  | handshakeFailed (id : ℕ) (mismatch : Bool)
  | helloPassed (id : ℕ) (peerId : PeerId)
  | register (id : ℕ)
  | route (id : ℕ)
  | spawn (id : ℕ)
  | loopChecked (id : ℕ)
  | received (id : ℕ) (r : Read)
  | loopEnded (id : ℕ)
  | strikesCleared (id : ℕ)
  | touch (peerId : PeerId)
  | removePeer (peerId : PeerId)
  | cleanupStalePeers
  deriving DecidableEq

def machine : Machine Event CppNetwork where
  next
    | .tick d, n => { n with now := n.now + d }
    | .accept addr free, n => n.accept addr free
    | .dial addr, n => n.dial addr
    | .handshakeFailed id mismatch, n => n.handshakeFailed id mismatch
    | .helloPassed id peerId, n => n.helloPassed id peerId
    | .register id, n => n.register id
    | .route id, n => n.route id
    | .spawn id, n => n.spawn id
    | .loopChecked id, n => n.loopChecked id
    | .received id r, n => n.received id r
    | .loopEnded id, n => n.loopEnded id
    | .strikesCleared id, n => n.strikesCleared id
    | .touch peerId, n => n.touch peerId
    | .removePeer peerId, n => n.removePeer peerId
    | .cleanupStalePeers, n => n.cleanupStalePeers
  halts _ _ := false

/-! ### Stages -/

namespace CppNetwork

def stage (n : CppNetwork) (id : ℕ) : Option Stage := (n.live id).map Connection.stage

variable {n : CppNetwork}

theorem stage_of_live {id : ℕ} {c : Connection} (h : n.live id = some c) : n.stage id = some c.stage := by
  rw [stage, h]
  rfl

@[simp] theorem stage_restage (id : ℕ) (c : Connection) (stage : Stage) (i : ℕ) :
    (n.restage id c stage).stage i = if i = id then some stage else n.stage i := by
  simp only [restage, CppNetwork.stage, Function.update_apply]
  split_ifs
  · rfl
  · rfl

@[simp] theorem stage_close (id i : ℕ) : (n.close id).stage i = if i = id then none else n.stage i := by
  simp only [close, CppNetwork.stage, Function.update_apply]
  split_ifs
  · rfl
  · rfl

@[simp] theorem stage_opens (c : Connection) (i : ℕ) :
    (n.opens c).stage i = if i = n.opened then some c.stage else n.stage i := by
  simp only [opens, CppNetwork.stage, Function.update_apply]
  split_ifs
  · rfl
  · rfl

theorem hasPeer_iff {peerId : PeerId} : n.hasPeer peerId = true ↔ ∃ q ∈ n.peers, q.id = peerId := by
  simp [hasPeer]

theorem not_hasPeer_iff {peerId : PeerId} : n.hasPeer peerId = false ↔ ∀ q ∈ n.peers, q.id ≠ peerId := by
  simp [hasPeer]

/-- A punishment changes the bans only. -/
theorem punish_eq (peerId : PeerId) (short : Bool) :
    n.punish peerId short = { n with bans := (n.punish peerId short).bans } := by
  unfold punish
  split
  · rfl
  · rfl

/-- What a read does to the peer list, the router and the tasks: a message is heard of, at most. -/
theorem afterRead_view (peerId : PeerId) (r : Read) :
    (((n.afterRead peerId r).1.peers = n.peers ∨ (n.afterRead peerId r).1.peers = (n.touch peerId).peers) ∧
      (n.afterRead peerId r).1.router = n.router) ∧ (n.afterRead peerId r).1.live = n.live ∧
      (n.afterRead peerId r).1.opened = n.opened ∧ (n.afterRead peerId r).1.now = n.now := by
  cases r with
  | message => exact ⟨⟨.inr rfl, rfl⟩, rfl, rfl, rfl⟩
  | rateLimited strikes =>
    simp only [afterRead]
    split_ifs
    · rw [punish_eq]
      exact ⟨⟨.inr rfl, rfl⟩, rfl, rfl, rfl⟩
    · exact ⟨⟨.inr rfl, rfl⟩, rfl, rfl, rfl⟩
  | timeout exceeded => exact ⟨⟨.inl rfl, rfl⟩, rfl, rfl, rfl⟩
  | malformed =>
    simp only [afterRead]
    split_ifs
    · rw [punish_eq]
      exact ⟨⟨.inl rfl, rfl⟩, rfl, rfl, rfl⟩
    · exact ⟨⟨.inl rfl, rfl⟩, rfl, rfl, rfl⟩
  | failed => exact ⟨⟨.inl rfl, rfl⟩, rfl, rfl, rfl⟩

end CppNetwork

end Coinjecture.Network.Cpp.Peers
