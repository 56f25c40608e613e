import Coinjecture.Lib.Trace
import Coinjecture.Network.Mesh.Protocol
import Mathlib.Data.List.Dedup

/-! # The connection table of the mesh

The event loop keeps the write channels of the connected peers and the records of all known ones, and tells the
application which peers come and go. A `Disconnected` event names the peer and not the connection; here it comes
with the number of the connection, which the loop does not look at.

* `connection_table_iff` : in which runs the channels are those of the connected peers, a duplicate that was
  dropped takes nothing with it when it closes, and the peers come and go in turn. -/

namespace Coinjecture.Network.Mesh.ConnectionTable

open Lib.Bincode Lib.Trace
open Network.Mesh.Protocol

/-! ### The peer manager -/

inductive ConnectionState where
  | Disconnected
  | Connecting
  | Handshaking
  | Connected
  | Dead
  deriving DecidableEq

/-- Instants and durations are in milliseconds. -/
structure PeerRecord where
  nodeId : NodeId
  listenAddr : SocketAddr
  state : ConnectionState
  publicKey : Option Bytes
  lastSeen : ℕ
  missedHeartbeats : ℕ
  reconnectAttempts : ℕ
  nextReconnect : Option ℕ
  outbound : Bool

structure PeerManager where
  peers : NodeId → Option PeerRecord
  localId : NodeId
  reconnectBase : ℕ
  reconnectMax : ℕ
  maxMissedHeartbeats : ℕ

namespace PeerManager

/-- `get_mut`, and a change of the record if there is one. -/
def modifyPeer (nodeId : NodeId) (f : PeerRecord → PeerRecord) (pm : PeerManager) : PeerManager :=
  { pm with peers := Function.update pm.peers nodeId ((pm.peers nodeId).map f) }

def registerPeer (now : ℕ) (nodeId : NodeId) (listenAddr : SocketAddr) (publicKey : Bytes) (outbound : Bool)
    (pm : PeerManager) : PeerManager :=
  if nodeId = pm.localId then pm
  else
    let record := (pm.peers nodeId).getD ⟨nodeId, listenAddr, .Disconnected, none, now, 0, 0, none, outbound⟩
    { pm with
      peers := Function.update pm.peers nodeId (some { record with
        state := .Connected
        listenAddr := listenAddr
        publicKey := some publicKey
        lastSeen := now
        missedHeartbeats := 0
        reconnectAttempts := 0
        nextReconnect := none }) }

/-- `compute_backoff`, with the random number of the jitter. -/
def computeBackoff (base max attempts random : ℕ) : ℕ :=
  let delay := min (base * 2 ^ min attempts 6) max
  let jitterRange := delay / 4
  if 0 < jitterRange then delay + random % (jitterRange * 2) - jitterRange else delay

def markDisconnected (now random : ℕ) (nodeId : NodeId) (pm : PeerManager) : PeerManager :=
  pm.modifyPeer nodeId fun peer => { peer with
    state := .Dead
    reconnectAttempts := peer.reconnectAttempts + 1
    nextReconnect :=
      some (now + computeBackoff pm.reconnectBase pm.reconnectMax (peer.reconnectAttempts + 1) random) }

def touch (now : ℕ) (nodeId : NodeId) (pm : PeerManager) : PeerManager :=
  pm.modifyPeer nodeId fun peer => { peer with lastSeen := now, missedHeartbeats := 0 }

/-- `heartbeat_missed`: whether the peer is declared dead. -/
def heartbeatMissed (nodeId : NodeId) (pm : PeerManager) : Bool × PeerManager :=
  match pm.peers nodeId with
  | some peer =>
    let missed := peer.missedHeartbeats + 1
    if pm.maxMissedHeartbeats ≤ missed then
      (true, pm.modifyPeer nodeId fun peer => { peer with missedHeartbeats := missed, state := .Dead })
    else (false, pm.modifyPeer nodeId fun peer => { peer with missedHeartbeats := missed })
  | none => (false, pm)

/-- The filter of `peers_needing_reconnect`. -/
def needsReconnect (now : ℕ) (nodeId : NodeId) (pm : PeerManager) : Bool :=
  match pm.peers nodeId with
  | some peer => peer.state = .Dead && peer.nextReconnect.all fun t => t ≤ now
  | none => false

/-- Node ids are compared byte by byte. -/
def shouldDial (peerId : NodeId) (pm : PeerManager) : Bool := pm.localId.bytes < peerId.bytes

/-- The filter of `connected_peers`. -/
def isConnected (nodeId : NodeId) (pm : PeerManager) : Bool :=
  (pm.peers nodeId).any fun peer => peer.state = .Connected

/-- `ingest_peer_exchange`: the peers that are new. -/
def ingestPeerExchange (now : ℕ) :
    List (NodeId × SocketAddr) → PeerManager → List (NodeId × SocketAddr) × PeerManager
  | [], pm => ([], pm)
  | (id, addr) :: peers, pm =>
    if id = pm.localId ∨ (pm.peers id).isSome then ingestPeerExchange now peers pm
    else
      let record : PeerRecord := ⟨id, addr, .Disconnected, none, now, 0, 0, some now, true⟩
      let (newPeers, pm) :=
        ingestPeerExchange now peers { pm with peers := Function.update pm.peers id (some record) }
      ((id, addr) :: newPeers, pm)

def markConnecting (nodeId : NodeId) (pm : PeerManager) : PeerManager :=
  pm.modifyPeer nodeId fun peer => { peer with state := .Connecting }

end PeerManager

/-! ### The event loop -/

structure NetworkConfig where
  reconnectBaseDelay : ℕ
  reconnectMaxDelay : ℕ
  maxMissedHeartbeats : ℕ
  heartbeatInterval : ℕ
  maxMessagesPerSecondPerPeer : ℕ

/-- What the application is told about the peers. -/
inductive NetworkEvent where
  | PeerConnected (peerId : NodeId)
  | PeerDisconnected (peerId : NodeId)
  deriving DecidableEq

/-- The state of the loop. A write channel is the number of its connection; `dropped` notes the connections
that were dropped as duplicates, and `events` what the application has been told, the last event first. -/
structure Mesh where
  peerMgr : PeerManager
  peerWriters : NodeId → Option ℕ
  rateCounters : NodeId → Option (ℕ × ℕ)
  dropped : List ℕ
  events : List NetworkEvent

/-- What the loop waits for. The order is that in which the table of the peers is gone through. -/
inductive Event where
  | connected (connection now : ℕ) (peerId : NodeId) (listenAddr : SocketAddr) (publicKey : Bytes)
      (outbound : Bool)
  | messageReceived (now : ℕ) (peerId : NodeId) (knownPeers : Option (List (NodeId × SocketAddr)))
  | disconnected (connection now random : ℕ) (peerId : NodeId)
  | heartbeatTick (now : ℕ) (order : List NodeId)
  | reconnectTick (now : ℕ) (order : List NodeId)

namespace Mesh

def new (config : NetworkConfig) (localId : NodeId) : Mesh where
  peerMgr :=
    ⟨fun _ => none, localId, config.reconnectBaseDelay, config.reconnectMaxDelay, config.maxMissedHeartbeats⟩
  peerWriters _ := none
  rateCounters _ := none
  dropped := []
  events := []

def connected (connection now : ℕ) (peerId : NodeId) (listenAddr : SocketAddr) (publicKey : Bytes)
    (outbound : Bool) (m : Mesh) : Mesh :=
  if (m.peerWriters peerId).isSome then { m with dropped := connection :: m.dropped }
  else { m with
    peerMgr := m.peerMgr.registerPeer now peerId listenAddr publicKey outbound
    peerWriters := Function.update m.peerWriters peerId (some connection)
    events := .PeerConnected peerId :: m.events }

/-- A message, with the peers that it names if it is a peer exchange. -/
def messageReceived (config : NetworkConfig) (now : ℕ) (peerId : NodeId)
    (knownPeers : Option (List (NodeId × SocketAddr))) (m : Mesh) : Mesh :=
  let (count, windowStart) := (m.rateCounters peerId).getD (0, now)
  let rate := if 1000 ≤ now - windowStart then (1, now) else (count + 1, windowStart)
  let m := { m with rateCounters := Function.update m.rateCounters peerId (some rate) }
  if config.maxMessagesPerSecondPerPeer < rate.1 then m
  else
    let peerMgr := m.peerMgr.touch now peerId
    { m with peerMgr := match knownPeers with
        | some knownPeers => (peerMgr.ingestPeerExchange now knownPeers).2
        | none => peerMgr }

def disconnected (now random : ℕ) (peerId : NodeId) (m : Mesh) : Mesh :=
  { m with
    peerMgr := m.peerMgr.markDisconnected now random peerId
    peerWriters := Function.update m.peerWriters peerId none
    rateCounters := Function.update m.rateCounters peerId none
    events := .PeerDisconnected peerId :: m.events }

/-- The liveness check of a peer. -/
def checkLiveness (config : NetworkConfig) (now : ℕ) (m : Mesh) (peerId : NodeId) : Mesh :=
  match m.peerMgr.peers peerId with
  | some record =>
    if config.heartbeatInterval * 2 < now - record.lastSeen then
      let (isDead, peerMgr) := m.peerMgr.heartbeatMissed peerId
      if isDead then { m with
        peerMgr := peerMgr
        peerWriters := Function.update m.peerWriters peerId none
        events := .PeerDisconnected peerId :: m.events }
      else { m with peerMgr := peerMgr }
    else m
  | none => m

def heartbeatTick (config : NetworkConfig) (now : ℕ) (order : List NodeId) (m : Mesh) : Mesh :=
  (order.dedup.filter fun peerId => m.peerMgr.isConnected peerId).foldl (checkLiveness config now) m

def reconnect (m : Mesh) (peerId : NodeId) : Mesh :=
  if !m.peerMgr.shouldDial peerId || (m.peerWriters peerId).isSome then m
  else { m with peerMgr := m.peerMgr.markConnecting peerId }

def reconnectTick (now : ℕ) (order : List NodeId) (m : Mesh) : Mesh :=
  (order.dedup.filter fun peerId => m.peerMgr.needsReconnect now peerId).foldl reconnect m

end Mesh

def machine (config : NetworkConfig) : Machine Event Mesh where
  next
    | .connected connection now peerId listenAddr publicKey outbound, m =>
      m.connected connection now peerId listenAddr publicKey outbound
    | .messageReceived now peerId knownPeers, m => m.messageReceived config now peerId knownPeers
    | .disconnected _ now random peerId, m => m.disconnected now random peerId
    | .heartbeatTick now order, m => m.heartbeatTick config now order
    | .reconnectTick now order, m => m.reconnectTick now order
  halts _ _ := false

/-! ### Who is connected -/

namespace PeerManager

variable {pm : PeerManager} {p q : NodeId} {f : PeerRecord → PeerRecord}

theorem isConnected_eq {record : Option PeerRecord} (h : pm.peers q = record) :
    pm.isConnected q = record.any fun peer => peer.state = .Connected := by
  rw [isConnected, h]

theorem isConnected_congr {pm' : PeerManager} (h : pm'.peers q = pm.peers q) :
    pm'.isConnected q = pm.isConnected q :=
  isConnected_eq h

theorem isConnected_modifyPeer_of_ne (h : q ≠ p) : (pm.modifyPeer p f).isConnected q = pm.isConnected q :=
  isConnected_congr (Function.update_of_ne h _ _)

theorem isConnected_modifyPeer_self (h : ∀ peer, (f peer).state ≠ .Connected) :
    (pm.modifyPeer p f).isConnected p = false := by
  rw [isConnected_eq (Function.update_self _ _ _)]
  cases pm.peers p with
  | none => rfl
  | some peer => exact decide_eq_false (h peer)

/-- A change that leaves the state of the record alone. -/
theorem isConnected_modifyPeer (h : ∀ peer, (f peer).state = peer.state) (q : NodeId) :
    (pm.modifyPeer p f).isConnected q = pm.isConnected q := by
  by_cases hq : q = p
  · subst hq
    rw [isConnected_eq (Function.update_self _ _ _), isConnected]
    cases pm.peers q with
    | none => rfl
    | some peer => exact congrArg (fun s => decide (s = ConnectionState.Connected)) (h peer)
  · exact isConnected_modifyPeer_of_ne hq

theorem isConnected_touch (now : ℕ) (q : NodeId) : (pm.touch now p).isConnected q = pm.isConnected q :=
  isConnected_modifyPeer (f := fun peer => { peer with lastSeen := now, missedHeartbeats := 0 })
    (fun _ => rfl) q

/-- The peers that are new are not connected yet. -/
theorem isConnected_ingestPeerExchange (now : ℕ) (peers : List (NodeId × SocketAddr)) (pm : PeerManager) :
    (pm.ingestPeerExchange now peers).2.isConnected q = pm.isConnected q := by
  induction peers generalizing pm with
  | nil => rfl
  | cons peer peers ih =>
    obtain ⟨id, addr⟩ := peer
    rw [ingestPeerExchange]
    by_cases h : id = pm.localId ∨ (pm.peers id).isSome
    · rw [if_pos h]
      exact ih pm
    · rw [if_neg h]
      refine (ih _).trans ?_
      by_cases hq : q = id
      · subst hq
        have hnone : pm.peers q = none := Option.not_isSome_iff_eq_none.mp fun hs => h (.inr hs)
        rw [isConnected_eq (Function.update_self _ _ _), isConnected_eq hnone]
        rfl
      · exact isConnected_congr (Function.update_of_ne hq _ _)

theorem isConnected_registerPeer_of_ne (now : ℕ) (addr : SocketAddr) (key : Bytes) (outbound : Bool) (h : q ≠ p) :
    (pm.registerPeer now p addr key outbound).isConnected q = pm.isConnected q := by
  unfold registerPeer
  split_ifs
  · rfl
  · exact isConnected_congr (Function.update_of_ne h _ _)

/-- The node itself is never registered. -/
theorem isConnected_registerPeer_self (now : ℕ) (addr : SocketAddr) (key : Bytes) (outbound : Bool)
    (h : pm.isConnected p = false) :
    (pm.registerPeer now p addr key outbound).isConnected p = decide (p ≠ pm.localId) := by
  unfold registerPeer
  split_ifs with hp
  · rw [h, decide_eq_false (not_not_intro hp)]
  · rw [decide_eq_true hp]
    refine (isConnected_eq (Function.update_self p _ pm.peers)).trans ?_
    rfl

theorem heartbeatMissed_of_ne (h : q ≠ p) : (pm.heartbeatMissed p).2.isConnected q = pm.isConnected q := by
  unfold heartbeatMissed
  split
  · dsimp only
    split_ifs
    · exact isConnected_modifyPeer_of_ne h
    · exact isConnected_modifyPeer_of_ne h
  · rfl

/-- A peer that is declared dead is no longer connected, and one that is not stays as it was. -/
theorem heartbeatMissed_self :
    (pm.heartbeatMissed p).2.isConnected p = (!(pm.heartbeatMissed p).1 && pm.isConnected p) := by
  unfold heartbeatMissed
  split
  next peer _ =>
    dsimp only
    split_ifs
    · exact isConnected_modifyPeer_self fun _ => ConnectionState.noConfusion
    · rw [Bool.not_false, Bool.true_and]
      exact isConnected_modifyPeer
        (f := fun record => { record with missedHeartbeats := peer.missedHeartbeats + 1 }) (fun _ => rfl) p
  · exact (Bool.true_and _).symm

end PeerManager

/-! ### What holds between two events -/

/-- What the application has been told about a peer, the last first: whether it came or went. -/
def history (peerId : NodeId) (m : Mesh) : List Bool :=
  m.events.filterMap fun
    | .PeerConnected id => if id = peerId then some true else none
    | .PeerDisconnected id => if id = peerId then some false else none

/-- Came and went in turn; it came first. -/
def Alternates : List Bool → Prop
  | [] => True
  | b :: l => b = !l.headD false ∧ Alternates l

structure Consistent (m : Mesh) : Prop where
  writers : ∀ p, (m.peerWriters p).isSome = m.peerMgr.isConnected p
  alternates : ∀ p, Alternates (history p m)

/-- Moreover, the peers that were last said to have come are those with a channel. -/
structure Inv (m : Mesh) : Prop extends Consistent m where
  told : ∀ p, (history p m).headD false = (m.peerWriters p).isSome

section
variable {m m' : Mesh} {p q : NodeId}

theorem history_eq (h : m'.events = m.events) : history p m' = history p m := by
  rw [history, h, history]

theorem history_connected (h : m'.events = .PeerConnected q :: m.events) :
    history p m' = if q = p then true :: history p m else history p m := by
  rw [history, h, List.filterMap_cons, history]
  dsimp only
  split_ifs <;> rfl

theorem history_disconnected (h : m'.events = .PeerDisconnected q :: m.events) :
    history p m' = if q = p then false :: history p m else history p m := by
  rw [history, h, List.filterMap_cons, history]
  dsimp only
  split_ifs <;> rfl

/-- Nothing changes that the invariant is about. -/
theorem Inv.congr (h : Inv m) (hwriters : m'.peerWriters = m.peerWriters)
    (hconnected : ∀ q, m'.peerMgr.isConnected q = m.peerMgr.isConnected q) (hevents : m'.events = m.events) :
    Inv m' where
  writers q := by rw [hwriters, hconnected, h.writers]
  alternates q := by
    rw [history_eq hevents]
    exact h.alternates q
  told q := by rw [history_eq hevents, hwriters, h.told]

/-- The application is told that a peer has come that was not there, or gone that was. -/
theorem Inv.tell {b : Bool} (h : Inv m) (hp : (m.peerWriters p).isSome = !b)
    (hhistory : ∀ q, history q m' = if p = q then b :: history q m else history q m)
    (hwriter : (m'.peerWriters p).isSome = b) (hwriters : ∀ q, q ≠ p → m'.peerWriters q = m.peerWriters q)
    (hself : m'.peerMgr.isConnected p = b)
    (hothers : ∀ q, q ≠ p → m'.peerMgr.isConnected q = m.peerMgr.isConnected q) : Inv m' where
  writers q := by
    by_cases hq : q = p
    · rw [hq, hwriter, hself]
    · rw [hwriters q hq, hothers q hq, h.writers]
  alternates q := by
    rw [hhistory]
    split_ifs with hq
    · subst hq
      exact ⟨by rw [h.told, hp, Bool.not_not], h.alternates p⟩
    · exact h.alternates q
  told q := by
    rw [hhistory]
    split_ifs with hq
    · subst hq
      exact hwriter.symm
    · rw [hwriters q (Ne.symm hq), h.told]

theorem Inv.come {connection : ℕ} (h : Inv m) (hp : (m.peerWriters p).isSome = false)
    (hwriters : m'.peerWriters = Function.update m.peerWriters p (some connection))
    (hevents : m'.events = .PeerConnected p :: m.events) (hself : m'.peerMgr.isConnected p = true)
    (hothers : ∀ q, q ≠ p → m'.peerMgr.isConnected q = m.peerMgr.isConnected q) : Inv m' := by
  refine h.tell hp (fun q => history_connected hevents) ?_ (fun q hq => ?_) hself hothers
  · rw [hwriters, Function.update_self]
    rfl
  · rw [hwriters, Function.update_of_ne hq]

theorem Inv.go (h : Inv m) (hp : (m.peerWriters p).isSome = true)
    (hwriters : m'.peerWriters = Function.update m.peerWriters p none)
    (hevents : m'.events = .PeerDisconnected p :: m.events) (hself : m'.peerMgr.isConnected p = false)
    (hothers : ∀ q, q ≠ p → m'.peerMgr.isConnected q = m.peerMgr.isConnected q) : Inv m' := by
  refine h.tell hp (fun q => history_disconnected hevents) ?_ (fun q hq => ?_) hself hothers
  · rw [hwriters, Function.update_self]
    rfl
  · rw [hwriters, Function.update_of_ne hq]

end

/-! ### The events -/

section
variable {config : NetworkConfig} {m : Mesh}

theorem inv_new (config : NetworkConfig) (localId : NodeId) : Inv (Mesh.new config localId) :=
  ⟨⟨fun _ => rfl, fun _ => trivial⟩, fun _ => rfl⟩

theorem messageReceived_inv (now : ℕ) (peerId : NodeId) (knownPeers : Option (List (NodeId × SocketAddr)))
    (h : Inv m) : Inv (m.messageReceived config now peerId knownPeers) := by
  unfold Mesh.messageReceived
  refine iteInduction (motive := Inv) (fun _ => ?_) fun _ => ?_
  · exact h.congr rfl (fun _ => rfl) rfl
  · refine h.congr rfl (fun q => ?_) rfl
    cases knownPeers with
    | none => exact PeerManager.isConnected_touch now q
    | some knownPeers =>
      exact (PeerManager.isConnected_ingestPeerExchange now knownPeers _).trans
        (PeerManager.isConnected_touch now q)

theorem checkLiveness_inv {peerId : NodeId} (now : ℕ) (h : Inv m) (hp : m.peerMgr.isConnected peerId = true) :
    Inv (m.checkLiveness config now peerId) := by
  have hself := @PeerManager.heartbeatMissed_self m.peerMgr peerId
  unfold Mesh.checkLiveness
  split
  · split_ifs
    · cases hdead : m.peerMgr.heartbeatMissed peerId with
      | mk isDead peerMgr =>
        rw [hdead] at hself
        have hothers := fun q => @PeerManager.heartbeatMissed_of_ne m.peerMgr peerId q
        rw [hdead] at hothers
        cases isDead with
        | true => exact h.go ((h.writers peerId).trans hp) rfl rfl hself hothers
        | false =>
          refine h.congr rfl (fun q => ?_) rfl
          by_cases hq : q = peerId
          · subst hq
            exact hself
          · exact hothers q hq
    · exact h
  · exact h

theorem checkLiveness_isConnected {peerId q : NodeId} (now : ℕ) (h : q ≠ peerId) :
    (m.checkLiveness config now peerId).peerMgr.isConnected q = m.peerMgr.isConnected q := by
  have hothers := @PeerManager.heartbeatMissed_of_ne m.peerMgr peerId q h
  unfold Mesh.checkLiveness
  split
  · split_ifs
    · cases hdead : m.peerMgr.heartbeatMissed peerId with
      | mk isDead peerMgr =>
        rw [hdead] at hothers
        cases isDead <;> exact hothers
    · rfl
  · rfl

/-- A check changes the connection of its own peer only, so that the others are still connected when it is their
turn. -/
theorem checkLiveness_foldl_inv (now : ℕ) (peers : List NodeId) (hnodup : peers.Nodup)
    (hpeers : ∀ p ∈ peers, m.peerMgr.isConnected p = true) (h : Inv m) :
    Inv (peers.foldl (Mesh.checkLiveness config now) m) := by
  induction peers generalizing m with
  | nil => exact h
  | cons p peers ih =>
    rw [List.nodup_cons] at hnodup
    rw [List.forall_mem_cons] at hpeers
    refine ih hnodup.2 (fun q hq => ?_) (checkLiveness_inv now h hpeers.1)
    rw [checkLiveness_isConnected now (ne_of_mem_of_not_mem hq hnodup.1)]
    exact hpeers.2 q hq

theorem heartbeatTick_inv (now : ℕ) (order : List NodeId) (h : Inv m) : Inv (m.heartbeatTick config now order) :=
  checkLiveness_foldl_inv now _ ((List.nodup_dedup order).filter _) (fun _ hp => (List.mem_filter.mp hp).2) h

theorem reconnect_inv (peerId : NodeId) (h : Inv m) : Inv (m.reconnect peerId) := by
  unfold Mesh.reconnect
  split_ifs with hdial
  · exact h
  · refine h.congr rfl (fun q => ?_) rfl
    by_cases hq : q = peerId
    · subst hq
      rw [← h.writers, Bool.eq_false_iff.mpr fun hs => hdial (Bool.or_eq_true_iff.mpr (.inr hs))]
      exact PeerManager.isConnected_modifyPeer_self fun _ => ConnectionState.noConfusion
    · exact PeerManager.isConnected_modifyPeer_of_ne hq

theorem reconnectTick_inv (now : ℕ) (order : List NodeId) (h : Inv m) : Inv (m.reconnectTick now order) := by
  unfold Mesh.reconnectTick
  generalize order.dedup.filter (fun peerId => m.peerMgr.needsReconnect now peerId) = peers
  induction peers generalizing m with
  | nil => exact h
  | cons p peers ih => exact ih (reconnect_inv p h)

theorem connected_inv (connection now : ℕ) {peerId : NodeId} (listenAddr : SocketAddr) (publicKey : Bytes)
    (outbound : Bool) (h : Inv m) (hp : peerId ≠ m.peerMgr.localId ∨ (m.peerWriters peerId).isSome = true) :
    Inv (m.connected connection now peerId listenAddr publicKey outbound) := by
  unfold Mesh.connected
  refine iteInduction (motive := Inv) (fun _ => h.congr rfl (fun _ => rfl) rfl) fun hnot => ?_
  have hnone := Bool.eq_false_iff.mpr hnot
  have hself := PeerManager.isConnected_registerPeer_self now listenAddr publicKey outbound
    ((h.writers peerId).symm.trans hnone)
  rw [decide_eq_true (hp.resolve_right hnot)] at hself
  exact h.come hnone rfl rfl hself
    fun q hq => PeerManager.isConnected_registerPeer_of_ne now listenAddr publicKey outbound hq

/-- The loop opens a channel to its own node, and does not register it. -/
theorem of_connected {connection now : ℕ} {peerId : NodeId} {listenAddr : SocketAddr} {publicKey : Bytes}
    {outbound : Bool} (h : Inv m)
    (hc : Consistent (m.connected connection now peerId listenAddr publicKey outbound)) :
    peerId ≠ m.peerMgr.localId ∨ (m.peerWriters peerId).isSome = true := by
  by_contra hnot
  obtain ⟨hlocal, hp⟩ := not_or.mp hnot
  have hself := PeerManager.isConnected_registerPeer_self now listenAddr publicKey outbound
    ((h.writers peerId).symm.trans (Bool.eq_false_iff.mpr hp))
  have hwriters := hc.writers peerId
  rw [Mesh.connected, if_neg hp] at hwriters
  dsimp only at hwriters
  rw [hself, decide_eq_false hlocal, Function.update_self] at hwriters
  cases hwriters

theorem disconnected_inv (now random : ℕ) {peerId : NodeId} (h : Inv m)
    (hp : (m.peerWriters peerId).isSome = true) : Inv (m.disconnected now random peerId) :=
  h.go hp rfl rfl (PeerManager.isConnected_modifyPeer_self fun _ => ConnectionState.noConfusion)
    fun _ hq => PeerManager.isConnected_modifyPeer_of_ne hq

/-- A peer that is not there is said to have gone all the same. -/
theorem of_disconnected {now random : ℕ} {peerId : NodeId} (h : Inv m)
    (hc : Consistent (m.disconnected now random peerId)) : (m.peerWriters peerId).isSome = true := by
  have halternates := hc.alternates peerId
  rw [@history_disconnected m _ peerId peerId rfl, if_pos rfl] at halternates
  rw [← h.told]
  simpa only [Bool.not_eq_eq_eq_not, Bool.not_false] using halternates.1.symm

end

/-! ### Runs -/

/-- A duplicate that was dropped takes no channel with it when it closes. -/
def KeepsRegistered (config : NetworkConfig) : Event × Mesh → Prop
  | (.disconnected connection now random peerId, m) => connection ∈ m.dropped →
    ((machine config).next (.disconnected connection now random peerId) m).peerWriters = m.peerWriters
  | _ => True

/-- A peer that comes is not the node itself, unless it is there already. One that goes is there, and its
connection is not one that was dropped. -/
def Meets : Event × Mesh → Prop
  | (.connected _ _ peerId _ _ _, m) => peerId ≠ m.peerMgr.localId ∨ (m.peerWriters peerId).isSome = true
  | (.disconnected connection _ _ peerId, m) => (m.peerWriters peerId).isSome = true ∧ connection ∉ m.dropped
  | _ => True

section
variable {config : NetworkConfig} {m : Mesh}

theorem next_inv (event : Event) (h : Inv m) (hmeets : Meets (event, m)) :
    Inv ((machine config).next event m) := by
  cases event with
  | connected connection now peerId listenAddr publicKey outbound =>
    exact connected_inv connection now listenAddr publicKey outbound h hmeets
  | messageReceived now peerId knownPeers => exact messageReceived_inv now peerId knownPeers h
  | disconnected connection now random peerId => exact disconnected_inv now random h hmeets.1
  | heartbeatTick now order => exact heartbeatTick_inv now order h
  | reconnectTick now order => exact reconnectTick_inv now order h

/-- The channel of a peer that is there goes with any of its connections. -/
theorem not_keepsRegistered {connection now random : ℕ} {peerId : NodeId}
    (hp : (m.peerWriters peerId).isSome = true) (hdropped : connection ∈ m.dropped) :
    ¬ KeepsRegistered config (.disconnected connection now random peerId, m) := by
  intro hkeeps
  have hnone : Function.update m.peerWriters peerId none peerId = m.peerWriters peerId :=
    congrFun (hkeeps hdropped) peerId
  rw [Function.update_self] at hnone
  rw [← hnone] at hp
  cases hp

theorem next_consistent_iff (event : Event) (h : Inv m) :
    Consistent ((machine config).next event m) ∧ KeepsRegistered config (event, m) ↔ Meets (event, m) := by
  refine ⟨fun hgood => ?_, fun hmeets => ⟨(next_inv event h hmeets).toConsistent, ?_⟩⟩
  · cases event with
    | connected => exact of_connected h hgood.1
    | disconnected connection now random peerId =>
      have hp := of_disconnected h hgood.1
      exact ⟨hp, fun hdropped => not_keepsRegistered hp hdropped hgood.2⟩
    | messageReceived => trivial
    | heartbeatTick => trivial
    | reconnectTick => trivial
  · cases event with
    | disconnected => exact fun hdropped => absurd hdropped hmeets.2
    | connected => trivial
    | messageReceived => trivial
    | heartbeatTick => trivial
    | reconnectTick => trivial

end

/-- The channels are those of the connected peers in every state of a run, its peers come and go in turn, and no
dropped duplicate takes a channel with it, if and only if no peer comes that is the node itself and every one that
goes is there and goes with a connection that was not dropped. -/
theorem connection_table_iff (config : NetworkConfig) (localId : NodeId) (events : List Event) :
    (Consistent (Mesh.new config localId) ∧ ∀ p ∈ (machine config).trace events (Mesh.new config localId),
      Consistent ((machine config).next p.1 p.2) ∧ KeepsRegistered config p) ↔
    ∀ p ∈ (machine config).trace events (Mesh.new config localId), Meets p := by
  have hnew := inv_new config localId
  rw [and_iff_right hnew.toConsistent]
  exact Machine.forall_trace_iff (Q := fun _ => Inv)
    (A := fun p => Consistent ((machine config).next p.1 p.2) ∧ KeepsRegistered config p)
    (fun event _ _ h => next_consistent_iff event h) (fun event _ _ h hmeets => next_inv event h hmeets) hnew

/-! ### A duplicate that closes -/

def aliceId : NodeId := ⟨1⟩

def bobId : NodeId := ⟨2⟩

/-- Bob connects twice. The second connection is dropped and closes, and then the first one does. -/
def duplicateCloses : List Event := [
  .connected 1 0 bobId (.V4 0 9000) [] true,
  .connected 2 10 bobId (.V4 0 9000) [] false,
  .disconnected 2 20 0 bobId,
  .disconnected 1 30 0 bobId]

def meshConfig : NetworkConfig where
  reconnectBaseDelay := 1000
  reconnectMaxDelay := 60000
  maxMissedHeartbeats := 3
  heartbeatInterval := 10000
  maxMessagesPerSecondPerPeer := 100

theorem not_connection_table :
    ¬ (Consistent (Mesh.new meshConfig aliceId) ∧
      ∀ p ∈ (machine meshConfig).trace duplicateCloses (Mesh.new meshConfig aliceId),
        Consistent ((machine meshConfig).next p.1 p.2) ∧ KeepsRegistered meshConfig p) := by
  rintro ⟨-, hgood⟩
  have hclose := hgood _ (List.mem_cons_of_mem _ (List.mem_cons_of_mem _ List.mem_cons_self))
  refine not_keepsRegistered ?_ ?_ hclose.2
  · rfl
  · exact List.mem_cons_self

/-- The application is told twice that Bob has gone. -/
example : history bobId ((machine meshConfig).final duplicateCloses (Mesh.new meshConfig aliceId)) =
    [false, false, true] := by decide

end Coinjecture.Network.Mesh.ConnectionTable
