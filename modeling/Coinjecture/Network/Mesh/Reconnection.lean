import Coinjecture.Network.Mesh.ConnectionTable

/-! # Reconnection

The event loop of the mesh, with the dials that it has started and that have not ended. A dial ends with a
connection, to whoever answers at the address, or it fails, and then the loop hears nothing of it.

* `reconnects_iff` : every known peer that is not connected and not being dialled is dead, and so is dialled again
  sooner or later; the same said of the states of the records.
* `reconnecting_iff` : in which runs this holds throughout and no peer is dialled twice at a time. -/

namespace Coinjecture.Network.Mesh.Reconnection

open Lib.Bincode Lib.Trace
open Network.Mesh.Protocol Network.Mesh.ConnectionTable

/-- A dial in flight. The one of a seed is for no peer in particular. -/
structure Dial where
  peer : Option NodeId
  addr : SocketAddr
  deriving DecidableEq

structure Dialer where
  mesh : Mesh
  dials : List Dial

inductive Event where
  | accepted (connection now : ℕ) (peerId : NodeId) (listenAddr : SocketAddr) (publicKey : Bytes)
  | dialed (dial : Dial) (connection now : ℕ) (peerId : NodeId) (listenAddr : SocketAddr) (publicKey : Bytes)
  | dialFailed (dial : Dial)
  | messageReceived (now : ℕ) (peerId : NodeId) (knownPeers : Option (List (NodeId × SocketAddr)))
  | disconnected (connection now random : ℕ) (peerId : NodeId)
  | heartbeatTick (now : ℕ) (order : List NodeId)
  | reconnectTick (now : ℕ) (order : List NodeId)

/-! ### The dials -/

/-- The peers are dialled whose id is above the node's own and that have no write channel. -/
def startDials (peers : List (NodeId × SocketAddr)) (m : Mesh) : List Dial :=
  (peers.filter fun peer => m.peerMgr.shouldDial peer.1 && (m.peerWriters peer.1).isNone).map fun peer =>
    ⟨some peer.1, peer.2⟩

def peersNeedingReconnect (now : ℕ) (order : List NodeId) (pm : PeerManager) : List (NodeId × SocketAddr) :=
  (order.dedup.filter fun peerId => pm.needsReconnect now peerId).filterMap fun peerId =>
    (pm.peers peerId).map fun record => (peerId, record.listenAddr)

/-- The rate counter of a peer after one more message. -/
def nextRate (now : ℕ) (peerId : NodeId) (m : Mesh) : ℕ × ℕ :=
  let (count, windowStart) := (m.rateCounters peerId).getD (0, now)
  if 1000 ≤ now - windowStart then (1, now) else (count + 1, windowStart)

/-- The dials that an event starts. -/
def started (config : NetworkConfig) : Event → Mesh → List Dial
  | .messageReceived now peerId (some knownPeers), m =>
    if config.maxMessagesPerSecondPerPeer < (nextRate now peerId m).1 then []
    else startDials ((m.peerMgr.touch now peerId).ingestPeerExchange now knownPeers).1 m
  | .reconnectTick now order, m => startDials (peersNeedingReconnect now order m.peerMgr) m
  | _, _ => []

/-- The seeds are dialled first. -/
def start (config : NetworkConfig) (localId : NodeId) (seedNodes : List SocketAddr) : Dialer :=
  ⟨Mesh.new config localId, seedNodes.map fun addr => ⟨none, addr⟩⟩

def machine (config : NetworkConfig) : Machine Event Dialer where
  next
    | .accepted connection now peerId listenAddr publicKey, d =>
      { d with mesh := d.mesh.connected connection now peerId listenAddr publicKey false }
    | .dialed dial connection now peerId listenAddr publicKey, d =>
      if dial ∈ d.dials then
        ⟨d.mesh.connected connection now peerId listenAddr publicKey true, d.dials.erase dial⟩
      else d
    | .dialFailed dial, d => { d with dials := d.dials.erase dial }
    | .messageReceived now peerId knownPeers, d =>
      ⟨d.mesh.messageReceived config now peerId knownPeers,
        started config (.messageReceived now peerId knownPeers) d.mesh ++ d.dials⟩
    | .disconnected _ now random peerId, d => { d with mesh := d.mesh.disconnected now random peerId }
    | .heartbeatTick now order, d => { d with mesh := d.mesh.heartbeatTick config now order }
    | .reconnectTick now order, d =>
      ⟨d.mesh.reconnectTick now order, started config (.reconnectTick now order) d.mesh ++ d.dials⟩
  halts _ _ := false

/-! ### What is asked of a run -/

def Dialing (peerId : NodeId) (dials : List Dial) : Prop := ∃ dial ∈ dials, dial.peer = some peerId

/-- `peers_needing_reconnect` returns the peer at some time, however late one asks. -/
def Eligible (peerId : NodeId) (pm : PeerManager) : Prop := ∀ t, ∃ now, t ≤ now ∧ pm.needsReconnect now peerId = true

def Reconnects (d : Dialer) : Prop :=
  ∀ p, (d.mesh.peerMgr.peers p).isSome → d.mesh.peerMgr.isConnected p = false → ¬ Dialing p d.dials →
    Eligible p d.mesh.peerMgr

/-- The dials that an event starts are each for a peer of its own, that is neither connected nor being dialled. -/
structure DialsOnce (config : NetworkConfig) (p : Event × Dialer) : Prop where
  nodup : ((started config p.1 p.2.mesh).map Dial.peer).Nodup
  fresh : ∀ q, Dialing q (started config p.1 p.2.mesh) →
    ¬ Dialing q p.2.dials ∧ p.2.mesh.peerMgr.isConnected q = false

/-! ### The states of the records -/

def stateOf (p : NodeId) (m : Mesh) : Option ConnectionState := (m.peerMgr.peers p).map PeerRecord.state

/-- Unknown, connected or dead. -/
def Settled (p : NodeId) (m : Mesh) : Prop := ∀ s, stateOf p m = some s → s = .Connected ∨ s = .Dead

section
variable {m m' : Mesh} {p q : NodeId} {d : Dialer}

theorem isConnected_iff : m.peerMgr.isConnected p = true ↔ stateOf p m = some .Connected := by
  rw [PeerManager.isConnected, stateOf]
  cases m.peerMgr.peers p with
  | none => simp
  | some record => simp

theorem state_of_needsReconnect {now : ℕ} (h : m.peerMgr.needsReconnect now p = true) :
    stateOf p m = some .Dead := by
  rw [PeerManager.needsReconnect] at h
  rw [stateOf]
  cases hp : m.peerMgr.peers p with
  | none =>
    rw [hp] at h
    cases h
  | some record =>
    rw [hp] at h
    exact congrArg some (of_decide_eq_true (Bool.and_eq_true_iff.mp h).1)

/-- A dead peer is eligible, as its backoff comes to an end. -/
theorem eligible_iff : Eligible p m.peerMgr ↔ stateOf p m = some .Dead := by
  constructor
  · intro h
    obtain ⟨now, -, hneeds⟩ := h 0
    exact state_of_needsReconnect hneeds
  · intro h t
    obtain ⟨record, hp, hdead⟩ := Option.map_eq_some_iff.mp h
    refine ⟨max t (record.nextReconnect.getD 0), le_max_left _ _, ?_⟩
    rw [PeerManager.needsReconnect, hp]
    refine Bool.and_eq_true_iff.mpr ⟨decide_eq_true hdead, ?_⟩
    cases record.nextReconnect with
    | none => rfl
    | some next => exact decide_eq_true (le_max_right t next)

theorem reconnects_iff : Reconnects d ↔ ∀ p, Settled p d.mesh ∨ Dialing p d.dials := by
  constructor
  · intro h p
    refine or_iff_not_imp_right.mpr fun hdialing s hs => or_iff_not_imp_left.mpr fun hne => ?_
    have hknown : (d.mesh.peerMgr.peers p).isSome := by
      rw [← Option.isSome_map (f := PeerRecord.state), ← stateOf, hs]
      rfl
    have hnot : d.mesh.peerMgr.isConnected p = false := by
      rw [Bool.eq_false_iff, Ne, isConnected_iff, hs]
      exact fun he => hne (Option.some.inj he)
    exact Option.some.inj (hs.symm.trans (eligible_iff.mp (h p hknown hnot hdialing)))
  · intro h p hknown hnot hdialing
    rw [eligible_iff]
    obtain ⟨record, hp⟩ := Option.isSome_iff_exists.mp hknown
    have hs : stateOf p d.mesh = some record.state := by
      rw [stateOf, hp]
      rfl
    rcases (h p).resolve_right hdialing _ hs with hconnected | hdead
    · rw [hconnected, ← isConnected_iff, hnot] at hs
      cases hs
    · rw [hs, hdead]

theorem Settled.congr (h : Settled p m) (hstate : stateOf p m' = stateOf p m) : Settled p m' :=
  fun s hs => h s (hstate.symm.trans hs)

theorem settled_of_connected (h : stateOf p m = some .Connected) : Settled p m :=
  fun _ hs => .inl (Option.some.inj (hs.symm.trans h))

end

/-! ### What the loop does to the states -/

section
variable {m m' m'' : Mesh} {p q : NodeId} {config : NetworkConfig}

theorem stateOf_congr (h : m'.peerMgr.peers q = m.peerMgr.peers q) : stateOf q m' = stateOf q m := by
  rw [stateOf, h, stateOf]

theorem stateOf_modifyPeer_self {f : PeerRecord → PeerRecord} (h : m'.peerMgr = m.peerMgr.modifyPeer p f)
    (s : ConnectionState) (hf : ∀ record, (f record).state = s) : stateOf p m' = (stateOf p m).map fun _ => s := by
  rw [stateOf, h, stateOf]
  refine (congrArg _ (Function.update_self _ _ _)).trans ?_
  rw [Option.map_map, Option.map_map]
  exact congrArg (fun g => Option.map g (m.peerMgr.peers p)) (funext hf)

theorem stateOf_modifyPeer_of_ne {f : PeerRecord → PeerRecord} (h : m'.peerMgr = m.peerMgr.modifyPeer p f)
    (hq : q ≠ p) : stateOf q m' = stateOf q m := by
  refine stateOf_congr ?_
  rw [h]
  exact Function.update_of_ne hq _ _

theorem stateOf_modifyPeer {f : PeerRecord → PeerRecord} (h : m'.peerMgr = m.peerMgr.modifyPeer p f)
    (hf : ∀ record, (f record).state = record.state) : stateOf q m' = stateOf q m := by
  by_cases hq : q = p
  · subst hq
    rw [stateOf, h, stateOf]
    refine (congrArg _ (Function.update_self _ _ _)).trans ?_
    rw [Option.map_map]
    exact congrArg (fun g => Option.map g (m.peerMgr.peers q)) (funext hf)
  · exact stateOf_modifyPeer_of_ne h hq

/-- Some peers are declared dead, and their channels go. -/
structure Buries (m m' : Mesh) : Prop where
  localId : m'.peerMgr.localId = m.peerMgr.localId
  each : ∀ q, stateOf q m' = stateOf q m ∧ m'.peerWriters q = m.peerWriters q ∨
    (stateOf q m' = (stateOf q m).map fun _ => .Dead) ∧ m'.peerWriters q = none

theorem Buries.refl (m : Mesh) : Buries m m := ⟨rfl, fun _ => .inl ⟨rfl, rfl⟩⟩

theorem Buries.trans (h : Buries m m') (h' : Buries m' m'') : Buries m m'' := by
  refine ⟨h'.localId.trans h.localId, fun q => ?_⟩
  rcases h'.each q with ⟨hsame, hwriter⟩ | ⟨hdead, hnone⟩
  · rw [hsame, hwriter]
    exact h.each q
  · refine .inr ⟨hdead.trans ?_, hnone⟩
    rcases h.each q with ⟨hsame, -⟩ | ⟨hdead', -⟩
    · rw [hsame]
    · rw [hdead', Option.map_map]
      rfl

/-- A change of the record of one peer, that is declared dead. -/
theorem Buries.of_modifyPeer {f : PeerRecord → PeerRecord} (h : m'.peerMgr = m.peerMgr.modifyPeer p f)
    (hf : ∀ record, (f record).state = .Dead) (hw : m'.peerWriters = Function.update m.peerWriters p none) :
    Buries m m' := by
  refine ⟨?_, fun q => ?_⟩
  · rw [h]
    rfl
  · rw [hw]
    by_cases hq : q = p
    · subst hq
      exact .inr ⟨stateOf_modifyPeer_self h .Dead hf, Function.update_self _ _ _⟩
    · exact .inl ⟨stateOf_modifyPeer_of_ne h hq, Function.update_of_ne hq _ _⟩

theorem disconnected_buries (now random : ℕ) (p : NodeId) (m : Mesh) : Buries m (m.disconnected now random p) :=
  .of_modifyPeer rfl (fun _ => rfl) rfl

/-- A peer that has missed too many heartbeats is declared dead. -/
theorem heartbeatMissed_cases (p : NodeId) (pm : PeerManager) :
    (∃ f, (∀ record, (f record).state = .Dead) ∧ pm.heartbeatMissed p = (true, pm.modifyPeer p f)) ∨
      (∃ f, (∀ record, (f record).state = record.state) ∧ pm.heartbeatMissed p = (false, pm.modifyPeer p f)) ∨
      pm.heartbeatMissed p = (false, pm) := by
  unfold PeerManager.heartbeatMissed
  cases pm.peers p with
  | none => exact .inr (.inr rfl)
  | some record =>
    dsimp only
    split_ifs
    · exact .inl ⟨_, fun _ => rfl, rfl⟩
    · refine .inr (.inl ⟨_, ?_, rfl⟩)
      exact fun _ => rfl

theorem checkLiveness_buries (now : ℕ) (p : NodeId) (m : Mesh) : Buries m (m.checkLiveness config now p) := by
  unfold Mesh.checkLiveness
  cases m.peerMgr.peers p with
  | none => exact .refl m
  | some record =>
    dsimp only
    by_cases hlate : config.heartbeatInterval * 2 < now - record.lastSeen
    · rw [if_pos hlate]
      rcases heartbeatMissed_cases p m.peerMgr with ⟨f, hf, h⟩ | ⟨f, hf, h⟩ | h
      · rw [h]
        exact .of_modifyPeer rfl hf rfl
      · rw [h]
        exact ⟨rfl, fun q => .inl ⟨stateOf_modifyPeer rfl hf, rfl⟩⟩
      · rw [h]
        exact .refl m
    · rw [if_neg hlate]
      exact .refl m

theorem heartbeatTick_buries (now : ℕ) (order : List NodeId) (m : Mesh) :
    Buries m (m.heartbeatTick config now order) := by
  unfold Mesh.heartbeatTick
  generalize order.dedup.filter (fun p => m.peerMgr.isConnected p) = peers
  induction peers generalizing m with
  | nil => exact .refl m
  | cons p peers ih => exact (checkLiveness_buries now p m).trans (ih _)

theorem connected_localId (connection now : ℕ) (listenAddr : SocketAddr) (publicKey : Bytes) (outbound : Bool) :
    (m.connected connection now p listenAddr publicKey outbound).peerMgr.localId = m.peerMgr.localId := by
  unfold Mesh.connected PeerManager.registerPeer
  split_ifs <;> rfl

theorem connected_of_ne (connection now : ℕ) (listenAddr : SocketAddr) (publicKey : Bytes) (outbound : Bool)
    (h : q ≠ p) :
    stateOf q (m.connected connection now p listenAddr publicKey outbound) = stateOf q m ∧
      (m.connected connection now p listenAddr publicKey outbound).peerWriters q = m.peerWriters q := by
  unfold Mesh.connected PeerManager.registerPeer
  split_ifs
  · exact ⟨rfl, rfl⟩
  · exact ⟨rfl, Function.update_of_ne h _ _⟩
  · exact ⟨stateOf_congr (Function.update_of_ne h _ _), Function.update_of_ne h _ _⟩

/-- A peer that comes is connected after it, if its channel said so before. -/
theorem connected_self (connection now : ℕ) (listenAddr : SocketAddr) (publicKey : Bytes) (outbound : Bool)
    (h : (m.peerWriters p).isSome → stateOf p m = some .Connected) (hp : p ≠ m.peerMgr.localId) :
    stateOf p (m.connected connection now p listenAddr publicKey outbound) = some .Connected ∧
      ((m.connected connection now p listenAddr publicKey outbound).peerWriters p).isSome := by
  unfold Mesh.connected PeerManager.registerPeer
  split_ifs with hwriter
  · exact ⟨h hwriter, hwriter⟩
  · refine ⟨?_, ?_⟩
    · rw [stateOf]
      exact congrArg (Option.map PeerRecord.state) (Function.update_self p _ m.peerMgr.peers)
    · exact congrArg Option.isSome (Function.update_self p (some connection) m.peerWriters)

/-- The node itself gets no record. -/
theorem connected_local (connection now : ℕ) (listenAddr : SocketAddr) (publicKey : Bytes) (outbound : Bool) :
    stateOf q (m.connected connection now m.peerMgr.localId listenAddr publicKey outbound) = stateOf q m := by
  unfold Mesh.connected PeerManager.registerPeer
  rw [if_pos rfl]
  split_ifs <;> rfl

theorem reconnect_localId (p : NodeId) (m : Mesh) :
    (m.reconnect p).peerMgr.localId = m.peerMgr.localId ∧ (m.reconnect p).peerWriters = m.peerWriters := by
  unfold Mesh.reconnect
  split_ifs
  · exact ⟨rfl, rfl⟩
  · exact ⟨rfl, rfl⟩

/-- A peer is dialled at a tick. -/
def Redialled (m : Mesh) (p : NodeId) : Prop :=
  m.peerMgr.shouldDial p = true ∧ (m.peerWriters p).isNone = true

theorem stateOf_reconnect_self (h : Redialled m p) :
    stateOf p (m.reconnect p) = (stateOf p m).map fun _ => .Connecting := by
  have hnot : ¬ (!m.peerMgr.shouldDial p || (m.peerWriters p).isSome) = true := by
    rw [h.1, Option.isNone_iff_eq_none.mp h.2]
    exact Bool.false_ne_true
  exact stateOf_modifyPeer_self (congrArg Mesh.peerMgr (if_neg hnot)) .Connecting fun _ => rfl

theorem stateOf_reconnect_of_ne (h : q ≠ p) : stateOf q (m.reconnect p) = stateOf q m := by
  unfold Mesh.reconnect
  split_ifs
  · rfl
  · exact stateOf_modifyPeer_of_ne rfl h

theorem reconnect_of_not (h : ¬ Redialled m p) : m.reconnect p = m := by
  refine if_pos ?_
  rw [Redialled, not_and_or] at h
  rcases h with hdial | hwriter
  · rw [Bool.not_eq_true] at hdial
    rw [hdial]
    rfl
  · rw [Bool.not_eq_true, Option.isNone_eq_false_iff] at hwriter
    rw [hwriter, Bool.or_true]

/-- Some peers are marked as connecting: those of the list that are dialled. -/
structure Redials (peers : List NodeId) (m m' : Mesh) : Prop where
  localId : m'.peerMgr.localId = m.peerMgr.localId
  writers : m'.peerWriters = m.peerWriters
  connecting : ∀ q ∈ peers, Redialled m q → stateOf q m' = (stateOf q m).map fun _ => .Connecting
  others : ∀ q, ¬ (q ∈ peers ∧ Redialled m q) → stateOf q m' = stateOf q m

theorem redialled_reconnect (p : NodeId) : Redialled (m.reconnect p) q ↔ Redialled m q := by
  rw [Redialled, PeerManager.shouldDial, (reconnect_localId p m).1, (reconnect_localId p m).2, Redialled,
    PeerManager.shouldDial]

theorem foldl_reconnect_redials (peers : List NodeId) (m : Mesh) :
    Redials peers m (peers.foldl Mesh.reconnect m) := by
  induction peers generalizing m with
  | nil => exact ⟨rfl, rfl, fun _ hq => absurd hq List.not_mem_nil, fun _ _ => rfl⟩
  | cons p peers ih =>
    have hrest := ih (m.reconnect p)
    obtain ⟨hlocal, hwriters⟩ := reconnect_localId p m
    refine ⟨hrest.localId.trans hlocal, hrest.writers.trans hwriters, fun q hq hdial => ?_, fun q hnot => ?_⟩
    · have hfirst : stateOf q (m.reconnect p) = (stateOf q m).map (fun _ => .Connecting) ∨
          q ∈ peers ∧ stateOf q (m.reconnect p) = stateOf q m := by
        by_cases hqp : q = p
        · subst hqp
          exact .inl (stateOf_reconnect_self hdial)
        · exact .inr ⟨(List.mem_cons.mp hq).resolve_left hqp, stateOf_reconnect_of_ne hqp⟩
      rcases hfirst with hfirst | ⟨hmem, hfirst⟩
      · by_cases hmem : q ∈ peers
        · refine (hrest.connecting q hmem ((redialled_reconnect p).mpr hdial)).trans ?_
          rw [hfirst, Option.map_map]
          rfl
        · exact (hrest.others q fun h => hmem h.1).trans hfirst
      · refine (hrest.connecting q hmem ((redialled_reconnect p).mpr hdial)).trans ?_
        rw [hfirst]
    · refine (hrest.others q fun h => hnot ⟨List.mem_cons_of_mem _ h.1, (redialled_reconnect p).mp h.2⟩).trans ?_
      by_cases hqp : q = p
      · subst hqp
        rw [reconnect_of_not fun hdial => hnot ⟨List.mem_cons_self, hdial⟩]
      · exact stateOf_reconnect_of_ne hqp

/-- The peers that an exchange names and that are neither known nor the node itself. -/
def New (peers : List (NodeId × SocketAddr)) (pm : PeerManager) (q : NodeId) : Prop :=
  (∃ addr, (q, addr) ∈ peers) ∧ q ≠ pm.localId ∧ pm.peers q = none

end

namespace PeerExchange

variable {pm : PeerManager} {p q : NodeId} {peers : List (NodeId × SocketAddr)}

theorem ingest_skip (now : ℕ) (addr : SocketAddr) (h : p = pm.localId ∨ (pm.peers p).isSome) :
    pm.ingestPeerExchange now ((p, addr) :: peers) = pm.ingestPeerExchange now peers :=
  if_pos h

/-- The record of a peer that is not known yet. -/
def learn (now : ℕ) (p : NodeId) (addr : SocketAddr) (pm : PeerManager) : PeerManager :=
  { pm with peers := Function.update pm.peers p (some ⟨p, addr, .Disconnected, none, now, 0, 0, some now, true⟩) }

theorem ingest_learn (now : ℕ) (addr : SocketAddr) (h : ¬ (p = pm.localId ∨ (pm.peers p).isSome)) :
    pm.ingestPeerExchange now ((p, addr) :: peers) =
      ((p, addr) :: ((learn now p addr pm).ingestPeerExchange now peers).1,
        ((learn now p addr pm).ingestPeerExchange now peers).2) :=
  if_neg h

theorem new_cons_of_skip (addr : SocketAddr) (h : p = pm.localId ∨ (pm.peers p).isSome) :
    New ((p, addr) :: peers) pm q ↔ New peers pm q := by
  refine ⟨fun ⟨⟨a, ha⟩, hne, hnone⟩ => ⟨?_, hne, hnone⟩, fun ⟨⟨a, ha⟩, hne, hnone⟩ =>
    ⟨⟨a, List.mem_cons_of_mem _ ha⟩, hne, hnone⟩⟩
  rcases List.mem_cons.mp ha with heq | ha
  · obtain ⟨rfl, -⟩ := Prod.mk.inj heq
    rcases h with h | h
    · exact absurd h hne
    · rw [hnone] at h
      cases h
  · exact ⟨a, ha⟩

theorem new_learn (now : ℕ) (addr : SocketAddr) : New peers (learn now p addr pm) q ↔ q ≠ p ∧ New peers pm q := by
  by_cases hq : q = p
  · subst hq
    refine iff_of_false (fun h => ?_) fun h => h.1 rfl
    have hnone : Function.update pm.peers q _ q = none := h.2.2
    rw [Function.update_self] at hnone
    cases hnone
  · have hpeers : (learn now p addr pm).peers q = pm.peers q := Function.update_of_ne hq _ _
    rw [New, hpeers, and_iff_right hq]
    exact Iff.rfl

theorem new_cons (addr : SocketAddr) (h : ¬ (p = pm.localId ∨ (pm.peers p).isSome)) :
    New ((p, addr) :: peers) pm q ↔ q = p ∨ q ≠ p ∧ New peers pm q := by
  by_cases hq : q = p
  · subst hq
    refine iff_of_true ⟨⟨addr, List.mem_cons_self⟩, fun he => h (.inl he), ?_⟩ (.inl rfl)
    exact Option.not_isSome_iff_eq_none.mp fun hs => h (.inr hs)
  · rw [or_iff_right hq, and_iff_right hq]
    refine and_congr_left fun _ => exists_congr fun a => ?_
    rw [List.mem_cons, or_iff_right]
    exact fun he => hq (Prod.mk.inj he).1

/-- What `ingest_peer_exchange` returns and what it leaves in the table. -/
theorem ingest_spec (now : ℕ) (peers : List (NodeId × SocketAddr)) (pm : PeerManager) :
    (∀ q, (∃ addr, (q, addr) ∈ (pm.ingestPeerExchange now peers).1) ↔ New peers pm q) ∧
    ((pm.ingestPeerExchange now peers).1.map Prod.fst).Nodup ∧
    (pm.ingestPeerExchange now peers).2.localId = pm.localId ∧
    ∀ q, (New peers pm q → ((pm.ingestPeerExchange now peers).2.peers q).map PeerRecord.state = some .Disconnected) ∧
      (¬ New peers pm q → (pm.ingestPeerExchange now peers).2.peers q = pm.peers q) := by
  induction peers generalizing pm with
  | nil =>
    have hnot : ∀ q, ¬ New [] pm q := fun q h => List.not_mem_nil h.1.choose_spec
    exact ⟨fun q => iff_of_false (fun h => List.not_mem_nil h.choose_spec) (hnot q), List.nodup_nil, rfl,
      fun q => ⟨fun h => absurd h (hnot q), fun _ => rfl⟩⟩
  | cons peer peers ih =>
    obtain ⟨p, addr⟩ := peer
    by_cases h : p = pm.localId ∨ (pm.peers p).isSome
    · rw [ingest_skip now addr h]
      simp only [new_cons_of_skip addr h]
      exact ih pm
    · obtain ⟨hmem, hnodup, hlocal, heach⟩ := ih (learn now p addr pm)
      rw [ingest_learn now addr h]
      simp only [new_cons addr h]
      simp only [new_learn] at hmem heach
      refine ⟨fun q => ?_, ?_, hlocal, fun q => ⟨?_, ?_⟩⟩
      · rw [← hmem q]
        simp only [List.mem_cons, Prod.mk.injEq, exists_or, exists_and_left, exists_eq, and_true]
      · refine List.nodup_cons.mpr ⟨fun hp => ?_, hnodup⟩
        obtain ⟨⟨_, a⟩, ha, rfl⟩ := List.mem_map.mp hp
        exact ((hmem _).mp ⟨a, ha⟩).1 rfl
      · rintro (rfl | hnew)
        · rw [(heach q).2 fun hnew => hnew.1 rfl]
          exact congrArg (Option.map PeerRecord.state) (Function.update_self q _ pm.peers)
        · exact (heach q).1 hnew
      · intro hnot
        obtain ⟨hq, hnot⟩ := not_or.mp hnot
        rw [(heach q).2 hnot]
        exact Function.update_of_ne hq _ _

end PeerExchange

/-! ### What holds between two events -/

/-- Apart from the node itself, the peers with a channel are the connected ones; the dials are for known peers. -/
structure Inv (d : Dialer) : Prop where
  writers : ∀ q, q ≠ d.mesh.peerMgr.localId →
    ((d.mesh.peerWriters q).isSome ↔ stateOf q d.mesh = some .Connected)
  own : stateOf d.mesh.peerMgr.localId d.mesh = none
  known : ∀ q, Dialing q d.dials → stateOf q d.mesh ≠ none

/-- Every dial that ends brings the peer that it was for, unless that is connected or dead or dialled once more. An
exchange that is looked at names no unknown peer that the node does not dial, and a tick finds no peer to dial that
is being dialled. -/
def Meets (config : NetworkConfig) : Event × Dialer → Prop
  | (.dialed dial _ _ peerId _ _, d) => dial ∈ d.dials →
    ∀ q, dial.peer = some q → q = peerId ∨ Settled q d.mesh ∨ Dialing q (d.dials.erase dial)
  | (.dialFailed dial, d) => dial ∈ d.dials →
    ∀ q, dial.peer = some q → Settled q d.mesh ∨ Dialing q (d.dials.erase dial)
  | (.messageReceived now peerId (some knownPeers), d) =>
    (nextRate now peerId d.mesh).1 ≤ config.maxMessagesPerSecondPerPeer →
    ∀ q, New knownPeers d.mesh.peerMgr q → d.mesh.peerMgr.shouldDial q = true
  | (.reconnectTick now order, d) => ∀ q ∈ order, d.mesh.peerMgr.needsReconnect now q = true →
    d.mesh.peerMgr.shouldDial q = true → ¬ Dialing q d.dials
  | _ => True

section
variable {d : Dialer} {m m' : Mesh} {p q : NodeId} {dials : List Dial} {dial : Dial} {config : NetworkConfig}

theorem settled_of_none (h : stateOf p m = none) : Settled p m := by
  intro s hs
  rw [h] at hs
  cases hs

theorem Inv.ne_local (h : Inv d) (hq : stateOf q d.mesh ≠ none) : q ≠ d.mesh.peerMgr.localId := by
  rintro rfl
  exact hq h.own

/-- A known peer that is not connected has no channel. -/
theorem Inv.isNone (h : Inv d) (hq : q ≠ d.mesh.peerMgr.localId) (hs : stateOf q d.mesh ≠ some .Connected) :
    (d.mesh.peerWriters q).isNone = true := by
  rw [← Option.not_isSome, Bool.not_eq_true', Bool.eq_false_iff]
  exact fun hsome => hs ((h.writers q hq).mp hsome)

theorem inv_start (config : NetworkConfig) (localId : NodeId) (seedNodes : List SocketAddr) :
    Inv (start config localId seedNodes) := by
  refine ⟨fun q _ => iff_of_false Bool.false_ne_true fun h => Option.some_ne_none _ h.symm, rfl, ?_⟩
  rintro q ⟨dial, hmem, hq⟩
  obtain ⟨addr, -, rfl⟩ := List.mem_map.mp hmem
  cases hq

theorem reconnects_start (config : NetworkConfig) (localId : NodeId) (seedNodes : List SocketAddr) :
    Reconnects (start config localId seedNodes) :=
  reconnects_iff.mpr fun _ => .inl (settled_of_none rfl)

/-! #### Peers that go -/

theorem Buries.inv (h : Inv d) (hb : Buries d.mesh m') : Inv { d with mesh := m' } := by
  refine ⟨fun q hq => ?_, ?_, fun q hdial => ?_⟩
  · rcases hb.each q with ⟨hstate, hwriter⟩ | ⟨hstate, hwriter⟩
    · dsimp only
      rw [hstate, hwriter]
      exact h.writers q fun he => hq (he.trans hb.localId.symm)
    · refine iff_of_false ?_ ?_
      · dsimp only
        rw [hwriter]
        exact Bool.false_ne_true
      · dsimp only
        rw [hstate]
        cases stateOf q d.mesh <;> simp
  · dsimp only
    rw [hb.localId]
    rcases hb.each d.mesh.peerMgr.localId with ⟨hstate, -⟩ | ⟨hstate, -⟩
    · rw [hstate, h.own]
    · rw [hstate, h.own, Option.map_none]
  · dsimp only
    rcases hb.each q with ⟨hstate, -⟩ | ⟨hstate, -⟩
    · rw [hstate]
      exact h.known q hdial
    · rw [hstate, Ne, Option.map_eq_none_iff]
      exact h.known q hdial

theorem Buries.settled (hb : Buries m m') (h : Settled p m) : Settled p m' := by
  rcases hb.each p with ⟨hstate, -⟩ | ⟨hstate, -⟩
  · exact h.congr hstate
  · intro s hs
    rw [hstate, Option.map_eq_some_iff] at hs
    obtain ⟨_, -, rfl⟩ := hs
    exact .inr rfl

theorem Buries.reconnects (h : Reconnects d) (hb : Buries d.mesh m') : Reconnects { d with mesh := m' } :=
  reconnects_iff.mpr fun q => (reconnects_iff.mp h q).imp_left hb.settled

/-! #### Peers that come -/

theorem connected_settled (h : Inv d) (connection now : ℕ) (listenAddr : SocketAddr) (publicKey : Bytes)
    (outbound : Bool) (hq : Settled q d.mesh) :
    Settled q (d.mesh.connected connection now p listenAddr publicKey outbound) := by
  by_cases hqp : q = p
  · subst hqp
    by_cases hlocal : q = d.mesh.peerMgr.localId
    · rw [hlocal] at hq ⊢
      exact hq.congr (connected_local connection now listenAddr publicKey outbound)
    · exact settled_of_connected
        (connected_self connection now listenAddr publicKey outbound (h.writers q hlocal).mp hlocal).1
  · exact hq.congr (connected_of_ne connection now listenAddr publicKey outbound hqp).1

theorem connected_inv (h : Inv d) (connection now : ℕ) (listenAddr : SocketAddr) (publicKey : Bytes)
    (outbound : Bool) (hdials : dials ⊆ d.dials) :
    Inv ⟨d.mesh.connected connection now p listenAddr publicKey outbound, dials⟩ := by
  have hother := fun {q} hqp =>
    connected_of_ne (m := d.mesh) (p := p) (q := q) connection now listenAddr publicKey outbound hqp
  have hself := fun hlocal =>
    connected_self (p := p) connection now listenAddr publicKey outbound (h.writers p hlocal).mp hlocal
  have hlocal := connected_localId (m := d.mesh) (p := p) connection now listenAddr publicKey outbound
  refine ⟨fun q hq => ?_, ?_, fun q ⟨dial, hmem, hdial⟩ => ?_⟩
  · rw [hlocal] at hq
    by_cases hqp : q = p
    · subst hqp
      exact iff_of_true (hself hq).2 (hself hq).1
    · dsimp only
      rw [(hother hqp).1, (hother hqp).2]
      exact h.writers q hq
  · dsimp only
    rw [hlocal]
    by_cases hqp : d.mesh.peerMgr.localId = p
    · subst hqp
      rw [connected_local]
      exact h.own
    · rw [(hother hqp).1]
      exact h.own
  · have hknown := h.known q ⟨dial, hdials hmem, hdial⟩
    dsimp only
    by_cases hqp : q = p
    · subst hqp
      rw [(hself (h.ne_local hknown)).1]
      exact Option.some_ne_none _
    · rw [(hother hqp).1]
      exact hknown

/-! #### Dials that end -/

theorem dialing_erase (h : Dialing q d.dials) (hne : dial.peer ≠ some q) : Dialing q (d.dials.erase dial) := by
  obtain ⟨other, hmem, hq⟩ := h
  refine ⟨other, (List.mem_erase_of_ne ?_).mpr hmem, hq⟩
  rintro rfl
  exact hne hq

/-- Only the peer that it was for may miss a dial that has ended. -/
theorem reconnects_erase_iff (h : Reconnects d) (hkeeps : ∀ q, Settled q d.mesh → Settled q m') :
    Reconnects ⟨m', d.dials.erase dial⟩ ↔
      ∀ q, dial.peer = some q → Settled q m' ∨ Dialing q (d.dials.erase dial) := by
  refine reconnects_iff.trans ⟨fun hall q _ => hall q, fun hpeer q => ?_⟩
  by_cases hq : dial.peer = some q
  · exact hpeer q hq
  · exact (reconnects_iff.mp h q).imp (hkeeps q) fun hdialing => dialing_erase hdialing hq

theorem dialed_reconnects_iff (hinv : Inv d) (h : Reconnects d) (hmem : dial ∈ d.dials) (connection now : ℕ)
    (listenAddr : SocketAddr) (publicKey : Bytes) :
    Reconnects ⟨d.mesh.connected connection now p listenAddr publicKey true, d.dials.erase dial⟩ ↔
      ∀ q, dial.peer = some q → q = p ∨ Settled q d.mesh ∨ Dialing q (d.dials.erase dial) := by
  rw [reconnects_erase_iff h fun q => connected_settled hinv connection now listenAddr publicKey true]
  refine forall_congr' fun q => forall_congr' fun hq => ?_
  have hlocal := hinv.ne_local (hinv.known q ⟨dial, hmem, hq⟩)
  by_cases hqp : q = p
  · subst hqp
    refine iff_of_true (.inl (settled_of_connected ?_)) (.inl rfl)
    exact (connected_self connection now listenAddr publicKey true (hinv.writers q hlocal).mp hlocal).1
  · have hstate := (connected_of_ne (m := d.mesh) connection now listenAddr publicKey true hqp).1
    rw [or_iff_right hqp]
    exact or_congr_left ⟨fun hs => hs.congr hstate.symm, fun hs => hs.congr hstate⟩

/-! #### Dials that start -/

theorem dialing_append : Dialing q (dials ++ d.dials) ↔ Dialing q dials ∨ Dialing q d.dials := by
  simp only [Dialing, List.mem_append, or_and_right, exists_or]

theorem dialing_startDials {peers : List (NodeId × SocketAddr)} :
    Dialing q (startDials peers m) ↔ (∃ addr, (q, addr) ∈ peers) ∧ Redialled m q := by
  constructor
  · rintro ⟨dial, hmem, hq⟩
    obtain ⟨⟨p, addr⟩, hpeer, rfl⟩ := List.mem_map.mp hmem
    obtain ⟨hpeer, hdial⟩ := List.mem_filter.mp hpeer
    obtain rfl : p = q := Option.some.inj hq
    exact ⟨⟨addr, hpeer⟩, Bool.and_eq_true_iff.mp hdial⟩
  · rintro ⟨⟨addr, hpeer⟩, hdial⟩
    refine ⟨⟨some q, addr⟩, List.mem_map.mpr ⟨(q, addr), ?_, rfl⟩, rfl⟩
    exact List.mem_filter.mpr ⟨hpeer, Bool.and_eq_true_iff.mpr hdial⟩

theorem startDials_nodup {peers : List (NodeId × SocketAddr)} (h : (peers.map Prod.fst).Nodup) :
    ((startDials peers m).map Dial.peer).Nodup := by
  have hpeers : (startDials peers m).map Dial.peer = ((peers.filter fun peer =>
      m.peerMgr.shouldDial peer.1 && (m.peerWriters peer.1).isNone).map Prod.fst).map some := by
    rw [startDials, List.map_map, List.map_map]
    rfl
  rw [hpeers]
  exact (h.sublist (List.filter_sublist.map Prod.fst)).map fun _ _ => Option.some.inj

theorem mem_peersNeedingReconnect {pm : PeerManager} {now : ℕ} {order : List NodeId} :
    (∃ addr, (q, addr) ∈ peersNeedingReconnect now order pm) ↔
      q ∈ order ∧ pm.needsReconnect now q = true := by
  constructor
  · rintro ⟨addr, hmem⟩
    obtain ⟨p, hp, hpeer⟩ := List.mem_filterMap.mp hmem
    obtain ⟨record, -, heq⟩ := Option.map_eq_some_iff.mp hpeer
    obtain ⟨rfl, -⟩ := Prod.mk.inj heq
    obtain ⟨hmem, hneeds⟩ := List.mem_filter.mp hp
    exact ⟨List.mem_dedup.mp hmem, hneeds⟩
  · rintro ⟨hmem, hneeds⟩
    cases hq : pm.peers q with
    | none =>
      rw [PeerManager.needsReconnect, hq] at hneeds
      cases hneeds
    | some record =>
      refine ⟨record.listenAddr, List.mem_filterMap.mpr ⟨q, ?_, ?_⟩⟩
      · exact List.mem_filter.mpr ⟨List.mem_dedup.mpr hmem, hneeds⟩
      · rw [hq]
        rfl

theorem peersNeedingReconnect_nodup (now : ℕ) (order : List NodeId) (pm : PeerManager) :
    ((peersNeedingReconnect now order pm).map Prod.fst).Nodup := by
  have hsub : ((peersNeedingReconnect now order pm).map Prod.fst).Sublist
      (order.dedup.filter fun p => pm.needsReconnect now p) := by
    rw [peersNeedingReconnect]
    generalize order.dedup.filter (fun p => pm.needsReconnect now p) = peers
    induction peers with
    | nil => exact List.Sublist.slnil
    | cons p peers ih =>
      rw [List.filterMap_cons]
      cases pm.peers p with
      | none => exact ih.cons p
      | some record => exact ih.cons_cons p
  exact ((List.nodup_dedup order).filter _).sublist hsub

/-- The node dials nobody below itself, and so not itself. -/
theorem ne_local_of_shouldDial {pm : PeerManager} (h : pm.shouldDial q = true) : q ≠ pm.localId := by
  rintro rfl
  exact BitVec.lt_irrefl _ (of_decide_eq_true h)

/-! #### Messages -/

theorem messageReceived_limited {now : ℕ} (knownPeers : Option (List (NodeId × SocketAddr)))
    (h : config.maxMessagesPerSecondPerPeer < (nextRate now p m).1) :
    (m.messageReceived config now p knownPeers).peerMgr = m.peerMgr ∧
      (m.messageReceived config now p knownPeers).peerWriters = m.peerWriters := by
  have heq : m.messageReceived config now p knownPeers =
      { m with rateCounters := Function.update m.rateCounters p (some (nextRate now p m)) } := if_pos h
  rw [heq]
  exact ⟨rfl, rfl⟩

theorem messageReceived_taken {now : ℕ} (knownPeers : Option (List (NodeId × SocketAddr)))
    (h : ¬ config.maxMessagesPerSecondPerPeer < (nextRate now p m).1) :
    (m.messageReceived config now p knownPeers).peerMgr = (match knownPeers with
      | some knownPeers => ((m.peerMgr.touch now p).ingestPeerExchange now knownPeers).2
      | none => m.peerMgr.touch now p) ∧
    (m.messageReceived config now p knownPeers).peerWriters = m.peerWriters := by
  have heq : m.messageReceived config now p knownPeers =
      { m with
        rateCounters := Function.update m.rateCounters p (some (nextRate now p m))
        peerMgr := match knownPeers with
          | some knownPeers => ((m.peerMgr.touch now p).ingestPeerExchange now knownPeers).2
          | none => m.peerMgr.touch now p } := if_neg h
  rw [heq]
  exact ⟨rfl, rfl⟩

theorem stateOf_touch (now : ℕ) (h : m'.peerMgr = m.peerMgr.touch now p) : stateOf q m' = stateOf q m :=
  stateOf_modifyPeer h fun _ => rfl

theorem new_touch (now : ℕ) (peers : List (NodeId × SocketAddr)) (pm : PeerManager) :
    New peers (pm.touch now p) q ↔ New peers pm q := by
  refine and_congr_right fun _ => and_congr_right fun _ => ?_
  by_cases hq : q = p
  · subst hq
    refine (Eq.congr_left (Function.update_self _ _ _)).trans ?_
    exact Option.map_eq_none_iff
  · exact Eq.congr_left (Function.update_of_ne hq _ _)

/-- An exchange that is looked at adds the new peers and leaves the others as they were. -/
structure Learns (peers : List (NodeId × SocketAddr)) (m m' : Mesh) : Prop where
  localId : m'.peerMgr.localId = m.peerMgr.localId
  writers : m'.peerWriters = m.peerWriters
  new : ∀ q, New peers m.peerMgr q → stateOf q m' = some .Disconnected
  others : ∀ q, ¬ New peers m.peerMgr q → stateOf q m' = stateOf q m

theorem messageReceived_learns (now : ℕ) (peers : List (NodeId × SocketAddr))
    (h : ¬ config.maxMessagesPerSecondPerPeer < (nextRate now p m).1) :
    Learns peers m (m.messageReceived config now p (some peers)) := by
  obtain ⟨hpeers, hwriters⟩ := messageReceived_taken (some peers) h
  obtain ⟨-, -, hlocal, heach⟩ := PeerExchange.ingest_spec now peers (m.peerMgr.touch now p)
  refine ⟨(congrArg PeerManager.localId hpeers).trans hlocal, hwriters, fun q hq => ?_, fun q hq => ?_⟩
  · rw [stateOf, hpeers]
    exact (heach q).1 ((new_touch now peers m.peerMgr).mpr hq)
  · have hstate := (heach q).2 fun hnew => hq ((new_touch now peers m.peerMgr).mp hnew)
    have htouch : stateOf q { m with peerMgr := m.peerMgr.touch now p } = stateOf q m := stateOf_touch now rfl
    rw [← htouch]
    refine stateOf_congr ?_
    rw [hpeers]
    exact hstate

theorem stateOf_of_new {peers : List (NodeId × SocketAddr)} (h : New peers m.peerMgr q) : stateOf q m = none := by
  rw [stateOf, h.2.2]
  rfl

theorem Learns.inv {peers : List (NodeId × SocketAddr)} (h : Inv d) (hl : Learns peers d.mesh m')
    (hdials : ∀ q, Dialing q dials → New peers d.mesh.peerMgr q ∨ Dialing q d.dials) : Inv ⟨m', dials⟩ := by
  refine ⟨fun q hq => ?_, ?_, fun q hdial => ?_⟩
  · dsimp only at hq ⊢
    rw [hl.localId] at hq
    rw [hl.writers, h.writers q hq]
    by_cases hnew : New peers d.mesh.peerMgr q
    · rw [hl.new q hnew, stateOf_of_new hnew]
      simp
    · rw [hl.others q hnew]
  · dsimp only
    rw [hl.localId, hl.others _ fun hnew => hnew.2.1 rfl, h.own]
  · dsimp only
    by_cases hnew : New peers d.mesh.peerMgr q
    · rw [hl.new q hnew]
      exact Option.some_ne_none _
    · rw [hl.others q hnew]
      exact h.known q ((hdials q hdial).resolve_left hnew)

/-- A new peer is dialled now or never. -/
theorem Learns.reconnects_iff {peers : List (NodeId × SocketAddr)} (hinv : Inv d) (h : Reconnects d)
    (hl : Learns peers d.mesh m')
    (hdials : ∀ q, Dialing q dials ↔ New peers d.mesh.peerMgr q ∧ Redialled d.mesh q) :
    Reconnects ⟨m', dials ++ d.dials⟩ ↔
      ∀ q, New peers d.mesh.peerMgr q → d.mesh.peerMgr.shouldDial q = true := by
  rw [Reconnection.reconnects_iff]
  constructor
  · intro hall q hnew
    have hnot : ¬ Settled q m' := fun hs => by
      rcases hs _ (hl.new q hnew) with h | h <;> cases h
    rcases dialing_append.mp ((hall q).resolve_left hnot) with hdialing | hdialing
    · exact ((hdials q).mp hdialing).2.1
    · exact absurd (stateOf_of_new hnew) (hinv.known q hdialing)
  · intro hdial q
    by_cases hnew : New peers d.mesh.peerMgr q
    · refine .inr (dialing_append.mpr (.inl ((hdials q).mpr ⟨hnew, hdial q hnew, ?_⟩)))
      refine hinv.isNone hnew.2.1 ?_
      rw [stateOf_of_new hnew]
      exact (Option.some_ne_none _).symm
    · exact ((Reconnection.reconnects_iff.mp h) q).imp (fun hs => hs.congr (hl.others q hnew)) fun hdialing =>
        dialing_append.mpr (.inr hdialing)

/-- A message that is no exchange, or is not looked at. -/
theorem messageReceived_buries {now : ℕ} {knownPeers : Option (List (NodeId × SocketAddr))}
    (h : knownPeers = none ∨ config.maxMessagesPerSecondPerPeer < (nextRate now p m).1) :
    Buries m (m.messageReceived config now p knownPeers) := by
  by_cases hrate : config.maxMessagesPerSecondPerPeer < (nextRate now p m).1
  · obtain ⟨hpeers, hwriters⟩ := messageReceived_limited knownPeers hrate
    refine ⟨by rw [hpeers], fun q => .inl ⟨stateOf_congr ?_, by rw [hwriters]⟩⟩
    rw [hpeers]
  · obtain rfl := h.resolve_right hrate
    obtain ⟨hpeers, hwriters⟩ := messageReceived_taken none hrate
    refine ⟨?_, fun q => .inl ⟨stateOf_touch now hpeers, by rw [hwriters]⟩⟩
    rw [hpeers]
    rfl

/-! #### Ticks -/

theorem Redials.inv {peers : List NodeId} (h : Inv d) (hr : Redials peers d.mesh m')
    (hdials : ∀ q, Dialing q dials → stateOf q d.mesh ≠ none) : Inv ⟨m', dials⟩ := by
  have hnone : ∀ q, stateOf q m' = none ↔ stateOf q d.mesh = none := fun q => by
    by_cases hq : q ∈ peers ∧ Redialled d.mesh q
    · rw [hr.connecting q hq.1 hq.2, Option.map_eq_none_iff]
    · rw [hr.others q hq]
  refine ⟨fun q hlocal => ?_, ?_, fun q hdial => (hnone q).not.mpr (hdials q hdial)⟩
  · dsimp only at hlocal ⊢
    rw [hr.localId] at hlocal
    rw [hr.writers]
    by_cases hq : q ∈ peers ∧ Redialled d.mesh q
    · rw [hr.connecting q hq.1 hq.2, Option.isNone_iff_eq_none.mp hq.2.2]
      cases stateOf q d.mesh <;> simp
    · rw [hr.others q hq]
      exact h.writers q hlocal
  · dsimp only
    rw [hr.localId, hnone]
    exact h.own

/-- Those that are marked are being dialled. -/
theorem Redials.reconnects {peers : List NodeId} (h : Reconnects d) (hr : Redials peers d.mesh m')
    (hdials : ∀ q ∈ peers, Redialled d.mesh q → Dialing q dials) : Reconnects ⟨m', dials ++ d.dials⟩ := by
  refine reconnects_iff.mpr fun q => ?_
  by_cases hq : q ∈ peers ∧ Redialled d.mesh q
  · exact .inr (dialing_append.mpr (.inl (hdials q hq.1 hq.2)))
  · exact ((reconnects_iff.mp h) q).imp (fun hs => hs.congr (hr.others q hq)) fun hdialing =>
      dialing_append.mpr (.inr hdialing)

theorem reconnectTick_redials (now : ℕ) (order : List NodeId) (m : Mesh) :
    Redials (order.dedup.filter fun p => m.peerMgr.needsReconnect now p) m (m.reconnectTick now order) :=
  foldl_reconnect_redials _ m

theorem dialing_reconnectTick {now : ℕ} {order : List NodeId} :
    Dialing q (started config (.reconnectTick now order) m) ↔
      (q ∈ order ∧ m.peerMgr.needsReconnect now q = true) ∧ Redialled m q :=
  dialing_startDials.trans (and_congr_left fun _ => mem_peersNeedingReconnect)

theorem reconnectTick_reconnects (now : ℕ) (order : List NodeId) (h : Reconnects d) :
    Reconnects ((machine config).next (.reconnectTick now order) d) := by
  refine (reconnectTick_redials now order d.mesh).reconnects h fun q hq hdial => ?_
  obtain ⟨hmem, hneeds⟩ := List.mem_filter.mp hq
  exact dialing_reconnectTick.mpr ⟨⟨List.mem_dedup.mp hmem, hneeds⟩, hdial⟩

/-- What a tick dials is dead, and so not connected. -/
theorem reconnectTick_dialsOnce_iff {now : ℕ} {order : List NodeId} (h : Inv d) :
    DialsOnce config (.reconnectTick now order, d) ↔ Meets config (.reconnectTick now order, d) := by
  constructor
  · intro honce q hmem hneeds hdial
    have hdead := state_of_needsReconnect hneeds
    have hnone : (d.mesh.peerWriters q).isNone = true := by
      refine h.isNone (ne_local_of_shouldDial hdial) ?_
      rw [hdead]
      exact fun he => ConnectionState.noConfusion (Option.some.inj he)
    exact (honce.fresh q (dialing_reconnectTick.mpr ⟨⟨hmem, hneeds⟩, hdial, hnone⟩)).1
  · intro hmeets
    refine ⟨startDials_nodup (peersNeedingReconnect_nodup now order d.mesh.peerMgr), fun q hdialing => ?_⟩
    obtain ⟨⟨hmem, hneeds⟩, hdial, -⟩ := dialing_reconnectTick.mp hdialing
    refine ⟨hmeets q hmem hneeds hdial, ?_⟩
    rw [Bool.eq_false_iff, Ne, isConnected_iff, state_of_needsReconnect hneeds]
    exact fun he => ConnectionState.noConfusion (Option.some.inj he)

/-! #### Exchanges -/

theorem dialing_exchange {now : ℕ} {peers : List (NodeId × SocketAddr)}
    (h : ¬ config.maxMessagesPerSecondPerPeer < (nextRate now p m).1) :
    Dialing q (started config (.messageReceived now p (some peers)) m) ↔ New peers m.peerMgr q ∧ Redialled m q := by
  rw [started, if_neg h, dialing_startDials, (PeerExchange.ingest_spec now peers (m.peerMgr.touch now p)).1,
    new_touch]

/-- A peer that is new is neither connected nor being dialled. -/
theorem exchange_dialsOnce (now : ℕ) (peers : List (NodeId × SocketAddr)) (hinv : Inv d)
    (h : ¬ config.maxMessagesPerSecondPerPeer < (nextRate now p d.mesh).1) :
    DialsOnce config (.messageReceived now p (some peers), d) := by
  refine ⟨?_, fun q hdialing => ?_⟩
  · dsimp only
    rw [started, if_neg h]
    exact startDials_nodup (PeerExchange.ingest_spec now peers (d.mesh.peerMgr.touch now p)).2.1
  · have hnone := stateOf_of_new ((dialing_exchange h).mp hdialing).1
    refine ⟨fun hold => hinv.known q hold hnone, ?_⟩
    rw [Bool.eq_false_iff, Ne, isConnected_iff, hnone]
    exact (Option.some_ne_none _).symm

theorem dialsOnce_of_nil {event : Event} (h : started config event d.mesh = []) : DialsOnce config (event, d) := by
  refine ⟨?_, fun q hdialing => ?_⟩
  · dsimp only
    rw [h]
    exact List.nodup_nil
  · dsimp only at hdialing
    rw [h] at hdialing
    exact absurd hdialing.choose_spec.1 List.not_mem_nil

theorem messageReceived_none_of_limited {now : ℕ} {knownPeers : Option (List (NodeId × SocketAddr))}
    (h : knownPeers = none ∨ config.maxMessagesPerSecondPerPeer < (nextRate now p m).1) :
    started config (.messageReceived now p knownPeers) m = [] := by
  cases knownPeers with
  | none => rfl
  | some peers => exact if_pos (h.resolve_left (Option.some_ne_none peers))

end

/-! ### Runs -/

section
variable {config : NetworkConfig} {d : Dialer}

theorem messageReceived_inv (now : ℕ) (p : NodeId) (knownPeers : Option (List (NodeId × SocketAddr))) (h : Inv d) :
    Inv ((machine config).next (.messageReceived now p knownPeers) d) := by
  by_cases hidle : knownPeers = none ∨ config.maxMessagesPerSecondPerPeer < (nextRate now p d.mesh).1
  · have hnext := (messageReceived_buries (p := p) hidle).inv h
    rw [← List.nil_append d.dials, ← messageReceived_none_of_limited hidle] at hnext
    exact hnext
  · obtain ⟨hsome, hrate⟩ := not_or.mp hidle
    obtain ⟨peers, rfl⟩ := Option.ne_none_iff_exists'.mp hsome
    refine (messageReceived_learns now peers hrate).inv h fun q hdialing => ?_
    exact (dialing_append.mp hdialing).imp_left fun hnew => ((dialing_exchange hrate).mp hnew).1

theorem next_inv (event : Event) (h : Inv d) : Inv ((machine config).next event d) := by
  cases event with
  | accepted connection now peerId listenAddr publicKey =>
    exact connected_inv h connection now listenAddr publicKey false (List.Subset.refl _)
  | dialed dial connection now peerId listenAddr publicKey =>
    refine iteInduction (motive := Inv) (fun _ => ?_) fun _ => h
    exact connected_inv h connection now listenAddr publicKey true List.erase_subset
  | dialFailed dial =>
    refine ⟨h.writers, h.own, fun q ⟨other, hmem, hq⟩ => h.known q ⟨other, List.mem_of_mem_erase hmem, hq⟩⟩
  | messageReceived now peerId knownPeers => exact messageReceived_inv now peerId knownPeers h
  | disconnected _ now random peerId => exact (disconnected_buries now random peerId d.mesh).inv h
  | heartbeatTick now order => exact (heartbeatTick_buries now order d.mesh).inv h
  | reconnectTick now order =>
    refine (reconnectTick_redials now order d.mesh).inv h fun q hdialing => ?_
    rcases dialing_append.mp hdialing with hnew | hold
    · rw [state_of_needsReconnect (dialing_reconnectTick.mp hnew).1.2]
      exact Option.some_ne_none _
    · exact h.known q hold

theorem messageReceived_iff (now : ℕ) (p : NodeId) (knownPeers : Option (List (NodeId × SocketAddr))) (hinv : Inv d)
    (h : Reconnects d) :
    Reconnects ((machine config).next (.messageReceived now p knownPeers) d) ∧
      DialsOnce config (.messageReceived now p knownPeers, d) ↔
    Meets config (.messageReceived now p knownPeers, d) := by
  by_cases hidle : knownPeers = none ∨ config.maxMessagesPerSecondPerPeer < (nextRate now p d.mesh).1
  · have hnil := messageReceived_none_of_limited hidle
    refine iff_of_true ⟨?_, dialsOnce_of_nil hnil⟩ ?_
    · have hnext := (messageReceived_buries (p := p) hidle).reconnects h
      rw [← List.nil_append d.dials, ← hnil] at hnext
      exact hnext
    · cases knownPeers with
      | none => trivial
      | some peers => exact fun hrate => absurd hrate (hidle.resolve_left (Option.some_ne_none peers)).not_ge
  · obtain ⟨hsome, hrate⟩ := not_or.mp hidle
    obtain ⟨peers, rfl⟩ := Option.ne_none_iff_exists'.mp hsome
    rw [and_iff_left (exchange_dialsOnce now peers hinv hrate)]
    refine ((messageReceived_learns now peers hrate).reconnects_iff hinv h
      fun q => dialing_exchange hrate).trans ?_
    exact ⟨fun hdial _ => hdial, fun hmeets => hmeets (not_lt.mp hrate)⟩

/-- What a step keeps, it keeps exactly under the condition. -/
theorem next_reconnects_iff (event : Event) (hinv : Inv d) (h : Reconnects d) :
    Reconnects ((machine config).next event d) ∧ DialsOnce config (event, d) ↔ Meets config (event, d) := by
  cases event with
  | accepted connection now peerId listenAddr publicKey =>
    refine iff_of_true ⟨reconnects_iff.mpr fun q => ?_, dialsOnce_of_nil rfl⟩ trivial
    exact (reconnects_iff.mp h q).imp_left (connected_settled hinv connection now listenAddr publicKey false)
  | dialed dial connection now peerId listenAddr publicKey =>
    rw [and_iff_left (dialsOnce_of_nil rfl)]
    by_cases hmem : dial ∈ d.dials
    · rw [machine]
      dsimp only
      rw [if_pos hmem, dialed_reconnects_iff hinv h hmem connection now listenAddr publicKey]
      exact ⟨fun hpeer _ => hpeer, fun hmeets => hmeets hmem⟩
    · rw [machine]
      dsimp only
      rw [if_neg hmem]
      exact iff_of_true h fun hmem' => absurd hmem' hmem
  | dialFailed dial =>
    rw [and_iff_left (dialsOnce_of_nil rfl)]
    by_cases hmem : dial ∈ d.dials
    · refine (reconnects_erase_iff h fun _ hs => hs).trans ?_
      exact ⟨fun hpeer _ => hpeer, fun hmeets => hmeets hmem⟩
    · refine iff_of_true ?_ fun hmem' => absurd hmem' hmem
      rw [machine]
      dsimp only
      rw [List.erase_of_not_mem hmem]
      exact h
  | messageReceived now peerId knownPeers => exact messageReceived_iff now peerId knownPeers hinv h
  | disconnected _ now random peerId =>
    exact iff_of_true ⟨(disconnected_buries now random peerId d.mesh).reconnects h, dialsOnce_of_nil rfl⟩ trivial
  | heartbeatTick now order =>
    exact iff_of_true ⟨(heartbeatTick_buries now order d.mesh).reconnects h, dialsOnce_of_nil rfl⟩ trivial
  | reconnectTick now order =>
    rw [and_iff_right (reconnectTick_reconnects now order h)]
    exact reconnectTick_dialsOnce_iff hinv

end

/-- Every known peer that is neither connected nor being dialled is dialled again sooner or later, in every state of a
run, and none is dialled that is connected or being dialled, if and only if every dial brings its peer or leaves it
settled or dialled once more, exchanges name no unknown peers but those that the node dials, and no peer is due at a
tick that is still being dialled. -/
theorem reconnecting_iff (config : NetworkConfig) (localId : NodeId) (seedNodes : List SocketAddr)
    (events : List Event) :
    (Reconnects (start config localId seedNodes) ∧
      ∀ p ∈ (machine config).trace events (start config localId seedNodes),
        Reconnects ((machine config).next p.1 p.2) ∧ DialsOnce config p) ↔
    ∀ p ∈ (machine config).trace events (start config localId seedNodes), Meets config p := by
  rw [and_iff_right (reconnects_start config localId seedNodes)]
  refine Machine.forall_trace_iff (Q := fun _ d => Inv d ∧ Reconnects d)
    (A := fun p => Reconnects ((machine config).next p.1 p.2) ∧ DialsOnce config p)
    (fun event _ d hd => next_reconnects_iff event hd.1 hd.2) (fun event _ d hd hmeets => ?_)
    ⟨inv_start config localId seedNodes, reconnects_start config localId seedNodes⟩
  exact ⟨next_inv event hd.1, ((next_reconnects_iff event hd.1 hd.2).mpr hmeets).1⟩

/-! ### A dial that fails -/

def bobAddr : SocketAddr := .V4 0 9000

/-- Bob connects and disconnects, and the dial that is to bring him back fails. -/
def failedDial : List Event := [
  .accepted 1 0 bobId bobAddr [],
  .disconnected 1 10 0 bobId,
  .reconnectTick 5000 [bobId],
  .dialFailed ⟨some bobId, bobAddr⟩]

theorem failed_dial_strands :
    ¬ (Reconnects (start meshConfig aliceId []) ∧
      ∀ p ∈ (machine meshConfig).trace failedDial (start meshConfig aliceId []),
        Reconnects ((machine meshConfig).next p.1 p.2) ∧ DialsOnce meshConfig p) := by
  rintro ⟨-, hgood⟩
  have hfails := hgood _ (List.mem_cons_of_mem _ (List.mem_cons_of_mem _ (List.mem_cons_of_mem _
    List.mem_cons_self)))
  have hstate : stateOf bobId ((machine meshConfig).final failedDial (start meshConfig aliceId [])).mesh =
      some .Connecting := by decide
  rcases reconnects_iff.mp hfails.1 bobId with hsettled | ⟨dial, hmem, -⟩
  · rcases hsettled _ hstate with h | h <;> cases h
  · have hnil : ((machine meshConfig).final failedDial (start meshConfig aliceId [])).dials = [] := by decide
    exact absurd (hnil ▸ hmem) List.not_mem_nil

end Coinjecture.Network.Mesh.Reconnection
