import Coinjecture.Lib.Trace
import Coinjecture.Network.Security

/-! # Connections and their slots

An inbound connection takes a slot of the limiter and one of the eclipse guard when it is accepted, an
outbound one a slot of the eclipse guard when it is registered; both give back what they have when their
task ends. Removing a peer gives slots back too, while the task of its connection still runs. An event is
what a task does from one wait for the network, or for a lock it decides under, to the next.

* `connections_safe_iff` : the counts are those of the live connections, the caps hold and nobody is
  refused below them, exactly if no peer is removed whose connection is counted, and no outbound
  connection is registered into a full subnet. -/

namespace Coinjecture.Network.Cpp.Connections

open Lib.Trace
open Core.Types
open Network.Security

abbrev PeerId := Bytes32

/-- How far the task of a connection is: in the handshake, past the check that its peer is not connected,
or in the message loop. -/
inductive Stage where
  | handshaking
  | admitted (peerId : PeerId)
  | looping (peerId : PeerId)
  deriving DecidableEq

/-- A connection from when it is accepted or registered to the end of its task. -/
structure Connection where
  id : ℕ
  ip : IpAddr
  isOutbound : Bool
  stage : Stage
  deriving DecidableEq

/-- An entry of the peer list. -/
structure Peer where
  id : PeerId
  ip : IpAddr
  lastSeen : ℕ
  deriving DecidableEq

structure CppNetwork where
  limiter : ConnectionLimiter
  eclipse : EclipseGuard
  bans : BanList
  peers : List Peer
  live : List Connection
  opened : ℕ

def PEER_TIMEOUT : ℕ := 90

namespace CppNetwork

def new (maxPerIp maxTotal maxPerSubnet banDuration : ℕ) : CppNetwork where
  limiter := .new maxPerIp maxTotal
  eclipse := .new maxPerSubnet
  bans := .new banDuration
  peers := []
  live := []
  opened := 0

def hasPeer (peerId : PeerId) (n : CppNetwork) : Bool := n.peers.any fun p => p.id = peerId

def insertPeer (p : Peer) (peers : List Peer) : List Peer := p :: peers.filter fun q => q.id ≠ p.id

/-- The connection with this id. -/
def connection (id : ℕ) (n : CppNetwork) : Option Connection := n.live.find? fun c => c.id = id

def releaseSlots (ip : IpAddr) (n : CppNetwork) : CppNetwork :=
  { n with limiter := n.limiter.release ip, eclipse := n.eclipse.remove ip }

/-- The task of an inbound connection ends before its message loop. -/
def abandon (c : Connection) (n : CppNetwork) : CppNetwork :=
  { n.releaseSlots c.ip with live := n.live.erase c }

/-- The security gate of the accept loop. -/
def accept (now : ℕ) (ip : IpAddr) (n : CppNetwork) : CppNetwork :=
  if n.bans.isIpBanned now ip then n
  else match n.limiter.tryAcquire ip with
    | .error _ => n
    | .ok limiter =>
      match n.eclipse.tryAdd ip with
      | none => { n with limiter := limiter.release ip }
      | some eclipse => { n with
          limiter := limiter
          eclipse := eclipse
          live := ⟨n.opened, ip, false, .handshaking⟩ :: n.live
          opened := n.opened + 1 }

/-- `handle_incoming_connection` up to the Hello: any of its failures. A peer id that does not match the key
bans the address. -/
def handshakeFailed (now id : ℕ) (mismatch : Bool) (n : CppNetwork) : CppNetwork :=
  match n.connection id with
  | some c =>
    if c.stage = .handshaking then
      { n.abandon c with bans := if mismatch then n.bans.banIp now c.ip else n.bans }
    else n
  | none => n

/-- The check that the peer is not connected yet. -/
def helloPassed (id : ℕ) (peerId : PeerId) (n : CppNetwork) : CppNetwork :=
  match n.connection id with
  | some c =>
    if c.stage = .handshaking then
      if n.hasPeer peerId then n.abandon c
      else { n with live := { c with stage := .admitted peerId } :: n.live.erase c }
    else n
  | none => n

/-- The rest of `handle_incoming_connection`: the peer list is not looked at again. -/
def inboundRegistered (now id : ℕ) (n : CppNetwork) : CppNetwork :=
  match n.connection id with
  | some c =>
    match c.stage with
    | .admitted peerId => { n with
        peers := insertPeer ⟨peerId, c.ip, now⟩ n.peers
        live := { c with stage := .looping peerId } :: n.live.erase c }
    | _ => n
  | none => n

/-- `connect_bootnode` from its last check of the peer list on. A full subnet is logged. -/
def outboundRegistered (now : ℕ) (ip : IpAddr) (peerId : PeerId) (n : CppNetwork) : CppNetwork :=
  if n.hasPeer peerId then n
  else { n with
    peers := insertPeer ⟨peerId, ip, now⟩ n.peers
    eclipse := (n.eclipse.tryAdd ip).getD n.eclipse
    live := ⟨n.opened, ip, true, .looping peerId⟩ :: n.live
    opened := n.opened + 1 }

/-- A peer is heard of. -/
def touch (now : ℕ) (peerId : PeerId) (n : CppNetwork) : CppNetwork :=
  { n with peers := n.peers.map fun p => if p.id = peerId then { p with lastSeen := now } else p }

/-- The end of `peer_message_loop` and of the task it runs in. -/
def loopEnded (id : ℕ) (n : CppNetwork) : CppNetwork :=
  match n.connection id with
  | some c =>
    match c.stage with
    | .looping peerId => { n with
        peers := n.peers.filter fun p => p.id ≠ peerId
        limiter := if c.isOutbound then n.limiter else n.limiter.release c.ip
        eclipse := n.eclipse.remove c.ip
        live := n.live.erase c }
    | _ => n
  | none => n

/-- A peer is taken off the list, and slots of its address are given back. -/
def dropPeer (n : CppNetwork) (p : Peer) : CppNetwork :=
  { n.releaseSlots p.ip with peers := n.peers.filter fun q => q.id ≠ p.id }

def peer (peerId : PeerId) (n : CppNetwork) : Option Peer := n.peers.find? fun p => p.id = peerId

def removePeer (peerId : PeerId) (n : CppNetwork) : CppNetwork :=
  match n.peer peerId with
  | some p => n.dropPeer p
  | none => n

def stalePeers (now : ℕ) (n : CppNetwork) : List Peer :=
  n.peers.filter fun p => PEER_TIMEOUT < now - p.lastSeen

def cleanupStalePeers (now : ℕ) (n : CppNetwork) : CppNetwork :=
  { (n.stalePeers now).foldl dropPeer n with bans := n.bans.cleanupExpired now }

def ban (now : ℕ) (ip : IpAddr) (short : Bool) (n : CppNetwork) : CppNetwork :=
  { n with bans := if short then n.bans.banIpShort now ip else n.bans.banIp now ip }

end CppNetwork

inductive Event where
  | accept (now : ℕ) (ip : IpAddr)
  | handshakeFailed (now id : ℕ) (mismatch : Bool)
  | helloPassed (id : ℕ) (peerId : PeerId)
  | inboundRegistered (now id : ℕ)
  | outboundRegistered (now : ℕ) (ip : IpAddr) (peerId : PeerId)
  | touch (now : ℕ) (peerId : PeerId)
  | loopEnded (id : ℕ)
  | removePeer (peerId : PeerId)
  | cleanupStalePeers (now : ℕ)
  | ban (now : ℕ) (ip : IpAddr) (short : Bool)
  deriving DecidableEq

def machine : Machine Event CppNetwork where
  next
    | .accept now ip, n => n.accept now ip
    | .handshakeFailed now id mismatch, n => n.handshakeFailed now id mismatch
    | .helloPassed id peerId, n => n.helloPassed id peerId
    | .inboundRegistered now id, n => n.inboundRegistered now id
    | .outboundRegistered now ip peerId, n => n.outboundRegistered now ip peerId
    | .touch now peerId, n => n.touch now peerId
    | .loopEnded id, n => n.loopEnded id
    | .removePeer peerId, n => n.removePeer peerId
    | .cleanupStalePeers now, n => n.cleanupStalePeers now
    | .ban now ip short, n => n.ban now ip short
  halts _ _ := false

/-! ### Live connections and counts -/

namespace CppNetwork

def inboundFrom (ip : IpAddr) (n : CppNetwork) : ℕ := n.live.countP fun c => !c.isOutbound && c.ip = ip

def inbound (n : CppNetwork) : ℕ := n.live.countP fun c => !c.isOutbound

def inSubnet (key : SubnetKey) (n : CppNetwork) : ℕ := n.live.countP fun c => SubnetKey.fromIp c.ip = key

end CppNetwork

/-- The counts are those of the live connections, and these are within the caps. Local addresses have
no cap and no count. -/
structure Accounted (n : CppNetwork) : Prop where
  perIp : ∀ ip, n.limiter.perIp ip = n.inboundFrom ip
  total : n.limiter.total = n.inbound
  subnet : ∀ key, key ≠ .Loopback → n.eclipse.subnetCounts key = n.inSubnet key
  perIp_le : ∀ ip, n.inboundFrom ip ≤ n.limiter.maxPerIp
  total_le : n.inbound ≤ n.limiter.maxTotal
  subnet_le : ∀ key, key ≠ .Loopback → n.inSubnet key ≤ n.eclipse.maxPerSubnet

/-- An address that is not banned is refused at one of its caps only. -/
def RefusedAtCap (p : Event × CppNetwork) : Prop :=
  match p with
  | (.accept now ip, n) => n.bans.isIpBanned now ip = false → (n.accept now ip).opened = n.opened →
      n.limiter.maxTotal ≤ n.inbound ∨ n.limiter.maxPerIp ≤ n.inboundFrom ip ∨
      SubnetKey.fromIp ip ≠ .Loopback ∧ n.eclipse.maxPerSubnet ≤ n.inSubnet (SubnetKey.fromIp ip)
  | _ => True

/-- No live connection of the address is counted anywhere: it is local, and none is inbound. -/
def Uncounted (ip : IpAddr) (n : CppNetwork) : Prop :=
  SubnetKey.fromIp ip = .Loopback ∧ n.inboundFrom ip = 0

/-- A peer that is removed has an address that is not counted, and a new outbound peer a local one, or one
whose subnet has room. -/
def Harmless (p : Event × CppNetwork) : Prop :=
  match p with
  | (.outboundRegistered _ ip peerId, n) => n.hasPeer peerId = false →
      SubnetKey.fromIp ip ≠ .Loopback → n.inSubnet (SubnetKey.fromIp ip) < n.eclipse.maxPerSubnet
  | (.removePeer peerId, n) => ∀ p ∈ n.peer peerId, Uncounted p.ip n
  | (.cleanupStalePeers now, n) => ∀ p ∈ n.stalePeers now, Uncounted p.ip n
  | _ => True

/-- What a run keeps in any case: a peer on the list has a connection in its message loop. -/
structure Inv (n : CppNetwork) : Prop where
  looping : ∀ p ∈ n.peers, ∃ c ∈ n.live, c.stage = .looping p.id ∧ c.ip = p.ip
  outbound : ∀ c ∈ n.live, c.isOutbound = true → ∃ peerId, c.stage = .looping peerId

theorem mem_of_connection {n : CppNetwork} {id : ℕ} {c : Connection} (h : n.connection id = some c) :
    c ∈ n.live := List.mem_of_find?_eq_some h

theorem mem_of_peer {n : CppNetwork} {peerId : PeerId} {p : Peer} (h : n.peer peerId = some p) :
    p ∈ n.peers := List.mem_of_find?_eq_some h

/-! ### Every step keeps the invariant -/

namespace Inv

variable {n : CppNetwork} (h : Inv n)

include h

/-- A connection that is not in its message loop ends. -/
theorem abandon {c : Connection} (hstage : ∀ peerId, c.stage ≠ .looping peerId) : Inv (n.abandon c) where
  looping p hp := by
    obtain ⟨c', hc', hloop, hip⟩ := h.looping p hp
    have hne : c' ≠ c := by
      rintro rfl
      exact hstage _ hloop
    exact ⟨c', (List.mem_erase_of_ne hne).mpr hc', hloop, hip⟩
  outbound c' hc' := h.outbound c' (List.mem_of_mem_erase hc')

/-- A connection that is not in its message loop yet gets further. -/
theorem restage {c : Connection} (hc : c ∈ n.live) (hstage : ∀ peerId, c.stage ≠ .looping peerId)
    (stage : Stage) : Inv { n with live := { c with stage := stage } :: n.live.erase c } where
  looping p hp := by
    obtain ⟨c', hc', hloop, hip⟩ := h.looping p hp
    have hne : c' ≠ c := by
      rintro rfl
      exact hstage _ hloop
    exact ⟨c', List.mem_cons_of_mem _ ((List.mem_erase_of_ne hne).mpr hc'), hloop, hip⟩
  outbound c' hc' hout := by
    rcases List.mem_cons.mp hc' with rfl | hc'
    · obtain ⟨peerId, hloop⟩ := h.outbound c hc hout
      exact absurd hloop (hstage peerId)
    · exact h.outbound c' (List.mem_of_mem_erase hc') hout

/-- A connection that is in its message loop puts its peer on the list. -/
theorem insertPeer {p : Peer} (hp : ∃ c ∈ n.live, c.stage = .looping p.id ∧ c.ip = p.ip) :
    Inv { n with peers := CppNetwork.insertPeer p n.peers } where
  looping q hq := by
    rcases List.mem_cons.mp hq with rfl | hq
    · exact hp
    · exact h.looping q (List.mem_of_mem_filter hq)
  outbound := h.outbound

theorem dropPeer (p : Peer) : Inv (n.dropPeer p) where
  looping q hq := h.looping q (List.mem_of_mem_filter hq)
  outbound := h.outbound

theorem foldl_dropPeer (ps : List Peer) : Inv (ps.foldl CppNetwork.dropPeer n) := by
  induction ps generalizing n with
  | nil => exact h
  | cons p ps ih => exact ih (h.dropPeer p)

theorem accept (now : ℕ) (ip : IpAddr) : Inv (n.accept now ip) := by
  simp only [CppNetwork.accept]
  split_ifs
  · exact h
  · split
    · exact h
    · split
      · exact ⟨h.looping, h.outbound⟩
      · refine ⟨fun p hp => ?_, fun c hc hout => ?_⟩
        · obtain ⟨c, hc, hloop⟩ := h.looping p hp
          exact ⟨c, List.mem_cons_of_mem _ hc, hloop⟩
        · rcases List.mem_cons.mp hc with rfl | hc
          · cases hout
          · exact h.outbound c hc hout

theorem handshakeFailed (now id : ℕ) (mismatch : Bool) : Inv (n.handshakeFailed now id mismatch) := by
  simp only [CppNetwork.handshakeFailed]
  split
  · rename_i c hc
    by_cases hstage : c.stage = .handshaking
    · rw [if_pos hstage]
      have hends := h.abandon (c := c) fun peerId => by rw [hstage]; nofun
      exact ⟨hends.looping, hends.outbound⟩
    · rw [if_neg hstage]
      exact h
  · exact h

theorem helloPassed (id : ℕ) (peerId : PeerId) : Inv (n.helloPassed id peerId) := by
  simp only [CppNetwork.helloPassed]
  split
  · rename_i c hc
    split_ifs with hstage hpeer
    · exact h.abandon fun peerId => by rw [hstage]; nofun
    · exact h.restage (mem_of_connection hc) (fun peerId => by rw [hstage]; nofun) _
    · exact h
  · exact h

theorem inboundRegistered (now id : ℕ) : Inv (n.inboundRegistered now id) := by
  simp only [CppNetwork.inboundRegistered]
  split
  · rename_i c hc
    split
    · rename_i peerId hstage
      have hloops := h.restage (mem_of_connection hc) (fun peerId => by rw [hstage]; nofun)
        (.looping peerId)
      exact hloops.insertPeer ⟨_, List.mem_cons_self, rfl, rfl⟩
    · exact h
  · exact h

theorem outboundRegistered (now : ℕ) (ip : IpAddr) (peerId : PeerId) :
    Inv (n.outboundRegistered now ip peerId) := by
  simp only [CppNetwork.outboundRegistered]
  split_ifs
  · exact h
  · refine ⟨fun p hp => ?_, fun c hc hout => ?_⟩
    · rcases List.mem_cons.mp hp with rfl | hp
      · exact ⟨_, List.mem_cons_self, rfl, rfl⟩
      · obtain ⟨c, hc, hloop⟩ := h.looping p (List.mem_of_mem_filter hp)
        exact ⟨c, List.mem_cons_of_mem _ hc, hloop⟩
    · rcases List.mem_cons.mp hc with rfl | hc
      · exact ⟨peerId, rfl⟩
      · exact h.outbound c hc hout

theorem touch (now : ℕ) (peerId : PeerId) : Inv (n.touch now peerId) where
  looping p hp := by
    obtain ⟨q, hq, rfl⟩ := List.mem_map.mp hp
    split_ifs
    · exact h.looping q hq
    · exact h.looping q hq
  outbound := h.outbound

theorem loopEnded (id : ℕ) : Inv (n.loopEnded id) := by
  simp only [CppNetwork.loopEnded]
  split
  · rename_i c hc
    split
    · rename_i peerId hstage
      refine ⟨fun p hp => ?_, fun c' hc' => h.outbound c' (List.mem_of_mem_erase hc')⟩
      obtain ⟨hp, hne⟩ := List.mem_filter.mp hp
      obtain ⟨c', hc', hloop, hip⟩ := h.looping p hp
      have hother : c' ≠ c := by
        rintro rfl
        rw [hstage] at hloop
        exact of_decide_eq_true hne (Stage.looping.inj hloop).symm
      exact ⟨c', (List.mem_erase_of_ne hother).mpr hc', hloop, hip⟩
    · exact h
  · exact h

/-- A connection that is not in its message loop is inbound. -/
theorem inbound_of_not_looping {c : Connection} (hc : c ∈ n.live)
    (hstage : ∀ peerId, c.stage ≠ .looping peerId) : c.isOutbound = false := by
  refine Bool.eq_false_iff.mpr fun hout => ?_
  obtain ⟨peerId, hloop⟩ := h.outbound c hc hout
  exact hstage peerId hloop

end Inv

theorem inv_next (p : Event × CppNetwork) (h : Inv p.2) : Inv (machine.next p.1 p.2) := by
  obtain ⟨e, n⟩ := p
  cases e with
  | accept now ip => exact h.accept now ip
  | handshakeFailed now id mismatch => exact h.handshakeFailed now id mismatch
  | helloPassed id peerId => exact h.helloPassed id peerId
  | inboundRegistered now id => exact h.inboundRegistered now id
  | outboundRegistered now ip peerId => exact h.outboundRegistered now ip peerId
  | touch now peerId => exact h.touch now peerId
  | loopEnded id => exact h.loopEnded id
  | removePeer peerId =>
    change Inv (n.removePeer peerId)
    simp only [CppNetwork.removePeer]
    split
    · exact h.dropPeer _
    · exact h
  | cleanupStalePeers now =>
    have hdropped := h.foldl_dropPeer (n.stalePeers now)
    exact ⟨hdropped.looping, hdropped.outbound⟩
  | ban now ip short => exact ⟨h.looping, h.outbound⟩

/-! ### Steps that keep the accounts -/

/-- An element is replaced by one that counts the same. -/
theorem countP_replace {α : Type} [DecidableEq α] {q : α → Bool} {x y : α} {l : List α} (h : x ∈ l)
    (hsame : q y = q x) : (y :: l.erase x).countP q = l.countP q := by
  rw [(List.perm_cons_erase h).countP_eq q, List.countP_cons, List.countP_cons, hsame]

/-- An element is taken out. -/
theorem countP_erase_of_mem {α : Type} [DecidableEq α] {q : α → Bool} {x : α} {l : List α} (h : x ∈ l) :
    (l.erase x).countP q = l.countP q - if q x then 1 else 0 := by
  rw [(List.perm_cons_erase h).countP_eq q, List.countP_cons, Nat.add_sub_cancel]

namespace Accounted

variable {n : CppNetwork} (h : Accounted n)

include h

/-- The accounts do not depend on the bans, the peers and what was opened. -/
theorem congr {n' : CppNetwork} (hlimiter : n'.limiter = n.limiter) (heclipse : n'.eclipse = n.eclipse)
    (hlive : n'.live = n.live) : Accounted n' := by
  obtain ⟨limiter, eclipse, bans, peers, live, opened⟩ := n
  obtain ⟨limiter', eclipse', bans', peers', live', opened'⟩ := n'
  obtain rfl : limiter' = limiter := hlimiter
  obtain rfl : eclipse' = eclipse := heclipse
  obtain rfl : live' = live := hlive
  exact ⟨h.perIp, h.total, h.subnet, h.perIp_le, h.total_le, h.subnet_le⟩

/-- A live connection gets further. -/
theorem restage {c : Connection} (hc : c ∈ n.live) (stage : Stage) :
    Accounted { n with live := { c with stage := stage } :: n.live.erase c } := by
  have hcount : ∀ q : Connection → Bool, q { c with stage := stage } = q c →
      ({ c with stage := stage } :: n.live.erase c).countP q = n.live.countP q :=
    fun q hq => countP_replace hc hq
  refine ⟨fun ip => ?_, ?_, fun key hkey => ?_, fun ip => ?_, ?_, fun key hkey => ?_⟩
  · exact (h.perIp ip).trans (hcount _ rfl).symm
  · exact h.total.trans (hcount _ rfl).symm
  · exact (h.subnet key hkey).trans (hcount _ rfl).symm
  · exact (hcount _ rfl).trans_le (h.perIp_le ip)
  · exact (hcount _ rfl).trans_le h.total_le
  · exact (hcount _ rfl).trans_le (h.subnet_le key hkey)

/-- An inbound connection ends and gives its slots back. -/
theorem abandon {c : Connection} (hc : c ∈ n.live) (hin : c.isOutbound = false) :
    Accounted (n.abandon c) := by
  have hpos : 0 < n.limiter.perIp c.ip := by
    rw [h.perIp, CppNetwork.inboundFrom, List.countP_pos_iff]
    exact ⟨c, hc, by simp [hin]⟩
  have hle : ∀ q : Connection → Bool, (n.live.erase c).countP q ≤ n.live.countP q :=
    fun q => List.erase_sublist.countP_le
  refine ⟨fun ip => ?_, ?_, fun key hkey => ?_, fun ip => ?_, ?_, fun key hkey => ?_⟩
  · change (n.limiter.release c.ip).perIp ip = (n.live.erase c).countP _
    rw [ConnectionLimiter.perIp_release, countP_erase_of_mem hc, h.perIp]
    simp [CppNetwork.inboundFrom, hin]
  · change (n.limiter.release c.ip).total = (n.live.erase c).countP _
    rw [ConnectionLimiter.total_release, countP_erase_of_mem hc, h.total, if_pos hpos]
    simp [CppNetwork.inbound, hin]
  · change (n.eclipse.remove c.ip).subnetCounts key = (n.live.erase c).countP _
    rw [EclipseGuard.subnetCounts_remove _ _ hkey, countP_erase_of_mem hc, h.subnet key hkey]
    simp [CppNetwork.inSubnet]
  · exact (hle _).trans ((h.perIp_le ip).trans_eq (ConnectionLimiter.maxPerIp_release ..).symm)
  · exact (hle _).trans (h.total_le.trans_eq (ConnectionLimiter.maxTotal_release ..).symm)
  · exact (hle _).trans ((h.subnet_le key hkey).trans_eq (EclipseGuard.maxPerSubnet_remove ..).symm)

/-- An outbound connection ends and gives its slot back. -/
theorem outboundEnded {c : Connection} (hc : c ∈ n.live) (hout : c.isOutbound = true) :
    Accounted { n with eclipse := n.eclipse.remove c.ip, live := n.live.erase c } := by
  have hle : ∀ q : Connection → Bool, (n.live.erase c).countP q ≤ n.live.countP q :=
    fun q => List.erase_sublist.countP_le
  refine ⟨fun ip => ?_, ?_, fun key hkey => ?_, fun ip => ?_, ?_, fun key hkey => ?_⟩
  · change n.limiter.perIp ip = (n.live.erase c).countP _
    rw [countP_erase_of_mem hc, h.perIp]
    simp [CppNetwork.inboundFrom, hout]
  · change n.limiter.total = (n.live.erase c).countP _
    rw [countP_erase_of_mem hc, h.total]
    simp [CppNetwork.inbound, hout]
  · change (n.eclipse.remove c.ip).subnetCounts key = (n.live.erase c).countP _
    rw [EclipseGuard.subnetCounts_remove _ _ hkey, countP_erase_of_mem hc, h.subnet key hkey]
    simp [CppNetwork.inSubnet]
  · exact (hle _).trans (h.perIp_le ip)
  · exact (hle _).trans h.total_le
  · exact (hle _).trans ((h.subnet_le key hkey).trans_eq (EclipseGuard.maxPerSubnet_remove ..).symm)

/-- A connection is accepted, or refused at a cap. -/
theorem accept (now : ℕ) (ip : IpAddr) : Accounted (n.accept now ip) := by
  unfold CppNetwork.accept
  split_ifs
  · exact h
  · rcases hlimiter : n.limiter.tryAcquire ip with _ | limiter
    · exact h
    · rcases heclipse : n.eclipse.tryAdd ip with _ | eclipse
      · simp only [ConnectionLimiter.release_of_tryAcquire _ hlimiter]
        exact h.congr rfl rfl rfl
      · obtain ⟨hmax, hroom, hcounts⟩ := n.eclipse.of_tryAdd heclipse
        obtain ⟨htotal, hperIp, rfl⟩ := n.limiter.tryAcquire_ok.mp hlimiter
        refine ⟨fun ip' => ?_, ?_, fun key hkey => ?_, fun ip' => ?_, ?_, fun key hkey => ?_⟩
        · simp only [CppNetwork.inboundFrom, List.countP_cons, Function.update_apply]
          have hip := h.perIp ip'
          rw [CppNetwork.inboundFrom] at hip
          by_cases heq : ip' = ip
          · subst heq
            simp [hip]
          · simp [hip, heq, Ne.symm heq]
        · simp only [CppNetwork.inbound, List.countP_cons, h.total]
          simp
        · simp only [CppNetwork.inSubnet, List.countP_cons, hcounts key hkey, h.subnet key hkey]
          simp
        · simp only [CppNetwork.inboundFrom, List.countP_cons]
          have hle := h.perIp_le ip'
          by_cases heq : ip = ip'
          · subst heq
            rw [h.perIp, CppNetwork.inboundFrom] at hperIp
            simpa using hperIp
          · rw [CppNetwork.inboundFrom] at hle
            simpa [heq] using hle
        · simp only [CppNetwork.inbound, List.countP_cons]
          rw [h.total, CppNetwork.inbound] at htotal
          simpa using htotal
        · simp only [CppNetwork.inSubnet, List.countP_cons, hmax]
          have hle := h.subnet_le key hkey
          by_cases heq : SubnetKey.fromIp ip = key
          · subst heq
            have hlt := hroom hkey
            rw [h.subnet _ hkey, CppNetwork.inSubnet] at hlt
            simpa using hlt
          · rw [CppNetwork.inSubnet] at hle
            simpa [heq] using hle

/-- Who is not banned is refused at a cap only. -/
theorem refusedAtCap {now : ℕ} {ip : IpAddr} (hban : n.bans.isIpBanned now ip = false)
    (hrefused : (n.accept now ip).opened = n.opened) :
    n.limiter.maxTotal ≤ n.inbound ∨ n.limiter.maxPerIp ≤ n.inboundFrom ip ∨
      SubnetKey.fromIp ip ≠ .Loopback ∧ n.eclipse.maxPerSubnet ≤ n.inSubnet (SubnetKey.fromIp ip) := by
  by_contra hroom
  rw [not_or, not_or, not_le, not_le, ← h.total, ← h.perIp] at hroom
  obtain ⟨htotal, hperIp, hsubnet⟩ := hroom
  have hlimiter := n.limiter.tryAcquire_ok.mpr ⟨htotal, hperIp, rfl⟩
  rcases heclipse : n.eclipse.tryAdd ip with _ | eclipse
  · obtain ⟨hkey, hfull⟩ := n.eclipse.tryAdd_eq_none.mp heclipse
    rw [h.subnet _ hkey] at hfull
    exact hsubnet ⟨hkey, hfull⟩
  · simp only [CppNetwork.accept, hban, hlimiter, heclipse, Bool.false_eq_true, if_false] at hrefused
    exact absurd hrefused (Nat.succ_ne_self _)

/-- A new outbound peer keeps the accounts exactly if its subnet has room or is local. -/
theorem outboundRegistered_iff (now : ℕ) (ip : IpAddr) (peerId : PeerId) :
    Accounted (n.outboundRegistered now ip peerId) ↔
      Harmless (.outboundRegistered now ip peerId, n) := by
  simp only [CppNetwork.outboundRegistered, Harmless]
  split_ifs with hpeer
  · exact iff_of_true h fun hno => absurd hpeer (by rw [hno]; nofun)
  · have hno : n.hasPeer peerId = false := Bool.eq_false_iff.mpr hpeer
    constructor
    · intro hafter _ hkey
      have hcount := hafter.subnet _ hkey
      have hcap := hafter.subnet_le _ hkey
      by_contra hfull
      rw [not_lt] at hfull
      have hnone := n.eclipse.tryAdd_eq_none.mpr ⟨hkey, (h.subnet _ hkey).symm ▸ hfull⟩
      simp only [CppNetwork.inSubnet, List.countP_cons, hnone, Option.getD_none, decide_true,
        if_true] at hcount
      rw [h.subnet _ hkey, CppNetwork.inSubnet] at hcount
      omega
    · intro hroom
      rcases heclipse : n.eclipse.tryAdd ip with _ | eclipse
      · obtain ⟨hkey, hfull⟩ := n.eclipse.tryAdd_eq_none.mp heclipse
        rw [h.subnet _ hkey] at hfull
        exact absurd (hroom hno hkey) (not_lt.mpr hfull)
      · obtain ⟨hmax, hfree, hcounts⟩ := n.eclipse.of_tryAdd heclipse
        refine ⟨fun ip' => ?_, ?_, fun key hkey => ?_, fun ip' => ?_, ?_, fun key hkey => ?_⟩
        · simpa [CppNetwork.inboundFrom, List.countP_cons] using h.perIp ip'
        · simpa [CppNetwork.inbound, List.countP_cons] using h.total
        · simp only [CppNetwork.inSubnet, List.countP_cons, Option.getD_some, hcounts key hkey,
            h.subnet key hkey]
          simp
        · simpa [CppNetwork.inboundFrom, List.countP_cons] using h.perIp_le ip'
        · simpa [CppNetwork.inbound, List.countP_cons] using h.total_le
        · simp only [CppNetwork.inSubnet, List.countP_cons, Option.getD_some, hmax]
          have hle := h.subnet_le key hkey
          by_cases heq : SubnetKey.fromIp ip = key
          · subst heq
            have hlt := hfree hkey
            rw [h.subnet _ hkey, CppNetwork.inSubnet] at hlt
            simpa using hlt
          · rw [CppNetwork.inSubnet] at hle
            simpa [heq] using hle

theorem handshakeFailed (hinv : Inv n) (now id : ℕ) (mismatch : Bool) :
    Accounted (n.handshakeFailed now id mismatch) := by
  simp only [CppNetwork.handshakeFailed]
  split
  · rename_i c hc
    by_cases hstage : c.stage = .handshaking
    · rw [if_pos hstage]
      have hin := hinv.inbound_of_not_looping (mem_of_connection hc) fun peerId => by rw [hstage]; nofun
      have hends := h.abandon (mem_of_connection hc) hin
      exact hends.congr rfl rfl rfl
    · rw [if_neg hstage]
      exact h
  · exact h

theorem helloPassed (hinv : Inv n) (id : ℕ) (peerId : PeerId) : Accounted (n.helloPassed id peerId) := by
  simp only [CppNetwork.helloPassed]
  split
  · rename_i c hc
    split_ifs with hstage hpeer
    · have hin := hinv.inbound_of_not_looping (mem_of_connection hc) fun peerId => by rw [hstage]; nofun
      exact h.abandon (mem_of_connection hc) hin
    · exact h.restage (mem_of_connection hc) _
    · exact h
  · exact h

theorem inboundRegistered (now id : ℕ) : Accounted (n.inboundRegistered now id) := by
  simp only [CppNetwork.inboundRegistered]
  split
  · rename_i c hc
    split
    · rename_i peerId hstage
      have hloops := h.restage (mem_of_connection hc) (.looping peerId)
      exact hloops.congr rfl rfl rfl
    · exact h
  · exact h

theorem loopEnded (id : ℕ) : Accounted (n.loopEnded id) := by
  simp only [CppNetwork.loopEnded]
  split
  · rename_i c hc
    split
    · rcases hout : c.isOutbound with _ | _
      · have hends := h.abandon (mem_of_connection hc) hout
        exact hends.congr rfl rfl rfl
      · have hends := h.outboundEnded (mem_of_connection hc) hout
        exact hends.congr rfl rfl rfl
    · exact h
  · exact h

end Accounted

/-! ### Peers that are removed -/

/-- Some count is below that of the live connections. -/
def Deficient (n : CppNetwork) : Prop :=
  (∃ ip, n.limiter.perIp ip < n.inboundFrom ip) ∨
    ∃ key, key ≠ .Loopback ∧ n.eclipse.subnetCounts key < n.inSubnet key

theorem not_accounted_of_deficient {n : CppNetwork} (h : Deficient n) : ¬ Accounted n := by
  intro haccounted
  rcases h with ⟨ip, hlt⟩ | ⟨key, hkey, hlt⟩
  · exact absurd (haccounted.perIp ip) hlt.ne
  · exact absurd (haccounted.subnet key hkey) hlt.ne

theorem deficient_foldl_dropPeer {n : CppNetwork} (h : Deficient n) (ps : List Peer) :
    Deficient (ps.foldl CppNetwork.dropPeer n) := by
  induction ps generalizing n with
  | nil => exact h
  | cons p ps ih =>
    refine ih ?_
    rcases h with ⟨ip, hlt⟩ | ⟨key, hkey, hlt⟩
    · refine .inl ⟨ip, lt_of_le_of_lt ?_ hlt⟩
      exact (ConnectionLimiter.perIp_release ..).trans_le (Nat.sub_le _ _)
    · refine .inr ⟨key, hkey, lt_of_le_of_lt ?_ hlt⟩
      exact (EclipseGuard.subnetCounts_remove _ _ hkey).trans_le (Nat.sub_le _ _)

/-- Removing a peer keeps the accounts if no connection of its address is counted. -/
theorem accounted_dropPeer {n : CppNetwork} (h : Accounted n) {p : Peer} (hfree : Uncounted p.ip n) :
    Accounted (n.dropPeer p) := by
  have hlimiter : n.limiter.release p.ip = n.limiter :=
    ConnectionLimiter.release_eq_self _ ((h.perIp p.ip).trans hfree.2)
  have heclipse : n.eclipse.remove p.ip = n.eclipse := EclipseGuard.remove_eq_self _ hfree.1
  have hsame : n.dropPeer p = { n with peers := n.peers.filter fun q => q.id ≠ p.id } := by
    simp only [CppNetwork.dropPeer, CppNetwork.releaseSlots, hlimiter, heclipse]
  rw [hsame]
  exact h.congr rfl rfl rfl

/-- Otherwise the slot of a live connection is given back. -/
theorem deficient_dropPeer {n : CppNetwork} (h : Accounted n) {p : Peer}
    (hlive : ∃ c ∈ n.live, c.ip = p.ip) (hcounted : ¬ Uncounted p.ip n) : Deficient (n.dropPeer p) := by
  by_cases hkey : SubnetKey.fromIp p.ip = .Loopback
  · have hpos : 0 < n.inboundFrom p.ip := Nat.pos_of_ne_zero fun hzero => hcounted ⟨hkey, hzero⟩
    refine .inl ⟨p.ip, ?_⟩
    change (n.limiter.release p.ip).perIp p.ip < n.inboundFrom p.ip
    rw [ConnectionLimiter.perIp_release, h.perIp, if_pos rfl]
    omega
  · obtain ⟨c, hc, hip⟩ := hlive
    have hpos : 0 < n.inSubnet (SubnetKey.fromIp p.ip) :=
      List.countP_pos_iff.mpr ⟨c, hc, by simp [hip]⟩
    refine .inr ⟨SubnetKey.fromIp p.ip, hkey, ?_⟩
    change (n.eclipse.remove p.ip).subnetCounts _ < n.inSubnet _
    rw [EclipseGuard.subnetCounts_remove _ _ hkey, h.subnet _ hkey, if_pos rfl]
    omega

/-- Removing peers one after the other keeps the accounts exactly if none of their addresses is counted:
counts that are too low stay so. -/
theorem accounted_foldl_dropPeer_iff {n : CppNetwork} (h : Accounted n) {ps : List Peer}
    (hlive : ∀ p ∈ ps, ∃ c ∈ n.live, c.ip = p.ip) :
    Accounted (ps.foldl CppNetwork.dropPeer n) ↔ ∀ p ∈ ps, Uncounted p.ip n := by
  induction ps generalizing n with
  | nil => exact iff_of_true h fun p hp => absurd hp List.not_mem_nil
  | cons p ps ih =>
    rw [List.foldl_cons, List.forall_mem_cons]
    by_cases hfree : Uncounted p.ip n
    · have hrest := ih (accounted_dropPeer h hfree) fun q hq => hlive q (List.mem_cons_of_mem _ hq)
      exact hrest.trans (iff_and_self.mpr fun _ => hfree)
    · have hdeficient := deficient_dropPeer h (hlive p List.mem_cons_self) hfree
      exact iff_of_false (not_accounted_of_deficient (deficient_foldl_dropPeer hdeficient ps))
        fun hall => hfree hall.1

/-! ### Runs -/

/-- A step keeps the accounts exactly if it is harmless. -/
theorem accounted_next_iff (p : Event × CppNetwork) (hinv : Inv p.2) (h : Accounted p.2) :
    Accounted (machine.next p.1 p.2) ↔ Harmless p := by
  obtain ⟨e, n⟩ := p
  cases e with
  | accept now ip => exact iff_of_true (h.accept now ip) trivial
  | handshakeFailed now id mismatch => exact iff_of_true (h.handshakeFailed hinv now id mismatch) trivial
  | helloPassed id peerId => exact iff_of_true (h.helloPassed hinv id peerId) trivial
  | inboundRegistered now id => exact iff_of_true (h.inboundRegistered now id) trivial
  | outboundRegistered now ip peerId => exact h.outboundRegistered_iff now ip peerId
  | touch now peerId => exact iff_of_true (h.congr rfl rfl rfl) trivial
  | loopEnded id => exact iff_of_true (h.loopEnded id) trivial
  | removePeer peerId =>
    change Accounted (n.removePeer peerId) ↔ ∀ p ∈ n.peer peerId, Uncounted p.ip n
    simp only [CppNetwork.removePeer]
    rcases hpeer : n.peer peerId with _ | p
    · exact iff_of_true h nofun
    · obtain ⟨c, hc, -, hip⟩ := hinv.looping p (mem_of_peer hpeer)
      have hlive : ∀ q ∈ [p], ∃ c ∈ n.live, c.ip = q.ip := by
        intro q hq
        rw [List.mem_singleton.mp hq]
        exact ⟨c, hc, hip⟩
      simpa using accounted_foldl_dropPeer_iff h hlive
  | cleanupStalePeers now =>
    have hstale : ∀ p ∈ n.stalePeers now, ∃ c ∈ n.live, c.ip = p.ip := by
      intro p hp
      obtain ⟨c, hc, -, hip⟩ := hinv.looping p (List.mem_of_mem_filter hp)
      exact ⟨c, hc, hip⟩
    refine Iff.trans ?_ (accounted_foldl_dropPeer_iff h hstale)
    exact ⟨fun h => h.congr rfl rfl rfl, fun h => h.congr rfl rfl rfl⟩
  | ban now ip short =>
    exact iff_of_true (h.congr rfl rfl rfl) trivial

/-- In every state of the run the accounts are right, and every refusal is at a cap. -/
structure Safe (events : List Event) (n : CppNetwork) : Prop where
  accounted : ∀ p ∈ machine.trace events n, Accounted p.2
  accounted_final : Accounted (machine.final events n)
  refusedAtCap : ∀ p ∈ machine.trace events n, RefusedAtCap p

theorem accounted_new (maxPerIp maxTotal maxPerSubnet banDuration : ℕ) :
    Accounted (.new maxPerIp maxTotal maxPerSubnet banDuration) :=
  ⟨fun _ => rfl, rfl, fun _ _ => rfl, fun _ => Nat.zero_le _, Nat.zero_le _, fun _ _ => Nat.zero_le _⟩

theorem inv_new (maxPerIp maxTotal maxPerSubnet banDuration : ℕ) :
    Inv (.new maxPerIp maxTotal maxPerSubnet banDuration) :=
  ⟨fun _ hp => absurd hp List.not_mem_nil, fun _ hc => absurd hc List.not_mem_nil⟩

/-- A run is safe exactly if all its steps are harmless. -/
theorem connections_safe_iff (maxPerIp maxTotal maxPerSubnet banDuration : ℕ) (events : List Event) :
    Safe events (.new maxPerIp maxTotal maxPerSubnet banDuration) ↔
      ∀ p ∈ machine.trace events (.new maxPerIp maxTotal maxPerSubnet banDuration), Harmless p := by
  set n := CppNetwork.new maxPerIp maxTotal maxPerSubnet banDuration
  have hiff : ((∀ p ∈ machine.trace events n, Accounted p.2) ∧ Accounted (machine.final events n)) ↔
      ∀ p ∈ machine.trace events n, Harmless p :=
    Machine.safe_iff (Q := Inv) (fun p _ => inv_next p) (fun p _ => accounted_next_iff p)
      (inv_new maxPerIp maxTotal maxPerSubnet banDuration)
      (accounted_new maxPerIp maxTotal maxPerSubnet banDuration)
  constructor
  · exact fun hsafe => hiff.mp ⟨hsafe.accounted, hsafe.accounted_final⟩
  · intro hharmless
    obtain ⟨haccounted, hfinal⟩ := hiff.mpr hharmless
    refine ⟨haccounted, hfinal, ?_⟩
    rintro ⟨e, n⟩ hp
    cases e with
    | accept now ip => exact fun hban hrefused => (haccounted _ hp).refusedAtCap hban hrefused
    | _ => trivial

/-! ### A slot that is given back twice -/

namespace Sample

/-- 8.8.8.8. -/
def ip : IpAddr := .V4 0x08080808

/-- The inbound connection with this id registers this peer. -/
def registers (id : ℕ) (peerId : PeerId) : List Event :=
  [.accept 0 ip, .helloPassed id peerId, .inboundRegistered 0 id]

/-- Two connections; the first peer is disconnected, its message loop ends, and two more connect. -/
def disconnected : List Event :=
  registers 0 1 ++ registers 1 2 ++ [.removePeer 1, .loopEnded 0, .accept 1 ip, .accept 1 ip]

end Sample

/-- With a cap of two there are three live connections from one address. -/
theorem removed_peer_exceeds_cap :
    (machine.final Sample.disconnected (.new 2 8 8 3600)).inboundFrom Sample.ip = 3 ∧
    ¬ Safe Sample.disconnected (.new 2 8 8 3600) := by
  have hthree : (machine.final Sample.disconnected (.new 2 8 8 3600)).inboundFrom Sample.ip = 3 := by
    decide +kernel
  refine ⟨hthree, fun hsafe => ?_⟩
  have hcap := hsafe.accounted_final.perIp_le Sample.ip
  rw [hthree] at hcap
  exact absurd hcap (by decide +kernel)

end Coinjecture.Network.Cpp.Connections
