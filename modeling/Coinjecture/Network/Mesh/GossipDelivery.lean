import Coinjecture.Lib.Trace
import Coinjecture.Network.Mesh.Origin
import Mathlib.Data.List.Basic
import Mathlib.Data.Finset.Card

/-! # The delivery of a broadcast

A network of connected nodes that all run the event loop, and the copies of one broadcast on its links. A copy
that is under way may come in at any time, and none is lost, nor dropped for the rate of its peer. The TTL counts
the links that a copy may still take, and a node forwards the first copy that comes in only, so that a copy that
has come a long way may keep a better one from being forwarded.

* `gossip_delivery_iff` : in which networks all nodes have delivered the broadcast when no copy is under way, in
  whatever order the copies come in.
* `covered_of_card` : a connected network with no more nodes than the TTL and one more is such a network. -/

namespace Coinjecture.Network.Mesh.GossipDelivery

open Lib.Bincode Lib.Trace
open Core.Types
open Network.Mesh.Protocol Network.Mesh.Router

/-! ### The network -/

/-- The nodes, each with the peers that it is connected to and has a channel of. -/
structure PeerGraph where
  nodes : List NodeId
  connectedPeers : NodeId → List NodeId
  mem_nodes : ∀ u ∈ nodes, ∀ v ∈ connectedPeers u, v ∈ nodes
  symm : ∀ u v, v ∈ connectedPeers u → u ∈ connectedPeers v
  irrefl : ∀ u, u ∉ connectedPeers u

/-- An envelope on the link from one node to another. -/
structure Copy where
  source : NodeId
  target : NodeId
  envelope : Envelope
  deriving DecidableEq

/-- `NetworkEvent::MessageReceived` at a node. -/
structure MessageReceived where
  node : NodeId
  sender : NodeId
  payload : Payload
  msgId : Bytes32
  deriving DecidableEq

/-- The caches of the nodes, the copies under way, what has been delivered, and `marked`, which lists the nodes
that have looked the broadcast up. -/
structure World where
  gossip : NodeId → GossipEngine
  inFlight : List Copy
  delivered : List MessageReceived
  marked : List NodeId

/-- A copy comes in, or a node looks up the id of another message. -/
inductive Event where
  | deliver (now : ℕ) (copy : Copy)
  | other (now : ℕ) (node : NodeId) (msgId : Bytes32)

def forwardTargets (connectedPeers : List NodeId) (sender localId : NodeId) : List NodeId :=
  connectedPeers.filter fun id => id ≠ sender && id ≠ localId

namespace World

def send (source : NodeId) (targets : List NodeId) (envelope : Envelope) (w : World) : World :=
  { w with inFlight := w.inFlight ++ targets.map fun target => ⟨source, target, envelope⟩ }

/-- What is forwarded has the TTL decremented, if it may be forwarded at all. -/
def forward (source : NodeId) (targets : List NodeId) (envelope : Envelope) (w : World) : World :=
  match GossipEngine.decrementTtl envelope.ttl with
  | some newTtl => w.send source targets { envelope with ttl := newTtl }
  | none => w

def messageReceived (node : NodeId) (envelope : Envelope) (w : World) : World :=
  { w with delivered := ⟨node, envelope.sender, envelope.payload, envelope.msgId⟩ :: w.delivered }

variable (crates : Crates) (net : PeerGraph) (publicKeys : NodeId → NodeId → Option Bytes)

/-- The event loop of the target, when a copy comes in. -/
def receive (now : ℕ) (copy : Copy) (w : World) : World :=
  let node := copy.target
  let envelope := copy.envelope
  let routed := processIncoming crates now envelope node (w.gossip node) (publicKeys node)
  let w := { w with gossip := Function.update w.gossip node routed.2, marked := node :: w.marked }
  match routed.1 with
  | .DeliverAndForward =>
    (w.messageReceived node envelope).forward node
      (forwardTargets (net.connectedPeers node) envelope.sender node) envelope
  | .DeliverOnly => w.messageReceived node envelope
  | .ForwardOnly => w.forward node ((net.connectedPeers node).filter fun id => id ≠ copy.source) envelope
  | .Drop _ => w

def deliver (now : ℕ) (copy : Copy) (w : World) : World :=
  if copy ∈ w.inFlight then
    receive crates net publicKeys now copy { w with inFlight := w.inFlight.erase copy }
  else w

def other (now : ℕ) (node : NodeId) (msgId : Bytes32) (w : World) : World :=
  { w with gossip := Function.update w.gossip node ((w.gossip node).checkAndMark now msgId).2 }

/-- `NetworkCommand::Broadcast` at the sender of the envelope: it marks the id and sends to all its peers. -/
def broadcast (now : ℕ) (caches : NodeId → GossipEngine) (envelope : Envelope) : World :=
  let node := envelope.sender
  let gossip := Function.update caches node ((caches node).checkAndMark now envelope.msgId).2
  World.send node (net.connectedPeers node) envelope ⟨gossip, [], [], [node]⟩

end World

def machine (crates : Crates) (net : PeerGraph) (publicKeys : NodeId → NodeId → Option Bytes) :
    Machine Event World where
  next
    | .deliver now copy, w => w.deliver crates net publicKeys now copy
    | .other now node msgId, w => w.other now node msgId
  halts _ _ := false

/-! ### Hops -/

/-- Numbers of links that first copies may have taken: the sender has 0, another node one more than one of its
peers, and what reaches a node with less than `ttl` links behind it is sent on to all its peers. -/
structure Hops (net : PeerGraph) (sender : NodeId) (ttl : ℕ) (hops : NodeId → Option ℕ) : Prop where
  sender : ∀ v, hops v = some 0 ↔ v = sender
  step : ∀ v k, hops v = some (k + 1) → k < ttl ∧ ∃ u, v ∈ net.connectedPeers u ∧ hops u = some k
  sent : ∀ u k, hops u = some k → k < ttl → ∀ v ∈ net.connectedPeers u, (hops v).isSome

/-- However the first copies come, no node is left out. -/
def Covered (net : PeerGraph) (sender : NodeId) (ttl : ℕ) : Prop :=
  ∀ hops, Hops net sender ttl hops → ∀ v ∈ net.nodes, (hops v).isSome

/-- The two nodes are at most `n` links apart. -/
def within (net : PeerGraph) : ℕ → NodeId → NodeId → Bool
  | 0, u, v => u = v
  | n + 1, u, v => u = v || (net.connectedPeers u).any fun w => within net n w v

section
variable {net : PeerGraph} {sender : NodeId} {ttl k n : ℕ} {hops : NodeId → Option ℕ} {u v : NodeId}

theorem Hops.mem_nodes (hhops : Hops net sender ttl hops) (hsender : sender ∈ net.nodes) (hv : hops v = some k) :
    v ∈ net.nodes := by
  induction k generalizing v with
  | zero => exact (hhops.sender v).mp hv ▸ hsender
  | succ k ih =>
    obtain ⟨-, u, hpeer, hu⟩ := hhops.step v k hv
    exact net.mem_nodes u (ih hu) v hpeer

/-- All smaller numbers occur, too. -/
theorem Hops.exists_of_le (hhops : Hops net sender ttl hops) (hv : hops v = some k) (hn : n ≤ k) :
    ∃ u, hops u = some n := by
  induction k generalizing v with
  | zero => exact ⟨v, Nat.le_zero.mp hn ▸ hv⟩
  | succ k ih =>
    obtain ⟨-, u, -, hu⟩ := hhops.step v k hv
    rcases Nat.le_succ_iff.mp hn with hn | rfl
    · exact ih hu hn
    · exact ⟨v, hv⟩

/-- A way from a node with hops to one without leaves the nodes with hops somewhere. -/
theorem exists_crossing (hwithin : within net n u v = true) (hu : (hops u).isSome) (hv : hops v = none) :
    ∃ u k, hops u = some k ∧ ∃ w ∈ net.connectedPeers u, hops w = none := by
  have hne : u ≠ v := fun heq => by
    rw [heq, hv] at hu
    cases hu
  induction n generalizing u with
  | zero => exact absurd (of_decide_eq_true hwithin) hne
  | succ n ih =>
    rw [within, decide_eq_false hne, Bool.false_or, List.any_eq_true] at hwithin
    obtain ⟨w, hw, hwithin⟩ := hwithin
    cases hhops : hops w with
    | none =>
      obtain ⟨k, hk⟩ := Option.isSome_iff_exists.mp hu
      exact ⟨u, k, hk, w, hw, hhops⟩
    | some j =>
      refine ih hwithin (hhops ▸ rfl) fun heq => ?_
      rw [heq, hv] at hhops
      cases hhops

/-- A connected network of at most `ttl + 1` nodes is covered. -/
theorem covered_of_card (hsender : sender ∈ net.nodes)
    (hconnected : ∀ v ∈ net.nodes, ∃ n, within net n sender v = true)
    (hcard : net.nodes.toFinset.card ≤ ttl + 1) : Covered net sender ttl := by
  intro hops hhops v hv
  rw [Option.isSome_iff_ne_none]
  intro hnone
  obtain ⟨n, hwithin⟩ := hconnected v hv
  have hzero := (hhops.sender sender).mpr rfl
  obtain ⟨u, k, hu, w, hw, hwnone⟩ := exists_crossing hwithin (hzero ▸ rfl) hnone
  have hk : ttl ≤ k := by
    by_contra hlt
    have hsome := hhops.sent u k hu (Nat.lt_of_not_le hlt) w hw
    rw [hwnone] at hsome
    cases hsome
  have hsub : insert none ((Finset.range (k + 1)).image some) ⊆ net.nodes.toFinset.image hops := by
    intro x hx
    rw [Finset.mem_image]
    rcases Finset.mem_insert.mp hx with rfl | hx
    · exact ⟨v, List.mem_toFinset.mpr hv, hnone⟩
    · obtain ⟨n, hn, rfl⟩ := Finset.mem_image.mp hx
      obtain ⟨u', hu'⟩ := hhops.exists_of_le hu (Nat.lt_succ_iff.mp (Finset.mem_range.mp hn))
      exact ⟨u', List.mem_toFinset.mpr (hhops.mem_nodes hsender hu'), hu'⟩
  have hle := (Finset.card_le_card hsub).trans Finset.card_image_le
  rw [Finset.card_insert_of_notMem (by simp), Finset.card_image_of_injective _ (Option.some_injective ℕ),
    Finset.card_range] at hle
  omega

end

/-! ### The caches -/

section
variable {now : ℕ} {msgId msgId' : Bytes32} {g : GossipEngine}

theorem lookup_put_of_ne {timestamp : ℕ} (h : msgId' ≠ msgId) (hnone : g.seen.lookup msgId = none) :
    (g.put msgId' timestamp).seen.lookup msgId = none := by
  rw [List.lookup_eq_none_iff] at hnone ⊢
  intro p hp
  rcases List.mem_cons.mp (List.mem_of_mem_take hp) with rfl | hp
  · simpa using h.symm
  · exact hnone p (List.mem_of_mem_filter hp)

/-- Other ids do not bring an id into the cache. -/
theorem lookup_checkAndMark_of_ne (h : msgId' ≠ msgId) (hnone : g.seen.lookup msgId = none) :
    (g.checkAndMark now msgId').2.seen.lookup msgId = none := by
  unfold GossipEngine.checkAndMark
  split
  · split_ifs
    · exact lookup_put_of_ne h hnone
    · exact lookup_put_of_ne h hnone
  · exact lookup_put_of_ne h hnone

theorem keeps_of_lookup (h : g.seen.lookup msgId = none) : g.keeps now msgId = false := by
  rw [GossipEngine.keeps, h]

theorem decrementTtl_ofNat {n : ℕ} (h : n < 256) :
    GossipEngine.decrementTtl (.ofNat n) = if n ≤ 1 then none else some (.ofNat (n - 1)) := by
  have htoNat : (UInt8.ofNat n).toNat = n := UInt8.toNat_ofNat_of_lt' h
  have hone : UInt8.ofNat n ≤ 1 ↔ n ≤ 1 := by
    rw [UInt8.le_iff_toNat_le, htoNat]
    rfl
  unfold GossipEngine.decrementTtl
  simp only [hone]
  split_ifs with hle
  · rfl
  · refine congrArg some (UInt8.toNat_inj.mp ?_)
    have hpred : (UInt8.ofNat (n - 1)).toNat = n - 1 := UInt8.toNat_ofNat_of_lt' ((Nat.sub_le n 1).trans_lt h)
    rw [UInt8.toNat_sub_of_le _ _ (UInt8.le_iff_toNat_le.mpr (htoNat.symm ▸ Nat.le_of_not_le hle)), htoNat, hpred]
    rfl

end

/-! ### What a copy does -/

section
variable {crates : Crates} {net : PeerGraph} {publicKeys : NodeId → NodeId → Option Bytes} {envelope : Envelope}
  {now n : ℕ} {copy : Copy} {w : World}

/-- The signature of the envelope verifies wherever the sender's key is known. -/
def Honest (crates : Crates) (publicKeys : NodeId → NodeId → Option Bytes) (envelope : Envelope) : Prop :=
  ∀ v pk, publicKeys v envelope.sender = some pk →
    verifySignature crates pk (signableData envelope.msgId envelope.routing envelope.payload) envelope.signature =
      .ok ()

theorem processIncoming_fst {g : GossipEngine} {localId : NodeId} {keys : NodeId → Option Bytes}
    (hkeeps : g.keeps now envelope.msgId = false) (httl : envelope.ttl ≠ 0)
    (hbroadcast : envelope.routing = .Broadcast)
    (hhonest : ∀ pk, keys envelope.sender = some pk → verifySignature crates pk
      (signableData envelope.msgId envelope.routing envelope.payload) envelope.signature = .ok ()) :
    (processIncoming crates now envelope localId g keys).1 = .DeliverAndForward := by
  unfold processIncoming
  simp only [GossipEngine.checkAndMark_fst, hkeeps, Bool.not_false, Bool.not_true, Bool.false_eq_true, if_false,
    httl]
  split
  next pk hpk =>
    rw [hhonest pk hpk, hbroadcast]
    rfl
  next =>
    rw [hbroadcast]
    rfl

theorem processIncoming_of_keeps {g : GossipEngine} {localId : NodeId} {keys : NodeId → Option Bytes}
    (hkeeps : g.keeps now envelope.msgId = true) :
    (processIncoming crates now envelope localId g keys).1 = .Drop "duplicate message" := by
  unfold processIncoming
  simp only [GossipEngine.checkAndMark_fst, hkeeps, Bool.not_false, Bool.not_true, if_true]

/-- A first copy is delivered and sent on. -/
theorem receive_new (hhonest : Honest crates publicKeys envelope) (hbroadcast : envelope.routing = .Broadcast)
    (hcopy : copy.envelope = { envelope with ttl := .ofNat n }) (hpos : 0 < n) (hlt : n < 256)
    (hfresh : (w.gossip copy.target).seen.lookup envelope.msgId = none) :
    w.receive crates net publicKeys now copy =
      { gossip := Function.update w.gossip copy.target ((w.gossip copy.target).checkAndMark now envelope.msgId).2
        inFlight := w.inFlight ++ if n ≤ 1 then [] else
          (forwardTargets (net.connectedPeers copy.target) envelope.sender copy.target).map
            fun target => ⟨copy.target, target, { envelope with ttl := .ofNat (n - 1) }⟩
        delivered := ⟨copy.target, envelope.sender, envelope.payload, envelope.msgId⟩ :: w.delivered
        marked := copy.target :: w.marked } := by
  have httl : UInt8.ofNat n ≠ 0 := fun h => by
    have := congrArg UInt8.toNat h
    rw [UInt8.toNat_ofNat_of_lt' hlt] at this
    exact hpos.ne' this
  have hrouted : (processIncoming crates now { envelope with ttl := .ofNat n } copy.target
      (w.gossip copy.target) (publicKeys copy.target)).1 = .DeliverAndForward :=
    processIncoming_fst (keeps_of_lookup hfresh) httl hbroadcast (hhonest copy.target)
  unfold World.receive
  simp only [hcopy, hrouted, processIncoming_snd, World.forward, World.messageReceived, decrementTtl_ofNat hlt]
  split_ifs
  · rw [List.append_nil]
  · rfl

/-- A later one is dropped. -/
theorem receive_old (hcopy : copy.envelope.msgId = envelope.msgId)
    (hkeeps : (w.gossip copy.target).keeps now envelope.msgId = true) :
    w.receive crates net publicKeys now copy =
      { w with
        gossip := Function.update w.gossip copy.target ((w.gossip copy.target).checkAndMark now envelope.msgId).2
        marked := copy.target :: w.marked } := by
  rw [← hcopy] at hkeeps
  unfold World.receive
  simp only [processIncoming_of_keeps hkeeps, processIncoming_snd, hcopy]

end

/-! ### What holds as long as copies are under way -/

/-- The first copies have taken the links that `hops` says. -/
structure Follows (net : PeerGraph) (envelope : Envelope) (hops : NodeId → Option ℕ) (w : World) : Prop where
  sender : envelope.sender ∈ w.marked
  zero : hops envelope.sender = some 0
  hop : ∀ v ∈ w.marked, v ≠ envelope.sender → ∃ k < envelope.ttl.toNat, hops v = some (k + 1) ∧
    ∃ u ∈ w.marked, v ∈ net.connectedPeers u ∧ hops u = some k
  flight : ∀ c ∈ w.inFlight, c.source ∈ w.marked ∧ c.target ∈ net.connectedPeers c.source ∧
    c.target ≠ envelope.sender ∧ ∃ k < envelope.ttl.toNat, hops c.source = some k ∧
      c.envelope = { envelope with ttl := .ofNat (envelope.ttl.toNat - k) }
  sent : ∀ u ∈ w.marked, ∀ k < envelope.ttl.toNat, hops u = some k → ∀ v ∈ net.connectedPeers u,
    v ∈ w.marked ∨ ∃ c ∈ w.inFlight, c.source = u ∧ c.target = v
  fresh : ∀ v, v ∉ w.marked → (w.gossip v).seen.lookup envelope.msgId = none
  delivered : ∀ v, w.delivered.filter (fun m => m.node = v) =
    if v ∈ w.marked ∧ v ≠ envelope.sender then [⟨v, envelope.sender, envelope.payload, envelope.msgId⟩] else []

section
variable {crates : Crates} {net : PeerGraph} {publicKeys : NodeId → NodeId → Option Bytes} {envelope : Envelope}
  {hops hops' : NodeId → Option ℕ} {now : ℕ} {copy : Copy} {w : World}

theorem Follows.congr (h : Follows net envelope hops w) (heq : ∀ v ∈ w.marked, hops' v = hops v) :
    Follows net envelope hops' w where
  sender := h.sender
  zero := (heq _ h.sender).trans h.zero
  hop v hv hne := by
    obtain ⟨k, hk, hhops, u, hu, hpeer, hhopsu⟩ := h.hop v hv hne
    exact ⟨k, hk, (heq v hv).trans hhops, u, hu, hpeer, (heq u hu).trans hhopsu⟩
  flight c hc := by
    obtain ⟨hsource, htarget, hne, k, hk, hhops, henvelope⟩ := h.flight c hc
    exact ⟨hsource, htarget, hne, k, hk, (heq _ hsource).trans hhops, henvelope⟩
  sent u hu k hk hhops := h.sent u hu k hk ((heq u hu).symm.trans hhops)
  fresh := h.fresh
  delivered := h.delivered

theorem follows_broadcast {caches : NodeId → GossipEngine} (hops : NodeId → Option ℕ)
    (hzero : hops envelope.sender = some 0) (httl : 0 < envelope.ttl)
    (hfresh : ∀ v, (caches v).seen.lookup envelope.msgId = none) :
    Follows net envelope hops (.broadcast net now caches envelope) where
  sender := List.mem_cons_self
  zero := hzero
  hop v hv hne := absurd (List.mem_singleton.mp hv) hne
  flight c hc := by
    obtain ⟨v, hv, rfl⟩ := List.mem_map.mp (List.mem_append.mp hc |>.resolve_left List.not_mem_nil)
    refine ⟨List.mem_cons_self, hv, fun heq => net.irrefl _ (heq ▸ hv), 0, UInt8.lt_iff_toNat_lt.mp httl,
      hzero, ?_⟩
    rw [Nat.sub_zero, UInt8.ofNat_toNat]
  sent u hu k _ _ v hv := by
    cases List.mem_singleton.mp hu
    exact .inr ⟨_, List.mem_append_right _ (List.mem_map_of_mem hv), rfl, rfl⟩
  fresh v hv := by
    have hne : v ≠ envelope.sender := fun heq => hv (heq ▸ List.mem_cons_self)
    rw [World.broadcast, World.send]
    simp only
    rw [Function.update_of_ne hne]
    exact hfresh v
  delivered v := by
    rw [if_neg fun hv => hv.2 (List.mem_singleton.mp hv.1)]
    rfl

theorem Follows.other (h : Follows net envelope hops w) (node : NodeId) {msgId : Bytes32}
    (hne : msgId ≠ envelope.msgId) : Follows net envelope hops (w.other now node msgId) :=
  { h with
    fresh := fun v hv => by
      by_cases heq : v = node
      · subst heq
        rw [World.other]
        simp only [Function.update_self]
        exact lookup_checkAndMark_of_ne hne (h.fresh v hv)
      · rw [World.other]
        simp only [Function.update_of_ne heq]
        exact h.fresh v hv }

/-- A copy that comes in where the broadcast is known. -/
theorem Follows.deliver_old (h : Follows net envelope hops w) (hmem : copy ∈ w.inFlight)
    (hmarked : copy.target ∈ w.marked) (hkeeps : (w.gossip copy.target).keeps now envelope.msgId = true) :
    Follows net envelope hops (w.deliver crates net publicKeys now copy) := by
  obtain ⟨-, -, -, k, -, -, henvelope⟩ := h.flight copy hmem
  have hid : copy.envelope.msgId = envelope.msgId := by rw [henvelope]
  have hiff : ∀ v, v ∈ copy.target :: w.marked ↔ v ∈ w.marked := fun v =>
    ⟨fun hv => (List.mem_cons.mp hv).elim (fun heq => heq ▸ hmarked) id, List.mem_cons_of_mem _⟩
  rw [World.deliver, if_pos hmem, receive_old (w := { w with inFlight := w.inFlight.erase copy }) hid hkeeps]
  exact {
    sender := List.mem_cons_of_mem _ h.sender
    zero := h.zero
    hop := fun v hv hne => by
      obtain ⟨k, hk, hhops, u, hu, hpeer⟩ := h.hop v ((hiff v).mp hv) hne
      exact ⟨k, hk, hhops, u, List.mem_cons_of_mem _ hu, hpeer⟩
    flight := fun c hc => by
      obtain ⟨hsource, hrest⟩ := h.flight c (List.mem_of_mem_erase hc)
      exact ⟨List.mem_cons_of_mem _ hsource, hrest⟩
    sent := fun u hu k hk hhops v hv => by
      rcases h.sent u ((hiff u).mp hu) k hk hhops v hv with hv | ⟨c, hc, hsource, htarget⟩
      · exact .inl (List.mem_cons_of_mem _ hv)
      · by_cases heq : c = copy
        · subst heq
          exact .inl (htarget ▸ List.mem_cons_self)
        · exact .inr ⟨c, (List.mem_erase_of_ne heq).mpr hc, hsource, htarget⟩
    fresh := fun v hv => by
      have hne : v ≠ copy.target := fun heq => hv (heq ▸ List.mem_cons_self)
      simp only [Function.update_of_ne hne]
      exact h.fresh v fun hv' => hv (List.mem_cons_of_mem _ hv')
    delivered := fun v => by
      simp only [hiff]
      exact h.delivered v }

/-- A copy that comes in first. -/
theorem Follows.deliver_new (h : Follows net envelope hops w) (hhonest : Honest crates publicKeys envelope)
    (hbroadcast : envelope.routing = .Broadcast) (hmem : copy ∈ w.inFlight) (hmarked : copy.target ∉ w.marked)
    {k : ℕ} (hsource : hops copy.source = some k) (htarget : hops copy.target = some (k + 1)) :
    Follows net envelope hops (w.deliver crates net publicKeys now copy) := by
  obtain ⟨hknown, hpeer, hne, k', hk, hhops, henvelope⟩ := h.flight copy hmem
  obtain rfl : k' = k := Option.some.inj (hhops.symm.trans hsource)
  have hlt := envelope.ttl.toNat_lt
  have hreceive := @receive_new crates net publicKeys envelope now (envelope.ttl.toNat - k') copy
    { w with inFlight := w.inFlight.erase copy } hhonest hbroadcast henvelope (by omega) (by omega)
    (h.fresh _ hmarked)
  rw [World.deliver, if_pos hmem, hreceive]
  exact {
    sender := List.mem_cons_of_mem _ h.sender
    zero := h.zero
    hop := fun v hv hvne => by
      rcases List.mem_cons.mp hv with rfl | hv
      · exact ⟨k', hk, htarget, copy.source, List.mem_cons_of_mem _ hknown, hpeer, hsource⟩
      · obtain ⟨k, hk, hhops, u, hu, hpeer⟩ := h.hop v hv hvne
        exact ⟨k, hk, hhops, u, List.mem_cons_of_mem _ hu, hpeer⟩
    flight := fun c hc => by
      rcases List.mem_append.mp hc with hc | hc
      · obtain ⟨hsource, hrest⟩ := h.flight c (List.mem_of_mem_erase hc)
        exact ⟨List.mem_cons_of_mem _ hsource, hrest⟩
      · split_ifs at hc with hone
        · exact absurd hc List.not_mem_nil
        · obtain ⟨v, hv, rfl⟩ := List.mem_map.mp hc
          obtain ⟨hv, hkeep⟩ := List.mem_filter.mp hv
          rw [Bool.and_eq_true, decide_eq_true_eq, decide_eq_true_eq] at hkeep
          exact ⟨List.mem_cons_self, hv, hkeep.1, k' + 1, by omega, htarget, by rw [Nat.sub_sub]⟩
    sent := fun u hu k hk hhops v hv => by
      by_cases hvs : v = envelope.sender
      · exact .inl (List.mem_cons_of_mem _ (hvs ▸ h.sender))
      rcases List.mem_cons.mp hu with rfl | hu
      · -- What the node has just sent.
        obtain rfl : k' + 1 = k := Option.some.inj (htarget.symm.trans hhops)
        rw [if_neg (by omega)]
        have hvu : v ≠ copy.target := fun heq => net.irrefl _ (heq ▸ hv)
        have hforward : v ∈ forwardTargets (net.connectedPeers copy.target) envelope.sender copy.target :=
          List.mem_filter.mpr ⟨hv, Bool.and_eq_true_iff.mpr ⟨decide_eq_true hvs, decide_eq_true hvu⟩⟩
        exact .inr ⟨_, List.mem_append_right _ (List.mem_map_of_mem hforward), rfl, rfl⟩
      · rcases h.sent u hu k hk hhops v hv with hv | ⟨c, hc, hcu, hcv⟩
        · exact .inl (List.mem_cons_of_mem _ hv)
        · by_cases heq : c = copy
          · subst heq
            exact .inl (List.mem_cons.mpr (.inl hcv.symm))
          · exact .inr ⟨c, List.mem_append_left _ ((List.mem_erase_of_ne heq).mpr hc), hcu, hcv⟩
    fresh := fun v hv => by
      have hne : v ≠ copy.target := fun heq => hv (heq ▸ List.mem_cons_self)
      simp only [Function.update_of_ne hne]
      exact h.fresh v fun hv' => hv (List.mem_cons_of_mem _ hv')
    delivered := fun v => by
      by_cases heq : v = copy.target
      · subst heq
        refine (List.filter_cons_of_pos ?_).trans ?_
        · exact decide_eq_true rfl
        · rw [h.delivered, if_neg fun hv => hmarked hv.1, if_pos ⟨List.mem_cons_self, hne⟩]
      · refine (List.filter_cons_of_neg (by simpa using Ne.symm heq)).trans ?_
        rw [h.delivered]
        simp only [List.mem_cons, heq, false_or] }

end

/-! ### Runs -/

section
variable (crates : Crates) (net : PeerGraph) (publicKeys : NodeId → NodeId → Option Bytes) (envelope : Envelope)

/-- The cache of a node that has looked the broadcast up still has it when a copy comes in, and the id is of no
other message. -/
def Keeps : Event × World → Prop
  | (.deliver now copy, w) =>
    copy.target ∈ w.marked → (w.gossip copy.target).keeps now envelope.msgId = true
  | (.other _ _ msgId, _) => msgId ≠ envelope.msgId

variable {crates net publicKeys envelope} {w : World}

/-- A step keeps to numbers of hops, which may be those of one more node. -/
theorem follows_next (hhonest : Honest crates publicKeys envelope) (hbroadcast : envelope.routing = .Broadcast)
    {event : Event} (hkeeps : Keeps envelope (event, w)) (h : ∃ hops, Follows net envelope hops w) :
    ∃ hops, Follows net envelope hops ((machine crates net publicKeys).next event w) := by
  obtain ⟨hops, h⟩ := h
  cases event with
  | other now node msgId => exact ⟨hops, h.other node hkeeps⟩
  | deliver now copy =>
    by_cases hmem : copy ∈ w.inFlight
    · by_cases hmarked : copy.target ∈ w.marked
      · exact ⟨hops, h.deliver_old hmem hmarked (hkeeps hmarked)⟩
      · obtain ⟨hknown, -, -, k, -, hsource, -⟩ := h.flight copy hmem
        have hne : copy.source ≠ copy.target := fun heq => hmarked (heq ▸ hknown)
        have h' : Follows net envelope (Function.update hops copy.target (some (k + 1))) w :=
          h.congr fun v hv => Function.update_of_ne (ne_of_mem_of_not_mem hv hmarked) _ _
        refine ⟨_, h'.deliver_new hhonest hbroadcast hmem hmarked ?_ (Function.update_self _ _ _)⟩
        rw [Function.update_of_ne hne, hsource]
    · refine ⟨hops, ?_⟩
      rw [machine]
      simp only [World.deliver, if_neg hmem]
      exact h

/-- When no copy is under way, the nodes that have the broadcast are those of some numbers of hops. -/
theorem Follows.hops {hops : NodeId → Option ℕ} (h : Follows net envelope hops w) (hquiet : w.inFlight = []) :
    Hops net envelope.sender envelope.ttl.toNat fun v => if v ∈ w.marked then hops v else none where
  sender v := by
    refine ⟨fun hv => ?_, fun hv => ?_⟩
    · by_contra hne
      split_ifs at hv with hmarked
      obtain ⟨k, -, hhops, -⟩ := h.hop v hmarked hne
      rw [hhops] at hv
      cases hv
    · subst hv
      rw [if_pos h.sender, h.zero]
  step v k hv := by
    split_ifs at hv with hmarked
    have hne : v ≠ envelope.sender := fun heq => by
      subst heq
      rw [h.zero] at hv
      cases hv
    obtain ⟨k', hk, hhops, u, hu, hpeer, hhopsu⟩ := h.hop v hmarked hne
    obtain rfl : k' = k := by
      rw [hhops] at hv
      exact Nat.succ.inj (Option.some.inj hv)
    exact ⟨hk, u, hpeer, by rw [if_pos hu, hhopsu]⟩
  sent u k hu hk v hv := by
    split_ifs at hu with hmarked
    rcases h.sent u hmarked k hk hu v hv with hv | ⟨c, hc, -⟩
    · rw [if_pos hv]
      by_cases hvs : v = envelope.sender
      · rw [hvs, h.zero]
        rfl
      · obtain ⟨k, -, hhops, -⟩ := h.hop v hv hvs
        rw [hhops]
        rfl
    · rw [hquiet] at hc
      cases hc

/-- Every other node has delivered the broadcast once, and the sender has not. -/
def Delivered (net : PeerGraph) (envelope : Envelope) (w : World) : Prop :=
  (∀ v ∈ net.nodes, v ≠ envelope.sender → w.delivered.filter (fun m => m.node = v) =
    [⟨v, envelope.sender, envelope.payload, envelope.msgId⟩]) ∧
  w.delivered.filter (fun m => m.node = envelope.sender) = []

theorem Follows.delivered_of_covered {hops : NodeId → Option ℕ} (h : Follows net envelope hops w)
    (hquiet : w.inFlight = []) (hcovered : Covered net envelope.sender envelope.ttl.toNat) :
    Delivered net envelope w := by
  refine ⟨fun v hv hne => ?_, ?_⟩
  · have hsome := hcovered _ (h.hops hquiet) v hv
    have hmarked : v ∈ w.marked := by
      by_contra hnot
      rw [if_neg hnot] at hsome
      cases hsome
    rw [h.delivered, if_pos ⟨hmarked, hne⟩]
  · rw [h.delivered, if_neg fun hv => hv.2 rfl]

/-! ### A run for given numbers of hops -/

variable {hops : NodeId → Option ℕ} {now : ℕ} {copy : Copy}

/-- The copies come as `hops` says, and all caches keep the broadcast. -/
structure Ready (net : PeerGraph) (envelope : Envelope) (hops : NodeId → Option ℕ) (now : ℕ) (w : World) : Prop
    extends Follows net envelope hops w where
  keeps : ∀ v ∈ w.marked, (w.gossip v).keeps now envelope.msgId = true
  capacity : ∀ v, 0 < (w.gossip v).capacity
  ttl : ∀ v, 0 < (w.gossip v).ttl

/-- A run from `w` may come to a state of this kind. -/
def Possible (crates : Crates) (net : PeerGraph) (publicKeys : NodeId → NodeId → Option Bytes) (envelope : Envelope)
    (P : World → Prop) (w : World) : Prop :=
  ∃ events, (∀ p ∈ (machine crates net publicKeys).trace events w, Keeps envelope p) ∧
    P ((machine crates net publicKeys).final events w)

theorem possible_self {P : World → Prop} (h : P w) : Possible crates net publicKeys envelope P w :=
  ⟨[], fun _ hp => absurd hp List.not_mem_nil, h⟩

theorem possible_deliver {P : World → Prop} (hkeeps : Keeps envelope (.deliver now copy, w))
    (h : Possible crates net publicKeys envelope P (w.deliver crates net publicKeys now copy)) :
    Possible crates net publicKeys envelope P w := by
  obtain ⟨events, hevents, hfinal⟩ := h
  refine ⟨.deliver now copy :: events, ?_, ?_⟩
  · rw [Machine.trace_cons rfl, List.forall_mem_cons]
    exact ⟨hkeeps, hevents⟩
  · rw [Machine.final_cons rfl]
    exact hfinal

theorem forward_gossip (source : NodeId) (targets : List NodeId) (envelope : Envelope) (w : World) :
    (w.forward source targets envelope).gossip = w.gossip ∧
      (w.forward source targets envelope).marked = w.marked := by
  unfold World.forward
  split
  · exact ⟨rfl, rfl⟩
  · exact ⟨rfl, rfl⟩

/-- The target looks the copy up, whatever becomes of it. -/
theorem receive_gossip : (w.receive crates net publicKeys now copy).gossip =
      Function.update w.gossip copy.target ((w.gossip copy.target).checkAndMark now copy.envelope.msgId).2 ∧
    (w.receive crates net publicKeys now copy).marked = copy.target :: w.marked := by
  unfold World.receive
  simp only [processIncoming_snd]
  split
  · exact forward_gossip _ _ _ _
  · exact ⟨rfl, rfl⟩
  · exact forward_gossip _ _ _ _
  · exact ⟨rfl, rfl⟩

theorem Ready.deliver (h : Ready net envelope hops now w) (hmem : copy ∈ w.inFlight)
    (hnext : Follows net envelope hops (w.deliver crates net publicKeys now copy)) :
    Ready net envelope hops now (w.deliver crates net publicKeys now copy) := by
  obtain ⟨-, -, -, k, -, -, henvelope⟩ := h.flight copy hmem
  have hid : copy.envelope.msgId = envelope.msgId := by rw [henvelope]
  have hgossip : (w.deliver crates net publicKeys now copy).gossip =
      Function.update w.gossip copy.target ((w.gossip copy.target).checkAndMark now envelope.msgId).2 := by
    rw [World.deliver, if_pos hmem, ← hid]
    exact receive_gossip.1
  have hmarked : (w.deliver crates net publicKeys now copy).marked = copy.target :: w.marked := by
    rw [World.deliver, if_pos hmem]
    exact receive_gossip.2
  refine ⟨hnext, ?_, ?_, ?_⟩
  · rw [hgossip, hmarked, Function.forall_update_iff w.gossip
      fun v g => v ∈ copy.target :: w.marked → g.keeps now envelope.msgId = true]
    exact ⟨fun _ => GossipEngine.keeps_checkAndMark (h.capacity _) (h.ttl _),
      fun v hne hv => h.keeps v (List.mem_of_ne_of_mem hne hv)⟩
  · rw [hgossip, Function.forall_update_iff w.gossip fun _ g => 0 < g.capacity,
      GossipEngine.capacity_checkAndMark]
    exact ⟨h.capacity _, fun v _ => h.capacity v⟩
  · rw [hgossip, Function.forall_update_iff w.gossip fun _ g => 0 < g.ttl, GossipEngine.ttl_checkAndMark]
    exact ⟨h.ttl _, fun v _ => h.ttl v⟩

/-- When all nodes with hops have the broadcast, the other copies come in and are dropped. -/
theorem possible_quiet (hhops : Hops net envelope.sender envelope.ttl.toNat hops)
    (h : Ready net envelope hops now w) (hall : ∀ v, (hops v).isSome → v ∈ w.marked) :
    Possible crates net publicKeys envelope (fun w => w.inFlight = [] ∧ Follows net envelope hops w) w := by
  generalize hn : w.inFlight.length = n
  induction n generalizing w with
  | zero => exact possible_self ⟨List.length_eq_zero_iff.mp hn, h.toFollows⟩
  | succ n ih =>
    obtain ⟨copy, hmem⟩ := List.exists_mem_of_length_pos (l := w.inFlight) (by omega)
    obtain ⟨-, hpeer, -, k, hk, hsource, henvelope⟩ := h.flight copy hmem
    have hid : copy.envelope.msgId = envelope.msgId := by rw [henvelope]
    have hmarked := hall copy.target (hhops.sent _ k hsource hk _ hpeer)
    have hkeeps := h.keeps _ hmarked
    have hreceive := @receive_old crates net publicKeys envelope now copy
      { w with inFlight := w.inFlight.erase copy } hid hkeeps
    refine possible_deliver (fun _ => hkeeps) (ih (h.deliver hmem (h.deliver_old hmem hmarked hkeeps)) ?_ ?_)
    · intro v hv
      rw [World.deliver, if_pos hmem, hreceive]
      exact List.mem_cons_of_mem _ (hall v hv)
    · rw [World.deliver, if_pos hmem, hreceive]
      simp only
      rw [List.length_erase_of_mem hmem, hn]
      rfl

/-- A node that has hops and not the broadcast, and a peer of it that has sent it. -/
theorem exists_next (hhops : Hops net envelope.sender envelope.ttl.toNat hops) (h : Follows net envelope hops w)
    {k : ℕ} {v : NodeId} (hv : hops v = some k) (hmarked : v ∉ w.marked) :
    ∃ v k, v ∉ w.marked ∧ hops v = some (k + 1) ∧
      ∃ copy ∈ w.inFlight, copy.target = v ∧ hops copy.source = some k := by
  induction k generalizing v with
  | zero =>
    obtain rfl := (hhops.sender v).mp hv
    exact absurd h.sender hmarked
  | succ k ih =>
    obtain ⟨hk, u, hpeer, hu⟩ := hhops.step v k hv
    by_cases humarked : u ∈ w.marked
    · rcases h.sent u humarked k hk hu v hpeer with hmem | ⟨copy, hmem, rfl, rfl⟩
      · exact absurd hmem hmarked
      · exact ⟨_, k, hmarked, hv, copy, hmem, rfl, hu⟩
    · exact ih hu humarked

/-- The copies may come in such a way that each node has the hops that it is said to have. -/
theorem possible_hops (hhonest : Honest crates publicKeys envelope) (hbroadcast : envelope.routing = .Broadcast)
    (hhops : Hops net envelope.sender envelope.ttl.toNat hops) (hsender : envelope.sender ∈ net.nodes)
    (h : Ready net envelope hops now w) :
    Possible crates net publicKeys envelope (fun w => w.inFlight = [] ∧ Follows net envelope hops w) w := by
  generalize hn : (net.nodes.toFinset.filter fun v => (hops v).isSome ∧ v ∉ w.marked).card = n
  induction n using Nat.strong_induction_on generalizing w with
  | _ n ih =>
    by_cases hall : ∀ v, (hops v).isSome → v ∈ w.marked
    · exact possible_quiet hhops h hall
    · obtain ⟨v, hnot⟩ := not_forall.mp hall
      obtain ⟨hv, hmarked⟩ := Classical.not_imp.mp hnot
      obtain ⟨k, hk⟩ := Option.isSome_iff_exists.mp hv
      obtain ⟨v, k, hmarked, hv, copy, hmem, rfl, hsource⟩ := exists_next hhops h.toFollows hk hmarked
      have hnext := h.deliver hmem (h.deliver_new hhonest hbroadcast hmem hmarked hsource hv)
      refine possible_deliver (fun hin => absurd hin hmarked) (ih _ ?_ hnext rfl)
      have hmarked' : (w.deliver crates net publicKeys now copy).marked = copy.target :: w.marked := by
        rw [World.deliver, if_pos hmem]
        exact receive_gossip.2
      rw [← hn, hmarked']
      refine Finset.card_lt_card (Finset.ssubset_iff_of_subset ?_ |>.mpr ⟨copy.target, ?_, ?_⟩)
      · intro u hu
        rw [Finset.mem_filter] at hu ⊢
        exact ⟨hu.1, hu.2.1, fun hin => hu.2.2 (List.mem_cons_of_mem _ hin)⟩
      · rw [Finset.mem_filter, List.mem_toFinset, hv]
        exact ⟨hhops.mem_nodes hsender hv, rfl, hmarked⟩
      · rw [Finset.mem_filter]
        exact fun hu => hu.2.2 List.mem_cons_self

end

/-! ### Deliveries -/

section
variable (crates : Crates) (net : PeerGraph) (publicKeys : NodeId → NodeId → Option Bytes) (now : ℕ)
  (caches : NodeId → GossipEngine) (envelope : Envelope)

/-- Whatever comes in when, as long as the caches keep the broadcast: nodes deliver it once at most and the
sender does not. -/
def NeverTwice : Prop :=
  ∀ events, (∀ p ∈ (machine crates net publicKeys).trace events (.broadcast net now caches envelope),
      Keeps envelope p) →
    let w := (machine crates net publicKeys).final events (.broadcast net now caches envelope)
    ∀ v, w.delivered.filter (fun m => m.node = v) = [] ∨ v ≠ envelope.sender ∧
      w.delivered.filter (fun m => m.node = v) = [⟨v, envelope.sender, envelope.payload, envelope.msgId⟩]

/-- … and when no copy is under way any more, all have delivered it. -/
def AlwaysDelivered : Prop :=
  ∀ events, (∀ p ∈ (machine crates net publicKeys).trace events (.broadcast net now caches envelope),
      Keeps envelope p) →
    ((machine crates net publicKeys).final events (.broadcast net now caches envelope)).inFlight = [] →
    Delivered net envelope ((machine crates net publicKeys).final events (.broadcast net now caches envelope))

variable {crates net publicKeys now caches envelope}

theorem follows_final (hhonest : Honest crates publicKeys envelope) (hbroadcast : envelope.routing = .Broadcast)
    (httl : 0 < envelope.ttl) (hfresh : ∀ v, (caches v).seen.lookup envelope.msgId = none) {events : List Event}
    (hkeeps : ∀ p ∈ (machine crates net publicKeys).trace events (.broadcast net now caches envelope),
      Keeps envelope p) :
    ∃ hops, Follows net envelope hops
      ((machine crates net publicKeys).final events (.broadcast net now caches envelope)) :=
  Machine.invariant (P := fun w => ∃ hops, Follows net envelope hops w)
    (fun p hp => follows_next hhonest hbroadcast (hkeeps p hp))
    ⟨fun _ => some 0, follows_broadcast _ rfl httl hfresh⟩

theorem neverTwice (hhonest : Honest crates publicKeys envelope) (hbroadcast : envelope.routing = .Broadcast)
    (httl : 0 < envelope.ttl) (hfresh : ∀ v, (caches v).seen.lookup envelope.msgId = none) :
    NeverTwice crates net publicKeys now caches envelope := by
  intro events hkeeps w v
  obtain ⟨hops, h⟩ := follows_final hhonest hbroadcast httl hfresh hkeeps
  rw [h.delivered v]
  split_ifs with hv
  · exact .inr ⟨hv.2, rfl⟩
  · exact .inl rfl

theorem ready_broadcast {hops : NodeId → Option ℕ} (hzero : hops envelope.sender = some 0)
    (httl : 0 < envelope.ttl) (hfresh : ∀ v, (caches v).seen.lookup envelope.msgId = none)
    (hcaches : ∀ v, 0 < (caches v).capacity ∧ 0 < (caches v).ttl) :
    Ready net envelope hops now (.broadcast net now caches envelope) := by
  refine ⟨follows_broadcast hops hzero httl hfresh, fun v hv => ?_, ?_, ?_⟩
  · cases List.mem_singleton.mp hv
    rw [World.broadcast, World.send]
    simp only [Function.update_self]
    exact GossipEngine.keeps_checkAndMark (hcaches _).1 (hcaches _).2
  · refine (Function.forall_update_iff caches fun _ g => 0 < g.capacity).mpr ⟨?_, fun v _ => (hcaches v).1⟩
    rw [GossipEngine.capacity_checkAndMark]
    exact (hcaches _).1
  · refine (Function.forall_update_iff caches fun _ g => 0 < g.ttl).mpr ⟨?_, fun v _ => (hcaches v).2⟩
    rw [GossipEngine.ttl_checkAndMark]
    exact (hcaches _).2

/-- If numbers of hops leave a node out, so does a run. -/
theorem covered_of_alwaysDelivered (hhonest : Honest crates publicKeys envelope)
    (hbroadcast : envelope.routing = .Broadcast) (httl : 0 < envelope.ttl) (hsender : envelope.sender ∈ net.nodes)
    (hfresh : ∀ v, (caches v).seen.lookup envelope.msgId = none)
    (hcaches : ∀ v, 0 < (caches v).capacity ∧ 0 < (caches v).ttl)
    (h : AlwaysDelivered crates net publicKeys now caches envelope) :
    Covered net envelope.sender envelope.ttl.toNat := by
  intro hops hhops v hv
  have hzero := (hhops.sender envelope.sender).mpr rfl
  obtain ⟨events, hkeeps, hquiet, hfollows⟩ := possible_hops hhonest hbroadcast hhops hsender
    (@ready_broadcast net now caches envelope hops hzero httl hfresh hcaches)
  by_cases heq : v = envelope.sender
  · rw [heq, hzero]
    rfl
  · have hdelivered := (h events hkeeps hquiet).1 v hv heq
    rw [hfollows.delivered] at hdelivered
    split_ifs at hdelivered with hmarked
    · obtain ⟨k, -, hk, -⟩ := hfollows.hop v hmarked.1 hmarked.2
      rw [hk]
      rfl

/-- No node ever delivers a broadcast twice, and its sender never does; all others have delivered it whenever no
copy is under way if and only if the network is covered. -/
theorem gossip_delivery_iff (keypair : Keypair) (payload : Payload) (defaultTtl : UInt8) (nonce : Bytes)
    (timestamp : UInt64)
    (hmade : envelope = createEnvelope crates keypair .Broadcast payload defaultTtl nonce timestamp) (hpos : 0 < defaultTtl) (hsender : envelope.sender ∈ net.nodes) (hhonest : Honest crates publicKeys envelope)
    (hfresh : ∀ v, (caches v).seen.lookup envelope.msgId = none)
    (hcaches : ∀ v, 0 < (caches v).capacity ∧ 0 < (caches v).ttl) :
    NeverTwice crates net publicKeys now caches envelope ∧
      (AlwaysDelivered crates net publicKeys now caches envelope ↔
        Covered net envelope.sender defaultTtl.toNat) := by
  have hbroadcast : envelope.routing = .Broadcast := by rw [hmade]; rfl
  have httl : envelope.ttl = defaultTtl := by rw [hmade]; rfl
  subst httl
  refine ⟨neverTwice hhonest hbroadcast hpos hfresh, covered_of_alwaysDelivered hhonest hbroadcast hpos hsender
    hfresh hcaches, fun hcovered events hkeeps hquiet => ?_⟩
  obtain ⟨hops, h⟩ := follows_final hhonest hbroadcast hpos hfresh hkeeps
  exact h.delivered_of_covered hquiet hcovered

end

/-! ### A copy that comes the long way round -/

open Network.Mesh.Origin (aliceId aliceKey alice heartbeat nonce sampleCrates fromAlice)

def hubNodes : List NodeId := aliceId :: (List.range 11).map fun i => ⟨.ofNat 256 (i + 1)⟩

/-- The first ten nodes in a row, and the eleventh connected to all. -/
def linked (i j : ℕ) : Bool :=
  i ≠ j && (i = 10 || j = 10 || i ≤ 9 && j ≤ 9 && (i + 1 = j || j + 1 = i))

theorem linked_comm (i j : ℕ) : linked i j = linked j i := by
  unfold linked
  grind

def hub : PeerGraph where
  nodes := hubNodes
  connectedPeers u :=
    if u ∈ hubNodes then hubNodes.filter fun v => linked (hubNodes.idxOf u) (hubNodes.idxOf v) else []
  mem_nodes u hu v hv := by
    rw [if_pos hu] at hv
    exact (List.mem_filter.mp hv).1
  symm u v hv := by
    split_ifs at hv with hu
    · obtain ⟨hv, hlinked⟩ := List.mem_filter.mp hv
      rw [if_pos hv]
      exact List.mem_filter.mpr ⟨hu, (linked_comm _ _).trans hlinked⟩
    · cases hv
  irrefl u hu := by
    split_ifs at hu
    · have hlinked := (List.mem_filter.mp hu).2
      simp [linked] at hlinked
    · cases hu

/-- Along the row to the hub, and not to the last node, which has no other peer. -/
def hubHops (v : NodeId) : Option ℕ := if hubNodes.idxOf v ≤ 10 then some (hubNodes.idxOf v) else none

theorem hops_hubHops : Hops hub aliceId 10 hubHops := by
  have hmem : ∀ {v k}, hubHops v = some k → v ∈ hubNodes ∧ k ≤ 10 := fun {v k} hv => by
    unfold hubHops at hv
    split_ifs at hv with hle
    cases hv
    exact ⟨List.idxOf_lt_length_iff.mp (hle.trans_lt (by decide)), hle⟩
  refine ⟨fun v => ⟨fun hv => ?_, fun hv => ?_⟩, fun v k hv => ?_, fun u k hu hk => ?_⟩
  · have hall : ∀ v ∈ hubNodes, hubHops v = some 0 → v = aliceId := by decide +kernel
    exact hall v (hmem hv).1 hv
  · rw [hv]
    decide +kernel
  · have hall : ∀ v ∈ hubNodes, ∀ k < 10, hubHops v = some (k + 1) →
        ∃ u ∈ hubNodes, v ∈ hub.connectedPeers u ∧ hubHops u = some k := by decide +kernel
    obtain ⟨hv', hk⟩ := hmem hv
    obtain ⟨u, -, hu⟩ := hall v hv' k hk hv
    exact ⟨hk, u, hu⟩
  · have hall : ∀ u ∈ hubNodes, ∀ k < 10, hubHops u = some k →
        ∀ v ∈ hub.connectedPeers u, (hubHops v).isSome := by decide +kernel
    exact hall u (hmem hu).1 k hk hu

/-- All nodes have Alice's key. -/
def hubKeys (_ id : NodeId) : Option Bytes := if id = aliceId then some aliceKey else none

def hubCaches (_ : NodeId) : GossipEngine := .new 10000 300

theorem hubCaches_pos (v : NodeId) : 0 < (hubCaches v).capacity ∧ 0 < (hubCaches v).ttl :=
  ⟨Nat.succ_pos 9999, Nat.succ_pos 299⟩

theorem sender_fromAlice : fromAlice.sender = aliceId := by decide +kernel

theorem honest_fromAlice : Honest sampleCrates hubKeys fromAlice := by
  intro v pk hpk
  rw [sender_fromAlice, hubKeys, if_pos rfl] at hpk
  cases hpk
  have hok : (verifySignature sampleCrates aliceKey
    (signableData fromAlice.msgId fromAlice.routing fromAlice.payload) fromAlice.signature).isOk = true := by
    decide +kernel
  cases hresult : verifySignature sampleCrates aliceKey
    (signableData fromAlice.msgId fromAlice.routing fromAlice.payload) fromAlice.signature with
  | ok u => rfl
  | error e =>
    rw [hresult] at hok
    cases hok

/-- The nodes are at most two links apart and the TTL is ten, and yet a node may be left out. -/
theorem far_copy_suppresses :
    ((∀ u ∈ hub.nodes, ∀ v ∈ hub.nodes, within hub 2 u v = true) ∧ fromAlice.ttl = 10 ∧
      Honest sampleCrates hubKeys fromAlice) ∧
    ¬ AlwaysDelivered sampleCrates hub hubKeys 0 hubCaches fromAlice := by
  refine ⟨⟨by decide +kernel, rfl, honest_fromAlice⟩, fun halways => ?_⟩
  have hcovered := covered_of_alwaysDelivered honest_fromAlice rfl (by decide) (by rw [sender_fromAlice]; decide)
    (fun _ => rfl) hubCaches_pos halways
  rw [sender_fromAlice] at hcovered
  have hlast := hcovered hubHops hops_hubHops ⟨.ofNat 256 11⟩ (by decide +kernel)
  revert hlast
  decide +kernel

/-- With one more link no node is left out. -/
example : Covered hub aliceId 11 :=
  covered_of_card (by decide) (fun v hv => ⟨2, by revert v; decide +kernel⟩) (by decide +kernel)

theorem gossip_delivery_hub :
    NeverTwice sampleCrates hub hubKeys 0 hubCaches fromAlice ∧
      (AlwaysDelivered sampleCrates hub hubKeys 0 hubCaches fromAlice ↔
        Covered hub fromAlice.sender (10 : UInt8).toNat) :=
  gossip_delivery_iff alice heartbeat 10 nonce 1767225600000 rfl (by decide) (by rw [sender_fromAlice]; decide)
    honest_fromAlice (fun _ => rfl) hubCaches_pos

end Coinjecture.Network.Mesh.GossipDelivery
