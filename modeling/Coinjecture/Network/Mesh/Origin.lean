import Mathlib.Data.Finset.Basic
import Coinjecture.Lib.Trace
import Coinjecture.Network.Mesh.Router

/-! # Who a message of the mesh is from

The event loop of one node, to which anybody sends anything, and the envelopes that are made with
`create_envelope` anywhere. The node has the public keys of the peers that have completed a handshake with
it, now or earlier; the records of other peers, their addresses and the forwarding to them do not bear on
what is delivered.

* `mesh_origin` : what is delivered from a sender whose key the node has, that sender has made, with this
  payload and routing; and nothing is delivered twice while the cache keeps it. -/

namespace Coinjecture.Network.Mesh.Origin

open Lib.Bincode Lib.Codes Lib.Trace
open Core.Types
open Network.Mesh.Protocol Network.Mesh.Router

structure NetworkConfig where
  dedupCacheCapacity : ℕ
  dedupCacheTtl : ℕ
  maxMessagesPerSecondPerPeer : ℕ
  defaultTtl : UInt8

/-- An envelope and the public key of the key pair it was made with. -/
structure Made where
  publicKey : Bytes
  envelope : Envelope
  deriving DecidableEq

/-- The node, and `made`, which lists all calls of `create_envelope` anywhere. -/
structure World where
  now : ℕ
  publicKeys : NodeId → Option Bytes
  peerWriters : Finset NodeId
  gossip : GossipEngine
  rateCounters : NodeId → Option (ℕ × ℕ)
  made : List Made

/-- What happens at the node: a handshake is completed under a challenge of the node, an envelope comes from
a connected peer, a connection ends, the node sends something, or somebody else makes an envelope. -/
inductive Event where
  | tick (d : ℕ)
  | connected (peerId : NodeId) (publicKey challenge response : Bytes)
  | received (peerId : NodeId) (envelope : Envelope)
  | disconnected (peerId : NodeId)
  | send (routing : RoutingMode) (payload : Payload) (ttl : UInt8) (nonce : Bytes) (timestamp : UInt64)
  | made (keypair : Keypair) (routing : RoutingMode) (payload : Payload) (ttl : UInt8) (nonce : Bytes)
      (timestamp : UInt64)

variable (crates : Crates) (config : NetworkConfig) (keypair : Keypair)

namespace World

def new : World where
  now := 0
  publicKeys _ := none
  peerWriters := ∅
  gossip := .new config.dedupCacheCapacity config.dedupCacheTtl
  rateCounters _ := none
  made := []

def localId : NodeId := nodeIdOf crates keypair.publicKeyBytes

/-- A handshake is completed. A peer that is connected already is not registered again, and the node itself
gets no record. -/
def connected (peerId : NodeId) (publicKey challenge response : Bytes) (w : World) : World :=
  if verifySignatureForNode crates peerId publicKey challenge response then
    if peerId ∈ w.peerWriters then w
    else { w with
      publicKeys := if peerId = localId crates keypair then w.publicKeys
        else Function.update w.publicKeys peerId (some publicKey)
      peerWriters := insert peerId w.peerWriters }
  else w

/-- The counter of the peer for the current second, with this message. -/
def rate (peerId : NodeId) (w : World) : ℕ × ℕ :=
  let (count, windowStart) := (w.rateCounters peerId).getD (0, w.now)
  if 1 ≤ w.now - windowStart then (1, w.now) else (count + 1, windowStart)

def rateLimited (peerId : NodeId) (w : World) : Bool :=
  config.maxMessagesPerSecondPerPeer < (w.rate peerId).1

/-- What becomes of an envelope that comes from a peer, if it is not over its rate. -/
def route (peerId : NodeId) (envelope : Envelope) (w : World) : Option RouteAction :=
  if w.rateLimited config peerId then none
  else some (processIncoming crates w.now envelope (localId crates keypair) w.gossip w.publicKeys).1

def received (peerId : NodeId) (envelope : Envelope) (w : World) : World :=
  { w with
    rateCounters := Function.update w.rateCounters peerId (some (w.rate peerId))
    gossip := if w.rateLimited config peerId then w.gossip
      else (processIncoming crates w.now envelope (localId crates keypair) w.gossip w.publicKeys).2 }

def disconnected (peerId : NodeId) (w : World) : World :=
  { w with
    peerWriters := w.peerWriters.erase peerId
    rateCounters := Function.update w.rateCounters peerId none }

def record (keypair : Keypair) (envelope : Envelope) (w : World) : World :=
  { w with made := ⟨keypair.publicKeyBytes, envelope⟩ :: w.made }

/-- A broadcast, a direct message, a heartbeat or a peer exchange of the node. -/
def send (routing : RoutingMode) (payload : Payload) (ttl : UInt8) (nonce : Bytes) (timestamp : UInt64)
    (w : World) : World :=
  let envelope := createEnvelope crates keypair routing payload ttl nonce timestamp
  { w.record keypair envelope with gossip := (w.gossip.checkAndMark w.now envelope.msgId).2 }

end World

def machine : Machine Event World where
  next
    | .tick d, w => { w with now := w.now + d }
    | .connected peerId publicKey challenge response, w =>
      w.connected crates keypair peerId publicKey challenge response
    | .received peerId envelope, w => w.received crates config keypair peerId envelope
    | .disconnected peerId, w => w.disconnected peerId
    | .send routing payload ttl nonce timestamp, w => w.send crates keypair routing payload ttl nonce timestamp
    | .made other routing payload ttl nonce timestamp, w =>
      w.record other (createEnvelope crates other routing payload ttl nonce timestamp)
  halts _ _ := false

/-- The event delivers a message with this id to the application. -/
def Delivers (msgId : Bytes32) : Event × World → Prop
  | (.received peerId envelope, w) => envelope.msgId = msgId ∧
      ∃ action ∈ w.route crates config keypair peerId envelope, action.delivers = true
  | _ => False

/-- Signatures under the keys of `honest` are not forged: what verifies, its holder has signed, in
`create_envelope` or as the 32 bytes of a challenge. Sequences in memory have a length of 64 bits. -/
def Ideal (honest : Bytes → Prop) : Event × World → Prop
  | (.received _ envelope, w) => Fits envelope.payload ∧ ∀ pk, honest pk →
      crates.verify pk (signableData envelope.msgId envelope.routing envelope.payload)
        envelope.signature = none →
      (∃ m ∈ w.made, m.publicKey = pk ∧ signableData m.envelope.msgId m.envelope.routing m.envelope.payload =
        signableData envelope.msgId envelope.routing envelope.payload) ∨
      (signableData envelope.msgId envelope.routing envelope.payload).length = 32
  | (.send _ payload .., _) => Fits payload
  | (.made _ _ payload .., _) => Fits payload
  | _ => True

/-- A message that is delivered from a sender whose key the node has, and which is honest, the sender has made
with this id, routing and payload. -/
def Authentic (honest : Bytes → Prop) : Event × World → Prop
  | (.received peerId envelope, w) =>
      (∃ action ∈ w.route crates config keypair peerId envelope, action.delivers = true) →
      ∀ pk, w.publicKeys envelope.sender = some pk → honest pk →
      ∃ m ∈ w.made, m.publicKey = pk ∧ m.envelope.sender = envelope.sender ∧
        m.envelope.msgId = envelope.msgId ∧ m.envelope.routing = envelope.routing ∧
        m.envelope.payload = envelope.payload
  | _ => True

/-! ### What is signed -/

variable {crates config keypair}

theorem length_signableData (msgId : Bytes32) (routing : RoutingMode) (payload : Payload) :
    32 < (signableData msgId routing payload).length := by
  have hid : (encode msgId).length = 32 := by
    change (beBytes 32 msgId.toNat).length = 32
    rw [beBytes, List.length_reverse, length_leBytes]
  have htag : 4 ≤ (encode payload).length := by
    change 4 ≤ (variant (payloadTag payload) ++ payloadBody payload).length
    rw [List.length_append, variant, length_leBytes]
    omega
  rw [signableData, List.length_append, List.length_append]
  omega

/-- The signed bytes tell the id, the routing and the payload. -/
theorem signableData_inj {i i' : Bytes32} {r r' : RoutingMode} {p p' : Payload} (hp : Fits p)
    (hp' : Fits p') (h : signableData i r p = signableData i' r' p') : i = i' ∧ r = r' ∧ p = p' := by
  simp only [signableData, List.append_assoc] at h
  obtain ⟨hid, h⟩ := fields_split h trivial trivial
  obtain ⟨hrouting, h⟩ := fields_split h trivial trivial
  rw [← List.append_nil (encode p), ← List.append_nil (encode p')] at h
  obtain ⟨hpayload, -⟩ := fields_split h hp hp'
  exact ⟨hid, hrouting, hpayload⟩

/-! ### What every step keeps -/

/-- The keys are those of their ids, and the envelopes that were made have the sender that goes with the
key. -/
structure Inv (crates : Crates) (config : NetworkConfig) (w : World) : Prop where
  keys : ∀ peerId pk, w.publicKeys peerId = some pk → nodeIdOf crates pk = peerId
  made : ∀ m ∈ w.made, m.envelope.sender = nodeIdOf crates m.publicKey ∧ Fits m.envelope.payload
  capacity : 0 < w.gossip.capacity
  ttl : w.gossip.ttl = config.dedupCacheTtl

namespace Inv

variable {w : World} (h : Inv crates config w)

include h

theorem connected (peerId : NodeId) (publicKey challenge response : Bytes) :
    Inv crates config (w.connected crates keypair peerId publicKey challenge response) := by
  unfold World.connected
  split_ifs with hverified hconnected hlocal
  · exact h
  · exact ⟨h.keys, h.made, h.capacity, h.ttl⟩
  · refine ⟨fun p pk hpk => ?_, h.made, h.capacity, h.ttl⟩
    simp only at hpk
    by_cases hp : p = peerId
    · subst hp
      rw [Function.update_self] at hpk
      cases hpk
      simp only [verifySignatureForNode, Bool.and_eq_true, decide_eq_true_eq] at hverified
      exact hverified.1.2
    · rw [Function.update_of_ne hp] at hpk
      exact h.keys p pk hpk
  · exact h

theorem received (peerId : NodeId) (envelope : Envelope) :
    Inv crates config (w.received crates config keypair peerId envelope) := by
  refine ⟨h.keys, h.made, ?_, ?_⟩
  · simp only [World.received]
    split_ifs
    · exact h.capacity
    · simpa using h.capacity
  · simp only [World.received]
    split_ifs
    · exact h.ttl
    · simpa using h.ttl

theorem record (other : Keypair) (routing : RoutingMode) {payload : Payload} (hfits : Fits payload)
    (ttl : UInt8) (nonce : Bytes) (timestamp : UInt64) :
    Inv crates config (w.record other (createEnvelope crates other routing payload ttl nonce timestamp)) := by
  refine ⟨h.keys, fun m hm => ?_, h.capacity, h.ttl⟩
  rcases List.mem_cons.mp hm with rfl | hm
  · exact ⟨rfl, hfits⟩
  · exact h.made m hm

theorem send (routing : RoutingMode) {payload : Payload} (hfits : Fits payload) (ttl : UInt8)
    (nonce : Bytes) (timestamp : UInt64) :
    Inv crates config (w.send crates keypair routing payload ttl nonce timestamp) := by
  have hrecord := h.record keypair routing hfits ttl nonce timestamp
  refine ⟨hrecord.keys, hrecord.made, ?_, ?_⟩
  · simpa [World.send] using h.capacity
  · simpa [World.send] using h.ttl

/-- Every step keeps the invariant. -/
theorem next {honest : Bytes → Prop} {e : Event} (hideal : Ideal crates honest (e, w)) :
    Inv crates config ((machine crates config keypair).next e w) := by
  cases e with
  | tick d => exact ⟨h.keys, h.made, h.capacity, h.ttl⟩
  | connected peerId publicKey challenge response => exact h.connected peerId publicKey challenge response
  | received peerId envelope => exact h.received peerId envelope
  | disconnected peerId => exact ⟨h.keys, h.made, h.capacity, h.ttl⟩
  | send routing payload ttl nonce timestamp => exact h.send routing hideal ttl nonce timestamp
  | made other routing payload ttl nonce timestamp => exact h.record other routing hideal ttl nonce timestamp

/-- A delivered message was made by the holder of its sender's key. -/
theorem authentic {honest : Bytes → Prop} {e : Event} (hideal : Ideal crates honest (e, w)) :
    Authentic crates config keypair honest (e, w) := by
  cases e with
  | received peerId envelope =>
    rintro ⟨action, haction, hdelivers⟩ pk hpk hhonest
    unfold World.route at haction
    split_ifs at haction
    · cases haction
    · cases haction
      obtain ⟨-, hverify⟩ := of_delivers crates hdelivers
      rcases hideal.2 pk hhonest (hverify pk hpk) with ⟨m, hm, hkey, hdata⟩ | hlength
      · obtain ⟨hsender, hfits⟩ := h.made m hm
        obtain ⟨hid, hrouting, hpayload⟩ := signableData_inj hfits hideal.1 hdata
        refine ⟨m, hm, hkey, ?_, hid, hrouting, hpayload⟩
        rw [hsender, hkey]
        exact h.keys _ pk hpk
      · exact absurd hlength (length_signableData ..).ne'
  | _ => trivial

/-- A message is not in the cache when it is delivered, and it is afterwards. -/
theorem keeps_of_delivers {msgId : Bytes32} {e : Event}
    (hdelivers : Delivers crates config keypair msgId (e, w)) :
    w.gossip.keeps w.now msgId = false ∧ (0 < config.dedupCacheTtl →
      ((machine crates config keypair).next e w).gossip.keeps w.now msgId = true) := by
  cases e with
  | received peerId envelope =>
    obtain ⟨rfl, action, haction, hdelivers⟩ := hdelivers
    unfold World.route at haction
    split_ifs at haction with hrate
    · cases haction
    · cases haction
      refine ⟨(of_delivers crates hdelivers).1, fun httl => ?_⟩
      change (w.received crates config keypair peerId envelope).gossip.keeps w.now envelope.msgId = true
      simp only [World.received, if_neg hrate, processIncoming_snd]
      exact GossipEngine.keeps_checkAndMark h.capacity (h.ttl ▸ httl)
  | _ => exact hdelivers.elim

end Inv

/-- In a run of the node in which nobody forges a signature of the honest keys, what is delivered from a
sender whose key the node has, connected or not, the sender has made with `create_envelope`; and a message
that is delivered is kept in the cache from then on and is not delivered again while it is kept. -/
theorem mesh_origin (crates : Crates) (config : NetworkConfig) (keypair : Keypair) (honest : Bytes → Prop)
    (hcapacity : 0 < config.dedupCacheCapacity) (es : List Event)
    (hideal : ∀ e ∈ (machine crates config keypair).trace es (.new config), Ideal crates honest e) :
    (∀ e ∈ (machine crates config keypair).trace es (.new config),
      Authentic crates config keypair honest e ∧
      ∀ msgId, Delivers crates config keypair msgId e → 0 < config.dedupCacheTtl →
        ((machine crates config keypair).next e.1 e.2).gossip.keeps e.2.now msgId = true) ∧
    ((machine crates config keypair).trace es (.new config)).Pairwise fun p q => ∀ msgId,
      Delivers crates config keypair msgId p → Delivers crates config keypair msgId q →
      q.2.gossip.keeps q.2.now msgId = false := by
  have hnew : Inv crates config (.new config) := ⟨nofun, nofun, hcapacity, rfl⟩
  have hinv := Machine.invariant_trace (P := Inv crates config)
    (fun e (he : e ∈ (machine crates config keypair).trace es (.new config)) h => h.next (hideal e he)) hnew
  refine ⟨fun e he => ⟨(hinv e he).authentic (hideal e he), fun msgId hdelivers => ?_⟩, ?_⟩
  · exact ((hinv e he).keeps_of_delivers hdelivers).2
  · refine List.Pairwise.imp_of_mem (R := fun _ _ => True) (fun {p q} _ hq _ msgId _ hdelivers => ?_)
      (List.pairwise_of_forall fun _ _ => trivial)
    exact ((hinv q hq).keeps_of_delivers hdelivers).1

def aliceKey : Bytes := beBytes 32 0xbc7cbcb5636375fa1d82434d466724d92377f53b980695dd49d26d0ce12205a5

def aliceId : NodeId := ⟨0x730a5edc28c2f8daf2d9dce3a01d5f205e35e55582eed2ba26219fabdd4cc9a8⟩

def nodeKey : Bytes := beBytes 32 0x8e486e8fb79499dba2a789c6b1639d409495233c79e0eaf52e2ea1fc9dbbb73f

def nodeId : NodeId := ⟨0x861149211b3afd6652c7a4e8a6433fc98ded909c18a0152338c5b21df2f4cd7e⟩

def heartbeat : Payload := .Heartbeat 1 3 0

def nonce : Bytes := List.replicate 32 7

def heartbeatId : Bytes32 := 0x805731d0ddcdd3485173873d48c07b162152adcf1696c901d4941f7d097ab92e

def heartbeatSignature : Bytes :=
  beBytes 32 0xba565c5360dfdec21b6154ae63c05abe6c1c6b0bb2a3054e6c78a423ee9a8332 ++
    beBytes 32 0xa466467adca44b4e73d403094e3105073b96bbe933b515b60e4d9c8302d25a06

def challenge : Bytes := List.replicate 32 9

def response : Bytes :=
  beBytes 32 0x92c5a6c9117a606ec168868320733a143545703ddab57e5ac62341dede9ea350 ++
    beBytes 32 0x5991c8e42bf8ffc24cb84f02097cd789fc6b0abccd7e0b1d2459f5ae6146ca0f

def heartbeatData : Bytes := signableData heartbeatId .Broadcast heartbeat

def alice : Keypair := ⟨aliceKey, fun data => if data = heartbeatData then heartbeatSignature else response⟩

def node : Keypair := ⟨nodeKey, fun _ => []⟩

def sampleCrates : Crates where
  sha256 data := ([(aliceKey, aliceId.bytes), (nodeKey, nodeId.bytes),
    (encode aliceId ++ nonce ++ encode heartbeat, heartbeatId)].lookup data).getD 0
  fromBytes _ := none
  verify key data signature :=
    if (key, data, signature) ∈ [(aliceKey, heartbeatData, heartbeatSignature), (aliceKey, challenge, response)]
    then none else some "signature error"

def sampleConfig : NetworkConfig := ⟨10000, 300, 100, 10⟩

/-- Alice's heartbeat as she makes it. -/
def fromAlice : Envelope := createEnvelope sampleCrates alice .Broadcast heartbeat 10 nonce 1767225600000

def aliceSends : List Event :=
  [.connected aliceId aliceKey challenge response, .made alice .Broadcast heartbeat 10 nonce 1767225600000]

theorem mesh_origin_aliceSends :
    (fromAlice.signature = heartbeatSignature ∧ Delivers sampleCrates sampleConfig node heartbeatId
      (.received aliceId fromAlice, (machine sampleCrates sampleConfig node).final aliceSends (.new sampleConfig))) ∧
    ∀ e ∈ (machine sampleCrates sampleConfig node).trace (aliceSends ++ [.received aliceId fromAlice])
      (.new sampleConfig), Authentic sampleCrates sampleConfig node (· = aliceKey) e := by
  have hideal : ∀ e ∈ (machine sampleCrates sampleConfig node).trace
      (aliceSends ++ [.received aliceId fromAlice]) (.new sampleConfig),
      Ideal sampleCrates (· = aliceKey) e := by
    intro e he
    rcases List.mem_cons.mp he with rfl | he
    · trivial
    · rcases List.mem_cons.mp he with rfl | he
      · trivial
      · obtain rfl := List.mem_singleton.mp he
        exact ⟨trivial, fun pk hpk _ => .inl ⟨_, List.mem_cons_self, hpk.symm, rfl⟩⟩
  have horigin := mesh_origin sampleCrates sampleConfig node (· = aliceKey) (by decide) _ hideal
  refine ⟨⟨by decide +kernel, by decide +kernel, .DeliverAndForward, by decide +kernel, rfl⟩, ?_⟩
  exact fun e he => (horigin.1 e he).1

/-- An envelope in Alice's name that she has not made. -/
def forged : Envelope := { fromAlice with payload := .Heartbeat 2 0 0, signature := [] }

/-- A copy of Alice's envelope without the signature. -/
def spoilt : Envelope := { fromAlice with signature := [] }

def malloryId : NodeId := ⟨13⟩

/-- Without Alice's key the node delivers what is forged in her name. With it, a copy that is dropped for its
signature makes it drop what Alice has sent, which it has not delivered. -/
theorem forged_delivered :
    (Delivers sampleCrates sampleConfig node heartbeatId (.received malloryId forged, .new sampleConfig) ∧
      (World.new sampleConfig).made = []) ∧
    let w := (machine sampleCrates sampleConfig node).final aliceSends (.new sampleConfig)
    ¬ Delivers sampleCrates sampleConfig node heartbeatId (.received malloryId spoilt, w) ∧
    ((machine sampleCrates sampleConfig node).next (.received malloryId spoilt) w).route sampleCrates
      sampleConfig node aliceId fromAlice = some (.Drop "duplicate message") := by
  refine ⟨⟨⟨by decide +kernel, .DeliverAndForward, by decide +kernel, rfl⟩, rfl⟩, ?_, by decide +kernel⟩
  rintro ⟨-, action, haction, hdelivers⟩
  have hdropped : World.route sampleCrates sampleConfig node malloryId spoilt
      ((machine sampleCrates sampleConfig node).final aliceSends (.new sampleConfig)) =
        some (.Drop "invalid signature: crypto error: signature must be 64 bytes") := by decide +kernel
  rw [hdropped] at haction
  cases haction
  cases hdelivers

end Coinjecture.Network.Mesh.Origin
