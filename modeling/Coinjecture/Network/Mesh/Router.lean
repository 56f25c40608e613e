import Coinjecture.Network.Mesh.Protocol

/-! # The router of the mesh

Envelopes are built and signed, and an envelope that comes in is looked up in the cache of the seen message
ids, its TTL and its signature are checked, and it is delivered, forwarded or dropped. Instants are seconds
of a clock that is passed in. -/

namespace Coinjecture.Network.Mesh.Router

open Lib.Bincode Lib.Codes
open Core.Types
open Network.Mesh.Protocol

/-- What the mesh takes from other crates: `Sha256::digest`, and the errors of `VerifyingKey::from_bytes` and
of its `verify`, if there are any. -/
structure Crates where
  sha256 : Bytes → Bytes32
  fromBytes : Bytes → Option String
  verify : Bytes → Bytes → Bytes → Option String

/-- An Ed25519 key pair: the public key and the signing. -/
structure Keypair where
  publicKeyBytes : Bytes
  sign : Bytes → Bytes

variable (crates : Crates)

/-! ### Identity -/

/-- `NodeId::from_public_key`. -/
def nodeIdOf (publicKeyBytes : Bytes) : NodeId := ⟨crates.sha256 publicKeyBytes⟩

def crypto (reason : String) : String := "crypto error: " ++ reason

def verifySignature (publicKeyBytes data signatureBytes : Bytes) : Except String Unit := do
  if publicKeyBytes.length ≠ 32 then throw (crypto "public key must be 32 bytes")
  if let some e := crates.fromBytes publicKeyBytes then throw (crypto ("invalid public key: " ++ e))
  if signatureBytes.length ≠ 64 then throw (crypto "signature must be 64 bytes")
  if let some e := crates.verify publicKeyBytes data signatureBytes then
    throw (crypto ("signature verification failed: " ++ e))

/-- `verify_signature_for_node`: whether it succeeds. -/
def verifySignatureForNode (expectedNodeId : NodeId) (publicKeyBytes data signatureBytes : Bytes) : Bool :=
  publicKeyBytes.length = 32 && (crates.fromBytes publicKeyBytes).isNone &&
    nodeIdOf crates publicKeyBytes = expectedNodeId &&
    (verifySignature crates publicKeyBytes data signatureBytes).isOk

/-! ### Envelopes -/

def computeMsgId (sender : NodeId) (nonce : Bytes) (payload : Payload) : Bytes32 :=
  crates.sha256 (encode sender ++ nonce ++ encode payload)

def signableData (msgId : Bytes32) (routing : RoutingMode) (payload : Payload) : Bytes :=
  encode msgId ++ encode routing ++ encode payload

def createEnvelope (keypair : Keypair) (routing : RoutingMode) (payload : Payload) (ttl : UInt8)
    (nonce : Bytes) (timestamp : UInt64) : Envelope :=
  let sender := nodeIdOf crates keypair.publicKeyBytes
  let msgId := computeMsgId crates sender nonce payload
  { msgId := msgId
    sender := sender
    routing := routing
    payload := payload
    signature := keypair.sign (signableData msgId routing payload)
    ttl := ttl
    timestamp := timestamp }

/-! ### The cache of seen ids -/

/-- The ids with the instants they were first seen at, the one used last first. -/
structure GossipEngine where
  seen : List (Bytes32 × ℕ)
  capacity : ℕ
  ttl : ℕ
  deriving DecidableEq

namespace GossipEngine

def new (capacity ttl : ℕ) : GossipEngine := ⟨[], capacity, ttl⟩

/-- The id is in the cache and has not expired. -/
def keeps (now : ℕ) (msgId : Bytes32) (g : GossipEngine) : Bool :=
  match g.seen.lookup msgId with
  | some timestamp => now - timestamp < g.ttl
  | none => false

/-- `LruCache::put`: the entry comes first, and the last one goes if there are too many. -/
def put (msgId : Bytes32) (timestamp : ℕ) (g : GossipEngine) : GossipEngine :=
  { g with seen := ((msgId, timestamp) :: g.seen.filter fun e => e.1 ≠ msgId).take g.capacity }

/-- `check_and_mark`. An entry that is looked up comes first. -/
def checkAndMark (now : ℕ) (msgId : Bytes32) (g : GossipEngine) : Bool × GossipEngine :=
  match g.seen.lookup msgId with
  | some timestamp =>
    if now - timestamp < g.ttl then (false, g.put msgId timestamp) else (true, g.put msgId now)
  | none => (true, g.put msgId now)

def decrementTtl (ttl : UInt8) : Option UInt8 := if ttl ≤ 1 then none else some (ttl - 1)

/-- An id is new exactly if the cache does not keep it. -/
theorem checkAndMark_fst (now : ℕ) (msgId : Bytes32) (g : GossipEngine) :
    (g.checkAndMark now msgId).1 = !g.keeps now msgId := by
  unfold checkAndMark keeps
  split
  · split_ifs with hlt
    · rw [decide_eq_true hlt]
      rfl
    · rw [decide_eq_false hlt]
      rfl
  · rfl

@[simp] theorem ttl_checkAndMark (now : ℕ) (msgId : Bytes32) (g : GossipEngine) :
    (g.checkAndMark now msgId).2.ttl = g.ttl := by
  unfold checkAndMark
  split
  · split_ifs
    · rfl
    · rfl
  · rfl

@[simp] theorem capacity_checkAndMark (now : ℕ) (msgId : Bytes32) (g : GossipEngine) :
    (g.checkAndMark now msgId).2.capacity = g.capacity := by
  unfold checkAndMark
  split
  · split_ifs
    · rfl
    · rfl
  · rfl

/-- What has just been put there is kept. -/
theorem keeps_put {now : ℕ} {msgId : Bytes32} {g : GossipEngine} (hcapacity : 0 < g.capacity)
    {timestamp : ℕ} (hlt : now - timestamp < g.ttl) : (g.put msgId timestamp).keeps now msgId = true := by
  obtain ⟨k, hk⟩ := Nat.exists_eq_succ_of_ne_zero hcapacity.ne'
  have hfirst : (g.put msgId timestamp).seen.lookup msgId = some timestamp := by
    simp [put, hk]
  unfold keeps
  rw [hfirst]
  exact decide_eq_true hlt

/-- An id that has just been looked up is kept. -/
theorem keeps_checkAndMark {now : ℕ} {msgId : Bytes32} {g : GossipEngine} (hcapacity : 0 < g.capacity)
    (httl : 0 < g.ttl) : (g.checkAndMark now msgId).2.keeps now msgId = true := by
  unfold checkAndMark
  split
  · split_ifs with hlt
    · exact keeps_put hcapacity hlt
    · exact keeps_put hcapacity (by omega)
  · exact keeps_put hcapacity (by omega)

end GossipEngine

/-! ### Incoming envelopes -/

inductive RouteAction where
  | DeliverAndForward
  | DeliverOnly
  | ForwardOnly
  | Drop (reason : String)
  deriving DecidableEq

/-- The routing of an envelope that has passed the checks. -/
def routeOf (localId : NodeId) : RoutingMode → RouteAction
  | .Broadcast => .DeliverAndForward
  | .Direct target => if target = localId then .DeliverOnly else .ForwardOnly

/-- `process_incoming`: the cache is asked first, then the TTL, then the signature, if the sender's key is
there. -/
def processIncoming (now : ℕ) (envelope : Envelope) (localId : NodeId) (gossip : GossipEngine)
    (peerPublicKeys : NodeId → Option Bytes) : RouteAction × GossipEngine :=
  let looked := gossip.checkAndMark now envelope.msgId
  if !looked.1 then (.Drop "duplicate message", looked.2)
  else if envelope.ttl = 0 then (.Drop "TTL expired", looked.2)
  else match peerPublicKeys envelope.sender with
    | some pk =>
      let data := signableData envelope.msgId envelope.routing envelope.payload
      match verifySignature crates pk data envelope.signature with
      | .error e => (.Drop ("invalid signature: " ++ e), looked.2)
      | .ok () => (routeOf localId envelope.routing, looked.2)
    | none => (routeOf localId envelope.routing, looked.2)

def RouteAction.delivers : RouteAction → Bool
  | .DeliverAndForward | .DeliverOnly => true
  | _ => false

/-- What is delivered was not in the cache, and its signature verifies if the sender's key is there. -/
theorem of_delivers {now : ℕ} {envelope : Envelope} {localId : NodeId} {gossip : GossipEngine}
    {keys : NodeId → Option Bytes}
    (h : (processIncoming crates now envelope localId gossip keys).1.delivers = true) :
    gossip.keeps now envelope.msgId = false ∧ ∀ pk, keys envelope.sender = some pk →
      crates.verify pk (signableData envelope.msgId envelope.routing envelope.payload)
        envelope.signature = none := by
  unfold processIncoming at h
  simp only [GossipEngine.checkAndMark_fst, Bool.not_not] at h
  split_ifs at h with hkeeps httl
  · cases h
  · cases h
  · refine ⟨Bool.eq_false_iff.mpr hkeeps, fun pk hpk => ?_⟩
    rw [hpk] at h
    simp only at h
    by_contra hverify
    obtain ⟨e, he⟩ := Option.ne_none_iff_exists'.mp hverify
    have herror : ∃ reason, verifySignature crates pk
        (signableData envelope.msgId envelope.routing envelope.payload) envelope.signature =
          .error reason := by
      unfold verifySignature
      by_cases hlength : pk.length = 32
      · cases hkey : crates.fromBytes pk with
        | some e' => exact ⟨_, by simp [hlength]; rfl⟩
        | none =>
          by_cases hsignature : envelope.signature.length = 64
          · exact ⟨_, by simp [hlength, hsignature, he]; rfl⟩
          · exact ⟨_, by simp [hlength, hsignature]; rfl⟩
      · exact ⟨_, by simp [hlength]; rfl⟩
    obtain ⟨reason, hreason⟩ := herror
    rw [hreason] at h
    cases h

/-- The cache of a node after an envelope has come in. -/
@[simp] theorem processIncoming_snd (now : ℕ) (envelope : Envelope) (localId : NodeId)
    (gossip : GossipEngine) (keys : NodeId → Option Bytes) :
    (processIncoming crates now envelope localId gossip keys).2 =
      (gossip.checkAndMark now envelope.msgId).2 := by
  unfold processIncoming
  simp only
  split_ifs
  · rfl
  · rfl
  · split
    · split
      · rfl
      · rfl
    · rfl

end Coinjecture.Network.Mesh.Router
