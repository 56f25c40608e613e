import Coinjecture.Core.Extern
import Coinjecture.Network.Cpp.Connections
import Coinjecture.Network.Cpp.Encryption

/-! # The handshake

Either side sends a token: an ephemeral key, signed with the key that names the peer. The signature covers
nothing of the other side. The keys of the session come out of the ephemeral keys; `handshake_agrees`: the
two sides have the same ones if both tokens arrived. Hello and HelloAck follow. -/

namespace Coinjecture.Network.Cpp.Handshake

open Lib.Bincode Lib.Records
open Core.Types Core.Extern
open Network.Cpp.Connections (PeerId)
open Network.Cpp.Encryption

/-- What the handshake takes from other crates: BLAKE3 and Ed25519, the text of a failed verification,
X25519, and the key derivation. -/
structure Primitives where
  ext : Ext
  verifyError : PublicKey → Bytes → Ed25519Signature → String
  x25519Public : Bytes32 → Bytes32
  diffieHellman : Bytes32 → Bytes32 → Bytes32
  crypto : Crypto

/-- An Ed25519 key, as what it is known by and what it signs with. -/
structure SigningKey where
  verifyingKey : PublicKey
  sign : Bytes → Ed25519Signature

def AUTH_DOMAIN : Bytes := "CPP_AUTH_V1".toUTF8.toList

structure PeerAuthToken where
  ephemeralX25519Pubkey : Bytes32
  ed25519Pubkey : PublicKey
  ed25519Signature : Ed25519Signature
  deriving DecidableEq

namespace PeerAuthToken

def SIZE : ℕ := 128

/-- What is signed. -/
def message (ephemeralPub : Bytes32) (key : PublicKey) : Bytes :=
  beBytes 32 ephemeralPub.toNat ++ key.asBytes ++ AUTH_DOMAIN

def new (ephemeralPub : Bytes32) (signingKey : SigningKey) : PeerAuthToken where
  ephemeralX25519Pubkey := ephemeralPub
  ed25519Pubkey := signingKey.verifyingKey
  ed25519Signature := signingKey.sign (message ephemeralPub signingKey.verifyingKey)

def toBytes (t : PeerAuthToken) : Bytes :=
  beBytes 32 t.ephemeralX25519Pubkey.toNat ++ (t.ed25519Pubkey.asBytes ++
    beBytes 64 t.ed25519Signature.bytes.toNat)

/-- `read_exact` and `from_bytes`. -/
def fromBytes (bytes : Bytes) : Option PeerAuthToken :=
  if bytes.length < SIZE then none
  else some
    { ephemeralX25519Pubkey := .ofNat 256 (ofBeBytes (bytes.take 32))
      ed25519Pubkey := ⟨.ofNat 256 (ofBeBytes ((bytes.drop 32).take 32))⟩
      ed25519Signature := ⟨.ofNat 512 (ofBeBytes ((bytes.drop 64).take 64))⟩ }

/-- The signature is one of the token's own key over its own ephemeral key. -/
def verifies (prims : Primitives) (t : PeerAuthToken) : Bool :=
  prims.ext.ed25519Verify t.ed25519Pubkey (message t.ephemeralX25519Pubkey t.ed25519Pubkey)
    t.ed25519Signature

def verify (prims : Primitives) (t : PeerAuthToken) : Except EncryptionError Unit :=
  if t.verifies prims then .ok ()
  else .error (.AuthFailed (prims.verifyError t.ed25519Pubkey
    (message t.ephemeralX25519Pubkey t.ed25519Pubkey) t.ed25519Signature))

end PeerAuthToken

/-- The id of the peer with this key. -/
def peerIdOf (prims : Primitives) (key : PublicKey) : PeerId := prims.ext.blake3 key.asBytes

structure HandshakeResult where
  sendCipher : SessionCipher
  recvCipher : SessionCipher
  remoteEd25519Pubkey : PublicKey
  authenticatedPeerId : PeerId

/-- `perform_handshake_initiator`, after it sent its token: the peer's token is read. -/
def performHandshakeInitiator (prims : Primitives) (ephemeralSecret : Bytes32) (stream : Bytes) :
    Except EncryptionError HandshakeResult :=
  match PeerAuthToken.fromBytes stream with
  | none => .error .Io
  | some peerToken => do
    peerToken.verify prims
    let dhSecret := prims.diffieHellman ephemeralSecret peerToken.ephemeralX25519Pubkey
    let (initSendKey, respSendKey) := deriveSessionKeys prims.crypto dhSecret
      (prims.x25519Public ephemeralSecret) peerToken.ephemeralX25519Pubkey
    .ok
      { sendCipher := .new initSendKey
        recvCipher := .new respSendKey
        remoteEd25519Pubkey := peerToken.ed25519Pubkey
        authenticatedPeerId := peerIdOf prims peerToken.ed25519Pubkey }

/-- `perform_handshake_responder`: the initiator's token is read; its own is sent if that verifies. -/
def performHandshakeResponder (prims : Primitives) (signingKey : SigningKey) (ephemeralSecret : Bytes32)
    (stream : Bytes) : Except EncryptionError (PeerAuthToken × HandshakeResult) :=
  match PeerAuthToken.fromBytes stream with
  | none => .error .Io
  | some initToken => do
    initToken.verify prims
    let ourToken := PeerAuthToken.new (prims.x25519Public ephemeralSecret) signingKey
    let dhSecret := prims.diffieHellman ephemeralSecret initToken.ephemeralX25519Pubkey
    let (initSendKey, respSendKey) := deriveSessionKeys prims.crypto dhSecret
      initToken.ephemeralX25519Pubkey (prims.x25519Public ephemeralSecret)
    .ok (ourToken,
      { sendCipher := .new respSendKey
        recvCipher := .new initSendKey
        remoteEd25519Pubkey := initToken.ed25519Pubkey
        authenticatedPeerId := peerIdOf prims initToken.ed25519Pubkey })

/-! ### Hello and HelloAck -/

inductive NodeType where
  | Full | Archive | Validator | Light | Bounty | Oracle
  deriving DecidableEq

namespace NodeType

def asU8 : NodeType → UInt8
  | Full => 1
  | Archive => 2
  | Validator => 3
  | Light => 0
  | Bounty => 4
  | Oracle => 5

def fromU8 (value : UInt8) : Except String NodeType :=
  match value with
  | 0 => .ok Light
  | 1 => .ok Full
  | 2 => .ok Archive
  | 3 => .ok Validator
  | 4 => .ok Bounty
  | 5 => .ok Oracle
  | value =>
    let number := value.toNat
    .error s!"Invalid node type: {number}"

end NodeType

structure HelloMessage where
  version : UInt8
  peerId : PeerId
  bestHeight : UInt64
  bestHash : Hash
  genesisHash : Hash
  nodeType : UInt8
  timestamp : UInt64
  connectionNonce : UInt64
  ed25519Pubkey : PublicKey
  authSignature : Ed25519Signature
  deriving DecidableEq

/-- The same fields. -/
abbrev HelloAckMessage := HelloMessage

inductive NetworkError where
  | Io
  | Protocol
  | InvalidHandshake (message : String)
  | Timeout
  deriving DecidableEq

structure ChainState where
  bestHeight : UInt64
  bestHash : Hash
  genesisHash : Hash
  deriving DecidableEq

/-- What a node is configured with. -/
structure NodeConfig where
  localPeerId : PeerId
  signingKey : Option SigningKey
  requireEncryption : Bool

def VERSION : UInt8 := 2

/-- `hello_challenge`. -/
def helloChallenge (genesisHash : Hash) (timestamp connectionNonce : UInt64) (peerId : PeerId) : Bytes :=
  genesisHash.asBytes ++ leBytes 8 timestamp.toNat ++ leBytes 8 connectionNonce.toNat ++
    beBytes 32 peerId.toNat

/-- `sign_hello`. -/
def signHello (signingKey : SigningKey) (genesisHash : Hash) (timestamp connectionNonce : UInt64)
    (peerId : PeerId) : PublicKey × Ed25519Signature :=
  (signingKey.verifyingKey,
    signingKey.sign (helloChallenge genesisHash timestamp connectionNonce peerId))

/-- The `Debug` text of a hash: its first eight bytes. -/
def debugHash (h : Hash) : String :=
  let digits := String.ofList ((h.asBytes.take 8).flatMap fun b =>
    [Nat.digitChar (b.toNat / 16), Nat.digitChar (b.toNat % 16)])
  s!"Hash({digits})"

/-- What a node says of itself. -/
def NodeConfig.helloAck (config : NodeConfig) (state : ChainState) (timestamp nonce : UInt64) :
    HelloAckMessage :=
  let (ed25519Pubkey, authSignature) := match config.signingKey with
    | some sk => signHello sk state.genesisHash timestamp nonce config.localPeerId
    | none => (⟨0⟩, ⟨0⟩)
  { version := VERSION
    peerId := config.localPeerId
    bestHeight := state.bestHeight
    bestHash := state.bestHash
    genesisHash := state.genesisHash
    nodeType := NodeType.Full.asU8
    timestamp := timestamp
    connectionNonce := nonce
    ed25519Pubkey := ed25519Pubkey
    authSignature := authSignature }

/-- `handshake`: the HelloAck that is sent, and what is taken from the Hello. Its signature is not looked
at. -/
def handshake (config : NodeConfig) (state : ChainState) (timestamp nonce : UInt64)
    (hello : HelloMessage) :
    Except NetworkError (HelloAckMessage × PeerId × NodeType × UInt64 × Hash) :=
  if hello.genesisHash ≠ state.genesisHash then
    let (expected, got) := (debugHash state.genesisHash, debugHash hello.genesisHash)
    .error (.InvalidHandshake s!"Genesis hash mismatch: expected {expected}, got {got}")
  else match NodeType.fromU8 hello.nodeType with
    | .error e => .error (.InvalidHandshake s!"Invalid node type: {e}")
    | .ok nodeType => .ok (config.helloAck state timestamp nonce, hello.peerId, nodeType,
        hello.bestHeight, hello.bestHash)

/-- What `connect_bootnode` takes from the HelloAck. Its signature is not looked at. -/
def readHelloAck (state : ChainState) (helloAck : HelloAckMessage) :
    Except NetworkError (PeerId × NodeType × UInt64 × Hash) :=
  if helloAck.genesisHash ≠ state.genesisHash then
    .error (.InvalidHandshake "Genesis hash mismatch")
  else match NodeType.fromU8 helloAck.nodeType with
    | .error e => .error (.InvalidHandshake s!"Invalid node type: {e}")
    | .ok nodeType => .ok (helloAck.peerId, nodeType, helloAck.bestHeight, helloAck.bestHash)

/-! ### What the tokens say -/

theorem fromBytes_toBytes (t : PeerAuthToken) : PeerAuthToken.fromBytes t.toBytes = some t := by
  have hephemeral : (beBytes 32 t.ephemeralX25519Pubkey.toNat).length = 32 := length_beBytes _ _
  have hkey : t.ed25519Pubkey.asBytes.length = 32 := length_beBytes _ _
  have hsignature : (beBytes 64 t.ed25519Signature.bytes.toNat).length = 64 := length_beBytes _ _
  have hlength : ¬ t.toBytes.length < PeerAuthToken.SIZE := by
    rw [PeerAuthToken.toBytes, List.length_append, List.length_append, hephemeral, hkey, hsignature]
    decide
  have hdrop : t.toBytes.drop 32 = t.ed25519Pubkey.asBytes ++
      beBytes 64 t.ed25519Signature.bytes.toNat := List.drop_left' hephemeral
  have hdrop' : t.toBytes.drop 64 = beBytes 64 t.ed25519Signature.bytes.toNat := by
    have hboth : t.toBytes.drop 64 = (t.toBytes.drop 32).drop 32 := by rw [List.drop_drop]
    rw [hboth, hdrop, List.drop_left' hkey]
  rw [PeerAuthToken.fromBytes, if_neg hlength, hdrop, hdrop', List.take_left' hkey,
    List.take_of_length_le hsignature.le]
  have hfirst : t.toBytes.take 32 = beBytes 32 t.ephemeralX25519Pubkey.toNat :=
    List.take_left' hephemeral
  rw [hfirst, PublicKey.asBytes, @ofNat_ofBeBytes_beBytes 32 256 rfl,
    @ofNat_ofBeBytes_beBytes 32 256 rfl, @ofNat_ofBeBytes_beBytes 64 512 rfl]

/-- The responder's result, token by token. -/
theorem performHandshakeResponder_eq_ok {prims : Primitives} {signingKey : SigningKey} {secret : Bytes32}
    {stream : Bytes} {ourToken : PeerAuthToken} {result : HandshakeResult}
    (h : performHandshakeResponder prims signingKey secret stream = .ok (ourToken, result)) :
    ∃ t, PeerAuthToken.fromBytes stream = some t ∧ t.verifies prims = true ∧
      ourToken = .new (prims.x25519Public secret) signingKey ∧
      result.authenticatedPeerId = peerIdOf prims t.ed25519Pubkey := by
  rw [performHandshakeResponder] at h
  rcases hread : PeerAuthToken.fromBytes stream with _ | t
  · rw [hread] at h
    cases h
  · rw [hread] at h
    by_cases hverifies : t.verifies prims = true
    · have hverify : t.verify prims = .ok () := by rw [PeerAuthToken.verify, if_pos hverifies]
      simp only [hverify] at h
      have hpair := Except.ok.inj h
      refine ⟨t, rfl, hverifies, (congrArg Prod.fst hpair).symm, ?_⟩
      have hresult : _ = result := congrArg Prod.snd hpair
      rw [← hresult]
    · simp only [PeerAuthToken.verify, if_neg hverifies] at h
      cases h

/-- If both tokens arrive as they were sent, the sides have each other's keys and names. -/
theorem handshake_agrees {prims : Primitives} {initKey respKey : SigningKey} {x y : Bytes32}
    (hcommutes : prims.diffieHellman x (prims.x25519Public y) =
      prims.diffieHellman y (prims.x25519Public x))
    {ourToken : PeerAuthToken} {init resp : HandshakeResult}
    (hresp : performHandshakeResponder prims respKey y
      (PeerAuthToken.new (prims.x25519Public x) initKey).toBytes = .ok (ourToken, resp))
    (hinit : performHandshakeInitiator prims x ourToken.toBytes = .ok init) :
    init.sendCipher = resp.recvCipher ∧ init.recvCipher = resp.sendCipher ∧
      init.authenticatedPeerId = peerIdOf prims respKey.verifyingKey ∧
      resp.authenticatedPeerId = peerIdOf prims initKey.verifyingKey := by
  obtain ⟨t, hread, hverifies, rfl, hid⟩ := performHandshakeResponder_eq_ok hresp
  obtain rfl := Option.some.inj ((fromBytes_toBytes _).symm.trans hread)
  have hverify : (PeerAuthToken.new (prims.x25519Public x) initKey).verify prims = .ok () := by
    rw [PeerAuthToken.verify, if_pos hverifies]
  simp only [performHandshakeResponder, fromBytes_toBytes, hverify] at hresp
  obtain rfl := congrArg Prod.snd (Except.ok.inj hresp)
  simp only [performHandshakeInitiator, fromBytes_toBytes] at hinit
  by_cases hours : (PeerAuthToken.new (prims.x25519Public y) respKey).verifies prims = true
  · simp only [PeerAuthToken.verify, if_pos hours] at hinit
    obtain rfl := Except.ok.inj hinit
    refine ⟨?_, ?_, rfl, rfl⟩
    · exact congrArg (fun dh => SessionCipher.new (deriveSessionKeys prims.crypto dh _ _).1) hcommutes
    · exact congrArg (fun dh => SessionCipher.new (deriveSessionKeys prims.crypto dh _ _).2) hcommutes
  · simp only [PeerAuthToken.verify, if_neg hours] at hinit
    cases hinit

end Coinjecture.Network.Cpp.Handshake
