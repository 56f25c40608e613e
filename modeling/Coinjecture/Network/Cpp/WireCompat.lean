import Coinjecture.Lib.Decoding
import Coinjecture.Network.Cpp.Handshake

/-! # Messages of older versions

The payloads of Hello and Status are read as the current structs; a Status that cannot be read is read again
without its last field. The reader of a struct asks for all of its fields, so that defaults do not come in: a
message without the fields of version 2 ends where the first of them is asked for. -/

namespace Coinjecture.Network.Cpp.WireCompat

open Lib.Bincode Lib.Decoding
open Core.Types
open Network.Cpp.Connections (PeerId)
open Network.Cpp.Handshake (HelloMessage)

structure FlockStateCompact where
  seedPrefix : BitVec 64
  epoch : UInt64
  phase : UInt8
  swarmHeight : UInt64
  deriving DecidableEq

structure StatusMessage where
  bestHeight : UInt64
  bestHash : Hash
  nodeType : UInt8
  timestamp : UInt64
  flockState : Option FlockStateCompact
  cumulativeWork : BitVec 128
  deriving DecidableEq

/-- A Status without `cumulative_work`. -/
structure StatusMessageLegacy where
  bestHeight : UInt64
  bestHash : Hash
  nodeType : UInt8
  timestamp : UInt64
  flockState : Option FlockStateCompact
  deriving DecidableEq

/-! ### What is written -/

instance : Encode FlockStateCompact := ⟨fun f =>
  beBytes 8 f.seedPrefix.toNat ++ (encode f.epoch ++ (encode f.phase ++ encode f.swarmHeight))⟩

theorem encode_flockState (f : FlockStateCompact) : encode f =
    beBytes 8 f.seedPrefix.toNat ++ (encode f.epoch ++ (encode f.phase ++ encode f.swarmHeight)) := rfl

instance : Encode HelloMessage := ⟨fun m =>
  encode m.version ++ (beBytes 32 m.peerId.toNat ++ (encode m.bestHeight ++ (encode m.bestHash ++
    (encode m.genesisHash ++ (encode m.nodeType ++ (encode m.timestamp ++ (encode m.connectionNonce ++
      (encode m.ed25519Pubkey ++ beBytes 64 m.authSignature.bytes.toNat))))))))⟩

theorem encode_hello (m : HelloMessage) : encode m =
    encode m.version ++ (beBytes 32 m.peerId.toNat ++ (encode m.bestHeight ++ (encode m.bestHash ++
      (encode m.genesisHash ++ (encode m.nodeType ++ (encode m.timestamp ++ (encode m.connectionNonce ++
        (encode m.ed25519Pubkey ++ beBytes 64 m.authSignature.bytes.toNat)))))))) := rfl

instance : Encode StatusMessage := ⟨fun m =>
  encode m.bestHeight ++ (encode m.bestHash ++ (encode m.nodeType ++ (encode m.timestamp ++
    (encode m.flockState ++ encode m.cumulativeWork))))⟩

theorem encode_status (m : StatusMessage) : encode m =
    encode m.bestHeight ++ (encode m.bestHash ++ (encode m.nodeType ++ (encode m.timestamp ++
      (encode m.flockState ++ encode m.cumulativeWork)))) := rfl

instance : Encode StatusMessageLegacy := ⟨fun m =>
  encode m.bestHeight ++ (encode m.bestHash ++ (encode m.nodeType ++ (encode m.timestamp ++
    encode m.flockState)))⟩

theorem encode_statusLegacy (m : StatusMessageLegacy) : encode m =
    encode m.bestHeight ++ (encode m.bestHash ++ (encode m.nodeType ++ (encode m.timestamp ++
      encode m.flockState))) := rfl

/-! ### What is read -/

instance : Decode Hash := ⟨do return ⟨← readArray 32 256⟩⟩

instance : Decode PublicKey := ⟨do return ⟨← readArray 32 256⟩⟩

def readFlockState : Reader FlockStateCompact := do
  let seedPrefix ← readArray 8 64
  let epoch ← read
  let phase ← read
  let swarmHeight ← read
  return { seedPrefix, epoch, phase, swarmHeight }

instance : Decode FlockStateCompact := ⟨readFlockState⟩

def readHello : Reader HelloMessage := do
  let version ← read
  let peerId ← readArray 32 256
  let bestHeight ← read
  let bestHash ← read
  let genesisHash ← read
  let nodeType ← read
  let timestamp ← read
  let connectionNonce ← read
  let ed25519Pubkey ← read
  let authSignature ← readArray 64 512
  return {
    version, peerId, bestHeight, bestHash, genesisHash, nodeType, timestamp, connectionNonce, ed25519Pubkey
    authSignature := ⟨authSignature⟩ }

instance : Decode HelloMessage := ⟨readHello⟩

def readStatus : Reader StatusMessage := do
  let bestHeight ← read
  let bestHash ← read
  let nodeType ← read
  let timestamp ← read
  let flockState ← read
  let cumulativeWork ← read
  return { bestHeight, bestHash, nodeType, timestamp, flockState, cumulativeWork }

instance : Decode StatusMessage := ⟨readStatus⟩

def readStatusLegacy : Reader StatusMessageLegacy := do
  let bestHeight ← read
  let bestHash ← read
  let nodeType ← read
  let timestamp ← read
  let flockState ← read
  return { bestHeight, bestHash, nodeType, timestamp, flockState }

instance : Decode StatusMessageLegacy := ⟨readStatusLegacy⟩

/-- `decode_bincode_compat`. -/
def decodeBincodeCompat (bytes : Bytes) : Except DecodeError StatusMessage :=
  match (deserialize bytes : Except DecodeError StatusMessage) with
  | .ok m => .ok m
  | .error _ =>
    match (deserialize bytes : Except DecodeError StatusMessageLegacy) with
    | .error e => .error e
    | .ok leg => .ok
        { bestHeight := leg.bestHeight
          bestHash := leg.bestHash
          nodeType := leg.nodeType
          timestamp := leg.timestamp
          flockState := leg.flockState
          cumulativeWork := 0 }

/-! ### Messages of all versions -/

/-- A Hello of version 1: without connection nonce, key and signature. -/
structure HelloMessageV1 where
  version : UInt8
  peerId : PeerId
  bestHeight : UInt64
  bestHash : Hash
  genesisHash : Hash
  nodeType : UInt8
  timestamp : UInt64
  deriving DecidableEq

/-- A Status of version 1: without flock state and cumulative work. -/
structure StatusMessageV1 where
  bestHeight : UInt64
  bestHash : Hash
  nodeType : UInt8
  timestamp : UInt64
  deriving DecidableEq

instance : Encode HelloMessageV1 := ⟨fun m =>
  encode m.version ++ (beBytes 32 m.peerId.toNat ++ (encode m.bestHeight ++ (encode m.bestHash ++
    (encode m.genesisHash ++ (encode m.nodeType ++ encode m.timestamp)))))⟩

theorem encode_helloV1 (m : HelloMessageV1) : encode m =
    encode m.version ++ (beBytes 32 m.peerId.toNat ++ (encode m.bestHeight ++ (encode m.bestHash ++
      (encode m.genesisHash ++ (encode m.nodeType ++ encode m.timestamp))))) := rfl

instance : Encode StatusMessageV1 := ⟨fun m =>
  encode m.bestHeight ++ (encode m.bestHash ++ (encode m.nodeType ++ encode m.timestamp))⟩

theorem encode_statusV1 (m : StatusMessageV1) : encode m =
    encode m.bestHeight ++ (encode m.bestHash ++ (encode m.nodeType ++ encode m.timestamp)) := rfl

/-- What a peer sends as Hello or Status. -/
inductive WireMessage where
  | helloV1 (m : HelloMessageV1)
  | hello (m : HelloMessage)
  | statusV1 (m : StatusMessageV1)
  | statusLegacy (m : StatusMessageLegacy)
  | status (m : StatusMessage)

/-- What the node takes from it. -/
inductive Received where
  | hello (m : HelloMessage)
  | status (m : StatusMessage)
  deriving DecidableEq

namespace WireMessage

/-- The message is from version 1. -/
def IsV1 : WireMessage → Prop
  | helloV1 _ | statusV1 _ => True
  | hello _ | statusLegacy _ | status _ => False

/-- What the node makes of the payload, by the type of the message. -/
def receive : WireMessage → Except DecodeError Received
  | helloV1 m => (deserialize (encode m)).map .hello
  | hello m => (deserialize (encode m)).map .hello
  | statusV1 m => (decodeBincodeCompat (encode m)).map .status
  | statusLegacy m => (decodeBincodeCompat (encode m)).map .status
  | status m => (decodeBincodeCompat (encode m)).map .status

/-- The message with the fields it does not have at their defaults. -/
def upgraded : WireMessage → Received
  | helloV1 m => .hello
      { version := m.version
        peerId := m.peerId
        bestHeight := m.bestHeight
        bestHash := m.bestHash
        genesisHash := m.genesisHash
        nodeType := m.nodeType
        timestamp := m.timestamp
        connectionNonce := 0
        ed25519Pubkey := ⟨0⟩
        authSignature := ⟨0⟩ }
  | hello m => .hello m
  | statusV1 m => .status ⟨m.bestHeight, m.bestHash, m.nodeType, m.timestamp, none, 0⟩
  | statusLegacy m => .status ⟨m.bestHeight, m.bestHash, m.nodeType, m.timestamp, m.flockState, 0⟩
  | status m => .status m

end WireMessage

/-! ### Reading back -/

instance : LawfulDecode Hash where
  read_encode a _ := bind_of_ok (readArray_beBytes (k := 32) rfl a.bytes)

instance : LawfulDecode PublicKey where
  read_encode a _ := bind_of_ok (readArray_beBytes (k := 32) rfl a.bytes)

instance : LawfulDecode FlockStateCompact where
  read_encode f rest := by
    rw [encode_flockState]
    simp only [List.append_assoc]
    change readFlockState _ = _
    rw [readFlockState, bind_of_ok (readArray_beBytes (k := 8) rfl f.seedPrefix),
      bind_of_ok (read_encode f.epoch _), bind_of_ok (read_encode f.phase _),
      bind_of_ok (read_encode f.swarmHeight _)]
    rfl

instance : LawfulDecode HelloMessage where
  read_encode m rest := by
    rw [encode_hello]
    simp only [List.append_assoc]
    change readHello _ = _
    rw [readHello, bind_of_ok (read_encode m.version _), bind_of_ok (readArray_beBytes (k := 32) rfl m.peerId),
      bind_of_ok (read_encode m.bestHeight _), bind_of_ok (read_encode m.bestHash _),
      bind_of_ok (read_encode m.genesisHash _), bind_of_ok (read_encode m.nodeType _),
      bind_of_ok (read_encode m.timestamp _), bind_of_ok (read_encode m.connectionNonce _),
      bind_of_ok (read_encode m.ed25519Pubkey _),
      bind_of_ok (readArray_beBytes (k := 64) rfl m.authSignature.bytes)]
    rfl

instance : LawfulDecode StatusMessage where
  read_encode m rest := by
    rw [encode_status]
    simp only [List.append_assoc]
    change readStatus _ = _
    rw [readStatus, bind_of_ok (read_encode m.bestHeight _), bind_of_ok (read_encode m.bestHash _),
      bind_of_ok (read_encode m.nodeType _), bind_of_ok (read_encode m.timestamp _),
      bind_of_ok (read_encode m.flockState _), bind_of_ok (read_encode m.cumulativeWork _)]
    rfl

instance : LawfulDecode StatusMessageLegacy where
  read_encode m rest := by
    rw [encode_statusLegacy]
    simp only [List.append_assoc]
    change readStatusLegacy _ = _
    rw [readStatusLegacy, bind_of_ok (read_encode m.bestHeight _), bind_of_ok (read_encode m.bestHash _),
      bind_of_ok (read_encode m.nodeType _), bind_of_ok (read_encode m.timestamp _),
      bind_of_ok (read_encode m.flockState _)]
    rfl

theorem deserialize_encode {α : Type} [Encode α] [Decode α] [LawfulDecode α] (a : α) :
    deserialize (encode a) = .ok a := by
  have hread := read_encode a []
  rw [List.append_nil] at hread
  exact deserialize_of_ok hread

/-! ### Fields that are not there -/

theorem read_nil_uint64 : (read : Reader UInt64) [] = .error .UnexpectedEof :=
  bind_of_error (readWord_nil (by decide))

theorem read_nil_uint128 : (read : Reader (BitVec 128)) [] = .error .UnexpectedEof :=
  bind_of_error (readWord_nil (by decide))

theorem read_nil_option {α : Type} [Decode α] : (read : Reader (Option α)) [] = .error .UnexpectedEof :=
  bind_of_error (bind_of_error (readWord_nil (by decide)))

theorem deserialize_helloV1 (m : HelloMessageV1) :
    deserialize (α := HelloMessage) (encode m) = .error .UnexpectedEof := by
  apply deserialize_of_error
  rw [← List.append_nil (encode m), encode_helloV1]
  simp only [List.append_assoc]
  change readHello _ = _
  rw [readHello, bind_of_ok (read_encode m.version _), bind_of_ok (readArray_beBytes (k := 32) rfl m.peerId),
    bind_of_ok (read_encode m.bestHeight _), bind_of_ok (read_encode m.bestHash _),
    bind_of_ok (read_encode m.genesisHash _), bind_of_ok (read_encode m.nodeType _),
    bind_of_ok (read_encode m.timestamp _), bind_of_error read_nil_uint64]

theorem deserialize_statusV1 (m : StatusMessageV1) :
    deserialize (α := StatusMessage) (encode m) = .error .UnexpectedEof := by
  apply deserialize_of_error
  rw [← List.append_nil (encode m), encode_statusV1]
  simp only [List.append_assoc]
  change readStatus _ = _
  rw [readStatus, bind_of_ok (read_encode m.bestHeight _), bind_of_ok (read_encode m.bestHash _),
    bind_of_ok (read_encode m.nodeType _), bind_of_ok (read_encode m.timestamp _),
    bind_of_error read_nil_option]

theorem deserialize_statusV1_legacy (m : StatusMessageV1) :
    deserialize (α := StatusMessageLegacy) (encode m) = .error .UnexpectedEof := by
  apply deserialize_of_error
  rw [← List.append_nil (encode m), encode_statusV1]
  simp only [List.append_assoc]
  change readStatusLegacy _ = _
  rw [readStatusLegacy, bind_of_ok (read_encode m.bestHeight _), bind_of_ok (read_encode m.bestHash _),
    bind_of_ok (read_encode m.nodeType _), bind_of_ok (read_encode m.timestamp _),
    bind_of_error read_nil_option]

/-- A Status without `cumulative_work` ends where the field is asked for. -/
theorem deserialize_statusLegacy (m : StatusMessageLegacy) :
    deserialize (α := StatusMessage) (encode m) = .error .UnexpectedEof := by
  apply deserialize_of_error
  rw [← List.append_nil (encode m), encode_statusLegacy]
  simp only [List.append_assoc]
  change readStatus _ = _
  rw [readStatus, bind_of_ok (read_encode m.bestHeight _), bind_of_ok (read_encode m.bestHash _),
    bind_of_ok (read_encode m.nodeType _), bind_of_ok (read_encode m.timestamp _),
    bind_of_ok (read_encode m.flockState _), bind_of_error read_nil_uint128]

/-! ### The fallback -/

section Compat

variable {bytes : Bytes} {e e' : DecodeError}

/-- What the current struct reads is not read again. -/
theorem decodeBincodeCompat_of_ok {m : StatusMessage} (h : deserialize bytes = .ok m) :
    decodeBincodeCompat bytes = .ok m := by
  rw [decodeBincodeCompat, h]

theorem decodeBincodeCompat_of_legacy {leg : StatusMessageLegacy}
    (h : deserialize (α := StatusMessage) bytes = .error e) (hleg : deserialize bytes = .ok leg) :
    decodeBincodeCompat bytes =
      .ok ⟨leg.bestHeight, leg.bestHash, leg.nodeType, leg.timestamp, leg.flockState, 0⟩ := by
  rw [decodeBincodeCompat, h, hleg]

theorem decodeBincodeCompat_of_error (h : deserialize (α := StatusMessage) bytes = .error e)
    (hleg : deserialize (α := StatusMessageLegacy) bytes = .error e') :
    decodeBincodeCompat bytes = .error e' := by
  rw [decodeBincodeCompat, h, hleg]

end Compat

namespace WireMessage

/-- A message of version 1 is not read. -/
theorem receive_of_isV1 {x : WireMessage} (h : x.IsV1) : x.receive = .error .UnexpectedEof := by
  cases x with
  | helloV1 m => rw [receive, deserialize_helloV1]; rfl
  | statusV1 m =>
    rw [receive, decodeBincodeCompat_of_error (deserialize_statusV1 m) (deserialize_statusV1_legacy m)]
    rfl
  | hello m => exact h.elim
  | statusLegacy m => exact h.elim
  | status m => exact h.elim

theorem receive_of_not_isV1 {x : WireMessage} (h : ¬ x.IsV1) : x.receive = .ok x.upgraded := by
  cases x with
  | helloV1 m => exact absurd trivial h
  | statusV1 m => exact absurd trivial h
  | hello m => rw [receive, deserialize_encode]; rfl
  | statusLegacy m =>
    rw [receive, decodeBincodeCompat_of_legacy (deserialize_statusLegacy m) (deserialize_encode m)]
    rfl
  | status m => rw [receive, decodeBincodeCompat_of_ok (deserialize_encode m)]; rfl

end WireMessage

/-- The message a peer sends is received, with the fields it does not have at their defaults, exactly when it is
not one of version 1; and what the current struct reads of any bytes, the fallback does not change. -/
theorem wire_compat_iff (x : WireMessage) (bytes : Bytes) (m : StatusMessage) :
    (x.receive = .ok x.upgraded ↔ ¬ x.IsV1) ∧
      (deserialize bytes = .ok m → decodeBincodeCompat bytes = .ok m) := by
  refine ⟨⟨fun hok hv1 => ?_, WireMessage.receive_of_not_isV1⟩, fun h => decodeBincodeCompat_of_ok h⟩
  rw [WireMessage.receive_of_isV1 hv1] at hok
  cases hok

/-- The Hello of a node of version 1 at genesis. -/
def oldHello : HelloMessageV1 := ⟨1, 0, 0, ⟨0⟩, ⟨0⟩, 0, 0⟩

/-- It is not read. -/
theorem old_hello_refused : (WireMessage.helloV1 oldHello).receive = .error .UnexpectedEof ∧
    ¬ ∀ x : WireMessage, x.receive = .ok x.upgraded := by
  have hrefused : (WireMessage.helloV1 oldHello).receive = .error .UnexpectedEof :=
    WireMessage.receive_of_isV1 trivial
  refine ⟨hrefused, fun hall => ?_⟩
  have hok := hall (.helloV1 oldHello)
  rw [hrefused] at hok
  cases hok

end Coinjecture.Network.Cpp.WireCompat
