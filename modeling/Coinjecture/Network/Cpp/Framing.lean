import Coinjecture.Lib.Records
import Coinjecture.Network.Cpp.Handshake

/-! # Frames

A frame is a header of ten bytes, the payload and its BLAKE3 checksum. The two decoders read from a socket and
from the read half of a split socket; a stream is the list of the bytes until it ends. What they accept is a
frame of one of the two versions at the front of the stream (`decode_eq_ok`), so that frames one after the
other are read back one after the other. -/

namespace Coinjecture.Network.Cpp.Framing

open Lib.Bincode Lib.Records
open Core.Extern
open Network.Cpp.Handshake (VERSION)

/-! ### Types of messages -/

inductive MessageType where
  | Hello | HelloAck
  | Status | GetBlocks | Blocks | GetHeaders | Headers
  | NewBlock | NewTransaction
  | SubmitWork | WorkAccepted | WorkRejected | GetWork | Work
  | PexRequest | PexResponse
  | Ping | Pong | Disconnect
  deriving DecidableEq

namespace MessageType

/-- `as u8`. -/
def asU8 : MessageType → UInt8
  | Hello => 0x01
  | HelloAck => 0x02
  | Status => 0x10
  | GetBlocks => 0x11
  | Blocks => 0x12
  | GetHeaders => 0x13
  | Headers => 0x14
  | NewBlock => 0x20
  | NewTransaction => 0x21
  | SubmitWork => 0x30
  | WorkAccepted => 0x31
  | WorkRejected => 0x32
  | GetWork => 0x33
  | Work => 0x34
  | PexRequest => 0xE0
  | PexResponse => 0xE1
  | Ping => 0xF0
  | Pong => 0xF1
  | Disconnect => 0xFF

/-- The text of its error is not read. -/
def fromU8 (value : UInt8) : Option MessageType :=
  match value with
  | 0x01 => some Hello
  | 0x02 => some HelloAck
  | 0x10 => some Status
  | 0x11 => some GetBlocks
  | 0x12 => some Blocks
  | 0x13 => some GetHeaders
  | 0x14 => some Headers
  | 0x20 => some NewBlock
  | 0x21 => some NewTransaction
  | 0x30 => some SubmitWork
  | 0x31 => some WorkAccepted
  | 0x32 => some WorkRejected
  | 0x33 => some GetWork
  | 0x34 => some Work
  | 0xE0 => some PexRequest
  | 0xE1 => some PexResponse
  | 0xF0 => some Ping
  | 0xF1 => some Pong
  | 0xFF => some Disconnect
  | _ => none

theorem fromU8_eq_some {value : UInt8} {t : MessageType} : fromU8 value = some t ↔ t.asU8 = value := by
  constructor
  · intro h
    unfold fromU8 at h
    split at h <;> cases h <;> rfl
  · rintro rfl
    cases t <;> rfl

end MessageType

/-! ### Limits -/

namespace MessageSizePolicy

def TRANSACTION : ℕ := 256 * 1024
def BLOCK : ℕ := 4 * 1024 * 1024
def HANDSHAKE : ℕ := 4 * 1024
def DEFAULT : ℕ := 1024 * 1024

def maxForType (msgTypeByte : UInt8) : ℕ :=
  match msgTypeByte with
  | 0x01 | 0x02 => HANDSHAKE
  | 0x10 | 0x11 | 0x13 | 0x14 => DEFAULT
  | 0x12 => BLOCK
  | 0x20 => BLOCK
  | 0x21 => TRANSACTION
  | 0x30 | 0x31 | 0x32 | 0x33 | 0x34 => DEFAULT
  | 0xF0 | 0xF1 | 0xFF => HANDSHAKE
  | _ => DEFAULT

end MessageSizePolicy

/-- "COIN". -/
def MAGIC : Bytes := [0x43, 0x4F, 0x49, 0x4E]

def MAX_MESSAGE_SIZE : ℕ := 4 * 1024 * 1024

def CURRENT_PROTOCOL_VERSION : UInt8 := 2

def MIN_SUPPORTED_VERSION : UInt8 := 1

inductive ConnectionPolicy where
  | Allow
  | AllowWithWarning (remoteVersion : UInt8)
  | Reject (remoteVersion : UInt8)
  deriving DecidableEq

def ConnectionPolicy.evaluate (remoteVersion : UInt8) : ConnectionPolicy :=
  if ¬ (MIN_SUPPORTED_VERSION ≤ remoteVersion ∧ remoteVersion ≤ CURRENT_PROTOCOL_VERSION) then
    .Reject remoteVersion
  else if remoteVersion < CURRENT_PROTOCOL_VERSION then .AllowWithWarning remoteVersion
  else .Allow

/-- The errors of sending and receiving a frame. -/
inductive ProtocolError where
  | Io
  | InvalidMagic (magic : Bytes)
  | InvalidVersion (version : UInt8)
  | InvalidMessageType (msgType : UInt8)
  | InvalidChecksum
  | MessageTooLarge (size : ℕ)
  deriving DecidableEq

structure MessageEnvelope where
  msgType : MessageType
  payload : Bytes
  deriving DecidableEq

def typeLimit (msgTypeByte : UInt8) : ℕ := min (MessageSizePolicy.maxForType msgTypeByte) MAX_MESSAGE_SIZE

/-- `blake3::hash(..).as_bytes()`. -/
def checksumOf (ext : Ext) (payload : Bytes) : Bytes := beBytes 32 (ext.blake3 payload).toNat

namespace MessageEnvelope

/-- `MessageEnvelope::new`. -/
def new {T : Type} [Encode T] (msgType : MessageType) (payload : T) : Except ProtocolError MessageEnvelope :=
  let payload := Encode.encode payload
  if typeLimit msgType.asU8 < payload.length then .error (.MessageTooLarge payload.length)
  else .ok ⟨msgType, payload⟩

/-- `MessageEnvelope::encode`. -/
def encode (ext : Ext) (e : MessageEnvelope) : Bytes :=
  MAGIC ++ [VERSION] ++ [e.msgType.asU8] ++ beBytes 4 e.payload.length ++ e.payload ++
    checksumOf ext e.payload

end MessageEnvelope

/-! ### The decoders -/

/-- `read_exact`, with the bytes that are left. -/
def readExact (k : ℕ) (stream : Bytes) : Except ProtocolError (Bytes × Bytes) :=
  if stream.length < k then .error .Io else .ok (stream.take k, stream.drop k)

section

variable (ext : Ext)

/-- `MessageEnvelope::decode`, with the bytes that are left. -/
def decode (stream : Bytes) : Except ProtocolError (MessageEnvelope × Bytes) :=
  match readExact 10 stream with
  | .error e => .error e
  | .ok (header, stream) =>
    let magic := header.take 4
    if magic ≠ MAGIC then .error (.InvalidMagic magic)
    else match ConnectionPolicy.evaluate (header.getD 4 0) with
      | .Reject remoteVersion => .error (.InvalidVersion remoteVersion)
      | .AllowWithWarning _ | .Allow =>
        let msgTypeByte := header.getD 5 0
        match MessageType.fromU8 msgTypeByte with
        | none => .error (.InvalidMessageType msgTypeByte)
        | some msgType =>
          let payloadLen := ofBeBytes (header.drop 6)
          if typeLimit msgTypeByte < payloadLen then .error (.MessageTooLarge payloadLen)
          else match readExact payloadLen stream with
            | .error e => .error e
            | .ok (payload, stream) =>
              match readExact 32 stream with
              | .error e => .error e
              | .ok (checksum, stream) =>
                if checksumOf ext payload ≠ checksum then .error .InvalidChecksum
                else .ok (⟨msgType, payload⟩, stream)

/-- `MessageCodec::receive_from_read_half`, with the bytes that are left. -/
def receiveFromReadHalf (readHalf : Bytes) : Except ProtocolError (MessageEnvelope × Bytes) :=
  match readExact 10 readHalf with
  | .error e => .error e
  | .ok (header, readHalf) =>
    let magic := header.take 4
    if magic ≠ MAGIC then .error (.InvalidMagic magic)
    else match ConnectionPolicy.evaluate (header.getD 4 0) with
      | .Reject remoteVersion => .error (.InvalidVersion remoteVersion)
      | .AllowWithWarning _ | .Allow =>
        let msgTypeByte := header.getD 5 0
        match MessageType.fromU8 msgTypeByte with
        | none => .error (.InvalidMessageType msgTypeByte)
        | some msgType =>
          let payloadLen := ofBeBytes (header.drop 6)
          if typeLimit msgTypeByte < payloadLen then .error (.MessageTooLarge payloadLen)
          else match readExact payloadLen readHalf with
            | .error e => .error e
            | .ok (payload, readHalf) =>
              match readExact 32 readHalf with
              | .error e => .error e
              | .ok (checksum, readHalf) =>
                if checksumOf ext payload ≠ checksum then .error .InvalidChecksum
                else .ok (⟨msgType, payload⟩, readHalf)

end

/-- Read so many frames, one after the other. -/
def readFrames (decoder : Bytes → Except ProtocolError (MessageEnvelope × Bytes)) :
    ℕ → Bytes → Except ProtocolError (List MessageEnvelope × Bytes)
  | 0, stream => .ok ([], stream)
  | n + 1, stream => do
    let (envelope, stream) ← decoder stream
    let (envelopes, stream) ← readFrames decoder n stream
    return (envelope :: envelopes, stream)

/-- An envelope that `MessageEnvelope::new` built from some message. -/
def Built (e : MessageEnvelope) : Prop :=
  ∃ (T : Type) (_ : Encode T) (msgType : MessageType) (message : T), MessageEnvelope.new msgType message = .ok e

variable {ext : Ext}

/-! ### What is accepted -/

/-- A frame of a version. -/
def frame (ext : Ext) (version : UInt8) (e : MessageEnvelope) : Bytes :=
  MAGIC ++ version :: e.msgType.asU8 :: beBytes 4 e.payload.length ++ e.payload ++ checksumOf ext e.payload

theorem encode_eq_frame (e : MessageEnvelope) : e.encode ext = frame ext VERSION e := by
  simp [MessageEnvelope.encode, frame]

theorem Built.length_le {e : MessageEnvelope} (h : Built e) : e.payload.length ≤ typeLimit e.msgType.asU8 := by
  obtain ⟨T, _, msgType, message, h⟩ := h
  rw [MessageEnvelope.new] at h
  split_ifs at h with hlarge
  cases h
  exact not_lt.mp hlarge

theorem typeLimit_lt (msgTypeByte : UInt8) : typeLimit msgTypeByte < 256 ^ 4 :=
  (min_le_right _ _).trans_lt (by decide)

theorem readExact_eq_ok {k : ℕ} {stream bytes rest : Bytes} :
    readExact k stream = .ok (bytes, rest) ↔ bytes.length = k ∧ stream = bytes ++ rest := by
  unfold readExact
  split_ifs with hshort
  · refine iff_of_false nofun fun h => ?_
    rw [h.2, List.length_append] at hshort
    omega
  · rw [Except.ok.injEq, Prod.mk.injEq]
    constructor
    · rintro ⟨rfl, rfl⟩
      exact ⟨by rw [List.length_take]; omega, (List.take_append_drop k stream).symm⟩
    · rintro ⟨hlength, rfl⟩
      exact ⟨List.take_left' hlength, List.drop_left' hlength⟩

theorem readExact_append {k : ℕ} {bytes : Bytes} (h : bytes.length = k) (rest : Bytes) :
    readExact k (bytes ++ rest) = .ok (bytes, rest) :=
  readExact_eq_ok.mpr ⟨h, rfl⟩

/-- What the policy refuses. -/
theorem match_evaluate {α : Type} (version : UInt8) (refused : UInt8 → α) (allowed : α) :
    (match ConnectionPolicy.evaluate version with
      | .Reject remoteVersion => refused remoteVersion
      | .AllowWithWarning _ | .Allow => allowed) =
    if version = 1 ∨ version = 2 then allowed else refused version := by
  by_cases h : version = 1 ∨ version = 2
  · rw [if_pos h]
    rcases h with rfl | rfl
    · rfl
    · rfl
  · have hrefused : ConnectionPolicy.evaluate version = .Reject version := by
      refine if_pos fun hbetween => h ?_
      obtain ⟨hmin, hmax⟩ := hbetween
      have hmin' : 1 ≤ version.toNat := UInt8.le_iff_toNat_le.mp hmin
      have hmax' : version.toNat ≤ 2 := UInt8.le_iff_toNat_le.mp hmax
      have hcases : version.toNat = 1 ∨ version.toNat = 2 := by omega
      exact hcases.imp (fun h => UInt8.toNat_inj.mp h) fun h => UInt8.toNat_inj.mp h
    rw [if_neg h, hrefused]

theorem length_checksumOf (payload : Bytes) : (checksumOf ext payload).length = 32 := length_beBytes _ _

/-- Ten bytes, one by one. -/
theorem exists_of_length_ten {header : Bytes} (h : header.length = 10) :
    ∃ version msgType, header = header.take 4 ++ version :: msgType :: header.drop 6 ∧
      header.getD 4 0 = version ∧ header.getD 5 0 = msgType := by
  refine ⟨header[4], header[5], ?_, by simp [h], by simp [h]⟩
  conv_lhs => rw [← List.take_append_drop 4 header]
  rw [List.drop_eq_getElem_cons (by omega), List.drop_eq_getElem_cons (by omega)]

theorem frame_of_decode {stream rest : Bytes} {e : MessageEnvelope} (h : decode ext stream = .ok (e, rest)) :
    ∃ version, (version = 1 ∨ version = 2) ∧ e.payload.length ≤ typeLimit e.msgType.asU8 ∧
      stream = frame ext version e ++ rest := by
  unfold decode at h
  rcases hheader : readExact 10 stream with err | ⟨header, stream₁⟩
  · rw [hheader] at h
    cases h
  rw [hheader] at h
  obtain ⟨hten, rfl⟩ := readExact_eq_ok.mp hheader
  obtain ⟨version, msgTypeByte, hsplit, hversion, htype⟩ := exists_of_length_ten hten
  simp only [hversion, htype, match_evaluate] at h
  by_cases hmagic : header.take 4 = MAGIC
  · by_cases hsupported : version = 1 ∨ version = 2
    · rw [if_neg (not_not.mpr hmagic), if_pos hsupported] at h
      rcases htypes : MessageType.fromU8 msgTypeByte with _ | msgType
      · rw [htypes] at h
        cases h
      rw [htypes] at h
      simp only at h
      by_cases hlarge : typeLimit msgTypeByte < ofBeBytes (header.drop 6)
      · rw [if_pos hlarge] at h
        cases h
      rw [if_neg hlarge] at h
      rcases hpayload : readExact (ofBeBytes (header.drop 6)) stream₁ with err | ⟨payload, stream₂⟩
      · rw [hpayload] at h
        cases h
      rw [hpayload] at h
      obtain ⟨hlength, rfl⟩ := readExact_eq_ok.mp hpayload
      rcases hchecksum : readExact 32 stream₂ with err | ⟨checksum, stream₃⟩
      · simp only [hchecksum] at h
        cases h
      simp only [hchecksum] at h
      obtain ⟨-, rfl⟩ := readExact_eq_ok.mp hchecksum
      by_cases hsum : checksumOf ext payload = checksum
      · rw [if_neg (not_not.mpr hsum)] at h
        cases h
        obtain rfl := MessageType.fromU8_eq_some.mp htypes
        refine ⟨version, hsupported, by rw [hlength]; exact not_lt.mp hlarge, ?_⟩
        have hbytes : beBytes 4 payload.length = header.drop 6 := by
          rw [hlength]
          exact beBytes_ofBeBytes (by rw [List.length_drop, hten])
        simp only [frame, hbytes, ← hmagic, hsum]
        rw [← hsplit, List.append_assoc, List.append_assoc]
      · rw [if_pos hsum] at h
        cases h
    · rw [if_neg (not_not.mpr hmagic), if_neg hsupported] at h
      cases h
  · rw [if_pos hmagic] at h
    cases h

theorem decode_frame {version : UInt8} {e : MessageEnvelope} (hsupported : version = 1 ∨ version = 2)
    (hlimit : e.payload.length ≤ typeLimit e.msgType.asU8) (rest : Bytes) :
    decode ext (frame ext version e ++ rest) = .ok (e, rest) := by
  have hlength : ofBeBytes (beBytes 4 e.payload.length) = e.payload.length :=
    ofBeBytes_beBytes_of_lt (hlimit.trans_lt (typeLimit_lt _))
  have hten : (MAGIC ++ version :: e.msgType.asU8 :: beBytes 4 e.payload.length).length = 10 := by
    rw [List.length_append, List.length_cons, List.length_cons, length_beBytes]
    rfl
  have hframe : frame ext version e ++ rest =
      (MAGIC ++ version :: e.msgType.asU8 :: beBytes 4 e.payload.length) ++
        (e.payload ++ (checksumOf ext e.payload ++ rest)) := by
    rw [frame, List.append_assoc, List.append_assoc]
  have hdrop : (MAGIC ++ version :: e.msgType.asU8 :: beBytes 4 e.payload.length).drop 6 =
      beBytes 4 e.payload.length := rfl
  have htypes : MessageType.fromU8 e.msgType.asU8 = some e.msgType := MessageType.fromU8_eq_some.mpr rfl
  rw [hframe, decode, readExact_append hten]
  simp only [match_evaluate]
  have hmagic : (MAGIC ++ version :: e.msgType.asU8 :: beBytes 4 e.payload.length).take 4 = MAGIC := rfl
  have hversion : (MAGIC ++ version :: e.msgType.asU8 :: beBytes 4 e.payload.length).getD 4 0 = version :=
    rfl
  have htype : (MAGIC ++ version :: e.msgType.asU8 :: beBytes 4 e.payload.length).getD 5 0 =
      e.msgType.asU8 := rfl
  rw [hmagic, hversion, htype, hdrop, hlength, if_neg (not_not.mpr rfl), if_pos hsupported, htypes]
  simp only
  rw [if_neg (not_lt.mpr hlimit), readExact_append rfl]
  simp only
  rw [readExact_append (length_checksumOf _)]
  simp only
  rw [if_neg (not_not.mpr rfl)]

/-- The decoder accepts exactly what starts with a frame of a supported version within the limit. -/
theorem decode_eq_ok {stream rest : Bytes} {e : MessageEnvelope} :
    decode ext stream = .ok (e, rest) ↔ ∃ version, (version = 1 ∨ version = 2) ∧
      e.payload.length ≤ typeLimit e.msgType.asU8 ∧ stream = frame ext version e ++ rest := by
  constructor
  · intro h
    exact frame_of_decode h
  · rintro ⟨version, hsupported, hlimit, rfl⟩
    exact decode_frame hsupported hlimit rest

theorem decode_encode {e : MessageEnvelope} (he : Built e) (rest : Bytes) :
    decode ext (e.encode ext ++ rest) = .ok (e, rest) := by
  rw [encode_eq_frame]
  exact decode_frame (.inr rfl) he.length_le rest

/-- Frames one after the other, before anything. -/
theorem readFrames_append {envelopes : List MessageEnvelope} (h : ∀ e ∈ envelopes, Built e) (rest : Bytes) :
    readFrames (decode ext) envelopes.length
      ((envelopes.map (MessageEnvelope.encode ext)).flatten ++ rest) = .ok (envelopes, rest) := by
  induction envelopes with
  | nil => rfl
  | cons e es ih =>
    rw [List.map_cons, List.flatten_cons, List.append_assoc, List.length_cons, readFrames,
      decode_encode (h e List.mem_cons_self)]
    have hes := ih fun e' he' => h e' (List.mem_cons_of_mem _ he')
    change (do
      let (envelopes, stream) ← readFrames (decode ext) es.length
        ((es.map (MessageEnvelope.encode ext)).flatten ++ rest)
      return (e :: envelopes, stream)) = _
    rw [hes]
    rfl

/-- The start of a frame is no frame. -/
theorem decode_prefix_ne_ok {e : MessageEnvelope} (he : Built e) {start : Bytes}
    (hstart : start <+: e.encode ext) (hne : start ≠ e.encode ext) (r : MessageEnvelope × Bytes) :
    decode ext start ≠ .ok r := by
  obtain ⟨e', rest⟩ := r
  intro h
  obtain ⟨missing, hmissing⟩ := hstart
  obtain ⟨version, hsupported, hlimit, hframe⟩ := decode_eq_ok.mp h
  have hwhole : decode ext (e.encode ext ++ []) = .ok (e, []) := decode_encode he []
  -- with what is missing, the same frame is followed by it
  have hextended : decode ext (e.encode ext ++ []) = .ok (e', rest ++ missing) := by
    rw [List.append_nil, ← hmissing, hframe, List.append_assoc]
    exact decode_eq_ok.mpr ⟨version, hsupported, hlimit, rfl⟩
  have hrest : rest ++ missing = [] :=
    (congrArg Prod.snd (Except.ok.inj (hwhole.symm.trans hextended))).symm
  have hnothing : missing = [] := (List.append_eq_nil_iff.mp hrest).2
  rw [hnothing, List.append_nil] at hmissing
  exact hne hmissing

/-- Frames that were built are read back one after the other, by either decoder; the decoders accept and refuse
the same streams; and no frame is accepted before its last byte. -/
theorem framing_round_trip (ext : Ext) :
    (∀ envelopes : List MessageEnvelope, (∀ e ∈ envelopes, Built e) → ∀ rest : Bytes,
      readFrames (decode ext) envelopes.length
          ((envelopes.map (MessageEnvelope.encode ext)).flatten ++ rest) = .ok (envelopes, rest) ∧
        readFrames (receiveFromReadHalf ext) envelopes.length
          ((envelopes.map (MessageEnvelope.encode ext)).flatten ++ rest) = .ok (envelopes, rest)) ∧
    (∀ stream : Bytes, receiveFromReadHalf ext stream = decode ext stream) ∧
    ∀ e : MessageEnvelope, Built e → ∀ start : Bytes, start <+: e.encode ext → start ≠ e.encode ext →
      ∀ r, decode ext start ≠ .ok r ∧ receiveFromReadHalf ext start ≠ .ok r :=
  ⟨fun _ h rest => ⟨readFrames_append h rest, readFrames_append h rest⟩, fun _ => rfl,
    fun _ he _ hstart hne r =>
      ⟨decode_prefix_ne_ok he hstart hne r, decode_prefix_ne_ok he hstart hne r⟩⟩

/-- A Ping and a Disconnect. -/
theorem framing_round_trip_ping :
    Built ⟨.Ping, [7]⟩ ∧ Built ⟨.Disconnect, []⟩ ∧
      readFrames (receiveFromReadHalf (.ofTables [] [])) 2
        (MessageEnvelope.encode (.ofTables [] []) ⟨.Ping, [7]⟩ ++
          MessageEnvelope.encode (.ofTables [] []) ⟨.Disconnect, []⟩) =
        .ok ([⟨.Ping, [7]⟩, ⟨.Disconnect, []⟩], []) := by
  have hping : Built ⟨.Ping, [7]⟩ := ⟨UInt8, inferInstance, .Ping, 7, rfl⟩
  have hdisconnect : Built ⟨.Disconnect, []⟩ := ⟨Unit, ⟨fun _ => []⟩, .Disconnect, (), rfl⟩
  refine ⟨hping, hdisconnect, ?_⟩
  have hboth := ((framing_round_trip (.ofTables [] [])).1 [⟨.Ping, [7]⟩, ⟨.Disconnect, []⟩]
    (List.forall_mem_cons.mpr ⟨hping, List.forall_mem_singleton.mpr hdisconnect⟩) []).2
  rw [List.append_nil] at hboth
  simpa using hboth

end Coinjecture.Network.Cpp.Framing
