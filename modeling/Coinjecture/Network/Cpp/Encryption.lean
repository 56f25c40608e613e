import Coinjecture.Core.Types
import Coinjecture.Lib.Codes
import Coinjecture.Lib.Records
import Coinjecture.Lib.Trace

/-! # Encrypted sessions

After the handshake each direction of a session has a key, and a cipher on either end. The sender's
counter is the nonce and travels in the frame; the receiver decrypts under the counter that the frame
carries, whatever it is. `session` is the machine of both directions, with the adversary choosing what is
presented to the receivers.

* `session_safe_iff` : with an ideal cipher the accepted frames are the first ones sent, and no nonce is
  used twice, exactly if every frame that decrypts is the next one and no direction encrypts more than
  2^64 frames. -/

namespace Coinjecture.Network.Cpp.Encryption

open Lib.Bincode Lib.Codes Lib.Records Lib.Trace
open Core.Types

inductive EncryptionError where
  | Io
  | AuthFailed (message : String)
  | DecryptionFailed
  | Timeout
  deriving DecidableEq

/-- What the session takes from other crates: `ChaCha20Poly1305` as a function of key and nonce, and
`blake3::derive_key` with the bytes of the context, lossy conversion included. -/
structure Crypto where
  encrypt : Bytes32 → Bytes → Bytes → Option Bytes
  decrypt : Bytes32 → Bytes → Bytes → Option Bytes
  deriveKey : Bytes → Bytes32 → Bytes32

/-- `derive_session_keys`: the key of the initiator's frames and that of the responder's. -/
def deriveSessionKeys (crypto : Crypto) (dhSecret initEphemPub respEphemPub : Bytes32) :
    Bytes32 × Bytes32 :=
  let key (tag : String) := crypto.deriveKey (tag.toUTF8.toList ++ beBytes 32 initEphemPub.toNat ++
    beBytes 32 respEphemPub.toNat) dhSecret
  (key "CPP_INIT_SEND", key "CPP_RESP_SEND")

structure SessionCipher where
  key : Bytes32
  counter : UInt64
  deriving DecidableEq

/-- `SessionCipher::new`. -/
def SessionCipher.new (key : Bytes32) : SessionCipher := ⟨key, 0⟩

/-- `make_nonce`. -/
def makeNonce (counter : UInt64) : Bytes := leBytes 8 counter.toNat ++ [0, 0, 0, 0]

def MAX_ENCRYPTED_FRAME : ℕ := 4 * 1024 * 1024 + 64

section Frames

variable (crypto : Crypto)

namespace SessionCipher

/-- The ciphertext of `encrypt_frame`. -/
def sealFrame (plaintext : Bytes) (c : SessionCipher) : Option Bytes :=
  crypto.encrypt c.key (makeNonce c.counter) plaintext

/-- `encrypt_frame`: the frame on the wire, and the cipher with its counter advanced. -/
def encryptFrame (plaintext : Bytes) (c : SessionCipher) :
    Except EncryptionError Bytes × SessionCipher :=
  (match c.sealFrame crypto plaintext with
    | some ciphertext =>
      .ok (leBytes 8 c.counter.toNat ++ leBytes 4 ciphertext.length ++ ciphertext)
    | none => .error .DecryptionFailed,
    { c with counter := c.counter + 1 })

/-- `decrypt_frame`. The cipher's own counter is neither read nor changed. -/
def decryptFrame (counter : UInt64) (ciphertext : Bytes) (c : SessionCipher) :
    Except EncryptionError Bytes :=
  match crypto.decrypt c.key (makeNonce counter) ciphertext with
  | some plaintext => .ok plaintext
  | none => .error .DecryptionFailed

end SessionCipher

/-- The counter and the ciphertext that `read_encrypted_frame` reads off the stream. -/
def readFrame (stream : Bytes) : Except EncryptionError (UInt64 × Bytes) :=
  let ciphertextLen := ofLeBytes ((stream.drop 8).take 4)
  if stream.length < 12 then .error .Io
  else if MAX_ENCRYPTED_FRAME < ciphertextLen then
    .error (.AuthFailed s!"Encrypted frame too large: {ciphertextLen} bytes")
  else if (stream.drop 12).length < ciphertextLen then .error .Io
  else .ok (.ofNat (ofLeBytes (stream.take 8)), (stream.drop 12).take ciphertextLen)

/-- `read_encrypted_frame`. -/
def readEncryptedFrame (stream : Bytes) (c : SessionCipher) : Except EncryptionError Bytes :=
  match readFrame stream with
  | .ok (counter, ciphertext) => c.decryptFrame crypto counter ciphertext
  | .error e => .error e

end Frames

/-! ### Sessions -/

/-- A frame that was sent. -/
structure Frame where
  counter : UInt64
  plaintext : Bytes
  ciphertext : Bytes
  deriving DecidableEq

/-- A direction of a session: the two ciphers, the counters encrypted under, the frames sent, and what the
other side accepted, with the counters it came with. -/
structure Direction where
  sender : SessionCipher
  receiver : SessionCipher
  calls : List UInt64
  sent : List Frame
  accepted : List (UInt64 × Bytes)
  deriving DecidableEq

/-- Who sends. -/
inductive Side where
  | initiator | responder
  deriving DecidableEq

abbrev Session := Side → Direction

inductive Action where
  | send (plaintext : Bytes)
  | decrypt (counter : UInt64) (ciphertext : Bytes)
  | read (stream : Bytes)
  deriving DecidableEq

/-- What an action presents to the receiver for decryption. -/
def Action.presented : Action → Option (UInt64 × Bytes)
  | .send _ => none
  | .decrypt counter ciphertext => some (counter, ciphertext)
  | .read stream =>
    match readFrame stream with
    | .ok frame => some frame
    | .error _ => none

section Runs

variable (crypto : Crypto)

/-- What the receiver accepts in this action, with the counter it came with. -/
def opens (a : Action) (d : Direction) : Option (UInt64 × Bytes) :=
  match a with
  | .send _ => none
  | .decrypt counter ciphertext =>
    (d.receiver.decryptFrame crypto counter ciphertext).toOption.map fun p => (counter, p)
  | .read stream =>
    match readFrame stream with
    | .ok (counter, _) => (readEncryptedFrame crypto stream d.receiver).toOption.map fun p => (counter, p)
    | .error _ => none

def act (a : Action) (d : Direction) : Direction :=
  match a with
  | .send plaintext => { d with
      sender := (d.sender.encryptFrame crypto plaintext).2
      calls := d.calls ++ [d.sender.counter]
      sent := d.sent ++ ((d.sender.sealFrame crypto plaintext).map fun ciphertext =>
        (⟨d.sender.counter, plaintext, ciphertext⟩ : Frame)).toList }
  | a => { d with accepted := d.accepted ++ (opens crypto a d).toList }

/-- The machine of a session. -/
def session : Machine (Side × Action) Session where
  next input S := Function.update S input.1 (act crypto input.2 (S input.1))
  halts _ _ := false

/-- A session with these keys. -/
def newSession (keys : Bytes32 × Bytes32) : Session
  | .initiator => ⟨.new keys.1, .new keys.1, [], [], []⟩
  | .responder => ⟨.new keys.2, .new keys.2, [], [], []⟩

/-- The keys and nonces encrypted under. -/
def nonces (d : Direction) : List (Bytes32 × Bytes) :=
  d.calls.map fun counter => (d.sender.key, makeNonce counter)

/-- In each direction the frames accepted are the first ones sent, and no nonce is used twice under one
key. -/
structure Safe (S : Session) : Prop where
  integrity : ∀ side, (S side).accepted <+: (S side).sent.map fun f => (f.counter, f.plaintext)
  nonces_nodup : (nonces (S .initiator) ++ nonces (S .responder)).Nodup

/-- What is presented is one of the frames sent. -/
def IsSent (d : Direction) (r : UInt64 × Bytes) : Prop :=
  ∃ f ∈ d.sent, f.counter = r.1 ∧ f.ciphertext = r.2

instance (d : Direction) : DecidablePred (IsSent d) := fun r =>
  inferInstanceAs (Decidable (∃ f ∈ d.sent, f.counter = r.1 ∧ f.ciphertext = r.2))

/-- The cipher is ideal in this step: what decrypts was encrypted by the sender. -/
def Authentic (p : (Side × Action) × Session) : Prop :=
  ∀ r ∈ p.1.2.presented, crypto.decrypt (p.2 p.1.1).receiver.key (makeNonce r.1) r.2 ≠ none →
    IsSent (p.2 p.1.1) r

instance : DecidablePred (Authentic crypto) := fun p =>
  inferInstanceAs (Decidable (∀ r ∈ p.1.2.presented, _ → _))

/-- Of the frames sent only the first one that is not accepted yet is delivered, and a frame that is sent
is one of the first 2^64. -/
def InOrder (p : (Side × Action) × Session) : Prop :=
  let d := p.2 p.1.1
  match p.1.2 with
  | .send _ => d.calls.length < 2 ^ 64
  | a => ∀ r ∈ a.presented, IsSent d r → (d.sent[d.accepted.length]?).map Frame.counter = some r.1

instance : DecidablePred InOrder := fun p =>
  match p with
  | ((_, .send _), _) => inferInstanceAs (Decidable (_ < _))
  | ((_, .decrypt ..), _) => inferInstanceAs (Decidable (∀ r ∈ Action.presented _, _ → _ = _))
  | ((_, .read _), _) => inferInstanceAs (Decidable (∀ r ∈ Action.presented _, _ → _ = _))

/-! ### What every run preserves -/

/-- The counters run from zero, and frames are what the sender made of their plaintexts. -/
structure Regular (key : Bytes32) (d : Direction) : Prop where
  sender_key : d.sender.key = key
  receiver_key : d.receiver.key = key
  counter_eq : d.sender.counter = UInt64.ofNat d.calls.length
  calls_eq : d.calls = (List.range d.calls.length).map UInt64.ofNat
  sent_calls : (d.sent.map Frame.counter).Sublist d.calls
  sent_sealed : ∀ f ∈ d.sent, crypto.encrypt key (makeNonce f.counter) f.plaintext = some f.ciphertext

variable {crypto}

theorem makeNonce_inj {x y : UInt64} (h : makeNonce x = makeNonce y) : x = y := by
  have hbytes := List.append_cancel_right h
  exact UInt64.toNat_inj.mp (leBytes_inj (UInt64.toNat_lt x) (UInt64.toNat_lt y) hbytes)

theorem regular_act {key : Bytes32} {d : Direction} (h : Regular crypto key d) (a : Action) :
    Regular crypto key (act crypto a d) := by
  cases a with
  | send plaintext =>
    refine ⟨h.sender_key, h.receiver_key, ?_, ?_, ?_, fun f hf => ?_⟩
    · change d.sender.counter + 1 = UInt64.ofNat (d.calls ++ [d.sender.counter]).length
      rw [h.counter_eq, List.length_append, List.length_singleton, UInt64.ofNat_add]
      rfl
    · change d.calls ++ [d.sender.counter] =
        (List.range (d.calls ++ [d.sender.counter]).length).map UInt64.ofNat
      rw [List.length_append, List.length_singleton, List.range_succ, List.map_append, ← h.calls_eq,
        h.counter_eq]
      rfl
    · change ((d.sent ++ ((d.sender.sealFrame crypto plaintext).map _).toList).map Frame.counter).Sublist
        (d.calls ++ [d.sender.counter])
      rw [List.map_append]
      refine h.sent_calls.append ?_
      rcases d.sender.sealFrame crypto plaintext with _ | ciphertext
      · exact List.nil_sublist _
      · exact List.Sublist.refl _
    · rcases List.mem_append.mp hf with hf | hf
      · exact h.sent_sealed f hf
      · rcases hs : d.sender.sealFrame crypto plaintext with _ | ciphertext
        · rw [hs] at hf
          cases hf
        · rw [hs] at hf
          rw [List.mem_singleton.mp hf, ← h.sender_key]
          exact hs
  | decrypt counter ciphertext => exact ⟨h.1, h.2, h.3, h.4, h.5, h.6⟩
  | read stream => exact ⟨h.1, h.2, h.3, h.4, h.5, h.6⟩

/-- What a run keeps in any case. -/
def AllRegular (crypto : Crypto) (keys : Bytes32 × Bytes32) (S : Session) : Prop :=
  Regular crypto keys.1 (S .initiator) ∧ Regular crypto keys.2 (S .responder)

theorem allRegular_next {keys : Bytes32 × Bytes32} {p : (Side × Action) × Session}
    (h : AllRegular crypto keys p.2) : AllRegular crypto keys ((session crypto).next p.1 p.2) := by
  obtain ⟨⟨side, a⟩, S⟩ := p
  cases side with
  | initiator => exact ⟨regular_act h.1 a, h.2⟩
  | responder => exact ⟨h.1, regular_act h.2 a⟩

theorem regular_side {keys : Bytes32 × Bytes32} {S : Session} (h : AllRegular crypto keys S)
    (side : Side) : ∃ key, Regular crypto key (S side) := by
  cases side with
  | initiator => exact ⟨_, h.1⟩
  | responder => exact ⟨_, h.2⟩

/-! ### Nonces -/

theorem nodup_calls_iff (n : ℕ) : ((List.range n).map UInt64.ofNat).Nodup ↔ n ≤ 2 ^ 64 := by
  constructor
  · intro h
    by_contra hlt
    rw [not_le] at hlt
    have hwrap : UInt64.ofNat (2 ^ 64) = UInt64.ofNat 0 := rfl
    have heq := List.inj_on_of_nodup_map h (List.mem_range.mpr hlt)
      (List.mem_range.mpr (Nat.zero_lt_of_lt hlt)) hwrap
    exact absurd heq (by decide)
  · intro h
    refine List.Nodup.map_on (fun x hx y hy heq => ?_) List.nodup_range
    have hx := List.mem_range.mp hx
    have hy := List.mem_range.mp hy
    have hnat := congrArg UInt64.toNat heq
    rwa [UInt64.toNat_ofNat_of_lt' (lt_of_lt_of_le hx h),
      UInt64.toNat_ofNat_of_lt' (lt_of_lt_of_le hy h)] at hnat

theorem Regular.nodup_iff {key : Bytes32} {d : Direction} (h : Regular crypto key d) :
    (nonces d).Nodup ↔ d.calls.length ≤ 2 ^ 64 := by
  have hinj : Function.Injective fun counter : UInt64 => (d.sender.key, makeNonce counter) :=
    fun x y heq => makeNonce_inj (Prod.mk.inj heq).2
  rw [nonces, List.nodup_map_iff hinj, h.calls_eq, nodup_calls_iff, List.length_map, List.length_range]

/-- The two directions use different keys, so their nonces do not meet. -/
theorem nodup_nonces_iff {keys : Bytes32 × Bytes32} (hkeys : keys.1 ≠ keys.2) {S : Session}
    (h : AllRegular crypto keys S) :
    (nonces (S .initiator) ++ nonces (S .responder)).Nodup ↔
      ∀ side, (S side).calls.length ≤ 2 ^ 64 := by
  have hdisjoint : (nonces (S .initiator)).Disjoint (nonces (S .responder)) := by
    intro x hx hy
    obtain ⟨_, -, rfl⟩ := List.mem_map.mp hx
    obtain ⟨_, -, heq⟩ := List.mem_map.mp hy
    have hkey := (Prod.mk.inj heq).1
    rw [h.1.sender_key, h.2.sender_key] at hkey
    exact hkeys hkey.symm
  rw [List.nodup_append', h.1.nodup_iff, h.2.nodup_iff]
  constructor
  · rintro ⟨hi, hr, -⟩ side
    cases side with
    | initiator => exact hi
    | responder => exact hr
  · exact fun hall => ⟨hall .initiator, hall .responder, hdisjoint⟩

/-! ### One step -/

/-- What is accepted is what is presented and decrypts. -/
theorem opens_eq_some {a : Action} {d : Direction} {counter : UInt64} {plaintext : Bytes} :
    opens crypto a d = some (counter, plaintext) ↔
      ∃ ciphertext, a.presented = some (counter, ciphertext) ∧
        crypto.decrypt d.receiver.key (makeNonce counter) ciphertext = some plaintext := by
  have hdecrypt : ∀ (counter' : UInt64) (ciphertext : Bytes),
      ((d.receiver.decryptFrame crypto counter' ciphertext).toOption.map fun p => (counter', p)) =
        some (counter, plaintext) ↔
      counter' = counter ∧
        crypto.decrypt d.receiver.key (makeNonce counter') ciphertext = some plaintext := by
    intro counter' ciphertext
    unfold SessionCipher.decryptFrame
    rcases crypto.decrypt d.receiver.key (makeNonce counter') ciphertext with _ | p
    · simp [Except.toOption]
    · simp [Except.toOption]
  cases a with
  | send plaintext => simp [opens, Action.presented]
  | decrypt counter' ciphertext =>
    simp only [opens, Action.presented, Option.some.injEq, Prod.mk.injEq]
    rw [hdecrypt]
    constructor
    · rintro ⟨rfl, h⟩
      exact ⟨ciphertext, ⟨rfl, rfl⟩, h⟩
    · rintro ⟨_, ⟨rfl, rfl⟩, h⟩
      exact ⟨rfl, h⟩
  | read stream =>
    simp only [opens, readEncryptedFrame, Action.presented]
    rcases readFrame stream with _ | ⟨counter', ciphertext⟩
    · simp
    · simp only [Option.some.injEq, Prod.mk.injEq]
      rw [hdecrypt]
      constructor
      · rintro ⟨rfl, h⟩
        exact ⟨ciphertext, ⟨rfl, rfl⟩, h⟩
      · rintro ⟨_, ⟨rfl, rfl⟩, h⟩
        exact ⟨rfl, h⟩

theorem accepted_act {a : Action} {d : Direction} (h : ∀ plaintext, a ≠ .send plaintext) :
    act crypto a d = { d with accepted := d.accepted ++ (opens crypto a d).toList } := by
  cases a with
  | send plaintext => exact absurd rfl (h plaintext)
  | decrypt counter ciphertext => rfl
  | read stream => rfl

/-- A prefix grows by an element exactly if that is the next one. -/
theorem append_singleton_isPrefix {α : Type} {xs ys : List α} {x : α} (h : xs <+: ys) :
    xs ++ [x] <+: ys ↔ ys[xs.length]? = some x := by
  obtain ⟨zs, rfl⟩ := h
  rw [List.prefix_append_right_inj, List.getElem?_append_right (le_refl _), Nat.sub_self]
  cases zs with
  | nil => simp
  | cons z zs =>
    simp [eq_comm]

/-- A frame that is presented and decrypts is one that was sent; it is the next one if its counter is. -/
theorem next_frame_iff {key : Bytes32} {d : Direction} (h : Regular crypto key d)
    (hcalls : d.calls.length ≤ 2 ^ 64)
    (hcorrect : ∀ key nonce plaintext ciphertext, crypto.encrypt key nonce plaintext = some ciphertext →
      crypto.decrypt key nonce ciphertext = some plaintext)
    {counter : UInt64} {plaintext ciphertext : Bytes} {f : Frame} (hf : f ∈ d.sent)
    (hcounter : f.counter = counter) (hcipher : f.ciphertext = ciphertext)
    (hopen : crypto.decrypt d.receiver.key (makeNonce counter) ciphertext = some plaintext) (i : ℕ) :
    (d.sent.map fun f => (f.counter, f.plaintext))[i]? = some (counter, plaintext) ↔
      (d.sent[i]?).map Frame.counter = some counter := by
  have hplain : f.plaintext = plaintext := by
    have hsealed := hcorrect _ _ _ _ (h.sent_sealed f hf)
    rw [hcounter, hcipher, ← h.receiver_key, hopen] at hsealed
    exact (Option.some.inj hsealed).symm
  have hnodup : (d.sent.map Frame.counter).Nodup := by
    refine h.sent_calls.nodup ?_
    rw [h.calls_eq, nodup_calls_iff]
    exact hcalls
  rw [List.getElem?_map]
  rcases hi : d.sent[i]? with _ | g
  · simp
  · simp only [Option.map_some, Option.some.injEq, Prod.mk.injEq, and_iff_left_iff_imp]
    intro hg
    have hsame : g = f := List.inj_on_of_nodup_map hnodup (List.mem_of_getElem? hi) hf
      (hg.trans hcounter.symm)
    rw [hsame, hplain]

/-- A direction stays safe exactly if the step is in order. -/
theorem integrity_act_iff {key : Bytes32} {d : Direction} {a : Action} (h : Regular crypto key d)
    (hcalls : d.calls.length ≤ 2 ^ 64)
    (hcorrect : ∀ key nonce plaintext ciphertext, crypto.encrypt key nonce plaintext = some ciphertext →
      crypto.decrypt key nonce ciphertext = some plaintext)
    (hauth : ∀ r ∈ a.presented, crypto.decrypt d.receiver.key (makeNonce r.1) r.2 ≠ none → IsSent d r)
    (hsend : ∀ plaintext, a ≠ .send plaintext)
    (hleads : d.accepted <+: d.sent.map fun f => (f.counter, f.plaintext)) :
    ((act crypto a d).accepted <+: (act crypto a d).sent.map fun f => (f.counter, f.plaintext)) ↔
      ∀ r ∈ a.presented, IsSent d r →
        (d.sent[d.accepted.length]?).map Frame.counter = some r.1 := by
  rw [accepted_act hsend]
  rcases hopens : opens crypto a d with _ | ⟨counter, plaintext⟩
  · -- nothing decrypts, so nothing that was sent is presented
    simp only [Option.toList_none, List.append_nil]
    refine iff_of_true hleads fun r hr ⟨f, hf, hcounter, hcipher⟩ => ?_
    have hsealed := hcorrect _ _ _ _ (h.sent_sealed f hf)
    rw [hcounter, hcipher, ← h.receiver_key] at hsealed
    have hsome := opens_eq_some.mpr ⟨_, hr, hsealed⟩
    rw [hopens] at hsome
    cases hsome
  · obtain ⟨ciphertext, hpresented, hdecrypt⟩ := opens_eq_some.mp hopens
    have hsent := hauth (counter, ciphertext) hpresented (by rw [hdecrypt]; nofun)
    obtain ⟨f, hf, hcounter, hcipher⟩ := hsent
    simp only [Option.toList_some]
    rw [append_singleton_isPrefix hleads,
      next_frame_iff h hcalls hcorrect hf hcounter hcipher hdecrypt]
    constructor
    · intro hnext r hr _
      rw [hpresented] at hr
      cases hr
      exact hnext
    · exact fun hnext => hnext (counter, ciphertext) hpresented ⟨f, hf, hcounter, hcipher⟩

/-- A session stays safe exactly if the step is in order. -/
theorem safe_next_iff {keys : Bytes32 × Bytes32} (hkeys : keys.1 ≠ keys.2)
    (hcorrect : ∀ key nonce plaintext ciphertext, crypto.encrypt key nonce plaintext = some ciphertext →
      crypto.decrypt key nonce ciphertext = some plaintext)
    {p : (Side × Action) × Session} (hauth : Authentic crypto p) (h : AllRegular crypto keys p.2)
    (hsafe : Safe p.2) : Safe ((session crypto).next p.1 p.2) ↔ InOrder p := by
  obtain ⟨⟨side, a⟩, S⟩ := p
  have hcalls := (nodup_nonces_iff hkeys h).mp hsafe.nonces_nodup
  have hnext := nodup_nonces_iff hkeys (allRegular_next (p := ((side, a), S)) h)
  have hself : (session crypto).next (side, a) S side = act crypto a (S side) := Function.update_self ..
  have hother : ∀ side', side' ≠ side → (session crypto).next (side, a) S side' = S side' :=
    fun side' hne => Function.update_of_ne hne ..
  obtain ⟨key, hreg⟩ := regular_side h side
  -- the other direction is as it was
  have hsplit : Safe ((session crypto).next (side, a) S) ↔
      ((act crypto a (S side)).accepted <+:
        (act crypto a (S side)).sent.map fun f => (f.counter, f.plaintext)) ∧
      (act crypto a (S side)).calls.length ≤ 2 ^ 64 := by
    constructor
    · rintro ⟨hintegrity, hnonces⟩
      have hside := hintegrity side
      have hlength := hnext.mp hnonces side
      rw [hself] at hside hlength
      exact ⟨hside, hlength⟩
    · rintro ⟨hside, hlength⟩
      refine ⟨fun side' => ?_, hnext.mpr fun side' => ?_⟩
      · by_cases heq : side' = side
        · rw [heq, hself]
          exact hside
        · rw [hother side' heq]
          exact hsafe.integrity side'
      · by_cases heq : side' = side
        · rw [heq, hself]
          exact hlength
        · rw [hother side' heq]
          exact hcalls side'
  rw [hsplit]
  cases a with
  | send plaintext =>
    have hgrows : (act crypto (.send plaintext) (S side)).accepted <+:
        (act crypto (.send plaintext) (S side)).sent.map fun f => (f.counter, f.plaintext) := by
      refine (hsafe.integrity side).trans ?_
      change _ <+: ((S side).sent ++ _).map _
      rw [List.map_append]
      exact List.prefix_append _ _
    have hlength : (act crypto (.send plaintext) (S side)).calls.length = (S side).calls.length + 1 :=
      List.length_append
    rw [hlength]
    exact ⟨fun hle => hle.2, fun hlt => ⟨hgrows, hlt⟩⟩
  | decrypt counter ciphertext =>
    rw [integrity_act_iff hreg (hcalls side) hcorrect hauth (fun _ => nofun) (hsafe.integrity side)]
    exact and_iff_left (hcalls side)
  | read stream =>
    rw [integrity_act_iff hreg (hcalls side) hcorrect hauth (fun _ => nofun) (hsafe.integrity side)]
    exact and_iff_left (hcalls side)

theorem safe_newSession (keys : Bytes32 × Bytes32) : Safe (newSession keys) := by
  refine ⟨fun side => ?_, List.nodup_nil⟩
  cases side with
  | initiator => exact List.nil_prefix
  | responder => exact List.nil_prefix

theorem allRegular_newSession (keys : Bytes32 × Bytes32) : AllRegular crypto keys (newSession keys) :=
  ⟨⟨rfl, rfl, rfl, rfl, List.Sublist.refl _, fun _ hf => absurd hf List.not_mem_nil⟩,
    ⟨rfl, rfl, rfl, rfl, List.Sublist.refl _, fun _ hf => absurd hf List.not_mem_nil⟩⟩

/-- A session is safe at every point exactly if all its steps are in order. -/
theorem session_safe_iff (crypto : Crypto) (dhSecret initEphemPub respEphemPub : Bytes32)
    (inputs : List (Side × Action))
    (hcorrect : ∀ key nonce plaintext ciphertext, crypto.encrypt key nonce plaintext = some ciphertext →
      crypto.decrypt key nonce ciphertext = some plaintext)
    (hkeys : (deriveSessionKeys crypto dhSecret initEphemPub respEphemPub).1 ≠
      (deriveSessionKeys crypto dhSecret initEphemPub respEphemPub).2)
    (hauth : ∀ p ∈ (session crypto).trace inputs
      (newSession (deriveSessionKeys crypto dhSecret initEphemPub respEphemPub)), Authentic crypto p) :
    ((∀ p ∈ (session crypto).trace inputs
      (newSession (deriveSessionKeys crypto dhSecret initEphemPub respEphemPub)), Safe p.2) ∧
      Safe ((session crypto).final inputs
        (newSession (deriveSessionKeys crypto dhSecret initEphemPub respEphemPub)))) ↔
    ∀ p ∈ (session crypto).trace inputs
      (newSession (deriveSessionKeys crypto dhSecret initEphemPub respEphemPub)), InOrder p :=
  Machine.safe_iff (fun _ _ hreg => allRegular_next hreg)
    (fun p hp hreg hsafe => safe_next_iff hkeys hcorrect (hauth p hp) hreg hsafe)
    (allRegular_newSession _) (safe_newSession _)

end Runs

namespace Sample

/-- A cipher that puts key and nonce in front of the plaintext. -/
def tagged : Crypto where
  encrypt key nonce plaintext := some (beBytes 32 key.toNat ++ nonce ++ plaintext)
  decrypt key nonce ciphertext :=
    if ciphertext.take 32 = beBytes 32 key.toNat ∧ (ciphertext.drop 32).take nonce.length = nonce then
      some (ciphertext.drop (32 + nonce.length))
    else none
  deriveKey context _ := .ofNat 256 (ofLeBytes (context.take 8))

def initiatorKey : Bytes32 := (deriveSessionKeys tagged ⟨9⟩ ⟨1⟩ ⟨2⟩).1

/-- The ciphertext of the initiator's frame. -/
def frame (counter : UInt64) (plaintext : Bytes) : Bytes :=
  beBytes 32 initiatorKey.toNat ++ makeNonce counter ++ plaintext

def delivered : List (Side × Action) :=
  [(.initiator, .send [10]), (.initiator, .send [11]), (.initiator, .decrypt 0 (frame 0 [10])),
    (.initiator, .decrypt 1 (frame 1 [11]))]

/-- The second delivery is a replay. -/
def replayed : List (Side × Action) :=
  [(.initiator, .send [10]), (.initiator, .decrypt 0 (frame 0 [10])),
    (.initiator, .decrypt 0 (frame 0 [10]))]

theorem tagged_correct (key : Bytes32) (nonce plaintext ciphertext : Bytes)
    (h : tagged.encrypt key nonce plaintext = some ciphertext) :
    tagged.decrypt key nonce ciphertext = some plaintext := by
  obtain rfl := Option.some.inj h
  have hlength : (beBytes 32 key.toNat).length = 32 := rfl
  simp only [tagged, List.append_assoc]
  rw [List.take_left' hlength, List.drop_left' hlength, List.take_left, if_pos ⟨rfl, rfl⟩,
    ← List.drop_drop, List.drop_left' hlength, List.drop_left]

end Sample

open Sample in
/-- Two frames that are delivered in order. -/
theorem session_safe_iff_delivered :
    (∀ p ∈ (session tagged).trace delivered (newSession (deriveSessionKeys tagged ⟨9⟩ ⟨1⟩ ⟨2⟩)),
      Safe p.2) ∧
    Safe ((session tagged).final delivered (newSession (deriveSessionKeys tagged ⟨9⟩ ⟨1⟩ ⟨2⟩))) := by
  refine (session_safe_iff tagged ⟨9⟩ ⟨1⟩ ⟨2⟩ delivered tagged_correct ?_ ?_).mpr ?_
  · decide +kernel
  · decide +kernel
  · decide +kernel

open Sample in
/-- The cipher is ideal throughout, and yet a frame that is replayed is accepted again. -/
theorem replayed_frame_accepted :
    ¬ ((∀ p ∈ (session tagged).trace replayed (newSession (deriveSessionKeys tagged ⟨9⟩ ⟨1⟩ ⟨2⟩)),
        Authentic tagged p) →
      Safe ((session tagged).final replayed
        (newSession (deriveSessionKeys tagged ⟨9⟩ ⟨1⟩ ⟨2⟩)))) := by
  intro h
  have hauth : ∀ p ∈ (session tagged).trace replayed
      (newSession (deriveSessionKeys tagged ⟨9⟩ ⟨1⟩ ⟨2⟩)), Authentic tagged p := by decide +kernel
  have hleads := (h hauth).integrity .initiator
  revert hleads
  decide +kernel

end Coinjecture.Network.Cpp.Encryption
