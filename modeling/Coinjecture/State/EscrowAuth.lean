import Coinjecture.Core.Crypto
import Coinjecture.State.Escrows

/-! # Signed releases

A release names a key and carries its signature of the escrow, the action and a time. The address that is let
release is not the key, as everywhere else, but the hash of the key.

* `releases_iff` : a release goes through for the keys the escrow entitles, and only for them, exactly if the
  hash of a key is the recipient or the arbiter where the key is. -/

namespace Coinjecture.State.EscrowAuth

open Lib.Bincode Lib.Effect Lib.Table
open Core.Types Core.Extern
open State.Escrows State.Escrows.EscrowState

def ACTION_RELEASE : UInt8 := 0x01

def ACTION_REFUND : UInt8 := 0x02

def AUTH_DOMAIN : Bytes := "COINJECT_ESCROW_AUTH_V1".toUTF8.toList

def MAX_TIMESTAMP_SKEW_SECS : Int64 := 300

def escrowAuthMessage (escrowId : Hash) (action : UInt8) (timestamp : Timestamp) : Bytes :=
  AUTH_DOMAIN ++ escrowId.asBytes ++ [action] ++ leBytes 8 timestamp.toUInt64.toNat

variable (ext : Ext)

/-- `address_from_pubkey` of the escrow store. -/
def addressFromPubkey (pubkey : PublicKey) : Address := ⟨ext.blake3 pubkey.asBytes⟩

/-- `verify_escrow_auth`. A key that is none is reported as a signature that does not verify. -/
def verifyEscrowAuth (now : Timestamp) (escrowId : Hash) (pubkey : PublicKey) (signature : Ed25519Signature)
    (timestamp : Timestamp) (action : UInt8) : Except String Unit :=
  let skew := (timestamp - now).abs
  if MAX_TIMESTAMP_SKEW_SECS < skew then
    .error s!"Authorization timestamp too far from current time (skew: {skew}s, max: {MAX_TIMESTAMP_SKEW_SECS}s)"
  else if ext.ed25519Verify pubkey (escrowAuthMessage escrowId action timestamp) signature then .ok ()
  else .error "Escrow authorization signature verification failed"

/-- The status as `{:?}` writes it. -/
def statusText : EscrowStatus → String
  | .Active => "Active"
  | .Released => "Released"
  | .Refunded => "Refunded"
  | .Expired => "Expired"

/-- What both operations do, with the check of the address that each makes. -/
def resolveWithAuth (eligible : EscrowState → Address → Bool) (refusal : String) (action : UInt8)
    (status : EscrowStatus) (now : Timestamp) (escrowId : Hash) (pubkey : PublicKey)
    (signature : Ed25519Signature) (timestamp : Timestamp) (resolvedHeight : UInt64) :
    Exec Failure EscrowState Unit := do
  let escrow ← okOr (.err "Escrow not found") (← gets (getEscrow escrowId))
  rejectIf (escrow.status ≠ .Active) s!"Escrow is not active (status: {statusText escrow.status})"
  let address := addressFromPubkey ext pubkey
  rejectIf (!(← gets fun s => eligible s address)) refusal
  match verifyEscrowAuth ext now escrowId pubkey signature timestamp action with
  | .error e => bail e
  | .ok () => updateEscrowStatus escrowId status (some resolvedHeight)

/-- `EscrowState::release_with_auth`. -/
def releaseWithAuth (now : Timestamp) (escrowId : Hash) (pubkey : PublicKey) (signature : Ed25519Signature)
    (timestamp : Timestamp) (resolvedHeight : UInt64) : Exec Failure EscrowState Unit :=
  resolveWithAuth ext (fun s address => s.canRelease escrowId address)
    "Address is not authorized to release this escrow" ACTION_RELEASE .Released now escrowId pubkey signature
    timestamp resolvedHeight

/-- `EscrowState::refund_with_auth`. -/
def refundWithAuth (now : Timestamp) (escrowId : Hash) (pubkey : PublicKey) (signature : Ed25519Signature)
    (timestamp : Timestamp) (resolvedHeight : UInt64) : Exec Failure EscrowState Unit :=
  resolveWithAuth ext (fun s address => s.canRefund now escrowId address)
    "Address is not authorized to refund this escrow" ACTION_REFUND .Refunded now escrowId pubkey signature
    timestamp resolvedHeight

/-! ### What is accepted -/

/-- The key has signed the action on the escrow at this time, which is not long ago. -/
def Authentic (now : Timestamp) (escrowId : Hash) (action : UInt8) (pubkey : PublicKey)
    (signature : Ed25519Signature) (timestamp : Timestamp) : Prop :=
  verifyEscrowAuth ext now escrowId pubkey signature timestamp action = .ok ()

instance (now : Timestamp) (escrowId : Hash) (action : UInt8) (pubkey : PublicKey)
    (signature : Ed25519Signature) (timestamp : Timestamp) :
    Decidable (Authentic ext now escrowId action pubkey signature timestamp) :=
  inferInstanceAs (Decidable (_ = _))

/-- The address may release the escrow: it is the recipient's or the arbiter's. -/
def Entitled (escrow : Escrow) (address : Address) : Prop :=
  escrow.recipient = address ∨ escrow.arbiter = some address

instance (escrow : Escrow) (address : Address) : Decidable (Entitled escrow address) :=
  inferInstanceAs (Decidable (_ ∨ _))

variable {ext} {now timestamp : Timestamp} {escrowId : Hash} {pubkey : PublicKey} {signature : Ed25519Signature}
  {resolvedHeight : UInt64} {escrow : Escrow} {s : EscrowState}

theorem canRelease_iff (hget : s.get escrowId = some escrow) (hactive : escrow.status = .Active)
    (address : Address) : s.canRelease escrowId address = true ↔ Entitled escrow address := by
  unfold canRelease Entitled
  rw [show s.getEscrow escrowId = some escrow from hget]
  simp only [hactive, ne_eq, not_true_eq_false, if_false]
  split_ifs with harbiter
  · exact iff_of_true rfl (.inr harbiter)
  · rw [decide_eq_true_iff, or_iff_left harbiter, eq_comm]

/-- Both operations go through if the hash of the key may do it and the key has signed. -/
theorem resolveWithAuth_ok_iff (hget : s.get escrowId = some escrow) (hactive : escrow.status = .Active)
    (eligible : EscrowState → Address → Bool) (refusal : String) (action : UInt8) (status : EscrowStatus) :
    (run (resolveWithAuth ext eligible refusal action status now escrowId pubkey signature timestamp
        resolvedHeight) s).1 = .ok () ↔
      eligible s (addressFromPubkey ext pubkey) = true ∧
        Authentic ext now escrowId action pubkey signature timestamp := by
  have hsome : getEscrow escrowId s = some escrow := hget
  simp only [resolveWithAuth, run_gets_bind, hsome, run_okOr_some_bind, run_rejectIf_bind, hactive, ne_eq,
    not_true_eq_false, if_false]
  cases heligible : eligible s (addressFromPubkey ext pubkey) with
  | false => simp
  | true =>
    simp only [Bool.not_true, Bool.false_eq_true, if_false, Authentic, true_and]
    rcases hverify : verifyEscrowAuth ext now escrowId pubkey signature timestamp action with e | ⟨⟩
    · simp
    · simp only [run_updateEscrowStatus hget]

theorem releaseWithAuth_ok_iff (hget : s.get escrowId = some escrow) (hactive : escrow.status = .Active) :
    (run (releaseWithAuth ext now escrowId pubkey signature timestamp resolvedHeight) s).1 = .ok () ↔
      Entitled escrow (addressFromPubkey ext pubkey) ∧
        Authentic ext now escrowId ACTION_RELEASE pubkey signature timestamp := by
  rw [releaseWithAuth, resolveWithAuth_ok_iff hget hactive, canRelease_iff hget hactive]

/-- The sender's own key refunds an escrow that is over time exactly if it is its own hash, or the hash is the
arbiter's. -/
theorem refundWithAuth_ok_iff (hget : s.get escrowId = some escrow) (hactive : escrow.status = .Active)
    (hsender : escrow.sender = pubkey.toAddress) (hover : escrow.timeout ≤ now) :
    (run (refundWithAuth ext now escrowId pubkey signature timestamp resolvedHeight) s).1 = .ok () ↔
      (escrow.arbiter = some (addressFromPubkey ext pubkey) ∨ addressFromPubkey ext pubkey = pubkey.toAddress) ∧
        Authentic ext now escrowId ACTION_REFUND pubkey signature timestamp := by
  rw [refundWithAuth, resolveWithAuth_ok_iff hget hactive]
  refine and_congr_left fun _ => ?_
  unfold canRefund
  rw [show s.getEscrow escrowId = some escrow from hget]
  simp only [hactive, ne_eq, not_true_eq_false, if_false]
  split_ifs with harbiter
  · exact iff_of_true rfl (.inl harbiter)
  · simp [harbiter, hsender, hover]

variable (ext)

/-- The keys of the addresses that are entitled release the escrow with a signature, and no others do. -/
def ReleasedByEntitled (now : Timestamp) (s : EscrowState) (escrow : Escrow) (resolvedHeight : UInt64) : Prop :=
  ∀ pubkey signature timestamp,
    (run (releaseWithAuth ext now escrow.escrowId pubkey signature timestamp resolvedHeight) s).1 = .ok () ↔
      Entitled escrow pubkey.toAddress ∧
        Authentic ext now escrow.escrowId ACTION_RELEASE pubkey signature timestamp

/-- Of an active escrow, exactly the entitled keys release it with a signature if and only if, for each key that
signs, the hash of the key is the recipient or the arbiter exactly where the key is. -/
theorem releases_iff (now : Timestamp) (s : EscrowState) (escrow : Escrow) (resolvedHeight : UInt64)
    (hget : s.get escrow.escrowId = some escrow) (hactive : escrow.status = .Active) :
    ReleasedByEntitled ext now s escrow resolvedHeight ↔
      ∀ pubkey, (∃ signature timestamp,
          Authentic ext now escrow.escrowId ACTION_RELEASE pubkey signature timestamp) →
        (Entitled escrow ⟨ext.blake3 pubkey.asBytes⟩ ↔ Entitled escrow pubkey.toAddress) := by
  constructor
  · rintro hreleased pubkey ⟨signature, timestamp, hauthentic⟩
    have hkey := hreleased pubkey signature timestamp
    rw [releaseWithAuth_ok_iff hget hactive, and_iff_left hauthentic, and_iff_left hauthentic] at hkey
    exact hkey
  · intro hhash pubkey signature timestamp
    rw [releaseWithAuth_ok_iff hget hactive]
    exact and_congr_left fun hauthentic => hhash pubkey ⟨signature, timestamp, hauthentic⟩

/-! ### Alice is the recipient -/

namespace Sample

def aliceKey : PublicKey := ⟨0x8a88e3dd7409f195fd52db2d3cba5d72ca6709bf1d94121bf3748801b40f6f5c⟩

def bob : Address := ⟨0xb0b0b0b0b0b0b0b0b0b0b0b0b0b0b0b0b0b0b0b0b0b0b0b0b0b0b0b0b0b0b0b0⟩

def carol : Address := ⟨0xc0c0c0c0c0c0c0c0c0c0c0c0c0c0c0c0c0c0c0c0c0c0c0c0c0c0c0c0c0c0c0c0⟩

/-- Carol has locked 5 for this address. -/
def lockedFor (recipient : Address) : Escrow where
  escrowId := ⟨0xe5e5e5e5e5e5e5e5e5e5e5e5e5e5e5e5e5e5e5e5e5e5e5e5e5e5e5e5e5e5e5e5⟩
  sender := carol
  recipient := recipient
  arbiter := none
  amount := 5
  timeout := 4102444800
  conditionsHash := Hash.ZERO
  status := .Active
  createdAtHeight := 1
  resolvedAtHeight := none

def escrows (recipient : Address) : EscrowState := Keyed.empty.insert (lockedFor recipient)

def aliceSignature : Ed25519Signature :=
  ⟨0xefe845b2703996b75f9be576ac9ba9553a27ff8f52138c9a37eefb807711cb33bae7e1c6b1801fc3125551498849d2b46488797bacff3d063a8926921855230f⟩

/-- The hash of Alice's key, and her signature of the release. -/
def aliceExt : Ext := Ext.ofTables
  [(aliceKey.asBytes, 0x83561adb398fd87f8e7ed8331bff2fcb945733cc3012879cb9fab07928667062)]
  [(aliceKey, escrowAuthMessage (lockedFor bob).escrowId ACTION_RELEASE 1767225600, aliceSignature)]

theorem eq_of_authentic {now timestamp : Timestamp} {escrowId : Hash} {action : UInt8} {pubkey : PublicKey}
    {signature : Ed25519Signature}
    (h : Authentic aliceExt now escrowId action pubkey signature timestamp) : pubkey = aliceKey := by
  unfold Authentic verifyEscrowAuth at h
  simp only at h
  split_ifs at h with hskew hverify
  simp only [aliceExt, Ext.ofTables, List.mem_singleton, Prod.mk.injEq, decide_eq_true_eq] at hverify
  exact hverify.1

end Sample

/-- What is locked for Bob, Alice cannot release. -/
theorem releases_iff_bob :
    ReleasedByEntitled Sample.aliceExt 1767225660 (Sample.escrows Sample.bob) (Sample.lockedFor Sample.bob) 2 := by
  refine (releases_iff Sample.aliceExt 1767225660 (Sample.escrows Sample.bob) (Sample.lockedFor Sample.bob) 2
    (Keyed.get_insert_self ..) rfl).mpr ?_
  rintro pubkey ⟨signature, timestamp, hauthentic⟩
  rw [Sample.eq_of_authentic hauthentic]
  decide +kernel

/-- What is locked for Alice, she cannot release either. -/
theorem recipient_cannot_release :
    (Sample.lockedFor Sample.aliceKey.toAddress).recipient = Address.fromPubkey Sample.aliceKey.bytes ∧
      Authentic Sample.aliceExt 1767225660 (Sample.lockedFor Sample.aliceKey.toAddress).escrowId ACTION_RELEASE
        Sample.aliceKey Sample.aliceSignature 1767225600 ∧
      (run (releaseWithAuth Sample.aliceExt 1767225660 (Sample.lockedFor Sample.aliceKey.toAddress).escrowId
        Sample.aliceKey Sample.aliceSignature 1767225600 2) (Sample.escrows Sample.aliceKey.toAddress)).1 =
          .error (.err "Address is not authorized to release this escrow") ∧
      ¬ ReleasedByEntitled Sample.aliceExt 1767225660 (Sample.escrows Sample.aliceKey.toAddress)
        (Sample.lockedFor Sample.aliceKey.toAddress) 2 := by
  have hrefused : (run (releaseWithAuth Sample.aliceExt 1767225660
      (Sample.lockedFor Sample.aliceKey.toAddress).escrowId Sample.aliceKey Sample.aliceSignature 1767225600 2)
        (Sample.escrows Sample.aliceKey.toAddress)).1 =
          .error (.err "Address is not authorized to release this escrow") := by decide +kernel
  have hauthentic : Authentic Sample.aliceExt 1767225660 (Sample.lockedFor Sample.aliceKey.toAddress).escrowId
      ACTION_RELEASE Sample.aliceKey Sample.aliceSignature 1767225600 := by decide +kernel
  refine ⟨rfl, hauthentic, hrefused, fun hreleased => ?_⟩
  have hok := (hreleased Sample.aliceKey Sample.aliceSignature 1767225600).mpr ⟨.inl rfl, hauthentic⟩
  rw [hrefused] at hok
  cases hok

end Coinjecture.State.EscrowAuth
