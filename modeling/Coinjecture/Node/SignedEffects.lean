import Coinjecture.Core.MessageCodes
import Coinjecture.Node.BlockProcessing
import Coinjecture.Node.Validator

/-! # What a signature covers

`stripped` is a transaction without its signatures and without the dispute proof, which nothing reads:
what is left, with the hash of the whole, determines what `applySingleTransaction` does. A message
fixes all of it but the fields that are not written into it; for transactions with one message,
`UnsignedAgree` says that these agree. -/

namespace Coinjecture.Node.SignedEffects

open Lib.Effect Lib.Bincode Lib.Codes
open Core.Types Core.Transactions Core.MessageCodes
open Core.Extern Core.Crypto
open Node.BlockProcessing Node.Validator

/-! ### What a transaction does -/

/-- The dispute proof is not read. -/
def strippedChannel : ChannelType → ChannelType
  | .UnilateralClose sequence balanceA balanceB _ => .UnilateralClose sequence balanceA balanceB []
  | type => type

/-- The transaction without its signatures. -/
def stripped : Transaction → Transaction
  | .Transfer tx => .Transfer { tx with signature := ⟨0⟩ }
  | .TimeLock tx => .TimeLock { tx with signature := ⟨0⟩ }
  | .Escrow tx => .Escrow { tx with signature := ⟨0⟩, additionalSignatures := [] }
  | .Channel tx => .Channel
      { tx with
        channelType := strippedChannel tx.channelType
        signature := ⟨0⟩
        additionalSignatures := [] }
  | .TrustLine tx => .TrustLine { tx with signature := ⟨0⟩ }
  | .DimensionalPoolSwap tx => .DimensionalPoolSwap { tx with signature := ⟨0⟩ }
  | .Marketplace tx => .Marketplace { tx with signature := ⟨0⟩ }

/-- Two transactions have the same kind and sub-operation and agree in every field that matters. -/
def SameEffect (a b : Transaction) : Prop := stripped a = stripped b

variable {ext : Ext} {now : Int64} {blockHeight : UInt64}

/-- They do the same, under the same hash. -/
theorem apply_of_sameEffect {a b : Transaction} (h : SameEffect a b)
    (hhash : Transaction.hash ext a = Transaction.hash ext b) :
    applySingleTransaction ext now blockHeight a = applySingleTransaction ext now blockHeight b := by
  cases a with
  | Transfer a =>
    cases b with
    | Transfer b =>
      cases a
      cases b
      simp only [SameEffect, stripped, Transaction.Transfer.injEq, TransferTransaction.mk.injEq,
        and_true] at h
      obtain ⟨rfl, rfl, rfl, rfl, rfl, rfl⟩ := h
      rfl
    | _ => cases h
  | TimeLock a =>
    cases b with
    | TimeLock b =>
      cases a
      cases b
      simp only [SameEffect, stripped, Transaction.TimeLock.injEq, TimeLockTransaction.mk.injEq,
        and_true] at h
      obtain ⟨rfl, rfl, rfl, rfl, rfl, rfl, rfl⟩ := h
      simp only [applySingleTransaction, applyTimeLock, timelockOf, hhash]
    | _ => cases h
  | Escrow a =>
    cases b with
    | Escrow b =>
      cases a
      cases b
      simp only [SameEffect, stripped, Transaction.Escrow.injEq, EscrowTransaction.mk.injEq,
        and_true] at h
      obtain ⟨rfl, rfl, rfl, rfl, rfl, rfl⟩ := h
      rfl
    | _ => cases h
  | Channel a =>
    cases b with
    | Channel b =>
      obtain ⟨typeA, _, _, _, _, _, _, _⟩ := a
      obtain ⟨typeB, _, _, _, _, _, _, _⟩ := b
      simp only [SameEffect, stripped, Transaction.Channel.injEq, ChannelTransaction.mk.injEq,
        and_true] at h
      obtain ⟨htype, rfl, rfl, rfl, rfl, rfl⟩ := h
      cases typeA with
      | UnilateralClose sequence balanceA balanceB disputeProof =>
        cases typeB with
        | UnilateralClose sequence' balanceA' balanceB' disputeProof' =>
          simp only [strippedChannel, ChannelType.UnilateralClose.injEq, and_true] at htype
          obtain ⟨rfl, rfl, rfl⟩ := htype
          rfl
        | _ => cases htype
      | _ =>
        cases typeB with
        | UnilateralClose => cases htype
        | _ =>
          simp only [strippedChannel] at htype
          rw [htype]
          rfl
    | _ => cases h
  | TrustLine a =>
    cases b with
    | TrustLine b =>
      cases a
      cases b
      simp only [SameEffect, stripped, Transaction.TrustLine.injEq, TrustLineTransaction.mk.injEq,
        and_true] at h
      obtain ⟨rfl, rfl, rfl, rfl, rfl, rfl⟩ := h
      rfl
    | _ => cases h
  | DimensionalPoolSwap a =>
    cases b with
    | DimensionalPoolSwap b =>
      cases a
      cases b
      simp only [SameEffect, stripped, Transaction.DimensionalPoolSwap.injEq,
        PoolSwapTransaction.mk.injEq, and_true] at h
      obtain ⟨rfl, rfl, rfl, rfl, rfl, rfl, rfl, rfl⟩ := h
      simp only [applySingleTransaction, applyPoolSwap, swapOperation, hhash]
    | _ => cases h
  | Marketplace a =>
    cases b with
    | Marketplace b =>
      cases a
      cases b
      simp only [SameEffect, stripped, Transaction.Marketplace.injEq,
        MarketplaceTransaction.mk.injEq, and_true] at h
      obtain ⟨rfl, rfl, rfl, rfl, rfl⟩ := h
      rfl
    | _ => cases h

/-! ### What is not signed -/

/-- The fields of an escrow transaction that its message leaves out. -/
def EscrowAgree : EscrowType → EscrowType → Prop
  | .Create _ arbiter _ _ conditionsHash, .Create _ arbiter' _ _ conditionsHash' =>
    arbiter = arbiter' ∧ conditionsHash = conditionsHash'
  | .Release, .Release | .Refund, .Refund => True
  | _, _ => False

/-- The fields of a channel transaction that its message leaves out. -/
def ChannelAgree : ChannelType → ChannelType → Prop
  | .Open participantA participantB _ _ timeout, .Open participantA' participantB' _ _ timeout' =>
    participantA = participantA' ∧ participantB = participantB' ∧ timeout = timeout'
  | .Update sequence balanceA balanceB, .Update sequence' balanceA' balanceB' =>
    sequence = sequence' ∧ balanceA = balanceA' ∧ balanceB = balanceB'
  | .CooperativeClose _ _, .CooperativeClose _ _ => True
  | .UnilateralClose sequence balanceA balanceB _, .UnilateralClose sequence' balanceA' balanceB' _ =>
    sequence = sequence' ∧ balanceA = balanceA' ∧ balanceB = balanceB'
  | _, _ => False

/-- The transactions are of one kind, and of one sub-operation where the message does not show it,
and agree in the fields that are not signed. -/
def UnsignedAgree : Transaction → Transaction → Prop
  | .Escrow a, .Escrow b => EscrowAgree a.escrowType b.escrowType
  | .Channel a, .Channel b => ChannelAgree a.channelType b.channelType
  | a, b => a.kind = b.kind

/-- Every sequence in the transaction's message has a length of 64 bits, as every sequence in memory
has. -/
def InMemory : Transaction → Prop
  | .Marketplace tx => Fits tx.operation
  | _ => True

/-- The fields three kinds start their messages with. -/
theorem header_split {id id' : Hash} {src src' : Address} {fee fee' : Balance}
    {nonce nonce' : UInt64} {key key' : PublicKey} {s t : Bytes}
    (h : encode id ++ encode src ++ encode fee ++ encode nonce ++ encode key ++ s =
      encode id' ++ encode src' ++ encode fee' ++ encode nonce' ++ encode key' ++ t) :
    (id = id' ∧ src = src' ∧ fee = fee' ∧ nonce = nonce' ∧ key = key') ∧ s = t := by
  simp only [List.append_assoc] at h
  obtain ⟨hid, h1⟩ := PrefixCode.split trivial trivial h
  obtain ⟨hsrc, h2⟩ := PrefixCode.split trivial trivial h1
  obtain ⟨hfee, h3⟩ := PrefixCode.split trivial trivial h2
  obtain ⟨hnonce, h4⟩ := PrefixCode.split trivial trivial h3
  obtain ⟨hkey, hrest⟩ := PrefixCode.split trivial trivial h4
  exact ⟨⟨hid, hsrc, hfee, hnonce, hkey⟩, hrest⟩

/-- Two fields of one width at the end of a message. -/
theorem amounts_split {x y x' y' : Balance} (h : encode x ++ encode y = encode x' ++ encode y') :
    x = x' ∧ y = y' := by
  obtain ⟨hx, hy⟩ := PrefixCode.split trivial trivial h
  rw [← List.append_nil (encode y), ← List.append_nil (encode y')] at hy
  obtain ⟨hy, -⟩ := PrefixCode.split trivial trivial hy
  exact ⟨hx, hy⟩

theorem encode_injective {α : Type} [Encode α] [PrefixCode α] {a b : α} (ha : Fits a) (hb : Fits b)
    (h : encode a = encode b) : a = b := by
  rw [← List.append_nil (encode a), ← List.append_nil (encode b)] at h
  exact (PrefixCode.split ha hb h).1

/-! ### Messages -/

theorem transfer_of_message {a b : TransferTransaction}
    (h : a.signingMessage = b.signingMessage) : SameEffect (.Transfer a) (.Transfer b) := by
  cases a
  cases b
  simp only [TransferTransaction.signingMessage, List.append_assoc] at h
  obtain ⟨rfl, h1⟩ := PrefixCode.split trivial trivial h
  obtain ⟨rfl, h2⟩ := PrefixCode.split trivial trivial h1
  obtain ⟨rfl, h3⟩ := PrefixCode.split trivial trivial h2
  obtain ⟨rfl, h4⟩ := PrefixCode.split trivial trivial h3
  obtain ⟨rfl, h5⟩ := PrefixCode.split trivial trivial h4
  obtain rfl := encode_injective trivial trivial h5
  rfl

theorem timeLock_of_message {a b : TimeLockTransaction}
    (h : a.signingMessage = b.signingMessage) : SameEffect (.TimeLock a) (.TimeLock b) := by
  cases a
  cases b
  simp only [TimeLockTransaction.signingMessage, List.append_assoc] at h
  obtain ⟨rfl, h1⟩ := PrefixCode.split trivial trivial h
  obtain ⟨rfl, h2⟩ := PrefixCode.split trivial trivial h1
  obtain ⟨rfl, h3⟩ := PrefixCode.split trivial trivial h2
  obtain ⟨rfl, h4⟩ := PrefixCode.split trivial trivial h3
  obtain ⟨rfl, h5⟩ := PrefixCode.split trivial trivial h4
  obtain ⟨rfl, h6⟩ := PrefixCode.split trivial trivial h5
  obtain rfl := encode_injective trivial trivial h6
  rfl

theorem trustLine_of_message {a b : TrustLineTransaction}
    (h : a.signingMessage = b.signingMessage) : SameEffect (.TrustLine a) (.TrustLine b) := by
  cases a
  cases b
  obtain ⟨⟨rfl, rfl, rfl, rfl, rfl⟩, htype⟩ := header_split h
  obtain rfl := encode_injective trivial trivial htype
  rfl

theorem toU8_injective {p q : DimensionalPool} (h : p.toU8 = q.toU8) : p = q := by
  cases p
  all_goals
    cases q
    all_goals first
      | rfl
      | exact absurd h (by decide)

theorem swap_of_message {a b : PoolSwapTransaction} (h : a.signingMessage = b.signingMessage) :
    SameEffect (.DimensionalPoolSwap a) (.DimensionalPoolSwap b) := by
  obtain ⟨poolFrom, poolTo, _, _, _, _, _, _, _⟩ := a
  obtain ⟨poolFrom', poolTo', _, _, _, _, _, _, _⟩ := b
  simp only [PoolSwapTransaction.signingMessage, List.append_assoc, List.cons_append,
    List.nil_append, List.cons.injEq] at h
  obtain ⟨hfrom, hto, h⟩ := h
  obtain rfl := toU8_injective hfrom
  obtain rfl := toU8_injective hto
  obtain ⟨rfl, h1⟩ := PrefixCode.split trivial trivial h
  obtain ⟨rfl, h2⟩ := PrefixCode.split trivial trivial h1
  obtain ⟨rfl, h3⟩ := PrefixCode.split trivial trivial h2
  obtain ⟨rfl, h4⟩ := PrefixCode.split trivial trivial h3
  obtain ⟨rfl, h5⟩ := PrefixCode.split trivial trivial h4
  obtain rfl := encode_injective trivial trivial h5
  rfl

theorem marketplace_of_message {a b : MarketplaceTransaction} (ha : Fits a.operation)
    (hb : Fits b.operation) (h : a.signingMessage = b.signingMessage) :
    SameEffect (.Marketplace a) (.Marketplace b) := by
  cases a
  cases b
  simp only [MarketplaceTransaction.signingMessage, List.append_assoc] at h
  obtain ⟨rfl, h1⟩ := PrefixCode.split trivial trivial h
  obtain ⟨rfl, h2⟩ := PrefixCode.split trivial trivial h1
  obtain ⟨rfl, h3⟩ := PrefixCode.split trivial trivial h2
  obtain ⟨rfl, h4⟩ := PrefixCode.split trivial trivial h3
  obtain rfl := encode_injective ha hb h4
  rfl

/-- Escrow transactions with one message have one effect exactly if the unsigned fields agree. -/
theorem escrow_of_message {a b : EscrowTransaction} (h : a.signingMessage = b.signingMessage) :
    SameEffect (.Escrow a) (.Escrow b) ↔ EscrowAgree a.escrowType b.escrowType := by
  obtain ⟨typeA, _, _, _, _, _, _, _⟩ := a
  obtain ⟨typeB, _, _, _, _, _, _, _⟩ := b
  obtain ⟨⟨rfl, rfl, rfl, rfl, rfl⟩, htail⟩ := header_split h
  simp only [SameEffect, stripped, Transaction.Escrow.injEq, EscrowTransaction.mk.injEq, and_true]
  cases typeA with
  | Create recipient arbiter amount timeout conditionsHash =>
    cases typeB with
    | Create recipient' arbiter' amount' timeout' conditionsHash' =>
      simp only [List.append_assoc] at htail
      obtain ⟨rfl, h1⟩ := PrefixCode.split trivial trivial htail
      obtain ⟨rfl, h2⟩ := PrefixCode.split trivial trivial h1
      obtain rfl := encode_injective trivial trivial h2
      simp only [EscrowType.Create.injEq, true_and]
      exact Iff.rfl
    | Release => exact ⟨fun h => (by cases h), fun h => h.elim⟩
    | Refund => exact ⟨fun h => (by cases h), fun h => h.elim⟩
  | Release =>
    cases typeB with
    | Create => exact ⟨fun h => (by cases h), fun h => h.elim⟩
    | Release => exact ⟨fun _ => trivial, fun _ => rfl⟩
    | Refund => exact ⟨fun h => (by cases h), fun h => h.elim⟩
  | Refund =>
    cases typeB with
    | Create => exact ⟨fun h => (by cases h), fun h => h.elim⟩
    | Release => exact ⟨fun h => (by cases h), fun h => h.elim⟩
    | Refund => exact ⟨fun _ => trivial, fun _ => rfl⟩

/-- So do channel transactions. -/
theorem channel_of_message {a b : ChannelTransaction} (h : a.signingMessage = b.signingMessage) :
    SameEffect (.Channel a) (.Channel b) ↔ ChannelAgree a.channelType b.channelType := by
  obtain ⟨typeA, _, _, _, _, _, _, _⟩ := a
  obtain ⟨typeB, _, _, _, _, _, _, _⟩ := b
  obtain ⟨⟨rfl, rfl, rfl, rfl, rfl⟩, htail⟩ := header_split h
  simp only [SameEffect, stripped, Transaction.Channel.injEq, ChannelTransaction.mk.injEq, and_true]
  cases typeA with
  | Open participantA participantB depositA depositB timeout =>
    cases typeB with
    | Open participantA' participantB' depositA' depositB' timeout' =>
      obtain ⟨rfl, rfl⟩ := amounts_split htail
      simp [ChannelAgree, strippedChannel]
    | _ => simp [ChannelAgree, strippedChannel]
  | Update sequence balanceA balanceB =>
    cases typeB with
    | Update => simp [ChannelAgree, strippedChannel]
    | _ => simp [ChannelAgree, strippedChannel]
  | CooperativeClose finalBalanceA finalBalanceB =>
    cases typeB with
    | CooperativeClose finalBalanceA' finalBalanceB' =>
      obtain ⟨rfl, rfl⟩ := amounts_split htail
      simp [ChannelAgree, strippedChannel]
    | _ => simp [ChannelAgree, strippedChannel]
  | UnilateralClose sequence balanceA balanceB disputeProof =>
    cases typeB with
    | UnilateralClose => simp [ChannelAgree, strippedChannel]
    | _ => simp [ChannelAgree, strippedChannel]

/-- Of two transactions with one message, the effects are the same exactly if they are of one kind
and agree in what is not signed. -/
theorem signed_effect_iff {a b : Transaction} (ha : InMemory a) (hb : InMemory b)
    (h : a.signingMessage = b.signingMessage) : SameEffect a b ↔ UnsignedAgree a b := by
  cases a with
  | Transfer a =>
    cases b with
    | Transfer b => exact iff_of_true (transfer_of_message h) rfl
    | _ => exact iff_of_false (fun he => by cases he) (fun hk => by cases hk)
  | TimeLock a =>
    cases b with
    | TimeLock b => exact iff_of_true (timeLock_of_message h) rfl
    | _ => exact iff_of_false (fun he => by cases he) (fun hk => by cases hk)
  | Escrow a =>
    cases b with
    | Escrow b => exact escrow_of_message h
    | _ => exact iff_of_false (fun he => by cases he) (fun hk => by cases hk)
  | Channel a =>
    cases b with
    | Channel b => exact channel_of_message h
    | _ => exact iff_of_false (fun he => by cases he) (fun hk => by cases hk)
  | TrustLine a =>
    cases b with
    | TrustLine b => exact iff_of_true (trustLine_of_message h) rfl
    | _ => exact iff_of_false (fun he => by cases he) (fun hk => by cases hk)
  | DimensionalPoolSwap a =>
    cases b with
    | DimensionalPoolSwap b => exact iff_of_true (swap_of_message h) rfl
    | _ => exact iff_of_false (fun he => by cases he) (fun hk => by cases hk)
  | Marketplace a =>
    cases b with
    | Marketplace b => exact iff_of_true (marketplace_of_message ha hb h) rfl
    | _ => exact iff_of_false (fun he => by cases he) (fun hk => by cases hk)

/-- Bob releases an escrow. -/
def bobRelease : EscrowTransaction where
  escrowType := .Release
  escrowId := Hash.ZERO
  «from» := Sample.bob
  fee := 0
  nonce := 0
  publicKey := ⟨0⟩
  signature := ⟨0⟩
  additionalSignatures := []

/-- With a further signature the release is still the same release. -/
theorem signed_effect_bobRelease :
    SameEffect (.Escrow bobRelease)
      (.Escrow { bobRelease with additionalSignatures := [(Sample.carol, ⟨0⟩)] }) := by
  have hmessage : (Transaction.Escrow bobRelease).signingMessage = (Transaction.Escrow
      { bobRelease with additionalSignatures := [(Sample.carol, ⟨0⟩)] }).signingMessage := rfl
  have hrelease : InMemory (.Escrow bobRelease) := trivial
  have hsigned : InMemory (.Escrow
    { bobRelease with additionalSignatures := [(Sample.carol, ⟨0⟩)] }) := trivial
  exact (signed_effect_iff hrelease hsigned hmessage).mpr trivial

/-- His message for the release is his message for the refund. -/
theorem release_signs_refund :
    (Transaction.Escrow bobRelease).signingMessage =
      (Transaction.Escrow { bobRelease with escrowType := .Refund }).signingMessage ∧
    ¬ ∀ a b : Transaction, InMemory a → InMemory b → a.signingMessage = b.signingMessage →
      SameEffect a b := by
  refine ⟨rfl, fun h => ?_⟩
  have hsame := h (.Escrow bobRelease) (.Escrow { bobRelease with escrowType := .Refund }) trivial
    trivial rfl
  simp [SameEffect, stripped, bobRelease] at hsame

end Coinjecture.Node.SignedEffects
