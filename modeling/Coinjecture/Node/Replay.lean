import Coinjecture.Node.Validator
import Coinjecture.Node.Verdicts

/-! # Nonces over a run of blocks

No step of a run compares the nonce of a transaction with the sender's. What a transaction does to
the nonces depends on its kind: some set the sender's nonce before their last check, the marketplace
sets it at the end, and an escrow's resolution or an open channel's update or close never does. A run
is protected against replay if and only if every one of its steps is `NonceGuarded`; the induction
over the run uses that a guarded step never lowers a nonce. -/

namespace Coinjecture.Node.Replay

open Lib.Effect Lib.Table Lib.Trace
open Core.Types Core.Transactions Core.Blocks
open Core.Extern
open State.Accounts State.Stores State.Stores.Ledger
open Node.BlockProcessing Node.Outcomes Node.Runs
open Node.Verdicts Node.Validator

/-! ### What becomes of the nonces -/

/-- The transaction sets its sender's nonce before it can fail late. -/
def chargesFirst : Transaction → Bool
  | .Transfer _ | .TimeLock _ | .TrustLine _ | .DimensionalPoolSwap _ => true
  | .Escrow tx =>
    match tx.escrowType with
    | .Create .. => true
    | .Release | .Refund => false
  | .Channel tx =>
    match tx.channelType with
    | .Open .. => true
    | .Update .. | .CooperativeClose .. | .UnilateralClose .. => false
  | .Marketplace _ => false

/-- The transaction sets its sender's nonce if it goes through. -/
def advances : Transaction → Bool
  | .Marketplace _ => true
  | tx => chargesFirst tx

/-- A transaction of this verdict sets its sender's nonce. -/
def writesNonce : Verdict → Transaction → Bool
  | .refused, _ | .panics, _ => false
  | .late, tx => chargesFirst tx
  | .goesThrough, tx => advances tx

/-- The nonces, with the sender's set after the transaction's if `b`. -/
def noncesAfter (b : Bool) (tx : Transaction) (L : Ledger) : Address → UInt64 :=
  if b then Function.update L.accounts.nonces tx.sender (tx.nonce + 1) else L.accounts.nonces

variable (ext : Ext) (now : Int64) (blockHeight : UInt64)

theorem nonces_charge (tx : Transaction) (cost : Balance) (L : Ledger) :
    (charge tx.sender cost tx.nonce L).accounts.nonces = noncesAfter true tx L := rfl

theorem nonces_effect {tx : Transaction} {L : Ledger} {o : Outcome}
    (h : Effect ext now blockHeight tx L o) :
    (after L o).accounts.nonces = noncesAfter (writesNonce (kind o) tx) tx L := by
  cases h with
  | refused => rfl
  | transferred hpays => exact nonces_charge (.Transfer _) _ L
  | locked hpays => exact nonces_charge (.TimeLock _) _ L
  | escrowed htype hpays hnew =>
    simp only [kind, writesNonce, advances, chargesFirst, htype]
    exact nonces_charge (.Escrow _) _ L
  | escrowTaken htype hpays htaken =>
    simp only [kind, writesNonce, chargesFirst, htype]
    exact nonces_charge (.Escrow _) _ L
  | opened htype hpays hnew =>
    simp only [kind, writesNonce, advances, chargesFirst, htype]
    exact nonces_charge (.Channel _) _ L
  | channelTaken htype hpays htaken =>
    simp only [kind, writesNonce, chargesFirst, htype]
    exact nonces_charge (.Channel _) _ L
  | trustlineChanged hpays hs => exact nonces_charge (.TrustLine _) _ L
  | trustlineKept hpays hs => exact nonces_charge (.TrustLine _) _ L
  | swapped hpays hs => exact nonces_charge (.DimensionalPoolSwap _) _ L
  | notSwapped hpays hs => exact nonces_charge (.DimensionalPoolSwap _) _ L
  | marketDone hpays hs => rfl
  | marketLate hpays hs => rfl
  | marketPanicked hpays hs => rfl
  | released htype hget hcan =>
    simp only [kind, writesNonce, advances, chargesFirst, htype]
    rfl
  | refunded htype hget hcan =>
    simp only [kind, writesNonce, advances, chargesFirst, htype]
    rfl
  | updated htype hs =>
    simp only [kind, writesNonce, advances, chargesFirst, htype]
    rfl
  | closed htype hget hs =>
    simp only [kind, writesNonce, advances, chargesFirst, htype]
    rfl
  | notClosed htype hget hs =>
    simp only [kind, writesNonce, chargesFirst, htype]
    rfl
  | disputed htype hs =>
    simp only [kind, writesNonce, advances, chargesFirst, htype]
    rfl

/-- The nonces after a step. -/
theorem nonces_next (tx : Transaction) (L : Ledger) :
    ((machine ext).next (.transaction now blockHeight tx) L).accounts.nonces =
      noncesAfter (writesNonce (verdict ext now blockHeight tx L) tx) tx L := by
  rw [next_transaction, ← verdict_outcome]
  exact nonces_effect ext now blockHeight (effect_outcome ext now blockHeight tx L)

/-! ### Steps -/

def Changes (p : Step) : Prop := (machine ext).next p.1 p.2 ≠ p.2

/-- The step goes through or changes the ledger. -/
def Applied (p : Step) : Prop := succeeds ext p.1 p.2 = true ∨ Changes ext p

/-- If the transaction is applied, it carries the sender's nonce and leaves it one higher. -/
def NonceExact (p : Step) : Prop :=
  match p.1 with
  | .coinbase .. => True
  | .transaction _ _ tx => Applied ext p → tx.nonce = p.2.nonce tx.sender ∧
      (((machine ext).next p.1 p.2).nonce tx.sender).toNat = tx.nonce.toNat + 1

/-- Two steps are about the same transaction: same kind, sender, nonce and signature. -/
def SameTransaction (p q : Step) : Prop :=
  match p.1, q.1 with
  | .transaction _ _ a, .transaction _ _ b => a.kind = b.kind ∧ a.sender = b.sender ∧
      a.nonce = b.nonce ∧ a.signature = b.signature
  | _, _ => False

/-- Every applied transaction uses up the sender's nonce, and of two steps about the same transaction
at most one changes the ledger. -/
def ReplayProtected (steps : List Step) : Prop :=
  (∀ p ∈ steps, NonceExact ext p) ∧
    steps.Pairwise fun p q => SameTransaction p q → ¬ (Changes ext p ∧ Changes ext q)

/-- The transaction carries the sender's nonce, and there is one after it. -/
def nonceFits (tx : Transaction) (L : Ledger) : Prop :=
  tx.nonce = L.nonce tx.sender ∧ tx.nonce.toNat + 1 < 2 ^ 64

/-- The step does nothing, or its nonce fits and its kind writes the nonce in the branch it takes. -/
def NonceGuarded (p : Step) : Prop :=
  match p.1 with
  | .coinbase .. => True
  | .transaction now blockHeight tx =>
    match verdict ext now blockHeight tx p.2 with
    | .refused => True
    | .goesThrough => advances tx = true ∧ nonceFits tx p.2
    | .late => leavesNoTrace now tx p.2 ∨ chargesFirst tx = true ∧ nonceFits tx p.2
    | .panics => leavesNoTrace now tx p.2

theorem noncesAfter_exact (b : Bool) (tx : Transaction) (L : Ledger) :
    (tx.nonce = L.nonce tx.sender ∧ (noncesAfter b tx L tx.sender).toNat = tx.nonce.toNat + 1) ↔
      b = true ∧ nonceFits tx L := by
  unfold noncesAfter nonceFits
  cases b with
  | true =>
    rw [if_pos rfl, Function.update_self, UInt64.toNat_add]
    have hlt := tx.nonce.toNat_lt
    change _ ∧ (tx.nonce.toNat + 1) % 2 ^ 64 = _ ↔ _
    constructor
    · rintro ⟨hfits, hexact⟩
      refine ⟨rfl, hfits, ?_⟩
      omega
    · rintro ⟨-, hfits, hlt⟩
      exact ⟨hfits, Nat.mod_eq_of_lt hlt⟩
  | false =>
    rw [if_neg Bool.false_ne_true]
    simp only [Bool.false_eq_true, false_and, iff_false, not_and]
    intro hfits
    change (L.nonce tx.sender).toNat ≠ _
    rw [← hfits]
    omega

/-- A step is exact about its nonce if and only if it is guarded. -/
theorem nonceExact_iff (p : Step) : NonceExact ext p ↔ NonceGuarded ext p := by
  obtain ⟨e, L⟩ := p
  cases e with
  | coinbase miner reward => rfl
  | transaction now blockHeight tx =>
    have hsucc := succeeds_transaction ext now blockHeight tx L
    have hnonce : ((machine ext).next (.transaction now blockHeight tx) L).nonce tx.sender =
      noncesAfter (writesNonce (verdict ext now blockHeight tx L) tx) tx L tx.sender :=
        congrFun (nonces_next ext now blockHeight tx L) _
    simp only [NonceExact, NonceGuarded, Applied, Changes, hsucc]
    rw [hnonce, noncesAfter_exact, next_transaction, ← verdict_outcome]
    cases ho : outcome ext now blockHeight tx L with
    | refused => simp [kind, after]
    | late L' =>
      simp only [kind, after, reduceCtorEq, exists_false, false_or, ne_eq, writesNonce,
        ← late_iff ext now blockHeight ho]
      rw [or_iff_not_imp_left]
    | panicked L' =>
      simp only [kind, after, reduceCtorEq, exists_false, false_or, ne_eq, writesNonce,
        ← panicked_iff ext now blockHeight ho]
      simp
    | done L' => simp [kind, writesNonce]

/-! ### Runs -/

/-- A step that is exact about its nonce lowers nobody's. -/
theorem nonce_le_next {p : Step} (h : NonceExact ext p) (a : Address) :
    (p.2.nonce a).toNat ≤ (((machine ext).next p.1 p.2).nonce a).toNat := by
  obtain ⟨e, L⟩ := p
  cases e with
  | coinbase miner reward => exact le_rfl
  | transaction now blockHeight tx =>
    by_cases happlied : Applied ext (.transaction now blockHeight tx, L)
    · obtain ⟨hfits, hexact⟩ := h happlied
      by_cases ha : a = tx.sender
      · subst ha
        simp only at hfits hexact ⊢
        rw [hexact, ← hfits]
        omega
      · refine le_of_eq ?_
        change (L.accounts.nonces a).toNat =
          (((machine ext).next (.transaction now blockHeight tx) L).accounts.nonces a).toNat
        rw [nonces_next, noncesAfter]
        split_ifs
        · rw [Function.update_of_ne ha]
        · rfl
    · -- a step that is not applied leaves the ledger as it was
      have hsame : (machine ext).next (.transaction now blockHeight tx) L = L :=
        not_not.mp fun hne => happlied (Or.inr hne)
      simp only [hsame, le_refl]

/-- Of two steps about one transaction that are exact, one does not change the ledger. -/
theorem not_both_change {p q : Step} (hp : NonceExact ext p) (hq : NonceExact ext q)
    (hle : ∀ a, (((machine ext).next p.1 p.2).nonce a).toNat ≤ (q.2.nonce a).toNat)
    (hsame : SameTransaction p q) : ¬ (Changes ext p ∧ Changes ext q) := by
  rintro ⟨hcp, hcq⟩
  obtain ⟨e, L⟩ := p
  obtain ⟨e', L'⟩ := q
  cases e with
  | coinbase miner reward => exact hsame
  | transaction now blockHeight tx =>
    cases e' with
    | coinbase miner reward => exact hsame
    | transaction now' blockHeight' tx' =>
      obtain ⟨-, hsender, hnonce, -⟩ := hsame
      obtain ⟨-, hexact⟩ := hp (Or.inr hcp)
      obtain ⟨hfits, -⟩ := hq (Or.inr hcq)
      have h := hle tx.sender
      simp only at hexact hfits h
      rw [hexact, hsender, ← hfits, ← hnonce] at h
      omega

/-- A run of blocks is protected against replay if and only if every step of it does nothing or
carries the sender's nonce in a branch that advances it. -/
theorem replayProtected_iff (blocks : List TimedBlock) (L : Ledger) :
    ReplayProtected ext (steps ext blocks L) ↔ ∀ p ∈ steps ext blocks L, NonceGuarded ext p := by
  constructor
  · rintro ⟨hexact, -⟩ p hp
    exact (nonceExact_iff ext p).mp (hexact p hp)
  · intro hguarded
    have hexact : ∀ p ∈ steps ext blocks L, NonceExact ext p :=
      fun p hp => (nonceExact_iff ext p).mpr (hguarded p hp)
    refine ⟨hexact, ?_⟩
    have hmono : (steps ext blocks L).Pairwise fun p q =>
        ∀ a, (((machine ext).next p.1 p.2).nonce a).toNat ≤ (q.2.nonce a).toNat :=
      Machine.pairwise_of_monotone (fun a L => (Ledger.nonce a L).toNat)
        fun p hp a => nonce_le_next ext (hexact p hp) a
    exact hmono.imp_of_mem fun hp hq hle => not_both_change ext (hexact _ hp) (hexact _ hq) hle

/-- The accepted block that has Alice's transfer twice: she pays twice. -/
theorem transfer_replayed :
    Sample.accepts Sample.twiceBlock = true ∧
    (run (applyBlocks Sample.ext [(Sample.twiceBlock, fun _ => 0)])
      (.ofAccounts Sample.aliceHas100)).2.balance Sample.aliceKey.toAddress = 88 ∧
    ¬ ReplayProtected Sample.ext
      (steps Sample.ext [(Sample.twiceBlock, fun _ => 0)] (.ofAccounts Sample.aliceHas100)) := by
  refine ⟨by decide +kernel, by decide +kernel, fun h => ?_⟩
  have hmem : (Event.transaction 0 1 (.Transfer Sample.aliceTransfer),
      (machine Sample.ext).next (.transaction 0 1 (.Transfer Sample.aliceTransfer))
        ((Ledger.ofAccounts Sample.aliceHas100).credit Sample.carol 50000000000000)) ∈
      steps Sample.ext [(Sample.twiceBlock, fun _ => 0)] (.ofAccounts Sample.aliceHas100) := by
    have hhalt : (machine Sample.ext).halts (.transaction 0 1 (.Transfer Sample.aliceTransfer))
        ((Ledger.ofAccounts Sample.aliceHas100).credit Sample.carol 50000000000000) = false := by
      decide +kernel
    change _ ∈ (machine Sample.ext).trace [.coinbase Sample.carol 50000000000000,
      .transaction 0 1 (.Transfer Sample.aliceTransfer),
      .transaction 0 1 (.Transfer Sample.aliceTransfer)] _
    rw [Machine.trace_cons (halts_coinbase ..), next_coinbase, Machine.trace_cons hhalt]
    exact List.mem_cons_of_mem _ (List.mem_cons_of_mem _ List.mem_cons_self)
  obtain ⟨hfits, -⟩ := h.1 _ hmem (Or.inl (by decide +kernel))
  exact absurd hfits (by decide +kernel)

end Coinjecture.Node.Replay
