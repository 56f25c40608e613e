import Coinjecture.Node.Runs
import Coinjecture.Node.Validator

/-! # Escrowed funds

An escrow is active when it is created and is released or refunded once: its terms stay, and a status
other than `Active` is final. Who may release or refund it is decided by the address that a
transaction names as its sender, which is not the address of the key it is signed with.

* `escrows_safe_iff` : in a run of accepted blocks escrowed funds leave at most once and to an entitled
  party exactly if every release, and every refund before the timeout, carries its sender's key. -/

namespace Coinjecture.Node.EscrowRuns

open Lib.Bincode Lib.Table Lib.Trace Lib.Float64
open Core.Types Core.Transactions Core.Blocks
open Core.Extern Core.Crypto
open State.Accounts State.Escrows
open State.Stores State.Stores.Ledger
open Node.BlockProcessing Node.Outcomes Node.Runs
open Node.Validator

/-! ### Payouts -/

variable (ext : Ext)

/-- The step is a release or a refund of this escrow that goes through. -/
def PaysOut (p : Step) (escrowId : Hash) : Prop :=
  match p.1 with
  | .transaction _ _ (.Escrow tx) =>
    (tx.escrowType = .Release ∨ tx.escrowType = .Refund) ∧ tx.escrowId = escrowId ∧
      succeeds ext p.1 p.2 = true
  | _ => False

/-- The transaction names this address as its sender, and is signed with a key of it. -/
def OnBehalf (tx : EscrowTransaction) (a : Address) : Prop :=
  tx.from = a ∧ tx.publicKey.toAddress = a ∧ signatureVerifies ext (.Escrow tx) = true

/-- Where the amount of an escrow may go in this step: by a release to the recipient, on behalf of the
arbiter or the recipient; by a refund to the sender, after the timeout or on behalf of the arbiter. -/
def Entitled (now : Int64) (tx : EscrowTransaction) (escrow : Escrow) (L L' : Ledger) : Prop :=
  match tx.escrowType with
  | .Create .. => True
  | .Release => L'.accounts = (L.credit escrow.recipient escrow.amount).accounts ∧
      ∃ a, (escrow.arbiter = some a ∨ escrow.recipient = a) ∧ OnBehalf ext tx a
  | .Refund => L'.accounts = (L.credit escrow.sender escrow.amount).accounts ∧
      (escrow.timeout ≤ now ∨ ∃ a, escrow.arbiter = some a ∧ OnBehalf ext tx a)

/-- The parties, the amount and the timeout. -/
def terms (e : Escrow) : Address × Address × Option Address × Balance × Int64 :=
  (e.sender, e.recipient, e.arbiter, e.amount, e.timeout)

/-- No escrow is lost, its terms stay, and one that is not active stays as it is. -/
def Follows (s s' : EscrowState) : Prop :=
  ∀ escrowId e, s.get escrowId = some e → ∃ e', s'.get escrowId = some e' ∧ terms e' = terms e ∧
    (e.status ≠ .Active → e' = e)

/-- What holds of every run: no escrow is paid out twice, what is paid out is an active escrow of the
ledger and goes where it is entitled to go, an escrow transaction that pays nothing out raises nobody's
balance, and the escrows keep their terms. -/
structure Safe (blocks : List TimedBlock) (L : Ledger) : Prop where
  once : (steps ext blocks L).Pairwise fun p q =>
    ∀ escrowId, PaysOut ext p escrowId → ¬ PaysOut ext q escrowId
  entitled : ∀ now blockHeight tx L',
    (.transaction now blockHeight (.Escrow tx), L') ∈ steps ext blocks L →
    PaysOut ext (.transaction now blockHeight (.Escrow tx), L') tx.escrowId →
    ∃ escrow, L'.escrows.get tx.escrowId = some escrow ∧ escrow.status = .Active ∧
      Entitled ext now tx escrow L'
        ((machine ext).next (.transaction now blockHeight (.Escrow tx)) L')
  silent : ∀ now blockHeight tx L',
    (.transaction now blockHeight (.Escrow tx), L') ∈ steps ext blocks L →
    ¬ PaysOut ext (.transaction now blockHeight (.Escrow tx), L') tx.escrowId →
    ∀ a, ((machine ext).next (.transaction now blockHeight (.Escrow tx)) L').balance a ≤ L'.balance a
  follows : ∀ p ∈ steps ext blocks L, Follows p.2.escrows ((machine ext).next p.1 p.2).escrows
  follows_later : (steps ext blocks L).Pairwise fun p q =>
    Follows ((machine ext).next p.1 p.2).escrows q.2.escrows

/-- A release that the escrow admits, or a refund that it admits before its timeout, carries the key of
the address it names as its sender. -/
def KeyBound (p : Step) : Prop :=
  match p.1 with
  | .transaction now _ (.Escrow tx) =>
    match tx.escrowType with
    | .Create .. => True
    | .Release => p.2.escrows.canRelease tx.escrowId tx.from = true →
        tx.publicKey.toAddress = tx.from
    | .Refund => p.2.escrows.canRefund now tx.escrowId tx.from = true →
        (∀ escrow ∈ p.2.escrows.get tx.escrowId, ¬ escrow.timeout ≤ now) →
        tx.publicKey.toAddress = tx.from
  | _ => True

instance : DecidablePred KeyBound := fun p =>
  match p with
  | (.transaction now _ (.Escrow tx), L) =>
    match h : tx.escrowType with
    | .Create .. => isTrue (by simp only [KeyBound, h])
    | .Release =>
      decidable_of_iff (L.escrows.canRelease tx.escrowId tx.from = true →
        tx.publicKey.toAddress = tx.from) (by simp only [KeyBound, h])
    | .Refund =>
      decidable_of_iff (L.escrows.canRefund now tx.escrowId tx.from = true →
        (∀ escrow ∈ L.escrows.get tx.escrowId, ¬ escrow.timeout ≤ now) →
        tx.publicKey.toAddress = tx.from) (by simp only [KeyBound, h])
  | (.transaction _ _ (.Transfer _), _) => isTrue trivial
  | (.transaction _ _ (.TimeLock _), _) => isTrue trivial
  | (.transaction _ _ (.Channel _), _) => isTrue trivial
  | (.transaction _ _ (.TrustLine _), _) => isTrue trivial
  | (.transaction _ _ (.DimensionalPoolSwap _), _) => isTrue trivial
  | (.transaction _ _ (.Marketplace _), _) => isTrue trivial
  | (.coinbase .., _) => isTrue trivial

/-! ### Escrows over a step -/

theorem Follows.refl (s : EscrowState) : Follows s s := fun _ e hget => ⟨e, hget, rfl, fun _ => rfl⟩

theorem Follows.trans {s t u : EscrowState} (hst : Follows s t) (htu : Follows t u) :
    Follows s u := by
  intro escrowId e hget
  obtain ⟨e', hget', hterms, hsettled⟩ := hst escrowId e hget
  obtain ⟨e'', hget'', hterms', hsettled'⟩ := htu escrowId e' hget'
  refine ⟨e'', hget'', hterms'.trans hterms, fun hstatus => ?_⟩
  obtain rfl := hsettled hstatus
  exact hsettled' hstatus

theorem follows_insert_new {s : EscrowState} {e : Escrow} (hnew : s.get e.escrowId = none) :
    Follows s (s.insert e) := by
  intro escrowId e' hget
  have hne : escrowId ≠ e.escrowId := by
    rintro rfl
    rw [hnew] at hget
    cases hget
  exact ⟨e', (Keyed.get_insert_ne s hne).trans hget, rfl, fun _ => rfl⟩

/-- An active escrow that is settled. -/
theorem follows_settle {s : EscrowState} {escrowId : Hash} {e : Escrow}
    (hget : s.get escrowId = some e) (hactive : e.status = .Active) (status : EscrowStatus)
    (resolvedHeight : Option UInt64) :
    Follows s (s.insert { e with status := status, resolvedAtHeight := resolvedHeight }) := by
  intro escrowId' e' hget'
  rw [Keyed.get_insert]
  split_ifs with heq
  · have hid : e.escrowId = escrowId := s.keyed hget
    rw [heq, hid, hget] at hget'
    cases hget'
    exact ⟨_, rfl, rfl, fun hsettled => absurd hactive hsettled⟩
  · exact ⟨e', hget', rfl, fun _ => rfl⟩

variable {ext}

theorem follows_effect {now : Int64} {blockHeight : UInt64} {tx : Transaction} {L : Ledger}
    {o : Outcome} (h : Effect ext now blockHeight tx L o) :
    Follows L.escrows (after L o).escrows := by
  cases h with
  | escrowed htype hpays hnew => exact follows_insert_new hnew
  | released htype hget hcan =>
    obtain ⟨e, hget', hactive⟩ := EscrowState.active_of_canRelease hcan
    rw [hget] at hget'
    cases hget'
    exact follows_settle hget hactive _ _
  | refunded htype hget hcan =>
    obtain ⟨e, hget', hactive⟩ := EscrowState.active_of_canRefund hcan
    rw [hget] at hget'
    cases hget'
    exact follows_settle hget hactive _ _
  | _ => exact Follows.refl _

theorem follows_next (p : Step) : Follows p.2.escrows ((machine ext).next p.1 p.2).escrows := by
  obtain ⟨e, L⟩ := p
  cases e with
  | coinbase miner reward => exact Follows.refl _
  | transaction now blockHeight tx =>
    rw [next_transaction]
    exact follows_effect (effect_outcome ext now blockHeight tx L)

/-! ### One payout -/

/-- What a release does that goes through. -/
theorem released_of_succeeds {now : Int64} {blockHeight : UInt64} {tx : EscrowTransaction} {L : Ledger}
    (htype : tx.escrowType = .Release)
    (h : succeeds ext (.transaction now blockHeight (.Escrow tx)) L = true) :
    ∃ escrow, L.escrows.get tx.escrowId = some escrow ∧
      L.escrows.canRelease tx.escrowId tx.from = true ∧
      (machine ext).next (.transaction now blockHeight (.Escrow tx)) L =
        (L.credit escrow.recipient escrow.amount).withEscrows (L.escrows.insert
          { escrow with status := .Released, resolvedAtHeight := some blockHeight }) := by
  obtain ⟨L', hdone⟩ := (succeeds_transaction ext now blockHeight (.Escrow tx) L).mp h
  have heffect := effect_outcome ext now blockHeight (.Escrow tx) L
  rw [next_transaction]
  rw [hdone] at heffect ⊢
  cases heffect with
  | released _ hget hcan => exact ⟨_, hget, hcan, rfl⟩
  | escrowed htype' => exact absurd (htype.symm.trans htype') nofun
  | refunded htype' => exact absurd (htype.symm.trans htype') nofun

/-- What a refund does that goes through. -/
theorem refunded_of_succeeds {now : Int64} {blockHeight : UInt64} {tx : EscrowTransaction} {L : Ledger}
    (htype : tx.escrowType = .Refund)
    (h : succeeds ext (.transaction now blockHeight (.Escrow tx)) L = true) :
    ∃ escrow, L.escrows.get tx.escrowId = some escrow ∧
      L.escrows.canRefund now tx.escrowId tx.from = true ∧
      (machine ext).next (.transaction now blockHeight (.Escrow tx)) L =
        (L.credit escrow.sender escrow.amount).withEscrows (L.escrows.insert
          { escrow with status := .Refunded, resolvedAtHeight := some blockHeight }) := by
  obtain ⟨L', hdone⟩ := (succeeds_transaction ext now blockHeight (.Escrow tx) L).mp h
  have heffect := effect_outcome ext now blockHeight (.Escrow tx) L
  rw [next_transaction]
  rw [hdone] at heffect ⊢
  cases heffect with
  | refunded _ hget hcan => exact ⟨_, hget, hcan, rfl⟩
  | escrowed htype' => exact absurd (htype.symm.trans htype') nofun
  | released htype' => exact absurd (htype.symm.trans htype') nofun

/-- An escrow is paid out while it is active, and is not active after that. -/
theorem settled_of_paysOut {p : Step} {escrowId : Hash} (h : PaysOut ext p escrowId) :
    (∃ e, p.2.escrows.get escrowId = some e ∧ e.status = .Active) ∧
    ∃ e, ((machine ext).next p.1 p.2).escrows.get escrowId = some e ∧ e.status ≠ .Active := by
  obtain ⟨e, L⟩ := p
  cases e with
  | coinbase miner reward => exact h.elim
  | transaction now blockHeight tx =>
    cases tx with
    | Escrow tx =>
      obtain ⟨htype | htype, rfl, hsucceeds⟩ := h
      · obtain ⟨escrow, hget, hcan, hnext⟩ := released_of_succeeds htype hsucceeds
        refine ⟨EscrowState.active_of_canRelease hcan, ?_⟩
        rw [hnext]
        exact ⟨_, Keyed.get_insert_of_get hget rfl, nofun⟩
      · obtain ⟨escrow, hget, hcan, hnext⟩ := refunded_of_succeeds htype hsucceeds
        refine ⟨EscrowState.active_of_canRefund hcan, ?_⟩
        rw [hnext]
        exact ⟨_, Keyed.get_insert_of_get hget rfl, nofun⟩
    | _ => exact h.elim

/-- The parties that a release is admitted for. -/
theorem party_of_canRelease {s : EscrowState} {escrowId : Hash} {releaser : Address} {escrow : Escrow}
    (hget : s.get escrowId = some escrow) (h : s.canRelease escrowId releaser = true) :
    escrow.arbiter = some releaser ∨ escrow.recipient = releaser := by
  simp only [EscrowState.canRelease, EscrowState.getEscrow, hget] at h
  split_ifs at h with hactive harbiter
  · exact .inl harbiter
  · exact .inr (of_decide_eq_true h).symm

/-- A refund is admitted for the arbiter, or once the timeout has passed. -/
theorem party_of_canRefund {s : EscrowState} {now : Int64} {escrowId : Hash} {refunder : Address}
    {escrow : Escrow} (hget : s.get escrowId = some escrow)
    (h : s.canRefund now escrowId refunder = true) :
    escrow.arbiter = some refunder ∨ escrow.timeout ≤ now := by
  simp only [EscrowState.canRefund, EscrowState.getEscrow, hget] at h
  split_ifs at h with hactive harbiter
  · exact .inl harbiter
  · rw [Bool.and_eq_true] at h
    exact .inr (of_decide_eq_true h.2)

/-- A release that goes through is entitled if it carries its sender's key. -/
theorem entitled_release {now : Int64} {tx : EscrowTransaction} {escrow : Escrow} {L L' : Ledger}
    (htype : tx.escrowType = .Release) (hsigned : signatureVerifies ext (.Escrow tx) = true)
    (hparty : escrow.arbiter = some tx.from ∨ escrow.recipient = tx.from)
    (hnext : L'.accounts = (L.credit escrow.recipient escrow.amount).accounts)
    (hkey : tx.publicKey.toAddress = tx.from) : Entitled ext now tx escrow L L' := by
  simp only [Entitled, htype]
  exact ⟨hnext, tx.from, hparty, rfl, hkey, hsigned⟩

/-- So is a refund; after the timeout it need not. -/
theorem entitled_refund {now : Int64} {tx : EscrowTransaction} {escrow : Escrow} {L L' : Ledger}
    (htype : tx.escrowType = .Refund) (hsigned : signatureVerifies ext (.Escrow tx) = true)
    (hparty : escrow.arbiter = some tx.from ∨ escrow.timeout ≤ now)
    (hnext : L'.accounts = (L.credit escrow.sender escrow.amount).accounts)
    (hbound : ¬ escrow.timeout ≤ now → tx.publicKey.toAddress = tx.from) :
    Entitled ext now tx escrow L L' := by
  simp only [Entitled, htype]
  refine ⟨hnext, ?_⟩
  by_cases htimeout : escrow.timeout ≤ now
  · exact .inl htimeout
  · rcases hparty with harbiter | hpassed
    · exact .inr ⟨tx.from, harbiter, rfl, hbound htimeout, hsigned⟩
    · exact absurd hpassed htimeout

theorem succeeds_of_canRelease {now : Int64} {blockHeight : UInt64} {tx : EscrowTransaction}
    {L : Ledger} {escrow : Escrow} (htype : tx.escrowType = .Release)
    (hget : L.escrows.get tx.escrowId = some escrow)
    (hcan : L.escrows.canRelease tx.escrowId tx.from = true) :
    succeeds ext (.transaction now blockHeight (.Escrow tx)) L = true := by
  refine (succeeds_transaction ext now blockHeight (.Escrow tx) L).mpr ?_
  simp only [outcome, htype, hget, hcan, if_true]
  exact ⟨_, rfl⟩

theorem succeeds_of_canRefund {now : Int64} {blockHeight : UInt64} {tx : EscrowTransaction}
    {L : Ledger} {escrow : Escrow} (htype : tx.escrowType = .Refund)
    (hget : L.escrows.get tx.escrowId = some escrow)
    (hcan : L.escrows.canRefund now tx.escrowId tx.from = true) :
    succeeds ext (.transaction now blockHeight (.Escrow tx)) L = true := by
  refine (succeeds_transaction ext now blockHeight (.Escrow tx) L).mpr ?_
  simp only [outcome, htype, hget, hcan, if_true]
  exact ⟨_, rfl⟩

/-- A step with a signed escrow transaction pays out as it is entitled to exactly if it is key-bound. -/
theorem entitled_step_iff {now : Int64} {blockHeight : UInt64} {tx : EscrowTransaction} {L : Ledger}
    (hsigned : signatureVerifies ext (.Escrow tx) = true) :
    (PaysOut ext (.transaction now blockHeight (.Escrow tx), L) tx.escrowId →
      ∃ escrow, L.escrows.get tx.escrowId = some escrow ∧ escrow.status = .Active ∧
        Entitled ext now tx escrow L
          ((machine ext).next (.transaction now blockHeight (.Escrow tx)) L)) ↔
    KeyBound (.transaction now blockHeight (.Escrow tx), L) := by
  rcases htype : tx.escrowType with ⟨recipient, arbiter, amount, timeout, conditionsHash⟩ | _ | _
  · simp only [KeyBound, PaysOut, htype]
    refine iff_of_true ?_ trivial
    rintro ⟨hrelease | hrefund, -⟩
    · cases hrelease
    · cases hrefund
  · simp only [KeyBound, htype]
    constructor
    · intro hentitled hcan
      obtain ⟨escrow, hget, -⟩ := EscrowState.active_of_canRelease hcan
      have hpays : PaysOut ext (.transaction now blockHeight (.Escrow tx), L) tx.escrowId :=
        ⟨.inl htype, rfl, succeeds_of_canRelease htype hget hcan⟩
      obtain ⟨escrow', hget', -, hparty⟩ := hentitled hpays
      simp only [Entitled, htype] at hparty
      obtain ⟨-, a, -, hfrom, hkey, -⟩ := hparty
      rw [hkey, hfrom]
    · rintro hbound ⟨-, -, hsucceeds⟩
      obtain ⟨escrow, hget, hcan, hnext⟩ := released_of_succeeds htype hsucceeds
      obtain ⟨escrow', hget', hactive⟩ := EscrowState.active_of_canRelease hcan
      rw [hget] at hget'
      cases hget'
      refine ⟨escrow, hget, hactive, ?_⟩
      rw [hnext]
      exact entitled_release htype hsigned (party_of_canRelease hget hcan) rfl (hbound hcan)
  · simp only [KeyBound, htype]
    constructor
    · intro hentitled hcan hearly
      obtain ⟨escrow, hget, -⟩ := EscrowState.active_of_canRefund hcan
      have hpays : PaysOut ext (.transaction now blockHeight (.Escrow tx), L) tx.escrowId :=
        ⟨.inr htype, rfl, succeeds_of_canRefund htype hget hcan⟩
      obtain ⟨escrow', hget', -, hparty⟩ := hentitled hpays
      simp only [Entitled, htype] at hparty
      obtain ⟨-, htimeout | ⟨a, -, hfrom, hkey, -⟩⟩ := hparty
      · exact absurd htimeout (hearly escrow' hget')
      · rw [hkey, hfrom]
    · rintro hbound ⟨-, -, hsucceeds⟩
      obtain ⟨escrow, hget, hcan, hnext⟩ := refunded_of_succeeds htype hsucceeds
      obtain ⟨escrow', hget', hactive⟩ := EscrowState.active_of_canRefund hcan
      rw [hget] at hget'
      cases hget'
      refine ⟨escrow, hget, hactive, ?_⟩
      rw [hnext]
      refine entitled_refund htype hsigned (party_of_canRefund hget hcan) rfl fun hearly => ?_
      refine hbound hcan fun e he => ?_
      rw [hget] at he
      cases he
      exact hearly

/-- A sender that can pay has no more after it has paid. -/
theorem balance_charge_le {src a : Address} {cost : Balance} {nonce : UInt64} {L : Ledger}
    (hpays : ¬ L.balance src < cost) : (charge src cost nonce L).balance a ≤ L.balance a := by
  change (L.debit src cost).balance a ≤ L.balance a
  by_cases heq : a = src
  · subst heq
    rw [balance_debit_self]
    bv_omega
  · have hkept : (L.debit src cost).balance a = L.balance a := Function.update_of_ne heq ..
    rw [hkept]
    exact BitVec.le_refl _

/-- An escrow transaction that pays nothing out raises nobody's balance. -/
theorem silent_next {now : Int64} {blockHeight : UInt64} {tx : EscrowTransaction} {L : Ledger}
    (h : ¬ PaysOut ext (.transaction now blockHeight (.Escrow tx), L) tx.escrowId) (a : Address) :
    ((machine ext).next (.transaction now blockHeight (.Escrow tx)) L).balance a ≤ L.balance a := by
  have heffect := effect_outcome ext now blockHeight (.Escrow tx) L
  have hsucceeds := succeeds_transaction ext now blockHeight (.Escrow tx) L
  rw [next_transaction]
  generalize outcome ext now blockHeight (.Escrow tx) L = o at heffect hsucceeds
  cases heffect with
  | refused => exact BitVec.le_refl _
  | escrowed htype hpays hnew => exact balance_charge_le hpays
  | escrowTaken htype hpays htaken => exact balance_charge_le hpays
  | released htype hget hcan => exact absurd ⟨.inl htype, rfl, hsucceeds.mpr ⟨_, rfl⟩⟩ h
  | refunded htype hget hcan => exact absurd ⟨.inr htype, rfl, hsucceeds.mpr ⟨_, rfl⟩⟩ h

/-! ### Runs -/

variable (ext) in
/-- A validator has accepted the block. -/
def Accepted (block : Block) : Prop :=
  ∃ (v : BlockValidator) (validatedAt : Int64) (prevHash : Hash) (expectedHeight : UInt64)
    (skip : Bool) (w : Option (BitVec 128)),
    v.validateBlockWithOptions ext validatedAt block prevHash expectedHeight skip w = .ok ()

theorem mem_of_mem_steps {blocks : List TimedBlock} {now : Int64} {blockHeight : UInt64}
    {tx : Transaction} {L L' : Ledger}
    (h : (.transaction now blockHeight tx, L') ∈ steps ext blocks L) :
    ∃ b ∈ blocks, tx ∈ b.1.transactions := by
  obtain ⟨b, hb, hevent⟩ := List.mem_flatMap.mp (Machine.mem_of_mem_trace h)
  refine ⟨b, hb, ?_⟩
  rcases List.mem_cons.mp hevent with heq | hevent
  · cases heq
  · exact mem_of_mem_transactionEvents hevent

theorem signed_of_accepted {blocks : List TimedBlock} {L L' : Ledger}
    (haccepted : ∀ b ∈ blocks, Accepted ext b.1) {now : Int64} {blockHeight : UInt64}
    {tx : EscrowTransaction} (hmem : (.transaction now blockHeight (.Escrow tx), L') ∈ steps ext blocks L) :
    signatureVerifies ext (.Escrow tx) = true := by
  obtain ⟨b, hb, htx⟩ := mem_of_mem_steps hmem
  obtain ⟨v, validatedAt, prevHash, expectedHeight, skip, w, hok⟩ := haccepted b hb
  obtain ⟨-, -, -, -, -, -, -, hverifies, -⟩ := validateBlockWithOptions_ok.mp hok
  exact signatureVerifies_of_verifySignature ext (hverifies _ htx)

theorem keyBound_of_safe {blocks : List TimedBlock} {L : Ledger}
    (haccepted : ∀ b ∈ blocks, Accepted ext b.1) (hsafe : Safe ext blocks L) :
    ∀ p ∈ steps ext blocks L, KeyBound p := by
  rintro ⟨e, L'⟩ hp
  cases e with
  | coinbase miner reward => trivial
  | transaction now blockHeight tx =>
    cases tx with
    | Escrow tx =>
      exact (entitled_step_iff (signed_of_accepted haccepted hp)).mp (hsafe.entitled _ _ _ _ hp)
    | _ => trivial

/-- In a run of accepted blocks escrowed funds leave at most once and to an entitled party exactly if
its steps are key-bound. -/
theorem escrows_safe_iff (blocks : List TimedBlock) (L : Ledger)
    (haccepted : ∀ b ∈ blocks, Accepted ext b.1) :
    Safe ext blocks L ↔ ∀ p ∈ steps ext blocks L, KeyBound p := by
  constructor
  · exact keyBound_of_safe haccepted
  · intro hbound
    have hlater : (steps ext blocks L).Pairwise fun p q =>
        Follows ((machine ext).next p.1 p.2).escrows q.2.escrows :=
      Machine.pairwise_of_preorder (R := fun L L' : Ledger => Follows L.escrows L'.escrows)
        (fun L => Follows.refl L.escrows) Follows.trans fun p _ => follows_next p
    refine ⟨hlater.imp fun hfollows escrowId hp hq => ?_, ?_, ?_, fun p _ => follows_next p, hlater⟩
    · -- what has been paid out is not active in any later state
      obtain ⟨-, e, hget, hsettled⟩ := settled_of_paysOut hp
      obtain ⟨⟨e'', hget'', hactive⟩, -⟩ := settled_of_paysOut hq
      obtain ⟨e', hget', -, hkept⟩ := hfollows escrowId e hget
      rw [hget''] at hget'
      cases hget'
      rw [hkept hsettled] at hactive
      exact hsettled hactive
    · exact fun now blockHeight tx L' hmem =>
        (entitled_step_iff (signed_of_accepted haccepted hmem)).mpr (hbound _ hmem)
    · exact fun now blockHeight tx L' _ hpays a => silent_next hpays a

/-! ### A refund in the arbiter's name

Alice puts 5 into an escrow for Bob, with Trent as the arbiter, and in the same block it is refunded, long
before the timeout. The digests and signatures are those that BLAKE3 and Ed25519 give. -/

namespace Sample

open Node.Validator.Sample

def trentKey : PublicKey := ⟨0xed4928c628d1c2c6eae90338905995612959273a5c63f93636c14614ac8737d1⟩

def escrowId : Hash := ⟨0xe5e5e5e5e5e5e5e5e5e5e5e5e5e5e5e5e5e5e5e5e5e5e5e5e5e5e5e5e5e5e5e5⟩

def aliceEscrow : EscrowTransaction where
  escrowType := .Create bob (some trentKey.toAddress) 5 4102444800 Hash.ZERO
  escrowId := escrowId
  «from» := aliceKey.toAddress
  fee := 1
  nonce := 0
  publicKey := aliceKey
  signature := ⟨0x01f8af8a5cb7fe73672877604896394d0438a89cf4f2d97643dc8d6916dd173fffd272c740cf03af624969b520f5b3aebcf8a017b8a973c544346f8066d2e003⟩
  additionalSignatures := []

/-- The refund, from Trent's address under this key. -/
def refund (publicKey : PublicKey) (signature : Ed25519Signature) : EscrowTransaction where
  escrowType := .Refund
  escrowId := escrowId
  «from» := trentKey.toAddress
  fee := 1
  nonce := 0
  publicKey := publicKey
  signature := signature
  additionalSignatures := [(carol, ⟨0⟩)]

def trentRefund : EscrowTransaction := refund trentKey
  ⟨0xf527f3ae74c36348619079e43eeca7ccd08c222e468f6c2eefc9d70c38fcc82632713931239553b9b20461712584f7780f38fa0f812acd78968cd9df76d9b008⟩

/-- Mallory signs. -/
def forgedRefund : EscrowTransaction := refund malloryKey
  ⟨0x15fcf097d69f6d3e946d47edd166f43f8056f53a5896a194060ae84ef8cf9eb87cbfdaac7a075322fe437a4dc8198fe0b58c6d1f5650c17eb3a5d10da9b98c08⟩

def trentHeader : BlockHeader :=
  header ⟨0xa1a0841ec8f4e1073679530b6223a591efeb0883475c326aae086a0045b8d8d1⟩ 35764

def trentBlock : Block := block trentHeader [.Escrow aliceEscrow, .Escrow trentRefund]

def forgedHeader : BlockHeader :=
  header ⟨0x8232b30aa3f3355905e4d8ea5841d81db1ef58847af8d8e165808e836def8259⟩ 163084

def forgedBlock : Block := block forgedHeader [.Escrow aliceEscrow, .Escrow forgedRefund]

def digests : Ext := Ext.ofTables
  [(encode problem, problemHash.bytes),
    (encode solution, solutionHash.bytes),
    (problemHash.asBytes ++ parent.asBytes ++ solutionHash.asBytes, commitment.hash.bytes),
    (encode trentHeader, 0x0000c509c9734298189d5a2f9793b88d513a6ef7f74a485a3fca4a72a4ce3ac7),
    (encode forgedHeader, 0x0000561f37c51b1a7081eec8bda85c000575825b79bc24e87f69437292e56048)]
  [(aliceKey, aliceEscrow.signingMessage, aliceEscrow.signature),
    (trentKey, trentRefund.signingMessage, trentRefund.signature),
    (malloryKey, forgedRefund.signingMessage, forgedRefund.signature)]

def run (block : Block) : List TimedBlock := [(block, fun _ => 1767225660)]

/-- The ledger before the block. -/
def ledger : Ledger := .ofAccounts aliceHas100

theorem accepted_of_decide {block : Block}
    (h : validator.validateBlockWithOptions digests 1767225660 block parent 1 false (some 1) = .ok ()) :
    ∀ b ∈ run block, Accepted digests b.1 := by
  intro b hb
  rw [List.mem_singleton.mp hb]
  exact ⟨_, _, _, _, _, _, h⟩

end Sample

/-- Trent refunds Alice with his own key. -/
theorem escrows_safe_iff_trentBlock : Safe Sample.digests (Sample.run Sample.trentBlock) Sample.ledger := by
  have haccepted := @Sample.accepted_of_decide Sample.trentBlock (by decide +kernel)
  exact (escrows_safe_iff (Sample.run Sample.trentBlock) Sample.ledger haccepted).mpr (by decide +kernel)

/-- Mallory's refund in his name is accepted and applied before the timeout, and Trent signed nothing. -/
theorem forged_refund_applied :
    (∀ b ∈ Sample.run Sample.forgedBlock, Accepted Sample.digests b.1) ∧
    ¬ Safe Sample.digests (Sample.run Sample.forgedBlock) Sample.ledger := by
  have haccepted := @Sample.accepted_of_decide Sample.forgedBlock (by decide +kernel)
  refine ⟨haccepted, fun hsafe => ?_⟩
  have hbound := keyBound_of_safe haccepted hsafe
  revert hbound
  decide +kernel

end Coinjecture.Node.EscrowRuns
