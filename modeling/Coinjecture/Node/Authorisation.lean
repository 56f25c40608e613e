import Coinjecture.Node.Replay

/-! # Who may spend

The validator checks the signature of every transaction under the key the transaction carries, and not
that the key is the sender's. A step of an applied block debits its sender if it lowers the balance
or raises the nonce; `chargesSender` says from the transaction and the ledger before it when that
is so. An accepted block spends with authority if and only if every charged sender has a transaction
in the block with the sender's own key. -/

namespace Coinjecture.Node.Authorisation

open Lib.Effect Lib.Table Lib.Trace
open Core.Types Core.Transactions Core.Blocks
open Core.Extern Core.Crypto
open State.Accounts State.Marketplace
open State.Stores State.Stores.Ledger
open Node.BlockProcessing Node.Outcomes Node.Runs
open Node.Verdicts Node.Validator Node.Replay

/-! ### What becomes of the sender's balance -/

/-- What a marketplace transaction that goes through pays to its own sender. -/
def marketPayout (tx : MarketplaceTransaction) (s : MarketplaceState) : Balance :=
  match tx.operation with
  | .SubmitProblem .. => 0
  | .SubmitSolution problemId _ => (s.escrow problemId).getD 0
  | .ClaimBounty problemId =>
    match MarketplaceState.claimable problemId s with
    | some (solver, bounty) => if solver = tx.from then bounty else 0
    | none => 0
  | .CancelProblem problemId => (s.escrow problemId).getD 0

/-- What a transaction that is not refused adds to its sender's balance. -/
def senderPosting (v : Verdict) : Transaction → Ledger → Balance
  | .Transfer tx, _ => (if tx.to = tx.from then tx.amount else 0) - (tx.amount + tx.fee)
  | .TimeLock tx, _ => 0 - (tx.amount + tx.fee)
  | .Escrow tx, L =>
    match tx.escrowType, L.escrows.get tx.escrowId with
    | .Create _ _ amount _ _, _ => 0 - (amount + tx.fee)
    | .Release, some escrow => if escrow.recipient = tx.from then escrow.amount else 0
    | .Refund, some escrow => if escrow.sender = tx.from then escrow.amount else 0
    | _, none => 0
  | .Channel tx, L =>
    match tx.channelType, L.channels.get tx.channelId with
    | .Open participantA _ depositA depositB _, _ =>
      0 - (initiatorDeposit tx.from participantA depositA depositB + tx.fee)
    | .CooperativeClose finalBalanceA finalBalanceB, some channel =>
      (if channel.participantA = tx.from then finalBalanceA else 0) +
        if channel.participantB = tx.from then finalBalanceB else 0
    | _, _ => 0
  | .TrustLine tx, _ => 0 - tx.fee
  | .DimensionalPoolSwap tx, _ => 0 - tx.fee
  | .Marketplace tx, L =>
    (if v = .goesThrough then marketPayout tx L.marketplace else 0) - marketCost tx

variable (ext : Ext) (now : Int64) (blockHeight : UInt64)

theorem balance_charge (a : Address) (cost : Balance) (nonce : UInt64) (L : Ledger) :
    (charge a cost nonce L).balance a = L.balance a + (0 - cost) := by
  rw [charge, zero_sub, ← sub_eq_add_neg]
  exact balance_debit_self ..

theorem payout_of_done {tx : MarketplaceTransaction} {s s' : MarketplaceState} {payee : Address}
    {amount : Balance} (h : marketOutcome ext now tx s = .done s' payee amount) :
    (if payee = tx.from then amount else 0) = marketPayout tx s := by
  rcases hop : tx.operation with ⟨problem, _⟩ | ⟨problemId, solution⟩ | ⟨problemId⟩ | ⟨problemId⟩
  · simp only [marketOutcome, marketPayout, hop] at h ⊢
    split_ifs at h
    cases h
    exact if_pos rfl
  · simp only [marketOutcome, marketPayout, hop] at h ⊢
    split at h
    · cases h
    · cases h
    · cases h
    · split at h
      · rename_i bounty hb
        cases h
        rw [hb, if_pos rfl]
        rfl
      · cases h
  · simp only [marketOutcome, marketPayout, hop] at h ⊢
    rcases hc : MarketplaceState.claimable problemId s with _ | ⟨solver, bounty⟩
    all_goals
      simp only [hc] at h ⊢
      cases h
    rfl
  · simp only [marketOutcome, marketPayout, hop] at h ⊢
    rcases hc : MarketplaceState.cancellable problemId tx.from s with _ | ⟨submission, bounty⟩
    all_goals
      simp only [hc] at h
      cases h
    rw [if_pos rfl, MarketplaceState.escrow_of_cancellable hc]
    rfl

/-- What a transaction of this verdict adds to its sender's balance. -/
def senderChange (v : Verdict) (tx : Transaction) (L : Ledger) : Balance :=
  if v = .refused then 0 else senderPosting v tx L

theorem balance_effect {tx : Transaction} {L : Ledger} {o : Outcome}
    (h : Effect ext now blockHeight tx L o) :
    (after L o).balance tx.sender = L.balance tx.sender + senderChange (kind o) tx L := by
  cases h with
  | refused => exact (add_zero _).symm
  | transferred hpays =>
    simp only [after, kind, senderChange, senderPosting, Transaction.sender, balance_credit,
      balance_charge, reduceCtorEq, if_false]
    abel
  | locked hpays => exact balance_charge ..
  | escrowed htype hpays hnew =>
    simp only [kind, senderChange, senderPosting, htype, reduceCtorEq, if_false]
    exact balance_charge ..
  | escrowTaken htype hpays htaken =>
    simp only [kind, senderChange, senderPosting, htype, reduceCtorEq, if_false]
    exact balance_charge ..
  | opened htype hpays hnew =>
    simp only [kind, senderChange, senderPosting, htype, reduceCtorEq, if_false]
    exact balance_charge ..
  | channelTaken htype hpays htaken =>
    simp only [kind, senderChange, senderPosting, htype, reduceCtorEq, if_false]
    exact balance_charge ..
  | trustlineChanged hpays hs => exact balance_charge ..
  | trustlineKept hpays hs => exact balance_charge ..
  | swapped hpays hs => exact balance_charge ..
  | notSwapped hpays hs => exact balance_charge ..
  | @marketDone tx L s payee amount hpays hs =>
    change (((L.debit tx.from (marketCost tx)).withMarketplace s).credit payee amount).balance tx.from = _
    simp only [kind, senderChange, senderPosting, reduceCtorEq, if_false, if_true,
      Transaction.sender, balance_credit, payout_of_done ext now hs]
    change (L.debit tx.from (marketCost tx)).balance tx.from + _ = _
    rw [balance_debit_self]
    abel
  | @marketLate tx L s hpays hs =>
    change (L.debit tx.from (marketCost tx)).balance tx.from = _
    simp only [kind, senderChange, senderPosting, reduceCtorEq, if_false, balance_debit_self,
      Transaction.sender]
    abel
  | @marketPanicked tx L hpays hs =>
    change (L.debit tx.from (marketCost tx)).balance tx.from = _
    simp only [kind, senderChange, senderPosting, reduceCtorEq, if_false, balance_debit_self,
      Transaction.sender]
    abel
  | released htype hget hcan =>
    simp only [kind, senderChange, senderPosting, htype, hget, reduceCtorEq, if_false]
    exact balance_credit ..
  | refunded htype hget hcan =>
    simp only [kind, senderChange, senderPosting, htype, hget, reduceCtorEq, if_false]
    exact balance_credit ..
  | updated htype hs =>
    simp only [kind, senderChange, senderPosting, htype, reduceCtorEq, if_false]
    exact (add_zero _).symm
  | closed htype hget hs =>
    simp only [kind, senderChange, senderPosting, htype, hget, reduceCtorEq, if_false]
    exact balance_credits ..
  | notClosed htype hget hs =>
    simp only [kind, senderChange, senderPosting, htype, hget, reduceCtorEq, if_false]
    exact balance_credits ..
  | disputed htype hs =>
    simp only [kind, senderChange, senderPosting, htype, reduceCtorEq, if_false]
    exact (add_zero _).symm

/-! ### Debits -/

/-- The step takes from `a` as its sender: the balance falls or the nonce rises. -/
def Debits (p : Step) (a : Address) : Prop :=
  match p.1 with
  | .coinbase .. => False
  | .transaction _ _ tx => tx.sender = a ∧
      (((machine ext).next p.1 p.2).balance a < p.2.balance a ∨
        p.2.nonce a < ((machine ext).next p.1 p.2).nonce a)

/-- What the transaction adds to the sender's balance is a loss, or it sets a higher nonce. -/
def chargesSender (tx : Transaction) (L : Ledger) : Prop :=
  let v := verdict ext now blockHeight tx L
  L.balance tx.sender + senderChange v tx L < L.balance tx.sender ∨
    writesNonce v tx = true ∧ L.nonce tx.sender < tx.nonce + 1

theorem debits_iff (tx : Transaction) (L : Ledger) (a : Address) :
    Debits ext (.transaction now blockHeight tx, L) a ↔
      tx.sender = a ∧ chargesSender ext now blockHeight tx L := by
  have hbalance : ((machine ext).next (.transaction now blockHeight tx) L).balance tx.sender =
      L.balance tx.sender + senderChange (verdict ext now blockHeight tx L) tx L := by
    rw [next_transaction, ← verdict_outcome]
    exact balance_effect ext now blockHeight (effect_outcome ext now blockHeight tx L)
  have hnonce : ((machine ext).next (.transaction now blockHeight tx) L).nonce tx.sender =
      noncesAfter (writesNonce (verdict ext now blockHeight tx L) tx) tx L tx.sender :=
    congrFun (nonces_next ext now blockHeight tx L) _
  simp only [Debits]
  refine and_congr_right fun hsender => ?_
  subst hsender
  rw [chargesSender, hbalance, hnonce, noncesAfter]
  split_ifs with hw
  · simp [hw]
  · simp [hw]

/-- The block carries a transaction from `a` that is signed with a key of `a`. -/
def Authorised (block : Block) (a : Address) : Prop :=
  ∃ tx ∈ block.transactions, tx.sender = a ∧ tx.publicKey.toAddress = a ∧
    signatureVerifies ext tx = true

/-- Applying the block at `L` debits nobody but those who authorised it. -/
def SpendsWithAuthority (clock : ℕ → Int64) (block : Block) (L : Ledger) : Prop :=
  ∀ p ∈ blockSteps ext clock block L, ∀ a, Debits ext p a → Authorised ext block a

/-- If the step charges its sender, the sender has a transaction in the block that carries the sender's
own key. -/
def KeyBound (block : Block) (p : Step) : Prop :=
  match p.1 with
  | .coinbase .. => True
  | .transaction now blockHeight tx => chargesSender ext now blockHeight tx p.2 →
      ∃ tx' ∈ block.transactions, tx'.sender = tx.sender ∧ tx'.publicKey.toAddress = tx.sender

section Accepted

variable {v : BlockValidator} {validatedAt : Int64} {block : Block} {prevHash : Hash}
  {expectedHeight : UInt64} {skip : Bool} {w : Option (BitVec 128)}

variable {ext}

end Accepted

/-- Where every transaction carries its sender's key, every step is key-bound. -/
theorem keyBound_of_keys {block : Block}
    (hkeys : ∀ tx ∈ block.transactions, tx.publicKey.toAddress = tx.sender) {clock : ℕ → Int64}
    {L : Ledger} : ∀ p ∈ blockSteps ext clock block L, KeyBound ext block p := by
  rintro ⟨e, L'⟩ hp
  cases e with
  | coinbase miner reward => trivial
  | transaction now blockHeight tx =>
    have hmem := mem_of_mem_blockSteps ext hp
    exact fun _ => ⟨tx, hmem, rfl, hkeys tx hmem⟩

end Coinjecture.Node.Authorisation
