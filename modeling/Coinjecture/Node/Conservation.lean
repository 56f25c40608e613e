import Coinjecture.Node.Validator
import Coinjecture.Node.Verdicts

/-! # The total of all stores

`total` adds up, in exact integers, the balances, the locked and the escrowed amounts, what the
channels hold that are not closed, and the bounties. Every operation moves value between these, and
`total_effect` says by how much each of them changes the total; `NoMint` is the condition under which
that is not an increase. A run of blocks whose steps do not mint adds at most its coinbases. -/

namespace Coinjecture.Node.Conservation

open Lib.Effect Lib.Table Lib.Trace
open Core.Types Core.Problem Core.Transactions
open Core.Blocks Core.Extern Core.Crypto
open Core.Privacy
open State.Accounts State.Timelocks State.Escrows
open State.Channels State.Marketplace
open State.Stores State.Stores.Ledger
open Node.BlockProcessing Node.Outcomes Node.Runs
open Node.Verdicts Node.Validator

/-! ### The total -/

/-- What an escrow holds: its amount, while it is active. -/
def escrowHeld (escrow : Escrow) : ℕ := if escrow.status = .Active then escrow.amount.toNat else 0

/-- What a channel holds: its balances, until it is closed. -/
def channelHeld (channel : Channel) : ℕ :=
  match channel.status with
  | .Open | .InDispute => channel.balanceA.toNat + channel.balanceB.toNat
  | .ClosedCooperative | .ClosedDispute => 0

/-- The sum of all balances. -/
def coins (s : AccountState) : ℕ := ∑ a, (s.balances a).toNat

/-- What the stores beside the accounts hold. -/
def held (L : Ledger) : ℕ :=
  L.timelocks.weigh (fun t => t.amount.toNat) + L.escrows.weigh escrowHeld +
    L.channels.weigh channelHeld + weighMap BitVec.toNat L.marketplace.escrow

def total (L : Ledger) : ℕ := coins L.accounts + held L

theorem coins_setBalance (a : Address) (v : Balance) (s : AccountState) :
    coins (s.setBalance a v) + (s.balances a).toNat = coins s + v.toNat := by
  have h : (fun x => ((s.setBalance a v).balances x).toNat) =
      Function.update (fun x => (s.balances x).toNat) a v.toNat := by
    funext x
    by_cases hx : x = a
    · subst hx; simp
    · simp [hx]
  simp only [coins]
  rw [h]
  exact sum_update _ a _

theorem total_setBalance (a : Address) (v : Balance) (L : Ledger) :
    total (L.setBalance a v) + (L.balance a).toNat = total L + v.toNat := by
  have h : coins (L.accounts.setBalance a v) + (L.balance a).toNat = coins L.accounts + v.toNat :=
    coins_setBalance a v L.accounts
  have hheld : held (L.setBalance a v) = held L := rfl
  have haccounts : (L.setBalance a v).accounts = L.accounts.setBalance a v := rfl
  rw [total, total, hheld, haccounts]
  omega

/-- `2 ^ 128` if the sum of two amounts wraps. -/
def carry (x y : Balance) : ℕ := if x.toNat + y.toNat < 2 ^ 128 then 0 else 2 ^ 128

theorem toNat_add_carry (x y : Balance) : (x + y).toNat + carry x y = x.toNat + y.toNat := by
  have hx := x.isLt
  have hy := y.isLt
  rw [BitVec.toNat_add, carry]
  split_ifs with h
  · omega
  · omega

theorem total_credit (a : Address) (v : Balance) (L : Ledger) :
    total (L.credit a v) + carry (L.balance a) v = total L + v.toNat := by
  have h := total_setBalance a (L.balance a + v) L
  have hcarry := toNat_add_carry (L.balance a) v
  rw [credit]
  omega

theorem total_debit {a : Address} {cost : Balance} {L : Ledger} (h : ¬ L.balance a < cost) :
    total (L.debit a cost) + cost.toNat = total L := by
  have hle : cost ≤ L.balance a := BitVec.not_lt.mp h
  have hset := total_setBalance a (L.balance a - cost) L
  have hsub := BitVec.toNat_sub_of_le hle
  have hnat := BitVec.le_def.mp hle
  rw [debit]
  omega

theorem total_charge {a : Address} {cost : Balance} {L : Ledger} (nonce : UInt64)
    (h : ¬ L.balance a < cost) : total (charge a cost nonce L) + cost.toNat = total L :=
  total_debit h

theorem total_insertTimelock (t : TimeLock) (L : Ledger) :
    total (onTimelocks (TimeLockState.addTimelock t) L) +
      (L.timelocks.get t.txHash).elim 0 (fun t => t.amount.toNat) = total L + t.amount.toNat := by
  have h := Keyed.weigh_insert (fun t : TimeLock => t.amount.toNat) t L.timelocks
  change coins L.accounts + ((L.timelocks.insert t).weigh (fun t => t.amount.toNat) +
    L.escrows.weigh escrowHeld + L.channels.weigh channelHeld +
      weighMap BitVec.toNat L.marketplace.escrow) + _ = _
  rw [total, held]
  omega

theorem total_withEscrows (s : EscrowState) (L : Ledger) :
    total (L.withEscrows s) + L.escrows.weigh escrowHeld = total L + s.weigh escrowHeld := by
  change coins L.accounts + (L.timelocks.weigh (fun t => t.amount.toNat) + s.weigh escrowHeld +
    L.channels.weigh channelHeld + weighMap BitVec.toNat L.marketplace.escrow) + _ = _
  rw [total, held]
  omega

theorem total_withChannels (s : ChannelState) (L : Ledger) :
    total (L.withChannels s) + L.channels.weigh channelHeld = total L + s.weigh channelHeld := by
  change coins L.accounts + (L.timelocks.weigh (fun t => t.amount.toNat) +
    L.escrows.weigh escrowHeld + s.weigh channelHeld +
      weighMap BitVec.toNat L.marketplace.escrow) + _ = _
  rw [total, held]
  omega

/-! A record that is new adds what it holds; one written over another adds the difference. -/

theorem total_escrowAdded {e : Escrow} {L : Ledger} (hnew : L.escrows.get e.escrowId = none) :
    total (L.withEscrows (L.escrows.insert e)) = total L + escrowHeld e := by
  have hput := total_withEscrows (L.escrows.insert e) L
  have hweigh := Keyed.weigh_insert escrowHeld e L.escrows
  rw [hnew, Option.elim_none] at hweigh
  omega

theorem total_escrowReplaced {escrowId : Hash} {e e' : Escrow} {L : Ledger}
    (hget : L.escrows.get escrowId = some e) (hid : e'.escrowId = e.escrowId) :
    total (L.withEscrows (L.escrows.insert e')) + escrowHeld e = total L + escrowHeld e' := by
  have hput := total_withEscrows (L.escrows.insert e') L
  have hweigh := Keyed.weigh_insert_of_get (f := escrowHeld) hget hid
  omega

theorem total_channelAdded {c : Channel} {L : Ledger} (hnew : L.channels.get c.channelId = none) :
    total (L.withChannels (L.channels.insert c)) = total L + channelHeld c := by
  have hput := total_withChannels (L.channels.insert c) L
  have hweigh := Keyed.weigh_insert channelHeld c L.channels
  rw [hnew, Option.elim_none] at hweigh
  omega

theorem total_channelReplaced {channelId : Hash} {c c' : Channel} {L : Ledger}
    (hget : L.channels.get channelId = some c) (hid : c'.channelId = c.channelId) :
    total (L.withChannels (L.channels.insert c')) + channelHeld c = total L + channelHeld c' := by
  have hput := total_withChannels (L.channels.insert c') L
  have hweigh := Keyed.weigh_insert_of_get (f := channelHeld) hget hid
  omega

theorem total_withMarketplace (s : MarketplaceState) (L : Ledger) :
    total (L.withMarketplace s) + weighMap BitVec.toNat L.marketplace.escrow =
      total L + weighMap BitVec.toNat s.escrow := by
  change coins L.accounts + (L.timelocks.weigh (fun t => t.amount.toNat) +
    L.escrows.weigh escrowHeld + L.channels.weigh channelHeld +
      weighMap BitVec.toNat s.escrow) + _ = _
  rw [total, held]
  omega

/-! ### What the store operations do to it -/

/-- What a marketplace transaction adds to the bounties in escrow. -/
def bountyAdded (tx : MarketplaceTransaction) : ℕ :=
  match tx.operation with
  | .SubmitProblem _ bounty .. => bounty.toNat
  | .SubmitSolution .. | .ClaimBounty .. | .CancelProblem .. => 0

/-- The bounty that a listing submitted now would overwrite. -/
def bountyOverwritten (ext : Ext) (tx : MarketplaceTransaction) (s : MarketplaceState) : ℕ :=
  match tx.operation with
  | .SubmitProblem problem .. => (s.escrow (ProblemType.hash ext problem)).elim 0 BitVec.toNat
  | .SubmitSolution .. | .ClaimBounty .. | .CancelProblem .. => 0

/-- A removed bounty is what was in escrow. -/
theorem weigh_removeEscrow {problemId : Hash} {s : MarketplaceState} {bounty : Balance}
    (h : s.escrow problemId = some bounty) :
    weighMap BitVec.toNat (s.removeEscrow problemId).escrow + bounty.toNat =
      weighMap BitVec.toNat s.escrow := by
  have hw := weighMap_update BitVec.toNat s.escrow problemId none
  rw [h, Option.elim_some, Option.elim_none, add_zero] at hw
  exact hw

/-- The bounties after an operation, with what it pays out. -/
theorem weigh_of_done {ext : Ext} {now : Int64} {tx : MarketplaceTransaction}
    {s s' : MarketplaceState} {payee : Address} {amount : Balance}
    (h : marketOutcome ext now tx s = .done s' payee amount) :
    weighMap BitVec.toNat s'.escrow + amount.toNat + bountyOverwritten ext tx s =
      weighMap BitVec.toNat s.escrow + bountyAdded tx := by
  rcases hop : tx.operation with ⟨problem, bounty, minWorkScore, expirationDays, title, briefing⟩ |
    ⟨problemId, solution⟩ | ⟨problemId⟩ | ⟨problemId⟩
  · simp only [marketOutcome, bountyAdded, bountyOverwritten, hop] at h ⊢
    split_ifs at h
    cases h
    have hw := weighMap_update BitVec.toNat s.escrow (ProblemType.hash ext problem) (some bounty)
    rw [Option.elim_some] at hw
    have hzero : (0 : Balance).toNat = 0 := rfl
    rw [hzero, add_zero]
    exact hw
  · simp only [marketOutcome, bountyAdded, bountyOverwritten, hop] at h ⊢
    split at h
    · cases h
    · cases h
    · cases h
    · split at h
      · rename_i bounty hb
        cases h
        rw [add_zero, add_zero]
        exact weigh_removeEscrow (s := solvedStore tx.from solution _ s) hb
      · cases h
  · simp only [marketOutcome, bountyAdded, bountyOverwritten, hop] at h ⊢
    rcases hc : MarketplaceState.claimable problemId s with _ | ⟨solver, bounty⟩
    all_goals
      simp only [hc] at h
      cases h
    rw [add_zero, add_zero]
    exact weigh_removeEscrow (MarketplaceState.escrow_of_claimable hc)
  · simp only [marketOutcome, bountyAdded, bountyOverwritten, hop] at h ⊢
    rcases hc : MarketplaceState.cancellable problemId tx.from s with _ | ⟨submission, bounty⟩
    all_goals
      simp only [hc] at h
      cases h
    rw [add_zero, add_zero]
    exact weigh_removeEscrow (MarketplaceState.escrow_of_cancellable hc)

/-- An operation that fails leaves the bounties. -/
theorem escrow_of_late {ext : Ext} {now : Int64} {tx : MarketplaceTransaction}
    {s s' : MarketplaceState} (h : marketOutcome ext now tx s = .late s') : s'.escrow = s.escrow := by
  rcases hop : tx.operation with ⟨problem, _⟩ | ⟨problemId, solution⟩ | ⟨problemId⟩ | ⟨problemId⟩
  · simp only [marketOutcome, hop] at h
    split_ifs at h
    cases h
    rfl
  · simp only [marketOutcome, hop] at h
    split at h
    · cases h
      rfl
    · cases h
      rfl
    · cases h
    · split at h
      · cases h
      · cases h
        rfl
  · simp only [marketOutcome, hop] at h
    split at h
    · cases h
    · cases h
      rfl
  · simp only [marketOutcome, hop] at h
    split at h
    · cases h
    · cases h
      rfl

/-! ### When a transaction does not mint -/

/-- The deposit of the other participant, which nobody pays. -/
def otherDeposit (src participantA : Address) (depositA depositB : Balance) : Balance :=
  if src = participantA then depositB else depositA

/-- What two credits carry out of the 128 bits. -/
def creditsCarry (a b : Address) (x y : Balance) (L : Ledger) : ℕ :=
  carry (L.balance a) x + carry ((L.credit a x).balance b) y

/-- A transaction of this verdict does not add to the total. -/
def NoMint (ext : Ext) (v : Verdict) : Transaction → Ledger → Prop
  | .Transfer tx, L => v = .goesThrough → tx.amount.toNat + tx.fee.toNat < 2 ^ 128 ∨
      2 ^ 128 ≤ ((charge tx.from (tx.amount + tx.fee) tx.nonce L).balance tx.to).toNat +
        tx.amount.toNat
  | .TimeLock tx, L => v = .goesThrough → tx.amount.toNat + tx.fee.toNat < 2 ^ 128 ∨
      2 ^ 128 ≤ tx.fee.toNat + (L.timelocks.get (Transaction.hash ext (.TimeLock tx))).elim 0
        fun t => t.amount.toNat
  | .Escrow tx, _ =>
    match tx.escrowType with
    | .Create _ _ amount _ _ => v = .goesThrough → amount.toNat + tx.fee.toNat < 2 ^ 128
    | .Release | .Refund => True
  | .Channel tx, L =>
    match tx.channelType with
    | .Open participantA _ depositA depositB _ => v = .goesThrough →
        (initiatorDeposit tx.from participantA depositA depositB).toNat + tx.fee.toNat < 2 ^ 128 ∧
          otherDeposit tx.from participantA depositA depositB ≤ tx.fee
    | .Update _ balanceA balanceB => v = .goesThrough →
        ∀ channel, L.channels.get tx.channelId = some channel →
          balanceA.toNat + balanceB.toNat ≤ channel.balanceA.toNat + channel.balanceB.toNat
    | .CooperativeClose finalBalanceA finalBalanceB =>
      ∀ channel, L.channels.get tx.channelId = some channel →
        let carried := creditsCarry channel.participantA channel.participantB finalBalanceA
          finalBalanceB L
        (v = .goesThrough → finalBalanceA.toNat + finalBalanceB.toNat ≤
          channel.balanceA.toNat + channel.balanceB.toNat + carried) ∧
        (v = .late → finalBalanceA.toNat + finalBalanceB.toNat ≤ carried)
    | .UnilateralClose _ balanceA balanceB _ => v = .goesThrough →
        ∀ channel, L.channels.get tx.channelId = some channel →
          balanceA.toNat + balanceB.toNat ≤ channel.balanceA.toNat + channel.balanceB.toNat
  | .TrustLine _, _ => True
  | .DimensionalPoolSwap _, _ => True
  | .Marketplace tx, L => v = .goesThrough → tx.fee.toNat + bountyAdded tx < 2 ^ 128 ∨
      2 ^ 128 ≤ tx.fee.toNat + bountyOverwritten ext tx L.marketplace

variable {ext : Ext} {now : Int64} {blockHeight : UInt64}

theorem noMint_refused (tx : Transaction) (L : Ledger) : NoMint ext .refused tx L := by
  cases tx with
  | Escrow tx =>
    rcases htype : tx.escrowType with ⟨recipient, arbiter, amount, timeout, conditionsHash⟩ | _ | _
    all_goals simp [NoMint, htype]
  | Channel tx =>
    rcases htype : tx.channelType with ⟨participantA, participantB, depositA, depositB, timeout⟩ |
      ⟨sequence, balanceA, balanceB⟩ | ⟨finalBalanceA, finalBalanceB⟩ |
      ⟨sequence, balanceA, balanceB, disputeProof⟩
    all_goals simp [NoMint, htype]
  | _ => simp [NoMint]

/-- Two credits, with what they carry out. -/
theorem total_credits (a b : Address) (x y : Balance) (L : Ledger) :
    total ((L.credit a x).credit b y) + creditsCarry a b x y L =
      total L + (x.toNat + y.toNat) := by
  have hx := total_credit a x L
  have hy := total_credit b y (L.credit a x)
  rw [creditsCarry]
  omega

theorem held_of_active {escrow : Escrow} {s : EscrowState} {escrowId : Hash}
    (h : ∃ e, s.get escrowId = some e ∧ e.status = .Active) (hget : s.get escrowId = some escrow) :
    escrowHeld escrow = escrow.amount.toNat := by
  obtain ⟨e, he, hactive⟩ := h
  rw [hget] at he
  cases he
  exact if_pos hactive

theorem held_of_open {channel : Channel} (h : channel.status = .Open) :
    channelHeld channel = channel.balanceA.toNat + channel.balanceB.toNat := by
  rw [channelHeld, h]

theorem deposits_add (src participantA : Address) (depositA depositB : Balance) :
    (initiatorDeposit src participantA depositA depositB).toNat +
      (otherDeposit src participantA depositA depositB).toNat = depositA.toNat + depositB.toNat := by
  unfold initiatorDeposit otherDeposit
  split_ifs
  · rfl
  · exact Nat.add_comm ..

theorem carry_zero (x : Balance) : carry x 0 = 0 := if_pos x.isLt

theorem toNat_marketCost (tx : MarketplaceTransaction) :
    (marketCost tx).toNat + (if tx.fee.toNat + bountyAdded tx < 2 ^ 128 then 0 else 2 ^ 128) =
      tx.fee.toNat + bountyAdded tx := by
  unfold marketCost bountyAdded
  rcases tx.operation with ⟨problem, bounty, _⟩ | _ | _ | _
  · exact toNat_add_carry tx.fee bounty
  all_goals
    rw [add_zero, if_pos tx.fee.isLt, add_zero]

/-- Only a submission adds a bounty, and it pays nothing out. -/
theorem added_or_paid {s s' : MarketplaceState} {tx : MarketplaceTransaction} {payee : Address}
    {amount : Balance} (h : marketOutcome ext now tx s = .done s' payee amount) :
    bountyAdded tx = 0 ∨ amount = 0 := by
  rcases hop : tx.operation with ⟨problem, bounty, _⟩ | _ | _ | _
  · simp only [marketOutcome, hop] at h
    split_ifs at h
    cases h
    exact Or.inr rfl
  all_goals exact Or.inl (by rw [bountyAdded, hop])

/-- However a transaction ends, it does not add to the total if and only if it does not mint. -/
theorem total_effect {tx : Transaction} {L : Ledger} {o : Outcome}
    (h : Effect ext now blockHeight tx L o) :
    total (after L o) ≤ total L ↔ NoMint ext (kind o) tx L := by
  cases h with
  | @refused tx L => simp [after, kind, noMint_refused]
  | @transferred tx L hpays =>
    have hcharge := total_charge tx.nonce hpays
    have hcredit := total_credit tx.to tx.amount (charge tx.from (tx.amount + tx.fee) tx.nonce L)
    have hcarry := toNat_add_carry tx.amount tx.fee
    have hfee := tx.fee.isLt
    simp only [after, kind, NoMint, true_implies]
    unfold carry at hcredit hcarry
    split_ifs at hcredit hcarry
    all_goals omega
  | @locked tx L hpays =>
    have hcharge := total_charge tx.nonce hpays
    have hinsert := total_insertTimelock (timelockOf ext blockHeight tx)
      (charge tx.from (tx.amount + tx.fee) tx.nonce L)
    have hcarry := toNat_add_carry tx.amount tx.fee
    have hfee := tx.fee.isLt
    change _ + (L.timelocks.get (Transaction.hash ext (.TimeLock tx))).elim 0
      (fun t => t.amount.toNat) = _ + tx.amount.toNat at hinsert
    simp only [after, kind, NoMint, true_implies]
    unfold carry at hcarry
    split_ifs at hcarry
    all_goals omega
  | @escrowed tx L recipient arbiter amount timeout conditionsHash htype hpays hnew =>
    have hcharge := total_charge tx.nonce hpays
    have hadd : total ((charge tx.from (amount + tx.fee) tx.nonce L).withEscrows (L.escrows.insert
      (escrowOf blockHeight tx recipient arbiter amount timeout conditionsHash))) =
        _ + amount.toNat := total_escrowAdded hnew
    have hcarry := toNat_add_carry amount tx.fee
    have hfee := tx.fee.isLt
    simp only [after, kind, NoMint, htype, true_implies]
    unfold carry at hcarry
    split_ifs at hcarry
    all_goals omega
  | @escrowTaken tx L recipient arbiter amount timeout conditionsHash htype hpays htaken =>
    have hcharge := total_charge tx.nonce hpays
    simp only [after, kind, NoMint, htype, reduceCtorEq, false_implies, iff_true]
    omega
  | @released tx L escrow htype hget hcan =>
    have hcredit := total_credit escrow.recipient escrow.amount L
    have hreplace : total ((L.credit escrow.recipient escrow.amount).withEscrows (L.escrows.insert
      { escrow with status := .Released, resolvedAtHeight := some blockHeight })) +
        escrowHeld escrow = _ + 0 := total_escrowReplaced hget rfl
    rw [held_of_active (EscrowState.active_of_canRelease hcan) hget] at hreplace
    simp only [after, NoMint, htype, iff_true]
    omega
  | @refunded tx L escrow htype hget hcan =>
    have hcredit := total_credit escrow.sender escrow.amount L
    have hreplace : total ((L.credit escrow.sender escrow.amount).withEscrows (L.escrows.insert
      { escrow with status := .Refunded, resolvedAtHeight := some blockHeight })) +
        escrowHeld escrow = _ + 0 := total_escrowReplaced hget rfl
    rw [held_of_active (EscrowState.active_of_canRefund hcan) hget] at hreplace
    simp only [after, NoMint, htype, iff_true]
    omega
  | @opened tx L participantA participantB depositA depositB timeout htype hpays hnew =>
    have hcharge := total_charge tx.nonce hpays
    have hadd : total ((charge tx.from
      (initiatorDeposit tx.from participantA depositA depositB + tx.fee) tx.nonce L).withChannels
        (L.channels.insert (channelOf blockHeight tx participantA participantB depositA depositB
          timeout))) = _ + (depositA.toNat + depositB.toNat) := total_channelAdded hnew
    have hdeposits := deposits_add tx.from participantA depositA depositB
    have hcarry := toNat_add_carry (initiatorDeposit tx.from participantA depositA depositB) tx.fee
    have hfee := tx.fee.isLt
    simp only [after, kind, NoMint, htype, true_implies, BitVec.le_def]
    unfold carry at hcarry
    split_ifs at hcarry
    all_goals omega
  | @channelTaken tx L participantA participantB depositA depositB timeout htype hpays htaken =>
    have hcharge := total_charge tx.nonce hpays
    simp only [after, kind, NoMint, htype, reduceCtorEq, false_implies, iff_true]
    omega
  | @updated tx L sequence balanceA balanceB s htype hs =>
    obtain ⟨channel, hget, hopen, -, rfl⟩ := of_updated hs
    have hheld : channelHeld { channel with
      sequence := sequence, balanceA := balanceA, balanceB := balanceB } =
        balanceA.toNat + balanceB.toNat := held_of_open hopen
    have hreplace : total (L.withChannels (L.channels.insert { channel with
      sequence := sequence, balanceA := balanceA, balanceB := balanceB })) +
        channelHeld channel = _ := total_channelReplaced hget rfl
    rw [hheld, held_of_open hopen] at hreplace
    simp only [after, kind, NoMint, htype, true_implies, hget, Option.some.injEq, forall_eq']
    omega
  | @disputed tx L sequence balanceA balanceB disputeProof s htype hs =>
    obtain ⟨channel, hget, hopen, rfl⟩ := of_disputed hs
    have hreplace : total (L.withChannels (L.channels.insert { channel with
      status := .InDispute
      sequence := sequence
      balanceA := balanceA
      balanceB := balanceB
      disputeStartedAt := some now })) + channelHeld channel =
        _ + (balanceA.toNat + balanceB.toNat) := total_channelReplaced hget rfl
    rw [held_of_open hopen] at hreplace
    simp only [after, kind, NoMint, htype, true_implies, hget, Option.some.injEq, forall_eq']
    omega
  | @closed tx L finalBalanceA finalBalanceB channel s htype hget hs =>
    obtain ⟨hopen, rfl⟩ := of_closed hs
    have hcredits := total_credits channel.participantA channel.participantB finalBalanceA
      finalBalanceB L
    have hreplace : total (((L.credit channel.participantA finalBalanceA).credit
      channel.participantB finalBalanceB).withChannels (L.channels.insert { channel with
        status := .ClosedCooperative
        balanceA := finalBalanceA
        balanceB := finalBalanceB
        closedAtHeight := some blockHeight })) + channelHeld channel = _ + 0 :=
          total_channelReplaced hget rfl
    rw [held_of_open hopen] at hreplace
    simp only [after, kind, NoMint, htype, true_implies, hget, Option.some.injEq, forall_eq',
      reduceCtorEq, false_implies, and_true]
    omega
  | @notClosed tx L finalBalanceA finalBalanceB channel htype hget hs =>
    have hcredits := total_credits channel.participantA channel.participantB finalBalanceA
      finalBalanceB L
    simp only [after, kind, NoMint, htype, true_implies, hget, Option.some.injEq, forall_eq',
      reduceCtorEq, false_implies, true_and]
    omega
  | @trustlineChanged tx L s hpays hs =>
    have hcharge := total_charge tx.nonce hpays
    simp only [NoMint, iff_true]
    change total (charge tx.from tx.fee tx.nonce L) ≤ total L
    omega
  | @trustlineKept tx L hpays hs =>
    have hcharge := total_charge tx.nonce hpays
    simp only [after, NoMint, iff_true]
    omega
  | @swapped tx L s hpays hs =>
    have hcharge := total_charge tx.nonce hpays
    simp only [NoMint, iff_true]
    change total (charge tx.from tx.fee tx.nonce L) ≤ total L
    omega
  | @notSwapped tx L hpays hs =>
    have hcharge := total_charge tx.nonce hpays
    simp only [after, NoMint, iff_true]
    omega
  | @marketDone tx L s payee amount hpays hs =>
    have hdebit := total_debit hpays
    have hput : _ + weighMap BitVec.toNat L.marketplace.escrow = _ :=
      total_withMarketplace s (L.debit tx.from (marketCost tx))
    have hcredit := total_credit payee amount ((L.debit tx.from (marketCost tx)).withMarketplace s)
    have hweigh := weigh_of_done hs
    have hfee := tx.fee.isLt
    have hcost := toNat_marketCost tx
    simp only [kind, NoMint, true_implies]
    change total (((L.debit tx.from (marketCost tx)).withMarketplace s).credit payee amount) ≤
      total L ↔ _
    rcases added_or_paid hs with hadded | hpaid
    · split_ifs at hcost
      all_goals omega
    · -- a submission pays nothing out, so nothing is carried
      rw [hpaid, carry_zero] at hcredit
      rw [hpaid] at hweigh ⊢
      have hzero : (0 : Balance).toNat = 0 := rfl
      split_ifs at hcost
      all_goals omega
  | @marketLate tx L s hpays hs =>
    have hdebit := total_debit hpays
    have hput : _ + weighMap BitVec.toNat L.marketplace.escrow = _ :=
      total_withMarketplace s (L.debit tx.from (marketCost tx))
    rw [escrow_of_late hs] at hput
    simp only [after, kind, NoMint, reduceCtorEq, false_implies, iff_true]
    omega
  | @marketPanicked tx L hpays hs =>
    have hdebit := total_debit hpays
    simp only [after, kind, NoMint, reduceCtorEq, false_implies, iff_true]
    omega

/-! ### Steps and runs -/

/-- The step does not mint: however a transaction ends, it adds nothing to the total. -/
def StepNoMint (ext : Ext) (p : Step) : Prop :=
  match p.1 with
  | .coinbase .. => True
  | .transaction now blockHeight tx => NoMint ext (verdict ext now blockHeight tx p.2) tx p.2

/-- A transaction that goes through does not add to the total if and only if it does not mint. -/
theorem total_done_iff (tx : Transaction) (L : Ledger) :
    (∀ L', run (applySingleTransaction ext now blockHeight tx) L = (.ok (), L') →
      total L' ≤ total L) ↔
    (verdict ext now blockHeight tx L = .goesThrough → NoMint ext .goesThrough tx L) := by
  have hrun := run_applySingleTransaction ext now blockHeight tx L
  have heffect := total_effect (effect_outcome ext now blockHeight tx L)
  rw [← verdict_outcome]
  cases ho : outcome ext now blockHeight tx L with
  | refused =>
    rw [ho] at hrun
    obtain ⟨m, hm⟩ := hrun
    simp [hm, kind]
  | late L' =>
    rw [ho] at hrun
    obtain ⟨m, hm⟩ := hrun
    simp [hm, kind]
  | panicked L' =>
    rw [ho] at hrun
    have hpanic : run (applySingleTransaction ext now blockHeight tx) L = (.error .panic, L') := hrun
    simp [hpanic, kind]
  | done L' =>
    rw [ho] at hrun heffect
    have hdone : run (applySingleTransaction ext now blockHeight tx) L = (.ok (), L') := hrun
    simp only [kind, after] at heffect
    rw [hdone, kind, ← heffect]
    constructor
    · intro h _
      exact h L' rfl
    · intro h L'' heq
      obtain ⟨-, rfl⟩ := Prod.mk.inj heq
      exact h rfl

/-- What an event may add. -/
def minted : Event → ℕ
  | .coinbase _ reward => reward.toNat
  | .transaction .. => 0

theorem total_step {p : Step} (h : StepNoMint ext p) :
    total ((machine ext).next p.1 p.2) ≤ total p.2 + minted p.1 := by
  obtain ⟨e, L⟩ := p
  cases e with
  | coinbase miner reward =>
    have hcredit := total_credit miner reward L
    change total (L.credit miner reward) ≤ total L + reward.toNat
    omega
  | transaction now blockHeight tx =>
    have heffect := total_effect (effect_outcome ext now blockHeight tx L)
    rw [verdict_outcome] at heffect
    have hzero : minted (.transaction now blockHeight tx) = 0 := rfl
    rw [next_transaction, hzero, add_zero]
    exact heffect.mpr h

theorem minted_transactionEvents (clock : ℕ → Int64) (blockHeight : UInt64) (i : ℕ)
    (txs : List Transaction) :
    ((transactionEvents clock blockHeight i txs).map minted).sum = 0 := by
  induction txs generalizing i with
  | nil => rfl
  | cons tx txs ih =>
    rw [transactionEvents, List.map_cons, List.sum_cons, ih]
    rfl

/-- The events of a chain mint the rewards of its coinbases. -/
theorem minted_chainEvents (blocks : List TimedBlock) :
    ((chainEvents blocks).map minted).sum =
      (blocks.map fun b => b.1.coinbase.reward.toNat).sum := by
  induction blocks with
  | nil => rfl
  | cons b blocks ih =>
    have htxs := minted_transactionEvents b.2 b.1.header.height 0 b.1.transactions
    rw [chainEvents, List.flatMap_cons, List.map_append, List.sum_append, List.map_cons,
      List.sum_cons, blockEvents, List.map_cons, List.sum_cons, htxs]
    rw [chainEvents] at ih
    rw [ih]
    rfl

/-- A run whose steps do not mint adds at most the rewards of its coinbases. -/
theorem total_applyBlocks_le {blocks : List TimedBlock} {L : Ledger}
    (h : ∀ p ∈ steps ext blocks L, StepNoMint ext p) :
    total (run (applyBlocks ext blocks) L).2 ≤
      total L + (blocks.map fun b => b.1.coinbase.reward.toNat).sum := by
  have hrun : total ((machine ext).final (chainEvents blocks) L) ≤
      total L + ((chainEvents blocks).map minted).sum :=
    Machine.measure_final_le total minted fun p hp => total_step (h p hp)
  rw [minted_chainEvents] at hrun
  have hfinal : (run (applyBlocks ext blocks) L).2 = (machine ext).final (chainEvents blocks) L := by
    rw [run_applyBlocks]
  rw [hfinal]
  exact hrun

/-- A transaction that goes through does not inflate if and only if it does not mint; and a run of
blocks none of whose steps mints adds at most the coinbase rewards. -/
theorem no_inflation_iff (ext : Ext) :
    (∀ now blockHeight tx L,
      (∀ L', run (applySingleTransaction ext now blockHeight tx) L = (.ok (), L') →
        total L' ≤ total L) ↔
      (verdict ext now blockHeight tx L = .goesThrough → NoMint ext .goesThrough tx L)) ∧
    ∀ blocks L, (∀ p ∈ steps ext blocks L, StepNoMint ext p) →
      total (run (applyBlocks ext blocks) L).2 ≤
        total L + (blocks.map fun b => b.1.coinbase.reward.toNat).sum :=
  ⟨fun _ _ tx L => total_done_iff tx L, fun _ _ h => total_applyBlocks_le h⟩

/-- The block with Alice's transfer adds at most its reward. -/
theorem no_inflation_aliceBlock :
    total (run (applyBlocks Sample.ext [(Sample.aliceBlock, fun _ => 0)])
      (.ofAccounts Sample.aliceHas100)).2 ≤
    total (.ofAccounts Sample.aliceHas100) +
      (([(Sample.aliceBlock, fun _ => 0)] : List TimedBlock).map fun b =>
        b.1.coinbase.reward.toNat).sum := by
  refine (no_inflation_iff Sample.ext).2 [(Sample.aliceBlock, fun _ => 0)]
    (.ofAccounts Sample.aliceHas100) ?_
  rintro ⟨e, L⟩ hp
  have hmem : e ∈ [Event.coinbase Sample.carol 50000000000000,
    .transaction 0 1 (.Transfer Sample.aliceTransfer)] := Machine.mem_of_mem_trace hp
  rcases List.mem_cons.mp hmem with rfl | hmem
  · trivial
  · rw [List.mem_singleton.mp hmem]
    exact fun _ => Or.inl (by decide)

/-- Alice opens a channel with 1 of her own and 50 of Bob's, who pays nothing. -/
def unpaidDeposit : ChannelTransaction where
  channelType := .Open Sample.aliceKey.toAddress Sample.bob 1 50 0
  channelId := Sample.parent
  «from» := Sample.aliceKey.toAddress
  fee := 0
  nonce := 0
  publicKey := Sample.aliceKey
  signature := ⟨0⟩
  additionalSignatures := []

/-- It goes through wherever she can pay the 1 and the channel is new, and the 50 are minted. -/
theorem open_mints {L : Ledger} (hpays : ¬ L.balance Sample.aliceKey.toAddress < (1 : Balance))
    (hnew : L.channels.get Sample.parent = none) :
    ∃ L', run (applySingleTransaction ext now blockHeight (.Channel unpaidDeposit)) L =
      (.ok (), L') ∧ total L' = total L + 50 := by
  have hdeposit : initiatorDeposit Sample.aliceKey.toAddress Sample.aliceKey.toAddress 1 50 + 0 =
      (1 : Balance) := by decide
  have hrun := run_applySingleTransaction ext now blockHeight (.Channel unpaidDeposit) L
  have ho : outcome ext now blockHeight (.Channel unpaidDeposit) L =
      .done ((charge Sample.aliceKey.toAddress 1 0 L).withChannels (L.channels.insert
        (channelOf blockHeight unpaidDeposit Sample.aliceKey.toAddress Sample.bob 1 50 0))) := by
    simp only [outcome, unpaidDeposit, hdeposit]
    rw [if_neg hpays, if_pos hnew]
  rw [ho] at hrun
  refine ⟨_, hrun, ?_⟩
  have hcharge := total_charge 0 hpays
  have hadd : total ((charge Sample.aliceKey.toAddress 1 0 L).withChannels (L.channels.insert
      (channelOf blockHeight unpaidDeposit Sample.aliceKey.toAddress Sample.bob 1 50 0))) =
      total (charge Sample.aliceKey.toAddress 1 0 L) + (1 + 50) := total_channelAdded hnew
  have hone : (1 : Balance).toNat = 1 := rfl
  omega

/-- So a transaction that goes through can add to the total. -/
theorem inflation_by_open :
    ¬ ∀ now blockHeight tx L L',
      run (applySingleTransaction Sample.ext now blockHeight tx) L = (.ok (), L') →
        total L' ≤ total L := by
  intro h
  have hpays : ¬ (Ledger.ofAccounts Sample.aliceHas100).balance Sample.aliceKey.toAddress <
      (1 : Balance) := by decide
  obtain ⟨L', hrun, htotal⟩ := open_mints hpays rfl
  have hle := h 0 1 (.Channel unpaidDeposit) (.ofAccounts Sample.aliceHas100) L' hrun
  rw [htotal] at hle
  generalize total (.ofAccounts Sample.aliceHas100) = t at hle
  omega

end Coinjecture.Node.Conservation
