import Coinjecture.Node.Unwinding
import Coinjecture.Node.Validator
import Coinjecture.Node.Verdicts

/-! # Unwinding a block that was applied

An unwind is given the block only: it does not know which transactions were skipped, and of the
stores beside the accounts it writes two. `Reversible` says for every kind of transaction and every
way it can end what the ledger must have been for the unwind of the transaction to restore it; a
block all of whose steps are reversible is restored, by induction from its last transaction. -/

namespace Coinjecture.Node.UnwindApply

open Lib.Effect Lib.Table Lib.Trace Lib.Saturating
open Core.Types Core.Problem Core.Transactions
open Core.Blocks Core.Extern Core.Crypto
open Core.Privacy
open State.Accounts State.Timelocks State.Escrows
open State.Channels State.TrustLines State.DimensionalPools
open State.Marketplace
open State.Stores State.Stores.Ledger
open Node.BlockProcessing Node.Outcomes Node.Runs
open Node.Verdicts Node.Validator Node.Unwinding

variable (ext : Ext) (now : Int64) (blockHeight : UInt64)

/-! ### The condition -/

/-- The trustline operation stores the record it read. -/
def trustlineIdle (tx : TrustLineTransaction) (s : TrustLineState) : Prop :=
  match tx.trustlineType with
  | .Create .. => False
  | .UpdateLimits limitAToB limitBToA => ∀ trustline, s.get tx.trustlineId = some trustline →
      (TrustLineState.withLimits trustline limitAToB limitBToA blockHeight).updateVivianiOracle ext =
        trustline
  | .Freeze => ∀ trustline, s.get tx.trustlineId = some trustline →
      trustline.status = .Frozen ∧ trustline.modifiedAtHeight = blockHeight
  | .Close => ∀ trustline, s.get tx.trustlineId = some trustline →
      trustline.status = .Closed ∧ trustline.modifiedAtHeight = blockHeight
  | .EvolvePhase deltaTau => ∀ trustline, s.get tx.trustlineId = some trustline →
      { trustline.evolvePhase ext deltaTau with modifiedAtHeight := blockHeight } = trustline

/-- The record of a swap. -/
def swapRecordOf (tx : PoolSwapTransaction) (amountOut : Balance) : PoolSwapRecord where
  txHash := Transaction.hash ext (.DimensionalPoolSwap tx)
  «from» := tx.from
  poolFrom := tx.poolFrom
  poolTo := tx.poolTo
  amountIn := tx.amountIn
  amountOut := amountOut
  swapRatio := (Lib.Float64.F64.ofNat amountOut.toNat).div (Lib.Float64.F64.ofNat tx.amountIn.toNat)
  blockHeight := blockHeight

/-- The swap is on record and moves nothing, and its pools were written at this height. -/
def swapIdle (tx : PoolSwapTransaction) (s : DimensionalPoolState) : Prop :=
  ∀ src dst, s.pools.get tx.poolFrom = some src → s.pools.get tx.poolTo = some dst →
    let out := DimensionalPoolState.amountOut src dst tx.amountIn
    s.swaps.get (Transaction.hash ext (.DimensionalPoolSwap tx)) =
      some (swapRecordOf ext blockHeight tx out) ∧
    (out = 0 ∧ dst.lastUpdateHeight = blockHeight) ∧
    (tx.poolFrom ≠ tx.poolTo → tx.amountIn = 0 ∧ src.lastUpdateHeight = blockHeight)

/-- The resolution of an escrow that pays `payee` is restored: after it was made, if taking the amount
back finds it and the escrow was unresolved; after it was refused, if taking it back finds nothing. -/
def resolutionRestored (v : Verdict) (escrow : Escrow) (payee : Address) (L : Ledger) : Prop :=
  escrow.resolvedAtHeight = none ∧
    match v with
    | .goesThrough => NoCarry (L.balance payee) escrow.amount
    | .refused | .late | .panics =>
      escrow.status = .Active ∧ (escrow.amount = 0 ∨ L.balance payee = 0)

/-- Two credits that were made are taken back, in the order they were made in. -/
def creditsRestored (a b : Address) (x y : Balance) (L : Ledger) : Prop :=
  if a = b then L.balance a = 0 ∨ (L.balance a).toNat + x.toNat + y.toNat < 2 ^ 128
  else NoCarry (L.balance a) x ∧ NoCarry (L.balance b) y

/-- The unwind restores the ledger `L` after a transaction of this verdict. -/
def Reversible (v : Verdict) : Transaction → Ledger → Prop
  | .Transfer tx, L =>
    match v with
    | .goesThrough => NonceFollows tx.from tx.nonce L ∧ NoCarry (L.balance tx.to) tx.amount
    | .refused | .late | .panics => tx.from = tx.to ∧ L.nonce tx.from = 0 ∧
        satSub (L.balance tx.to + (tx.amount + tx.fee)) tx.amount = L.balance tx.to
  | .TimeLock tx, L =>
    match v with
    | .goesThrough => NonceFollows tx.from tx.nonce L ∧
        L.timelocks.get (Transaction.hash ext (.TimeLock tx)) = none
    | .refused | .late | .panics => False
  | .Escrow tx, L =>
    match tx.escrowType with
    | .Create _ _ amount _ _ =>
      match v with
      | .goesThrough => False
      | .late => NonceFollows tx.from tx.nonce L ∧
          ∀ escrow, L.escrows.get tx.escrowId = some escrow → escrow.amount = amount
      | .refused | .panics => ∀ escrow, L.escrows.get tx.escrowId = some escrow →
          escrow.amount + tx.fee = 0 ∧ L.nonce tx.from = 0
    | .Release => ∀ escrow, L.escrows.get tx.escrowId = some escrow →
        resolutionRestored v escrow escrow.recipient L
    | .Refund => ∀ escrow, L.escrows.get tx.escrowId = some escrow →
        resolutionRestored v escrow escrow.sender L
  | .Channel tx, L =>
    match tx.channelType with
    | .Open .. => v = .late ∧ NonceFollows tx.from tx.nonce L
    | .Update .. | .UnilateralClose .. => v ≠ .goesThrough
    | .CooperativeClose finalBalanceA finalBalanceB => v ≠ .goesThrough ∧
        ∀ channel, L.channels.get tx.channelId = some channel →
          creditsRestored channel.participantA channel.participantB finalBalanceA finalBalanceB L
  | .TrustLine tx, L => v ≠ .refused ∧ NonceFollows tx.from tx.nonce L ∧
      (v = .goesThrough → trustlineIdle ext blockHeight tx L.trustlines)
  | .DimensionalPoolSwap tx, L => v ≠ .refused ∧ NonceFollows tx.from tx.nonce L ∧
      (v = .goesThrough → swapIdle ext blockHeight tx L.pools)
  | .Marketplace tx, L => (v = .late ∨ v = .panics) ∧ L.nonce tx.from = 0 ∧
      marketKeeps now tx L.marketplace

/-! ### What the branches come to -/

theorem unwindTransfer_eq (tx : TransferTransaction) (L : Ledger) :
    unwindTransfer tx L = takeBack tx.to tx.amount (refund tx.from (tx.amount + tx.fee) L) := by
  rw [unwindTransfer, refund, credit, add_assoc]

theorem unwindTimeLock_eq (tx : TimeLockTransaction) (L : Ledger) :
    unwindTimeLock ext tx L =
      onTimelocks (TimeLockState.removeTimelock (Transaction.hash ext (.TimeLock tx)))
        (refund tx.from (tx.amount + tx.fee) L) := by
  rw [unwindTimeLock, refund, credit, add_assoc]

theorem unwindMarketplace_eq (tx : MarketplaceTransaction) (L : Ledger) :
    unwindMarketplace tx L = refund tx.from (marketCost tx) L := by
  unfold unwindMarketplace marketCost
  rcases tx.operation with ⟨problem, bounty, _⟩ | _ | _ | _
  · -- the second write of the balance is the one that stays
    simp only
    rw [refund_eq, ← add_assoc, unwindFee, unwindNonce_eq]
    change ((L.setBalance tx.from _).setBalance tx.from _).setNonce tx.from _ = _
    rw [setBalance_setBalance]
    rfl
  all_goals rfl

variable {ext now blockHeight}

/-- A cost that the balance does not cover is not zero. -/
theorem cost_ne_zero {cost balance : Balance} {v : Verdict} (hv : v ≠ .refused)
    (h : Verdict.guarded (cost ≤ balance) v = .refused) : cost ≠ 0 := by
  rintro rfl
  have hle : decide ((0 : Balance) ≤ balance) = true := decide_eq_true (Nat.zero_le _)
  rw [hle] at h
  exact hv h

/-- A transfer that was skipped is restored only if it goes from an account to itself. -/
theorem unwind_skipped_transfer {tx : TransferTransaction} {L : Ledger}
    (hcost : tx.amount + tx.fee ≠ 0) :
    unwindTransfer tx L = L ↔ tx.from = tx.to ∧ L.nonce tx.from = 0 ∧
      satSub (L.balance tx.to + (tx.amount + tx.fee)) tx.amount = L.balance tx.to := by
  rw [unwindTransfer_eq]
  by_cases hself : tx.from = tx.to
  · rw [hself, takeBack_refund, setBalance_setNonce_eq_self, nonceBack_eq_self]
    simp only [true_and]
    exact and_comm
  · simp only [hself, false_and, iff_false]
    intro h
    have hbalance := congrArg (balance tx.from) h
    rw [takeBack_eq] at hbalance
    have hsender : balance tx.from ((refund tx.from (tx.amount + tx.fee) L).setBalance tx.to
        (satSub ((refund tx.from (tx.amount + tx.fee) L).balance tx.to) tx.amount)) =
        (refund tx.from (tx.amount + tx.fee) L).balance tx.from := Function.update_of_ne hself ..
    have hrefund : (refund tx.from (tx.amount + tx.fee) L).balance tx.from =
        L.balance tx.from + (tx.amount + tx.fee) := by
      rw [refund_eq]
      exact Function.update_self ..
    rw [hsender, hrefund, add_eq_left] at hbalance
    exact hcost hbalance

/-- A transfer that went through is restored if its nonce followed and its credit did not wrap. -/
theorem unwind_transferred (tx : TransferTransaction) (L : Ledger) :
    unwindTransfer tx ((charge tx.from (tx.amount + tx.fee) tx.nonce L).credit tx.to tx.amount) = L ↔
      NonceFollows tx.from tx.nonce L ∧ NoCarry (L.balance tx.to) tx.amount := by
  rw [unwindTransfer_eq, refund_credit, refund_charge, takeBack_credit]
  have hshape : (L.setNonce tx.from (nonceBack (tx.nonce + 1))).setBalance tx.to
      (satSub ((L.setNonce tx.from (nonceBack (tx.nonce + 1))).balance tx.to + tx.amount) tx.amount) =
      (L.setBalance tx.to (satSub (L.balance tx.to + tx.amount) tx.amount)).setNonce tx.from
        (nonceBack (tx.nonce + 1)) := rfl
  rw [hshape, setBalance_setNonce_eq_self, satSub_add_iff, nonceBack_succ_iff]
  exact and_comm

/-- A time lock that went through is restored if its nonce followed and its hash was new. -/
theorem unwind_locked (tx : TimeLockTransaction) (L : Ledger) :
    unwindTimeLock ext tx (onTimelocks (TimeLockState.addTimelock (timelockOf ext blockHeight tx))
      (charge tx.from (tx.amount + tx.fee) tx.nonce L)) = L ↔
      NonceFollows tx.from tx.nonce L ∧
        L.timelocks.get (Transaction.hash ext (.TimeLock tx)) = none := by
  have hshape : unwindTimeLock ext tx (onTimelocks (TimeLockState.addTimelock
      (timelockOf ext blockHeight tx)) (charge tx.from (tx.amount + tx.fee) tx.nonce L)) =
      onTimelocks (fun s => (s.insert (timelockOf ext blockHeight tx)).erase
        (Transaction.hash ext (.TimeLock tx))) (L.setNonce tx.from (nonceBack (tx.nonce + 1))) := by
    rw [unwindTimeLock_eq, ← refund_charge tx.from (tx.amount + tx.fee), refund_eq, refund_eq]
    rfl
  have herase : (L.timelocks.insert (timelockOf ext blockHeight tx)).erase
      (Transaction.hash ext (.TimeLock tx)) =
      L.timelocks.erase (Transaction.hash ext (.TimeLock tx)) := Keyed.erase_insert _ rfl
  rw [hshape, ← nonceBack_succ_iff, ← setNonce_eq_self, ← Keyed.erase_eq_self]
  constructor
  · intro h
    have haccounts := congrArg Ledger.accounts h
    have htimelocks : (L.timelocks.insert (timelockOf ext blockHeight tx)).erase
      (Transaction.hash ext (.TimeLock tx)) = L.timelocks := congrArg Ledger.timelocks h
    rw [herase] at htimelocks
    refine ⟨?_, htimelocks⟩
    ext1
    · exact haccounts
    all_goals rfl
  · rintro ⟨hnonce, htimelocks⟩
    rw [hnonce]
    ext1
    · rfl
    · exact herase.trans htimelocks
    all_goals rfl

/-! Escrows. -/

theorem setBalance_withEscrows_eq_self {a : Address} {v : Balance} {s : EscrowState} {L : Ledger} :
    (L.setBalance a v).withEscrows s = L ↔ v = L.balance a ∧ s = L.escrows := by
  constructor
  · intro h
    have haccounts : (L.setBalance a v).accounts = L.accounts := (congrArg Ledger.accounts h :)
    have hbalance : L.setBalance a v = L := by
      ext1
      · exact haccounts
      all_goals rfl
    exact ⟨setBalance_eq_self.mp hbalance, congrArg Ledger.escrows h⟩
  · rintro ⟨rfl, rfl⟩
    rw [setBalance_self]
    rfl

/-- Writing an escrow active and unresolved changes nothing if that is what it was. -/
theorem insert_active_eq_self {escrowId : Hash} {escrow : Escrow} {s : EscrowState}
    (hget : s.get escrowId = some escrow) :
    s.insert { escrow with status := .Active, resolvedAtHeight := none } = s ↔
      escrow.status = .Active ∧ escrow.resolvedAtHeight = none := by
  obtain rfl := s.keyed hget
  rw [Keyed.insert_eq_self]
  change s.get escrow.escrowId = _ ↔ _
  rw [hget, Option.some.injEq]
  constructor
  · intro h
    have hstatus := congrArg Escrow.status h
    have hresolved := congrArg Escrow.resolvedAtHeight h
    exact ⟨hstatus, hresolved⟩
  · rintro ⟨hstatus, hresolved⟩
    rcases escrow with ⟨_, _, _, _, _, _, _, status, _, resolvedAtHeight⟩
    simp only at hstatus hresolved
    rw [hstatus, hresolved]

/-- What an unwind does to the escrow it finds. -/
def reopen (escrow : Escrow) (payee : Address) (L : Ledger) : Ledger :=
  (takeBack payee escrow.amount L).withEscrows
    (L.escrows.insert { escrow with status := .Active, resolvedAtHeight := none })

theorem unwindEscrow_none {tx : EscrowTransaction} {L : Ledger}
    (hget : L.escrows.get tx.escrowId = none) : unwindEscrow tx L = L := by
  unfold unwindEscrow
  have hgetEscrow : L.escrows.getEscrow tx.escrowId = none := hget
  rw [hgetEscrow]
  rcases tx.escrowType with _ | _ | _
  · rfl
  · rfl
  · rfl

theorem unwindEscrow_some {tx : EscrowTransaction} {escrow : Escrow} {L : Ledger}
    (hget : L.escrows.get tx.escrowId = some escrow) : unwindEscrow tx L =
      match tx.escrowType with
      | .Create .. => refund tx.from (escrow.amount + tx.fee) L
      | .Release => reopen escrow escrow.recipient L
      | .Refund => reopen escrow escrow.sender L := by
  unfold unwindEscrow
  have hgetEscrow : L.escrows.getEscrow tx.escrowId = some escrow := hget
  rw [hgetEscrow]
  rcases tx.escrowType with _ | _ | _
  · simp only
    rw [refund, credit, add_assoc]
  · rfl
  · rfl

theorem reopen_eq_self {escrowId : Hash} {escrow : Escrow} {payee : Address} {L : Ledger}
    (hget : L.escrows.get escrowId = some escrow) : reopen escrow payee L = L ↔
      (escrow.amount = 0 ∨ L.balance payee = 0) ∧
        escrow.status = .Active ∧ escrow.resolvedAtHeight = none := by
  rw [reopen, takeBack_eq, setBalance_withEscrows_eq_self, satSub_eq_self,
    insert_active_eq_self hget]

/-- The escrow is reopened after it was resolved. -/
theorem reopen_resolved {escrowId : Hash} {escrow : Escrow} {payee : Address} {L : Ledger}
    (status : EscrowStatus) (hget : L.escrows.get escrowId = some escrow)
    (hactive : escrow.status = .Active) :
    reopen { escrow with status := status, resolvedAtHeight := some blockHeight } payee
      ((L.credit payee escrow.amount).withEscrows (L.escrows.insert
        { escrow with status := status, resolvedAtHeight := some blockHeight })) = L ↔
      escrow.resolvedAtHeight = none ∧ NoCarry (L.balance payee) escrow.amount := by
  have hshape : reopen { escrow with status := status, resolvedAtHeight := some blockHeight } payee
      ((L.credit payee escrow.amount).withEscrows (L.escrows.insert
        { escrow with status := status, resolvedAtHeight := some blockHeight })) =
      (takeBack payee escrow.amount (L.credit payee escrow.amount)).withEscrows
        (L.escrows.insert { escrow with status := .Active, resolvedAtHeight := none }) := by
    rw [reopen, takeBack_eq, takeBack_eq]
    have hinsert : (L.escrows.insert
        { escrow with status := status, resolvedAtHeight := some blockHeight }).insert
          { escrow with status := .Active, resolvedAtHeight := none } =
        L.escrows.insert { escrow with status := .Active, resolvedAtHeight := none } :=
      Keyed.insert_insert L.escrows rfl
    rw [← hinsert]
    rfl
  rw [hshape, takeBack_credit, setBalance_withEscrows_eq_self, satSub_add_iff,
    insert_active_eq_self hget]
  simp only [hactive, true_and]
  exact and_comm

/-! Channels. -/

/-- Two credits are taken back in the order they were made in. -/
theorem takeBack_credits_eq_self {a b : Address} {x y : Balance} {L : Ledger} :
    takeBack b y (takeBack a x ((L.credit a x).credit b y)) = L ↔ creditsRestored a b x y L := by
  unfold creditsRestored
  by_cases hab : a = b
  · subst hab
    rw [if_pos rfl, ← satSub_satSub_add_iff, ← setBalance_eq_self]
    have hcredits : (L.credit a x).credit a y = L.setBalance a (L.balance a + x + y) := by
      have hbalance : (L.credit a x).balance a = L.balance a + x := Function.update_self ..
      rw [credit, hbalance, credit, setBalance_setBalance]
    have htake : ∀ z v, takeBack a v (L.setBalance a z) = L.setBalance a (satSub z v) := by
      intro z v
      have hself : (L.setBalance a z).balance a = z := Function.update_self ..
      rw [takeBack_eq, hself, setBalance_setBalance]
    rw [hcredits, htake, htake]
  · rw [if_neg hab]
    have hother : (L.credit b y).balance a = L.balance a := Function.update_of_ne hab ..
    have hcomm : (L.credit b y).setBalance a (satSub (L.balance a + x) x) =
        (L.setBalance a (satSub (L.balance a + x) x)).credit b y := by
      have hb : (L.setBalance a (satSub (L.balance a + x) x)).balance b = L.balance b :=
        Function.update_of_ne (Ne.symm hab) ..
      rw [credit, credit, hb]
      simp only [setBalance, AccountState.setBalance, Function.update_comm hab]
    have hb : (L.setBalance a (satSub (L.balance a + x) x)).balance b = L.balance b :=
      Function.update_of_ne (Ne.symm hab) ..
    rw [credit_comm, takeBack_credit, hother, hcomm, takeBack_credit, hb, setBalances_eq_self hab,
      satSub_add_iff, satSub_add_iff]

theorem channels_unwindNonce (a : Address) (L : Ledger) :
    (unwindNonce a L).channels = L.channels := by
  rw [unwindNonce_eq]
  rfl

theorem channels_takeBack (a : Address) (v : Balance) (L : Ledger) :
    (takeBack a v L).channels = L.channels := by
  rw [takeBack_eq]
  rfl

/-- No unwind writes a channel. -/
theorem channels_unwindChannel (tx : ChannelTransaction) (L : Ledger) :
    (unwindChannel tx L).channels = L.channels := by
  unfold unwindChannel
  rcases tx.channelType with ⟨participantA, participantB, depositA, depositB, timeout⟩ | _ |
    ⟨finalBalanceA, finalBalanceB⟩ | _
  · exact channels_unwindNonce ..
  · rfl
  · simp only
    rcases L.channels.getChannel tx.channelId with _ | channel
    · rfl
    · exact (channels_takeBack ..).trans (channels_takeBack ..)
  · rfl

/-- So a ledger whose channels were changed is not restored. -/
theorem unwindChannel_ne {tx : ChannelTransaction} {L L' : Ledger} (h : L'.channels ≠ L.channels) :
    unwindChannel tx L' ≠ L := by
  intro heq
  have hchannels := congrArg Ledger.channels heq
  rw [channels_unwindChannel] at hchannels
  exact h hchannels

theorem insert_ne_of_none {c : Channel} {s : ChannelState} (hnew : s.get c.channelId = none) :
    s.insert c ≠ s := by
  intro h
  rw [Keyed.insert_eq_self, hnew] at h
  cases h

theorem insert_ne_of_get {channelId : Hash} {c c' : Channel} {s : ChannelState}
    (hget : s.get channelId = some c) (hid : c'.channelId = c.channelId) (hne : c' ≠ c) :
    s.insert c' ≠ s := by
  intro h
  rw [Keyed.insert_eq_self, hid, s.keyed hget, hget, Option.some.injEq] at h
  exact hne h.symm

theorem updated_ne {tx : ChannelTransaction} {sequence : UInt64} {balanceA balanceB : Balance}
    {s s' : ChannelState} (h : updated tx sequence balanceA balanceB s = some s') : s' ≠ s := by
  obtain ⟨channel, hget, -, hlt, rfl⟩ := of_updated h
  refine insert_ne_of_get hget rfl fun heq => ?_
  have hsequence : sequence = channel.sequence := congrArg Channel.sequence heq
  rw [hsequence] at hlt
  exact absurd hlt (UInt64.lt_irrefl _)

theorem disputed_ne {tx : ChannelTransaction} {sequence : UInt64} {balanceA balanceB : Balance}
    {s s' : ChannelState} (h : disputed now tx sequence balanceA balanceB s = some s') : s' ≠ s := by
  obtain ⟨channel, hget, hopen, rfl⟩ := of_disputed h
  refine insert_ne_of_get hget rfl fun heq => ?_
  have hstatus : ChannelStatus.InDispute = channel.status := congrArg Channel.status heq
  rw [hopen] at hstatus
  cases hstatus

theorem closed_ne {channelId : Hash} {channel : Channel} {finalBalanceA finalBalanceB : Balance}
    {s s' : ChannelState} (hget : s.get channelId = some channel)
    (h : closed blockHeight channel finalBalanceA finalBalanceB s = some s') : s' ≠ s := by
  obtain ⟨hopen, rfl⟩ := of_closed h
  refine insert_ne_of_get hget rfl fun heq => ?_
  have hstatus : ChannelStatus.ClosedCooperative = channel.status := congrArg Channel.status heq
  rw [hopen] at hstatus
  cases hstatus

/-! Trustlines and swaps. -/

theorem unwindFee_eq (src : Address) (fee : Balance) (L : Ledger) :
    unwindFee src fee L = refund src fee L := rfl

/-- A charge is paid back under a store that was changed. -/
theorem refund_withTrustlines (a : Address) (cost : Balance) (nonce : UInt64) (s : TrustLineState)
    (L : Ledger) : refund a cost ((charge a cost nonce L).withTrustlines s) = L ↔
      NonceFollows a nonce L ∧ s = L.trustlines := by
  have hshape : refund a cost ((charge a cost nonce L).withTrustlines s) =
      (L.setNonce a (nonceBack (nonce + 1))).withTrustlines s := by
    rw [← refund_charge a cost, refund_eq, refund_eq]
    rfl
  rw [hshape, ← nonceBack_succ_iff, ← setNonce_eq_self]
  constructor
  · intro h
    have haccounts := congrArg Ledger.accounts h
    refine ⟨?_, congrArg Ledger.trustlines h⟩
    ext1
    · exact haccounts
    all_goals rfl
  · rintro ⟨hnonce, rfl⟩
    rw [hnonce]
    rfl

theorem refund_withPools (a : Address) (cost : Balance) (nonce : UInt64) (s : DimensionalPoolState)
    (L : Ledger) : refund a cost ((charge a cost nonce L).withPools s) = L ↔
      NonceFollows a nonce L ∧ s = L.pools := by
  have hshape : refund a cost ((charge a cost nonce L).withPools s) =
      (L.setNonce a (nonceBack (nonce + 1))).withPools s := by
    rw [← refund_charge a cost, refund_eq, refund_eq]
    rfl
  rw [hshape, ← nonceBack_succ_iff, ← setNonce_eq_self]
  constructor
  · intro h
    have haccounts := congrArg Ledger.accounts h
    refine ⟨?_, congrArg Ledger.pools h⟩
    ext1
    · exact haccounts
    all_goals rfl
  · rintro ⟨hnonce, rfl⟩
    rw [hnonce]
    rfl

/-- Storing a record over the one that was read. -/
theorem insert_eq_self_of_get {trustlineId : Hash} {t t' : TrustLine} {s : TrustLineState}
    (hget : s.get trustlineId = some t) (hid : t'.trustlineId = t.trustlineId) :
    s.insert t' = s ↔ t' = t := by
  rw [Keyed.insert_eq_self, hid, s.keyed hget, hget, Option.some.injEq]
  exact eq_comm

theorem get_of_ownLine {trustlineId : Hash} {src : Address} {t : TrustLine} {s : TrustLineState}
    (h : ownLine trustlineId src s = some t) : s.get trustlineId = some t :=
  (Option.filter_eq_some_iff.mp h).1

/-- A trustline with its status and height set is the one it was. -/
theorem status_eq_self {t : TrustLine} {status : TrustLineStatus} :
    { t with status := status, modifiedAtHeight := blockHeight } = t ↔
      t.status = status ∧ t.modifiedAtHeight = blockHeight := by
  constructor
  · intro h
    exact ⟨(congrArg TrustLine.status h).symm, (congrArg TrustLine.modifiedAtHeight h).symm⟩
  · rintro ⟨rfl, rfl⟩
    rfl

theorem trustlineChanged_idle {tx : TrustLineTransaction} {s s' : TrustLineState}
    (h : trustlineChanged ext blockHeight tx s = some s') :
    s' = s ↔ trustlineIdle ext blockHeight tx s := by
  rcases htype : tx.trustlineType with ⟨accountB, limitAToB, limitBToA, qualityIn, qualityOut,
    rippleEnabled, dimensionalScale⟩ | ⟨limitAToB, limitBToA⟩ | _ | _ | ⟨deltaTau⟩
  · simp only [trustlineChanged, trustlineIdle, htype] at h ⊢
    split_ifs at h with hnew
    cases h
    simp only [iff_false]
    intro heq
    rw [Keyed.insert_eq_self] at heq
    have hnone : s.get tx.trustlineId = none := hnew.1
    rw [show ((trustlineOf blockHeight tx accountB limitAToB limitBToA qualityIn qualityOut
      rippleEnabled dimensionalScale).updateVivianiOracle ext).trustlineId = tx.trustlineId from rfl,
      hnone] at heq
    cases heq
  · simp only [trustlineChanged, trustlineIdle, htype] at h ⊢
    obtain ⟨t, hline, hif⟩ := Option.bind_eq_some_iff.mp h
    have hget := get_of_ownLine hline
    split_ifs at hif
    cases hif
    simp only [hget, Option.some.injEq, forall_eq']
    exact insert_eq_self_of_get hget rfl
  · simp only [trustlineChanged, trustlineIdle, htype] at h ⊢
    obtain ⟨t, hline, hif⟩ := Option.bind_eq_some_iff.mp h
    have hget := get_of_ownLine hline
    cases hif
    simp only [hget, Option.some.injEq, forall_eq', ← status_eq_self]
    exact insert_eq_self_of_get hget rfl
  · simp only [trustlineChanged, trustlineIdle, htype] at h ⊢
    obtain ⟨t, hline, hif⟩ := Option.bind_eq_some_iff.mp h
    have hget := get_of_ownLine hline
    split_ifs at hif
    cases hif
    simp only [hget, Option.some.injEq, forall_eq', ← status_eq_self]
    exact insert_eq_self_of_get hget rfl
  · simp only [trustlineChanged, trustlineIdle, htype] at h ⊢
    obtain ⟨t, hline, hif⟩ := Option.bind_eq_some_iff.mp h
    have hget := get_of_ownLine hline
    cases hif
    simp only [hget, Option.some.injEq, forall_eq']
    exact insert_eq_self_of_get hget rfl

/-- A pool with `v` taken and its height set is the one it was. -/
theorem liquidity_eq_self {p : PoolLiquidity} {v : Balance} :
    some p = some { p with liquidity := p.liquidity - v, lastUpdateHeight := blockHeight } ↔
      v = 0 ∧ p.lastUpdateHeight = blockHeight := by
  rw [Option.some.injEq]
  constructor
  · intro h
    have hliquidity : p.liquidity = p.liquidity - v := congrArg PoolLiquidity.liquidity h
    have hheight : p.lastUpdateHeight = blockHeight := congrArg PoolLiquidity.lastUpdateHeight h
    exact ⟨sub_eq_self.mp hliquidity.symm, hheight⟩
  · rintro ⟨rfl, rfl⟩
    rw [sub_zero]

theorem swapped_eq_self {src dst : PoolLiquidity} {poolFrom poolTo : DimensionalPool}
    {amountIn : Balance} {s : DimensionalPoolState} (hsrc : s.pools.get poolFrom = some src)
    (hdst : s.pools.get poolTo = some dst) :
    (s.swapped src dst amountIn blockHeight).pools = s.pools ↔
      (DimensionalPoolState.amountOut src dst amountIn = 0 ∧ dst.lastUpdateHeight = blockHeight) ∧
      (poolFrom ≠ poolTo → amountIn = 0 ∧ src.lastUpdateHeight = blockHeight) := by
  obtain rfl := s.pools.keyed hsrc
  obtain rfl := s.pools.keyed hdst
  rw [← liquidity_eq_self, ← liquidity_eq_self]
  set src' : PoolLiquidity :=
    { src with liquidity := src.liquidity - amountIn, lastUpdateHeight := blockHeight }
  set dst' : PoolLiquidity :=
    { dst with
      liquidity := dst.liquidity - DimensionalPoolState.amountOut src dst amountIn
      lastUpdateHeight := blockHeight }
  change (s.pools.insert src').insert dst' = s.pools ↔ _
  by_cases hself : src.pool = dst.pool
  · have hinsert : (s.pools.insert src').insert dst' = s.pools.insert dst' :=
      Keyed.insert_insert s.pools hself.symm
    rw [hinsert, Keyed.insert_eq_self]
    change s.pools.get dst.pool = _ ↔ _
    rw [hdst]
    simp only [ne_eq, hself, not_true_eq_false, false_implies, and_true]
  · have hboth : (s.pools.insert src').insert dst' = s.pools ↔
        s.pools.get src.pool = some src' ∧ s.pools.get dst.pool = some dst' :=
      Keyed.insert_insert_eq_self hself
    rw [hboth, hsrc, hdst]
    simp only [ne_eq, hself, not_false_eq_true, true_implies]
    exact and_comm

theorem swapDone_idle {tx : PoolSwapTransaction} {s s' : DimensionalPoolState}
    (h : swapDone ext blockHeight tx s = some s') : s' = s ↔ swapIdle ext blockHeight tx s := by
  unfold swapDone at h
  rcases hsrc : s.pools.get tx.poolFrom with _ | src
  · rw [hsrc] at h
    cases h
  rcases hdst : s.pools.get tx.poolTo with _ | dst
  · rw [hsrc, hdst] at h
    cases h
  rw [hsrc, hdst] at h
  simp only at h
  split_ifs at h
  cases h
  have hidle : swapIdle ext blockHeight tx s ↔
      s.swaps.get (Transaction.hash ext (.DimensionalPoolSwap tx)) = some (swapRecordOf ext
        blockHeight tx (DimensionalPoolState.amountOut src dst tx.amountIn)) ∧
      (s.swapped src dst tx.amountIn blockHeight).pools = s.pools := by
    rw [swapped_eq_self hsrc hdst]
    constructor
    · intro h
      exact h src dst hsrc hdst
    · intro h src' dst' hsrc' hdst'
      rw [hsrc] at hsrc'
      rw [hdst] at hdst'
      cases hsrc'
      cases hdst'
      exact h
  rw [hidle]
  constructor
  · intro heq
    have hpools : (s.swapped src dst tx.amountIn blockHeight).pools = s.pools :=
      (congrArg DimensionalPoolState.pools heq :)
    have hswaps : s.swaps.insert (swapRecordOf ext blockHeight tx
        (DimensionalPoolState.amountOut src dst tx.amountIn)) = s.swaps :=
      (congrArg DimensionalPoolState.swaps heq :)
    exact ⟨Keyed.insert_eq_self.mp hswaps, hpools⟩
  · rintro ⟨hrecord, hpools⟩
    have hswaps : s.swaps.insert (swapRecordOf ext blockHeight tx
        (DimensionalPoolState.amountOut src dst tx.amountIn)) = s.swaps :=
      Keyed.insert_eq_self.mpr hrecord
    ext1
    · exact hpools
    · exact hswaps

/-! The marketplace. -/

theorem removeEscrow_ne {problemId : Hash} {bounty : Balance} {s s' : MarketplaceState}
    (h : s.escrow problemId = some bounty)
    (hs' : s'.escrow = (s.removeEscrow problemId).escrow) : s' ≠ s := by
  rintro rfl
  have hnone := congrFun hs' problemId
  rw [h, show (MarketplaceState.removeEscrow problemId s').escrow problemId = none from
    Function.update_self ..] at hnone
  cases hnone

/-- An operation that is done changes the marketplace. -/
theorem marketplace_ne {tx : MarketplaceTransaction} {s s' : MarketplaceState} {payee : Address}
    {amount : Balance} (h : marketOutcome ext now tx s = .done s' payee amount) : s' ≠ s := by
  rcases hop : tx.operation with ⟨problem, bounty, minWorkScore, expirationDays, title, briefing⟩ |
    ⟨problemId, solution⟩ | ⟨problemId⟩ | ⟨problemId⟩
  · simp only [marketOutcome, hop] at h
    split_ifs at h with hnew
    cases h
    intro heq
    have hproblems : s.problems.insert (MarketplaceState.newSubmission ext now (.Public problem)
        tx.from bounty minWorkScore expirationDays title briefing) = s.problems :=
      congrArg MarketplaceState.problems heq
    rw [Keyed.insert_eq_self] at hproblems
    change s.problems.get (ProblemType.hash ext problem) = _ at hproblems
    rw [hnew] at hproblems
    cases hproblems
  · simp only [marketOutcome, hop] at h
    split at h
    · cases h
    · cases h
    · cases h
    · split at h
      · rename_i bounty hb
        cases h
        exact removeEscrow_ne hb rfl
      · cases h
  · simp only [marketOutcome, hop] at h
    rcases hc : MarketplaceState.claimable problemId s with _ | ⟨solver, bounty⟩
    all_goals
      simp only [hc] at h
      cases h
    exact removeEscrow_ne (MarketplaceState.escrow_of_claimable hc) rfl
  · simp only [marketOutcome, hop] at h
    rcases hc : MarketplaceState.cancellable problemId tx.from s with _ | ⟨submission, bounty⟩
    all_goals
      simp only [hc] at h
      cases h
    exact removeEscrow_ne (MarketplaceState.escrow_of_cancellable hc) rfl

theorem escrows_refund (a : Address) (cost : Balance) (L : Ledger) :
    (refund a cost L).escrows = L.escrows := by
  rw [refund_eq]
  rfl

/-- What is paid back is the amount of the escrow that was there. -/
theorem refund_other_charge {a : Address} {amount amount' fee : Balance} {nonce : UInt64}
    {L : Ledger} : refund a (amount' + fee) (charge a (amount + fee) nonce L) = L ↔
      NonceFollows a nonce L ∧ amount' = amount := by
  have hbalance : (charge a (amount + fee) nonce L).balance a = L.balance a - (amount + fee) :=
    balance_debit_self ..
  have hnonce : (charge a (amount + fee) nonce L).nonce a = nonce + 1 := Function.update_self ..
  have hshape : refund a (amount' + fee) (charge a (amount + fee) nonce L) =
      (L.setBalance a (L.balance a - (amount + fee) + (amount' + fee))).setNonce a
        (nonceBack (nonce + 1)) := by
    rw [refund_eq, hbalance, hnonce]
    simp only [charge, debit, setBalance, setNonce, AccountState.setBalance, AccountState.setNonce,
      Function.update_idem]
  have hamount : L.balance a - (amount + fee) + (amount' + fee) = L.balance a ↔ amount' = amount := by
    rw [sub_add, sub_eq_self, add_sub_add_right_eq_sub, sub_eq_zero]
    exact eq_comm
  rw [hshape, setBalance_setNonce_eq_self, hamount, nonceBack_succ_iff]
  exact and_comm

theorem marketplace_refund (a : Address) (cost : Balance) (L : Ledger) :
    (refund a cost L).marketplace = L.marketplace := by
  rw [refund_eq]
  rfl

/-- A debit is paid back under a marketplace that was changed; the nonce was not set yet. -/
theorem refund_debit_withMarketplace (a : Address) (cost : Balance) (s : MarketplaceState)
    (L : Ledger) : refund a cost ((L.debit a cost).withMarketplace s) = L ↔
      L.nonce a = 0 ∧ s = L.marketplace := by
  have hshape : refund a cost ((L.debit a cost).withMarketplace s) =
      (L.setNonce a (nonceBack (L.nonce a))).withMarketplace s := by
    have hbalance : ((L.debit a cost).withMarketplace s).balance a = L.balance a - cost :=
      balance_debit_self ..
    rw [refund_eq, hbalance, sub_add_cancel]
    change (((L.setBalance a _).setBalance a _).setNonce a _).withMarketplace s = _
    rw [setBalance_setBalance, setBalance_self]
    rfl
  rw [hshape]
  constructor
  · intro h
    have haccounts : (L.setNonce a (nonceBack (L.nonce a))).accounts = L.accounts :=
      (congrArg Ledger.accounts h :)
    have hnonce : L.setNonce a (nonceBack (L.nonce a)) = L := by
      ext1
      · exact haccounts
      all_goals rfl
    exact ⟨nonceBack_eq_self.mp (setNonce_eq_self.mp hnonce), congrArg Ledger.marketplace h⟩
  · rintro ⟨hzero, rfl⟩
    rw [setNonce_eq_self.mpr (nonceBack_eq_self.mpr hzero)]
    rfl

/-! ### Steps -/

/-- Paying something back that was not charged changes the ledger. -/
theorem ne_of_refund {a : Address} {cost : Balance} {L L' : Ledger} (hcost : cost ≠ 0)
    (h : L'.accounts = (refund a cost L).accounts) : L' ≠ L := by
  rintro rfl
  have hbalance := congrFun (congrArg AccountState.balances h) a
  rw [show (refund a cost L').accounts.balances a = L'.balance a + cost by
    rw [refund_eq]; exact Function.update_self ..] at hbalance
  exact hcost (add_eq_left.mp hbalance.symm)

/-- A transaction that was refused wrote nothing; its unwind writes. -/
theorem unwind_refused {tx : Transaction} {L : Ledger}
    (h : verdict ext now blockHeight tx L = .refused) :
    unwindSingleTransaction ext tx L = L ↔ Reversible ext now blockHeight .refused tx L := by
  cases tx with
  | Transfer tx => exact unwind_skipped_transfer (cost_ne_zero (by simp) h)
  | TimeLock tx =>
    have hcost := cost_ne_zero (by simp) h
    simp only [unwindSingleTransaction, Reversible, iff_false, unwindTimeLock_eq]
    exact ne_of_refund hcost rfl
  | Escrow tx =>
    change unwindEscrow tx L = L ↔ _
    rcases hget : L.escrows.get tx.escrowId with _ | escrow
    · -- no escrow: nothing is read, and the condition is about what is read
      rw [unwindEscrow_none hget]
      rcases htype : tx.escrowType with _ | _ | _
      all_goals simp [Reversible, htype, hget]
    · rw [unwindEscrow_some hget]
      rcases htype : tx.escrowType with ⟨recipient, arbiter, amount, timeout, conditionsHash⟩ | _ | _
      · simp only [Reversible, htype, hget, Option.some.injEq, forall_eq']
        exact refund_eq_self
      · simp only [Reversible, htype, hget, Option.some.injEq, forall_eq', resolutionRestored,
          reopen_eq_self hget]
        tauto
      · simp only [Reversible, htype, hget, Option.some.injEq, forall_eq', resolutionRestored,
          reopen_eq_self hget]
        tauto
  | Channel tx =>
    rcases htype : tx.channelType with ⟨participantA, participantB, depositA, depositB, timeout⟩ |
      ⟨sequence, balanceA, balanceB⟩ | ⟨finalBalanceA, finalBalanceB⟩ |
      ⟨sequence, balanceA, balanceB, disputeProof⟩
    · simp only [verdict, htype] at h
      simp only [unwindSingleTransaction, unwindChannel, Reversible, htype, reduceCtorEq, false_and,
        iff_false]
      rw [add_assoc]
      exact ne_of_refund (cost_ne_zero (ofCheck_ne _) h) rfl
    · simp [unwindSingleTransaction, unwindChannel, Reversible, htype]
    · simp only [verdict, htype] at h
      have hnone : L.channels.get tx.channelId = none := by
        rcases hget : L.channels.get tx.channelId with _ | channel
        · rfl
        · rw [hget] at h
          simp only [Option.isSome_some, Verdict.guarded, if_true, Verdict.ofCheck] at h
          split_ifs at h
      simp [unwindSingleTransaction, unwindChannel, Reversible, htype, hnone, ChannelState.getChannel]
    · simp [unwindSingleTransaction, unwindChannel, Reversible, htype]
  | TrustLine tx =>
    simp only [unwindSingleTransaction, unwindFee_eq, Reversible, ne_eq, not_true_eq_false,
      false_and, iff_false]
    exact ne_of_refund (cost_ne_zero (ofCheck_ne _) h) rfl
  | DimensionalPoolSwap tx =>
    simp only [unwindSingleTransaction, unwindFee_eq, Reversible, ne_eq, not_true_eq_false,
      false_and, iff_false]
    exact ne_of_refund (cost_ne_zero (ofCheck_ne _) h) rfl
  | Marketplace tx =>
    simp only [unwindSingleTransaction, unwindMarketplace_eq, Reversible, reduceCtorEq, or_self,
      false_and, iff_false]
    exact ne_of_refund (cost_ne_zero (marketVerdict_ne ext now) h) rfl

/-- However a transaction ends, its unwind restores the ledger exactly if it is reversible. -/
theorem unwind_effect {tx : Transaction} {L : Ledger} {o : Outcome}
    (h : Effect ext now blockHeight tx L o) (hv : verdict ext now blockHeight tx L = kind o) :
    unwindSingleTransaction ext tx (after L o) = L ↔
      Reversible ext now blockHeight (kind o) tx L := by
  cases h with
  | refused => exact unwind_refused hv
  | @transferred tx L hpays => exact unwind_transferred tx L
  | @locked tx L hpays => exact unwind_locked tx L
  | @escrowed tx L recipient arbiter amount timeout conditionsHash htype hpays hnew =>
    simp only [Reversible, kind, htype, iff_false]
    intro heq
    have hescrows : (unwindEscrow tx ((charge tx.from (amount + tx.fee) tx.nonce L).withEscrows
      (L.escrows.insert (escrowOf blockHeight tx recipient arbiter amount timeout
        conditionsHash)))).escrows = L.escrows := (congrArg Ledger.escrows heq :)
    -- the new escrow is found, and what is paid back leaves it there
    have hget : ((charge tx.from (amount + tx.fee) tx.nonce L).withEscrows (L.escrows.insert
      (escrowOf blockHeight tx recipient arbiter amount timeout conditionsHash))).escrows.get
        tx.escrowId = some (escrowOf blockHeight tx recipient arbiter amount timeout
          conditionsHash) := Keyed.get_insert_self ..
    rw [unwindEscrow_some hget, htype, escrows_refund] at hescrows
    have hinsert : L.escrows.insert
        (escrowOf blockHeight tx recipient arbiter amount timeout conditionsHash) = L.escrows :=
      hescrows
    rw [Keyed.insert_eq_self] at hinsert
    have hold : L.escrows.get (escrowOf blockHeight tx recipient arbiter amount timeout
      conditionsHash).escrowId = none := hnew
    rw [hold] at hinsert
    cases hinsert
  | @escrowTaken tx L recipient arbiter amount timeout conditionsHash htype hpays htaken =>
    obtain ⟨escrow, hget⟩ := Option.ne_none_iff_exists'.mp htaken
    have hget' : (charge tx.from (amount + tx.fee) tx.nonce L).escrows.get tx.escrowId =
        some escrow := hget
    change unwindEscrow tx (charge tx.from (amount + tx.fee) tx.nonce L) = L ↔ _
    rw [unwindEscrow_some hget', htype]
    simp only [Reversible, kind, htype, hget, Option.some.injEq, forall_eq']
    exact refund_other_charge
  | @released tx L escrow htype hget hcan =>
    obtain ⟨e, he, hactive⟩ := EscrowState.active_of_canRelease hcan
    rw [hget] at he
    cases he
    have hget' : ((L.credit escrow.recipient escrow.amount).withEscrows (L.escrows.insert
      { escrow with status := .Released, resolvedAtHeight := some blockHeight })).escrows.get
        tx.escrowId = some { escrow with
          status := .Released, resolvedAtHeight := some blockHeight } :=
      Keyed.get_insert_of_get hget rfl
    simp only [after, unwindSingleTransaction]
    rw [unwindEscrow_some hget', htype]
    simp only [Reversible, kind, htype, hget, Option.some.injEq, forall_eq', resolutionRestored]
    exact reopen_resolved .Released hget hactive
  | @refunded tx L escrow htype hget hcan =>
    obtain ⟨e, he, hactive⟩ := EscrowState.active_of_canRefund hcan
    rw [hget] at he
    cases he
    have hget' : ((L.credit escrow.sender escrow.amount).withEscrows (L.escrows.insert
      { escrow with status := .Refunded, resolvedAtHeight := some blockHeight })).escrows.get
        tx.escrowId = some { escrow with
          status := .Refunded, resolvedAtHeight := some blockHeight } :=
      Keyed.get_insert_of_get hget rfl
    simp only [after, unwindSingleTransaction]
    rw [unwindEscrow_some hget', htype]
    simp only [Reversible, kind, htype, hget, Option.some.injEq, forall_eq', resolutionRestored]
    exact reopen_resolved .Refunded hget hactive
  | @opened tx L participantA participantB depositA depositB timeout htype hpays hnew =>
    simp only [Reversible, kind, htype, reduceCtorEq, false_and, iff_false]
    exact unwindChannel_ne (insert_ne_of_none hnew)
  | @channelTaken tx L participantA participantB depositA depositB timeout htype hpays htaken =>
    change unwindChannel tx (charge _ _ _ L) = L ↔ _
    simp only [Reversible, kind, htype, true_and, unwindChannel]
    rw [add_assoc]
    exact refund_charge_eq_self
  | @updated tx L sequence balanceA balanceB s htype hs =>
    simp only [Reversible, kind, htype, ne_eq, not_true_eq_false, iff_false]
    exact unwindChannel_ne (updated_ne hs)
  | @closed tx L finalBalanceA finalBalanceB channel s htype hget hs =>
    simp only [Reversible, kind, htype, ne_eq, not_true_eq_false, false_and, iff_false]
    exact unwindChannel_ne (closed_ne hget hs)
  | @notClosed tx L finalBalanceA finalBalanceB channel htype hget hs =>
    have hget' : ((L.credit channel.participantA finalBalanceA).credit channel.participantB
      finalBalanceB).channels.getChannel tx.channelId = some channel := hget
    change unwindChannel tx ((L.credit channel.participantA finalBalanceA).credit
      channel.participantB finalBalanceB) = L ↔ _
    unfold unwindChannel
    rw [htype]
    simp only [hget', Reversible, kind, htype, hget, Option.some.injEq, forall_eq', ne_eq,
      reduceCtorEq, not_false_eq_true, true_and]
    exact takeBack_credits_eq_self
  | @disputed tx L sequence balanceA balanceB disputeProof s htype hs =>
    simp only [Reversible, kind, htype, ne_eq, not_true_eq_false, iff_false]
    exact unwindChannel_ne (disputed_ne hs)
  | @trustlineChanged tx L s hpays hs =>
    simp only [Reversible, kind, ne_eq, reduceCtorEq, not_false_eq_true, true_and, true_implies,
      ← trustlineChanged_idle hs]
    exact refund_withTrustlines ..
  | @trustlineKept tx L hpays hs =>
    simp only [Reversible, kind, ne_eq, reduceCtorEq, not_false_eq_true, true_and, false_implies,
      and_true]
    exact refund_charge_eq_self
  | @swapped tx L s hpays hs =>
    simp only [Reversible, kind, ne_eq, reduceCtorEq, not_false_eq_true, true_and, true_implies,
      ← swapDone_idle hs]
    exact refund_withPools ..
  | @notSwapped tx L hpays hs =>
    simp only [Reversible, kind, ne_eq, reduceCtorEq, not_false_eq_true, true_and, false_implies,
      and_true]
    exact refund_charge_eq_self
  | @marketDone tx L s payee amount hpays hs =>
    simp only [Reversible, kind, reduceCtorEq, or_self, false_and, iff_false, after,
      unwindSingleTransaction, unwindMarketplace_eq]
    intro heq
    have hmarketplace := congrArg Ledger.marketplace heq
    rw [marketplace_refund] at hmarketplace
    exact marketplace_ne hs hmarketplace
  | @marketLate tx L s hpays hs =>
    simp only [Reversible, kind, true_or, true_and, after, unwindSingleTransaction,
      unwindMarketplace_eq, ← late_market_iff ext now hs]
    exact refund_debit_withMarketplace ..
  | @marketPanicked tx L hpays hs =>
    simp only [Reversible, kind, or_true, true_and, after, unwindSingleTransaction,
      unwindMarketplace_eq, keeps_of_panicked ext now hs, and_true]
    have h := refund_debit_withMarketplace tx.from (marketCost tx) L.marketplace L
    simp only [and_true] at h
    exact h

/-- The step is reversible; a coinbase is if it does not wrap. -/
def StepReversible (ext : Ext) (p : Step) : Prop :=
  match p.1 with
  | .coinbase miner reward => NoCarry (p.2.balance miner) reward
  | .transaction now blockHeight tx =>
    Reversible ext now blockHeight (verdict ext now blockHeight tx p.2) tx p.2

/-- What an unwind does about an event. -/
def unwindEvent (ext : Ext) : Event → Ledger → Ledger
  | .coinbase miner reward => takeBack miner reward
  | .transaction _ _ tx => unwindSingleTransaction ext tx

/-- An event is taken back exactly if its step is reversible. -/
theorem unwind_step_iff (p : Step) :
    unwindEvent ext p.1 ((machine ext).next p.1 p.2) = p.2 ↔ StepReversible ext p := by
  obtain ⟨e, L⟩ := p
  cases e with
  | coinbase miner reward => exact takeBack_credit_eq_self
  | transaction now blockHeight tx =>
    have hverdict := verdict_outcome ext now blockHeight tx L
    have heffect := unwind_effect (effect_outcome ext now blockHeight tx L) hverdict.symm
    rw [hverdict] at heffect
    simp only [unwindEvent, StepReversible, next_transaction]
    exact heffect

/-! ### Blocks -/

/-- Events all of whose steps are reversible are taken back, the last one first. -/
theorem unwind_events {events : List Event} {L : Ledger}
    (hhalt : (machine ext).halted events L = false)
    (h : ∀ p ∈ (machine ext).trace events L, StepReversible ext p) :
    events.foldr (unwindEvent ext) ((machine ext).final events L) = L := by
  induction events generalizing L with
  | nil => rfl
  | cons e events ih =>
    rcases hstep : (machine ext).halts e L with _ | _
    · rw [Machine.halted_cons hstep] at hhalt
      rw [Machine.trace_cons hstep] at h
      rw [Machine.final_cons hstep, List.foldr_cons,
        ih hhalt fun p hp => h p (List.mem_cons_of_mem _ hp)]
      exact (unwind_step_iff (e, L)).mpr (h _ List.mem_cons_self)
    · rw [Machine.halted_cons_halt hstep] at hhalt
      cases hhalt

theorem foldr_transactionEvents (clock : ℕ → Int64) (height : UInt64) (i : ℕ)
    (txs : List Transaction) (L : Ledger) :
    (transactionEvents clock height i txs).foldr (unwindEvent ext) L =
      txs.foldr (unwindSingleTransaction ext) L := by
  induction txs generalizing i with
  | nil => rfl
  | cons tx txs ih =>
    rw [transactionEvents, List.foldr_cons, List.foldr_cons, ih]
    rfl

/-- Unwinding a block takes its events back. -/
theorem unwindBlock_eq (clock : ℕ → Int64) (block : Block) (L : Ledger) :
    unwindBlockTransactions ext block L =
      (blockEvents clock block).foldr (unwindEvent ext) L := by
  rw [blockEvents, List.foldr_cons, foldr_transactionEvents]
  rfl

theorem unwind_block {clock : ℕ → Int64} {block : Block} {L L' : Ledger} {hashes : List Hash}
    (hrun : run (applyBlockTransactions ext clock block) L = (.ok hashes, L'))
    (h : ∀ p ∈ blockSteps ext clock block L, StepReversible ext p) :
    unwindBlockTransactions ext block L' = L := by
  rw [run_applyBlockTransactions] at hrun
  obtain ⟨hend, rfl⟩ := Prod.mk.inj hrun
  have hhalt : (machine ext).halted (blockEvents clock block) L = false := by
    rcases hhalted : (machine ext).halted (blockEvents clock block) L with _ | _
    · rfl
    · rw [hhalted] at hend
      cases hend
  rw [unwindBlock_eq clock]
  exact unwind_events hhalt h

/-- An applied transaction, or coinbase, is undone by its unwind exactly if the step was reversible;
and a block all of whose steps are reversible is undone. -/
theorem unwind_apply_iff (ext : Ext) :
    (∀ p : Step, unwindEvent ext p.1 ((machine ext).next p.1 p.2) = p.2 ↔ StepReversible ext p) ∧
    ∀ clock block L hashes L',
      run (applyBlockTransactions ext clock block) L = (.ok hashes, L') →
      (∀ p ∈ blockSteps ext clock block L, StepReversible ext p) →
      unwindBlockTransactions ext block L' = L :=
  ⟨unwind_step_iff, fun _ _ _ _ _ hrun h => unwind_block hrun h⟩

set_option maxRecDepth 20000 in
/-- The block with Alice's transfer, where she has 100, is undone. -/
theorem unwind_apply_aliceBlock :
    unwindBlockTransactions Sample.ext Sample.aliceBlock
      (run (applyBlockTransactions Sample.ext (fun _ => 0) Sample.aliceBlock)
        (.ofAccounts Sample.aliceHas100)).2 = .ofAccounts Sample.aliceHas100 := by
  have hok : (run (applyBlockTransactions Sample.ext (fun _ => 0) Sample.aliceBlock)
      (.ofAccounts Sample.aliceHas100)).1 =
        .ok [Transaction.hash Sample.ext (.Transfer Sample.aliceTransfer)] := by decide
  refine (unwind_apply_iff Sample.ext).2 (fun _ => 0) Sample.aliceBlock _ _ _
    (Prod.ext hok rfl) ?_
  intro p hp
  have hhalt : (machine Sample.ext).halts (.transaction 0 1 (.Transfer Sample.aliceTransfer))
      ((Ledger.ofAccounts Sample.aliceHas100).credit Sample.carol 50000000000000) = false := by
    decide
  change p ∈ (machine Sample.ext).trace [.coinbase Sample.carol 50000000000000,
    .transaction 0 1 (.Transfer Sample.aliceTransfer)] _ at hp
  rw [Machine.trace_cons (halts_coinbase ..), next_coinbase, Machine.trace_cons hhalt,
    Machine.trace_nil] at hp
  rcases List.mem_cons.mp hp with rfl | hp
  · change NoCarry _ _
    decide
  · rw [List.mem_singleton.mp hp]
    have hverdict : verdict Sample.ext 0 1 (.Transfer Sample.aliceTransfer)
        ((Ledger.ofAccounts Sample.aliceHas100).credit Sample.carol 50000000000000) =
          .goesThrough := by decide
    simp only [StepReversible, hverdict, Reversible]
    exact ⟨Or.inl ⟨by decide, by decide⟩, by decide⟩

/-- Where Alice has nothing her transfer is skipped, and the unwind pays her the 6 she never paid. -/
theorem skipped_transfer_refunded :
    (run (applyBlockTransactions Sample.ext (fun _ => 0) Sample.aliceBlock)
      (.ofAccounts (.ofBalances []))).1 = .ok [] ∧
    (unwindBlockTransactions Sample.ext Sample.aliceBlock
      (run (applyBlockTransactions Sample.ext (fun _ => 0) Sample.aliceBlock)
        (.ofAccounts (.ofBalances []))).2).balance Sample.aliceKey.toAddress = 6 ∧
    ¬ ∀ clock block L hashes L',
      run (applyBlockTransactions Sample.ext clock block) L = (.ok hashes, L') →
      unwindBlockTransactions Sample.ext block L' = L := by
  have hok : (run (applyBlockTransactions Sample.ext (fun _ => 0) Sample.aliceBlock)
    (.ofAccounts (.ofBalances []))).1 = .ok [] := by decide
  have hsix : (unwindBlockTransactions Sample.ext Sample.aliceBlock
      (run (applyBlockTransactions Sample.ext (fun _ => 0) Sample.aliceBlock)
        (.ofAccounts (.ofBalances []))).2).balance Sample.aliceKey.toAddress = 6 := by decide
  refine ⟨hok, hsix, fun h => ?_⟩
  have hundone : unwindBlockTransactions Sample.ext Sample.aliceBlock
      (run (applyBlockTransactions Sample.ext (fun _ => 0) Sample.aliceBlock)
        (.ofAccounts (.ofBalances []))).2 = .ofAccounts (.ofBalances []) :=
    h (fun _ => 0) Sample.aliceBlock _ [] _ (Prod.ext hok rfl)
  rw [hundone] at hsix
  exact absurd hsix (by decide)

end Coinjecture.Node.UnwindApply
