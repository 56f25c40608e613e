import Coinjecture.Node.BlockProcessing

/-! # What one transaction does

`outcome tx L` says without effects what `applySingleTransaction` does to the ledger `L`: it is
refused with nothing written, fails or panics after some writes, or is done. The store operations
appear as functions to `Option`: the store after the operation, or none if it reports an error.

* `effect_outcome` : the cases of `outcome`, for a proof about every transaction.
* `run_applySingleTransaction` : the code ends as `outcome` says. -/

namespace Coinjecture.Node.Outcomes

open Lib.Effect Lib.Table
open Core.Types Core.Problem Core.Transactions
open Core.Extern Core.Crypto Core.Privacy
open State.Timelocks State.Escrows State.Channels
open State.TrustLines State.DimensionalPools
open State.Marketplace State.Stores State.Stores.Ledger
open Node.BlockProcessing

/-! ### The store operations -/

section Stores

variable (ext : Ext) (blockHeight : UInt64)

/-- An update of an open channel with a new sequence number and the same total. -/
def updated (tx : ChannelTransaction) (sequence : UInt64) (balanceA balanceB : Balance)
    (s : ChannelState) : Option ChannelState :=
  (s.get tx.channelId).bind fun channel =>
    if channel.status = .Open ∧ channel.sequence < sequence ∧
        balanceA + balanceB = channel.capacity
    then some (s.insert
      { channel with sequence := sequence, balanceA := balanceA, balanceB := balanceB })
    else none

/-- A dispute of an open channel with the same total. -/
def disputed (now : Int64) (tx : ChannelTransaction) (sequence : UInt64)
    (balanceA balanceB : Balance) (s : ChannelState) : Option ChannelState :=
  (s.get tx.channelId).bind fun channel =>
    if channel.status = .Open ∧ balanceA + balanceB = channel.capacity
    then some (s.insert { channel with
      status := .InDispute
      sequence := sequence
      balanceA := balanceA
      balanceB := balanceB
      disputeStartedAt := some now })
    else none

/-- A cooperative close of the open channel `channel` with the same total. -/
def closed (channel : Channel) (finalBalanceA finalBalanceB : Balance) (s : ChannelState) :
    Option ChannelState :=
  if channel.status = .Open ∧ finalBalanceA + finalBalanceB = channel.capacity
  then some (s.insert { channel with
    status := .ClosedCooperative
    balanceA := finalBalanceA
    balanceB := finalBalanceB
    closedAtHeight := some blockHeight })
  else none

theorem of_updated {tx : ChannelTransaction} {sequence : UInt64} {balanceA balanceB : Balance}
    {s s' : ChannelState} (h : updated tx sequence balanceA balanceB s = some s') :
    ∃ channel, s.get tx.channelId = some channel ∧ channel.status = .Open ∧
      channel.sequence < sequence ∧ s' = s.insert
        { channel with sequence := sequence, balanceA := balanceA, balanceB := balanceB } := by
  obtain ⟨channel, hget, hif⟩ := Option.bind_eq_some_iff.mp h
  split_ifs at hif with hopen
  cases hif
  exact ⟨channel, hget, hopen.1, hopen.2.1, rfl⟩

theorem of_disputed {now : Int64} {tx : ChannelTransaction} {sequence : UInt64}
    {balanceA balanceB : Balance} {s s' : ChannelState}
    (h : disputed now tx sequence balanceA balanceB s = some s') :
    ∃ channel, s.get tx.channelId = some channel ∧ channel.status = .Open ∧ s' = s.insert
      { channel with
        status := .InDispute
        sequence := sequence
        balanceA := balanceA
        balanceB := balanceB
        disputeStartedAt := some now } := by
  obtain ⟨channel, hget, hif⟩ := Option.bind_eq_some_iff.mp h
  split_ifs at hif with hopen
  cases hif
  exact ⟨channel, hget, hopen.1, rfl⟩

theorem of_closed {blockHeight : UInt64} {channel : Channel} {finalBalanceA finalBalanceB : Balance}
    {s s' : ChannelState} (h : closed blockHeight channel finalBalanceA finalBalanceB s = some s') :
    channel.status = .Open ∧ s' = s.insert
      { channel with
        status := .ClosedCooperative
        balanceA := finalBalanceA
        balanceB := finalBalanceB
        closedAtHeight := some blockHeight } := by
  unfold closed at h
  split_ifs at h with hopen
  cases h
  exact ⟨hopen.1, rfl⟩

/-- The line `src` may change. -/
def ownLine (trustlineId : Hash) (src : Address) (s : TrustLineState) : Option TrustLine :=
  (s.get trustlineId).filter fun trustline => trustline.isParticipant src

/-- The trustline store after the operation of a paid-for transaction. -/
def trustlineChanged (tx : TrustLineTransaction) (s : TrustLineState) : Option TrustLineState :=
  match tx.trustlineType with
  | .Create accountB limitAToB limitBToA qualityIn qualityOut rippleEnabled dimensionalScale =>
    if s.get tx.trustlineId = none ∧ ¬ (dimensionalScale < 1 ∨ 8 < dimensionalScale) ∧
        ¬ (10000 < qualityIn ∨ 10000 < qualityOut)
    then some (s.insert ((trustlineOf blockHeight tx accountB limitAToB limitBToA qualityIn
      qualityOut rippleEnabled dimensionalScale).updateVivianiOracle ext))
    else none
  | .UpdateLimits limitAToB limitBToA =>
    (ownLine tx.trustlineId tx.from s).bind fun trustline =>
      if trustline.status = .Active ∧
          (TrustLineState.withLimits trustline limitAToB limitBToA blockHeight).isBalanced ext = true
      then some (s.insert ((TrustLineState.withLimits trustline limitAToB limitBToA
        blockHeight).updateVivianiOracle ext))
      else none
  | .Freeze =>
    (ownLine tx.trustlineId tx.from s).bind fun trustline =>
      some (s.insert { trustline with status := .Frozen, modifiedAtHeight := blockHeight })
  | .Close =>
    (ownLine tx.trustlineId tx.from s).bind fun trustline =>
      if trustline.balance = 0
      then some (s.insert { trustline with status := .Closed, modifiedAtHeight := blockHeight })
      else none
  | .EvolvePhase deltaTau =>
    (ownLine tx.trustlineId tx.from s).bind fun trustline => some
      (s.insert { trustline.evolvePhase ext deltaTau with modifiedAtHeight := blockHeight })

/-- The pools after the swap of a paid-for transaction. -/
def swapDone (tx : PoolSwapTransaction) (s : DimensionalPoolState) : Option DimensionalPoolState :=
  match s.pools.get tx.poolFrom, s.pools.get tx.poolTo with
  | some src, some dst =>
    let out := DimensionalPoolState.amountOut src dst tx.amountIn
    if tx.amountIn ≤ src.liquidity ∧ tx.minAmountOut ≤ out ∧ out ≤ dst.liquidity
    then some ((s.swapped src dst tx.amountIn blockHeight).recordSwap
      (Transaction.hash ext (.DimensionalPoolSwap tx)) tx.from tx.poolFrom tx.poolTo tx.amountIn
      out blockHeight)
    else none
  | _, _ => none

end Stores

/-- How the marketplace ends the operation of a paid-for transaction: with an error, a panic, or
done, and then with an amount to credit. -/
inductive MarketOutcome where
  | late (s : MarketplaceState)
  | panicked
  | done (s : MarketplaceState) (payee : Address) (amount : Balance)

/-- The marketplace after a solution was accepted, before its bounty is claimed. -/
def solvedStore (src : Address) (solution : Solution) (submission : ProblemSubmission)
    (s : MarketplaceState) : MarketplaceState :=
  s.updateProblem (MarketplaceState.solvedBy src solution submission)

def marketOutcome (ext : Ext) (now : Int64) (tx : MarketplaceTransaction) (s : MarketplaceState) :
    MarketOutcome :=
  match tx.operation with
  | .SubmitProblem problem bounty minWorkScore expirationDays title briefing =>
    if s.problems.get (ProblemType.hash ext problem) = none
    then .done (s.storeSubmission (MarketplaceState.newSubmission ext now (.Public problem) tx.from
      bounty minWorkScore expirationDays title briefing)) tx.from 0
    else .late s
  | .SubmitSolution problemId solution =>
    match MarketplaceState.solutionVerdict now problemId solution s with
    | .refused => .late s
    | .expired submission => .late (s.updateProblem { submission with status := .Expired })
    | .panics => .panicked
    | .solved submission =>
      match s.escrow problemId with
      | some bounty =>
        .done ((solvedStore tx.from solution submission s).removeEscrow problemId) tx.from bounty
      | none => .late (solvedStore tx.from solution submission s)
  | .ClaimBounty problemId =>
    match MarketplaceState.claimable problemId s with
    | some (solver, bounty) => .done (s.removeEscrow problemId) solver bounty
    | none => .late s
  | .CancelProblem problemId =>
    match MarketplaceState.cancellable problemId tx.from s with
    | some (submission, bounty) =>
      .done ((s.removeEscrow problemId).updateProblem { submission with status := .Cancelled })
        tx.from bounty
    | none => .late s

/-! ### The outcome -/

inductive Outcome where
  /-- An error; nothing was written. -/
  | refused
  /-- An error; the ledger is left as `L`. -/
  | late (L : Ledger)
  /-- A panic; the ledger is left as `L`. -/
  | panicked (L : Ledger)
  | done (L : Ledger)

/-- The ledger an outcome leaves at `L`. -/
def after (L : Ledger) : Outcome → Ledger
  | .refused => L
  | .late L' | .panicked L' | .done L' => L'

/-- The sender pays `cost` and its nonce is set to the one after `nonce`. -/
def charge (a : Address) (cost : Balance) (nonce : UInt64) (L : Ledger) : Ledger :=
  (L.debit a cost).setNonce a (nonce + 1)

/-- What a marketplace transaction charges. -/
def marketCost (tx : MarketplaceTransaction) : Balance :=
  match tx.operation with
  | .SubmitProblem _ bounty .. => tx.fee + bounty
  | .SubmitSolution .. | .ClaimBounty .. | .CancelProblem .. => tx.fee

variable (ext : Ext) (now : Int64) (blockHeight : UInt64)

def outcome : Transaction → Ledger → Outcome
  | .Transfer tx, L =>
    if L.balance tx.from < tx.amount + tx.fee then .refused
    else .done ((charge tx.from (tx.amount + tx.fee) tx.nonce L).credit tx.to tx.amount)
  | .TimeLock tx, L =>
    if L.balance tx.from < tx.amount + tx.fee then .refused
    else .done (onTimelocks (TimeLockState.addTimelock (timelockOf ext blockHeight tx))
      (charge tx.from (tx.amount + tx.fee) tx.nonce L))
  | .Escrow tx, L =>
    match tx.escrowType with
    | .Create recipient arbiter amount timeout conditionsHash =>
      if L.balance tx.from < amount + tx.fee then .refused
      else
        let charged := charge tx.from (amount + tx.fee) tx.nonce L
        if L.escrows.get tx.escrowId = none
        then .done (charged.withEscrows (L.escrows.insert
          (escrowOf blockHeight tx recipient arbiter amount timeout conditionsHash)))
        else .late charged
    | .Release =>
      match L.escrows.get tx.escrowId with
      | none => .refused
      | some escrow =>
        if L.escrows.canRelease tx.escrowId tx.from = true
        then .done ((L.credit escrow.recipient escrow.amount).withEscrows (L.escrows.insert
          { escrow with status := .Released, resolvedAtHeight := some blockHeight }))
        else .refused
    | .Refund =>
      match L.escrows.get tx.escrowId with
      | none => .refused
      | some escrow =>
        if L.escrows.canRefund now tx.escrowId tx.from = true
        then .done ((L.credit escrow.sender escrow.amount).withEscrows (L.escrows.insert
          { escrow with status := .Refunded, resolvedAtHeight := some blockHeight }))
        else .refused
  | .Channel tx, L =>
    match tx.channelType with
    | .Open participantA participantB depositA depositB timeout =>
      let deposit := initiatorDeposit tx.from participantA depositA depositB
      if L.balance tx.from < deposit + tx.fee then .refused
      else
        let charged := charge tx.from (deposit + tx.fee) tx.nonce L
        if L.channels.get tx.channelId = none
        then .done (charged.withChannels (L.channels.insert
          (channelOf blockHeight tx participantA participantB depositA depositB timeout)))
        else .late charged
    | .Update sequence balanceA balanceB =>
      match updated tx sequence balanceA balanceB L.channels with
      | some s => .done (L.withChannels s)
      | none => .refused
    | .CooperativeClose finalBalanceA finalBalanceB =>
      match L.channels.get tx.channelId with
      | none => .refused
      | some channel =>
        let credited := (L.credit channel.participantA finalBalanceA).credit channel.participantB
          finalBalanceB
        match closed blockHeight channel finalBalanceA finalBalanceB L.channels with
        | some s => .done (credited.withChannels s)
        | none => .late credited
    | .UnilateralClose sequence balanceA balanceB _ =>
      match disputed now tx sequence balanceA balanceB L.channels with
      | some s => .done (L.withChannels s)
      | none => .refused
  | .TrustLine tx, L =>
    if L.balance tx.from < tx.fee then .refused
    else match trustlineChanged ext blockHeight tx L.trustlines with
      | some s => .done ((charge tx.from tx.fee tx.nonce L).withTrustlines s)
      | none => .late (charge tx.from tx.fee tx.nonce L)
  | .DimensionalPoolSwap tx, L =>
    if L.balance tx.from < tx.fee then .refused
    else match swapDone ext blockHeight tx L.pools with
      | some s => .done ((charge tx.from tx.fee tx.nonce L).withPools s)
      | none => .late (charge tx.from tx.fee tx.nonce L)
  | .Marketplace tx, L =>
    if L.balance tx.from < marketCost tx then .refused
    else match marketOutcome ext now tx L.marketplace with
      | .late s => .late ((L.debit tx.from (marketCost tx)).withMarketplace s)
      | .panicked => .panicked (L.debit tx.from (marketCost tx))
      | .done s payee amount =>
        .done ((((L.debit tx.from (marketCost tx)).withMarketplace s).credit payee amount).setNonce
          tx.from (tx.nonce + 1))

/-! ### The cases of `outcome` -/

/-- The ways a transaction can end, with what held before. -/
inductive Effect (ext : Ext) (now : Int64) (blockHeight : UInt64) :
    Transaction → Ledger → Outcome → Prop where
  | refused {tx : Transaction} {L : Ledger} : Effect ext now blockHeight tx L .refused
  | transferred {tx : TransferTransaction} {L : Ledger}
      (hpays : ¬ L.balance tx.from < tx.amount + tx.fee) :
      Effect ext now blockHeight (.Transfer tx) L
        (.done ((charge tx.from (tx.amount + tx.fee) tx.nonce L).credit tx.to tx.amount))
  | locked {tx : TimeLockTransaction} {L : Ledger}
      (hpays : ¬ L.balance tx.from < tx.amount + tx.fee) :
      Effect ext now blockHeight (.TimeLock tx) L
        (.done (onTimelocks (TimeLockState.addTimelock (timelockOf ext blockHeight tx))
          (charge tx.from (tx.amount + tx.fee) tx.nonce L)))
  | escrowed {tx : EscrowTransaction} {L : Ledger} {recipient : Address} {arbiter : Option Address}
      {amount : Balance} {timeout : Int64} {conditionsHash : Hash}
      (htype : tx.escrowType = .Create recipient arbiter amount timeout conditionsHash)
      (hpays : ¬ L.balance tx.from < amount + tx.fee) (hnew : L.escrows.get tx.escrowId = none) :
      Effect ext now blockHeight (.Escrow tx) L
        (.done ((charge tx.from (amount + tx.fee) tx.nonce L).withEscrows (L.escrows.insert
          (escrowOf blockHeight tx recipient arbiter amount timeout conditionsHash))))
  | escrowTaken {tx : EscrowTransaction} {L : Ledger} {recipient : Address}
      {arbiter : Option Address} {amount : Balance} {timeout : Int64} {conditionsHash : Hash}
      (htype : tx.escrowType = .Create recipient arbiter amount timeout conditionsHash)
      (hpays : ¬ L.balance tx.from < amount + tx.fee) (htaken : L.escrows.get tx.escrowId ≠ none) :
      Effect ext now blockHeight (.Escrow tx) L
        (.late (charge tx.from (amount + tx.fee) tx.nonce L))
  | released {tx : EscrowTransaction} {L : Ledger} {escrow : Escrow} (htype : tx.escrowType = .Release)
      (hget : L.escrows.get tx.escrowId = some escrow)
      (hcan : L.escrows.canRelease tx.escrowId tx.from = true) :
      Effect ext now blockHeight (.Escrow tx) L
        (.done ((L.credit escrow.recipient escrow.amount).withEscrows (L.escrows.insert
          { escrow with status := .Released, resolvedAtHeight := some blockHeight })))
  | refunded {tx : EscrowTransaction} {L : Ledger} {escrow : Escrow} (htype : tx.escrowType = .Refund)
      (hget : L.escrows.get tx.escrowId = some escrow)
      (hcan : L.escrows.canRefund now tx.escrowId tx.from = true) :
      Effect ext now blockHeight (.Escrow tx) L
        (.done ((L.credit escrow.sender escrow.amount).withEscrows (L.escrows.insert
          { escrow with status := .Refunded, resolvedAtHeight := some blockHeight })))
  | opened {tx : ChannelTransaction} {L : Ledger} {participantA participantB : Address}
      {depositA depositB : Balance} {timeout : Int64}
      (htype : tx.channelType = .Open participantA participantB depositA depositB timeout)
      (hpays : ¬ L.balance tx.from <
        initiatorDeposit tx.from participantA depositA depositB + tx.fee)
      (hnew : L.channels.get tx.channelId = none) :
      Effect ext now blockHeight (.Channel tx) L
        (.done ((charge tx.from (initiatorDeposit tx.from participantA depositA depositB + tx.fee)
          tx.nonce L).withChannels (L.channels.insert
            (channelOf blockHeight tx participantA participantB depositA depositB timeout))))
  | channelTaken {tx : ChannelTransaction} {L : Ledger} {participantA participantB : Address}
      {depositA depositB : Balance} {timeout : Int64}
      (htype : tx.channelType = .Open participantA participantB depositA depositB timeout)
      (hpays : ¬ L.balance tx.from <
        initiatorDeposit tx.from participantA depositA depositB + tx.fee)
      (htaken : L.channels.get tx.channelId ≠ none) :
      Effect ext now blockHeight (.Channel tx) L
        (.late (charge tx.from (initiatorDeposit tx.from participantA depositA depositB + tx.fee)
          tx.nonce L))
  | updated {tx : ChannelTransaction} {L : Ledger} {sequence : UInt64} {balanceA balanceB : Balance}
      {s : ChannelState} (htype : tx.channelType = .Update sequence balanceA balanceB)
      (hs : updated tx sequence balanceA balanceB L.channels = some s) :
      Effect ext now blockHeight (.Channel tx) L (.done (L.withChannels s))
  | closed {tx : ChannelTransaction} {L : Ledger} {finalBalanceA finalBalanceB : Balance}
      {channel : Channel} {s : ChannelState}
      (htype : tx.channelType = .CooperativeClose finalBalanceA finalBalanceB)
      (hget : L.channels.get tx.channelId = some channel)
      (hs : closed blockHeight channel finalBalanceA finalBalanceB L.channels = some s) :
      Effect ext now blockHeight (.Channel tx) L
        (.done (((L.credit channel.participantA finalBalanceA).credit channel.participantB
          finalBalanceB).withChannels s))
  | notClosed {tx : ChannelTransaction} {L : Ledger} {finalBalanceA finalBalanceB : Balance}
      {channel : Channel} (htype : tx.channelType = .CooperativeClose finalBalanceA finalBalanceB)
      (hget : L.channels.get tx.channelId = some channel)
      (hs : closed blockHeight channel finalBalanceA finalBalanceB L.channels = none) :
      Effect ext now blockHeight (.Channel tx) L
        (.late ((L.credit channel.participantA finalBalanceA).credit channel.participantB
          finalBalanceB))
  | disputed {tx : ChannelTransaction} {L : Ledger} {sequence : UInt64} {balanceA balanceB : Balance}
      {disputeProof : Lib.Bincode.Bytes} {s : ChannelState}
      (htype : tx.channelType = .UnilateralClose sequence balanceA balanceB disputeProof)
      (hs : disputed now tx sequence balanceA balanceB L.channels = some s) :
      Effect ext now blockHeight (.Channel tx) L (.done (L.withChannels s))
  | trustlineChanged {tx : TrustLineTransaction} {L : Ledger} {s : TrustLineState}
      (hpays : ¬ L.balance tx.from < tx.fee)
      (hs : trustlineChanged ext blockHeight tx L.trustlines = some s) :
      Effect ext now blockHeight (.TrustLine tx) L
        (.done ((charge tx.from tx.fee tx.nonce L).withTrustlines s))
  | trustlineKept {tx : TrustLineTransaction} {L : Ledger} (hpays : ¬ L.balance tx.from < tx.fee)
      (hs : trustlineChanged ext blockHeight tx L.trustlines = none) :
      Effect ext now blockHeight (.TrustLine tx) L (.late (charge tx.from tx.fee tx.nonce L))
  | swapped {tx : PoolSwapTransaction} {L : Ledger} {s : DimensionalPoolState}
      (hpays : ¬ L.balance tx.from < tx.fee) (hs : swapDone ext blockHeight tx L.pools = some s) :
      Effect ext now blockHeight (.DimensionalPoolSwap tx) L
        (.done ((charge tx.from tx.fee tx.nonce L).withPools s))
  | notSwapped {tx : PoolSwapTransaction} {L : Ledger} (hpays : ¬ L.balance tx.from < tx.fee)
      (hs : swapDone ext blockHeight tx L.pools = none) :
      Effect ext now blockHeight (.DimensionalPoolSwap tx) L
        (.late (charge tx.from tx.fee tx.nonce L))
  | marketDone {tx : MarketplaceTransaction} {L : Ledger} {s : MarketplaceState} {payee : Address}
      {amount : Balance} (hpays : ¬ L.balance tx.from < marketCost tx)
      (hs : marketOutcome ext now tx L.marketplace = .done s payee amount) :
      Effect ext now blockHeight (.Marketplace tx) L
        (.done ((((L.debit tx.from (marketCost tx)).withMarketplace s).credit payee amount).setNonce
          tx.from (tx.nonce + 1)))
  | marketLate {tx : MarketplaceTransaction} {L : Ledger} {s : MarketplaceState}
      (hpays : ¬ L.balance tx.from < marketCost tx)
      (hs : marketOutcome ext now tx L.marketplace = .late s) :
      Effect ext now blockHeight (.Marketplace tx) L
        (.late ((L.debit tx.from (marketCost tx)).withMarketplace s))
  | marketPanicked {tx : MarketplaceTransaction} {L : Ledger}
      (hpays : ¬ L.balance tx.from < marketCost tx)
      (hs : marketOutcome ext now tx L.marketplace = .panicked) :
      Effect ext now blockHeight (.Marketplace tx) L
        (.panicked (L.debit tx.from (marketCost tx)))

/-- `outcome` is one of the cases. -/
theorem effect_outcome (tx : Transaction) (L : Ledger) :
    Effect ext now blockHeight tx L (outcome ext now blockHeight tx L) := by
  cases tx with
  | Transfer tx =>
    simp only [outcome]
    split_ifs with h
    · exact .refused
    · exact .transferred h
  | TimeLock tx =>
    simp only [outcome]
    split_ifs with h
    · exact .refused
    · exact .locked h
  | Escrow tx =>
    rcases htype : tx.escrowType with ⟨recipient, arbiter, amount, timeout, conditionsHash⟩ | _ | _
    · simp only [outcome, htype]
      split_ifs with h1 h2
      · exact .refused
      · exact .escrowed htype h1 h2
      · exact .escrowTaken htype h1 h2
    · simp only [outcome, htype]
      rcases hget : L.escrows.get tx.escrowId with _ | escrow
      · exact .refused
      simp only
      split_ifs with h
      · exact .released htype hget h
      · exact .refused
    · simp only [outcome, htype]
      rcases hget : L.escrows.get tx.escrowId with _ | escrow
      · exact .refused
      simp only
      split_ifs with h
      · exact .refunded htype hget h
      · exact .refused
  | Channel tx =>
    rcases htype : tx.channelType with ⟨participantA, participantB, depositA, depositB, timeout⟩ |
      ⟨sequence, balanceA, balanceB⟩ | ⟨finalBalanceA, finalBalanceB⟩ |
      ⟨sequence, balanceA, balanceB, disputeProof⟩
    · simp only [outcome, htype]
      split_ifs with h1 h2
      · exact .refused
      · exact .opened htype h1 h2
      · exact .channelTaken htype h1 h2
    · simp only [outcome, htype]
      rcases hs : Outcomes.updated tx sequence balanceA balanceB L.channels with _ | s
      · exact .refused
      · exact .updated htype hs
    · simp only [outcome, htype]
      rcases hget : L.channels.get tx.channelId with _ | channel
      · exact .refused
      simp only
      rcases hs : Outcomes.closed blockHeight channel finalBalanceA finalBalanceB L.channels with _ | s
      · exact .notClosed htype hget hs
      · exact .closed htype hget hs
    · simp only [outcome, htype]
      rcases hs : Outcomes.disputed now tx sequence balanceA balanceB L.channels with _ | s
      · exact .refused
      · exact .disputed htype hs
  | TrustLine tx =>
    simp only [outcome]
    split_ifs with h
    · exact .refused
    rcases hs : Outcomes.trustlineChanged ext blockHeight tx L.trustlines with _ | s
    · exact .trustlineKept h hs
    · exact .trustlineChanged h hs
  | DimensionalPoolSwap tx =>
    simp only [outcome]
    split_ifs with h
    · exact .refused
    rcases hs : swapDone ext blockHeight tx L.pools with _ | s
    · exact .notSwapped h hs
    · exact .swapped h hs
  | Marketplace tx =>
    simp only [outcome]
    split_ifs with h
    · exact .refused
    rcases hs : marketOutcome ext now tx L.marketplace with s | _ | ⟨s, payee, amount⟩
    · exact .marketLate h hs
    · exact .marketPanicked h hs
    · exact .marketDone h hs

/-! ### The code ends as `outcome` says -/

def Ends (x : Exec Failure Ledger Unit) (L : Ledger) : Outcome → Prop
  | .refused => ∃ m, run x L = (.error (.err m), L)
  | .late L' => ∃ m, run x L = (.error (.err m), L')
  | .panicked L' => run x L = (.error .panic, L')
  | .done L' => run x L = (.ok (), L')

variable {L : Ledger}

/-- What was debited in two steps is debited in one. -/
theorem charge_eq (a : Address) (x y : Balance) (nonce : UInt64) (L : Ledger) :
    setNonce a (nonce + 1) (setBalance a (L.balance a - x - y) L) = charge a (x + y) nonce L := by
  rw [charge, debit, sub_sub]

theorem ends_applyTransfer (tx : TransferTransaction) :
    Ends (applyTransfer tx) L (outcome ext now blockHeight (.Transfer tx) L) := by
  simp only [applyTransfer, outcome]
  split_ifs with h
  · simp only [Ends, run_gets_bind, run_rejectIf_bind, if_pos h]
    exact ⟨_, rfl⟩
  · simp only [Ends, run_gets_bind, run_rejectIf_bind, if_neg h, run_modify_bind, run_modify,
      charge_eq]
    rfl

theorem ends_applyTimeLock (tx : TimeLockTransaction) :
    Ends (applyTimeLock ext blockHeight tx) L (outcome ext now blockHeight (.TimeLock tx) L) := by
  simp only [applyTimeLock, outcome]
  split_ifs with h
  · simp only [Ends, run_gets_bind, run_rejectIf_bind, if_pos h]
    exact ⟨_, rfl⟩
  · simp only [Ends, run_gets_bind, run_rejectIf_bind, if_neg h, run_modify_bind, run_modify,
      charge_eq]

theorem ends_applyEscrow (tx : EscrowTransaction) :
    Ends (applyEscrow now blockHeight tx) L (outcome ext now blockHeight (.Escrow tx) L) := by
  rcases htype : tx.escrowType with ⟨recipient, arbiter, amount, timeout, conditionsHash⟩ | _ | _
  · simp only [applyEscrow, outcome, htype]
    have hstore := EscrowState.createEscrow_guarded
      (escrowOf blockHeight tx recipient arbiter amount timeout conditionsHash) L.escrows
    split_ifs with h1 h2
    · simp only [Ends, run_gets_bind, run_rejectIf_bind, if_pos h1]
      exact ⟨_, rfl⟩
    · simp only [Ends, run_gets_bind, run_rejectIf_bind, if_neg h1, run_modify_bind, charge_eq]
      exact EndsAs.onEscrows (L := charge tx.from (amount + tx.fee) tx.nonce L)
        (.of_ok (hstore.ok h2))
    · simp only [Ends, run_gets_bind, run_rejectIf_bind, if_neg h1, run_modify_bind, charge_eq]
      exact EndsAs.onEscrows (L := charge tx.from (amount + tx.fee) tx.nonce L)
        (.of_err (hstore.refused h2))
  · simp only [applyEscrow, outcome, htype]
    rcases hget : L.escrows.get tx.escrowId with _ | escrow
    · simp only [Ends, run_gets_bind, EscrowState.getEscrow, hget, run_okOr_none_bind]
      exact ⟨_, rfl⟩
    · split_ifs with h1
      · simp only [Ends, run_gets_bind, EscrowState.getEscrow, hget, run_okOr_some_bind,
          run_rejectIf_bind, h1, Bool.not_true, Bool.false_eq_true, if_false, run_modify_bind]
        exact EndsAs.onEscrows (L := L.credit escrow.recipient escrow.amount)
          (.of_ok (EscrowState.run_updateEscrowStatus hget ..))
      · simp only [Ends, run_gets_bind, EscrowState.getEscrow, hget, run_okOr_some_bind,
          run_rejectIf_bind, h1, Bool.not_false, if_true]
        exact ⟨_, rfl⟩
  · simp only [applyEscrow, outcome, htype]
    rcases hget : L.escrows.get tx.escrowId with _ | escrow
    · simp only [Ends, run_gets_bind, EscrowState.getEscrow, hget, run_okOr_none_bind]
      exact ⟨_, rfl⟩
    · split_ifs with h1
      · simp only [Ends, run_gets_bind, EscrowState.getEscrow, hget, run_okOr_some_bind,
          run_rejectIf_bind, h1, Bool.not_true, Bool.false_eq_true, if_false, run_modify_bind]
        exact EndsAs.onEscrows (L := L.credit escrow.sender escrow.amount)
          (.of_ok (EscrowState.run_updateEscrowStatus hget ..))
      · simp only [Ends, run_gets_bind, EscrowState.getEscrow, hget, run_okOr_some_bind,
          run_rejectIf_bind, h1, Bool.not_false, if_true]
        exact ⟨_, rfl⟩

theorem endsAs_update (tx : ChannelTransaction) (sequence : UInt64) (balanceA balanceB : Balance)
    (s : ChannelState) :
    EndsAs (ChannelState.updateChannelState tx.channelId sequence balanceA balanceB) s
      ((updated tx sequence balanceA balanceB s).map fun s' => ((), s')) := by
  unfold updated
  rcases hget : s.get tx.channelId with _ | channel
  · exact .of_err ⟨_, ChannelState.updateChannelState_none hget ..⟩
  · have h := EndsAs.of_guarded
      (ChannelState.updateChannelState_guarded hget sequence balanceA balanceB)
    simp only [Option.bind_some]
    split_ifs at h ⊢ with hg
    · exact h
    · exact h

theorem endsAs_dispute {tx : ChannelTransaction} {channel : Channel} {s : ChannelState}
    (hget : s.get tx.channelId = some channel) (sequence : UInt64) (balanceA balanceB : Balance) :
    EndsAs (ChannelState.startDispute now tx.channelId sequence balanceA balanceB) s
      ((disputed now tx sequence balanceA balanceB s).map fun s' => ((), s')) := by
  have h := EndsAs.of_guarded
    (ChannelState.startDispute_guarded hget now sequence balanceA balanceB)
  simp only [disputed, hget, Option.bind_some]
  split_ifs at h ⊢ with hg
  · exact h
  · exact h

theorem endsAs_close {tx : ChannelTransaction} {channel : Channel} {s : ChannelState}
    (hget : s.get tx.channelId = some channel) (finalBalanceA finalBalanceB : Balance) :
    EndsAs (ChannelState.closeCooperative tx.channelId finalBalanceA finalBalanceB blockHeight) s
      ((closed blockHeight channel finalBalanceA finalBalanceB s).map fun s' => ((), s')) := by
  have h := EndsAs.of_guarded
    (ChannelState.closeCooperative_guarded hget finalBalanceA finalBalanceB blockHeight)
  unfold closed
  split_ifs at h ⊢ with hg
  · exact h
  · exact h

theorem ends_applyChannel (tx : ChannelTransaction) :
    Ends (applyChannel now blockHeight tx) L (outcome ext now blockHeight (.Channel tx) L) := by
  rcases htype : tx.channelType with ⟨participantA, participantB, depositA, depositB, timeout⟩ |
    ⟨sequence, balanceA, balanceB⟩ | ⟨finalBalanceA, finalBalanceB⟩ |
    ⟨sequence, balanceA, balanceB, disputeProof⟩
  · simp only [applyChannel, outcome, htype]
    have hstore := ChannelState.openChannel_guarded
      (channelOf blockHeight tx participantA participantB depositA depositB timeout)
      rfl rfl L.channels
    split_ifs with h1 h2
    · simp only [Ends, run_gets_bind, run_rejectIf_bind, if_pos h1]
      exact ⟨_, rfl⟩
    · simp only [Ends, run_gets_bind, run_rejectIf_bind, if_neg h1, run_modify_bind, charge_eq]
      exact EndsAs.onChannels (L := charge tx.from _ tx.nonce L) (.of_ok (hstore.ok h2))
    · simp only [Ends, run_gets_bind, run_rejectIf_bind, if_neg h1, run_modify_bind, charge_eq]
      exact EndsAs.onChannels (L := charge tx.from _ tx.nonce L) (.of_err (hstore.refused h2))
  · simp only [applyChannel, outcome, htype]
    have hstore := EndsAs.onChannels (endsAs_update tx sequence balanceA balanceB L.channels)
    rcases hu : updated tx sequence balanceA balanceB L.channels with _ | s
    all_goals
      rw [hu] at hstore
      exact hstore
  · simp only [applyChannel, outcome, htype]
    rcases hget : L.channels.get tx.channelId with _ | channel
    · simp only [Ends, run_gets_bind, ChannelState.getChannel, hget, run_okOr_none_bind]
      exact ⟨_, rfl⟩
    · have hstore := EndsAs.onChannels (L := (L.credit channel.participantA finalBalanceA).credit
        channel.participantB finalBalanceB) (endsAs_close blockHeight hget finalBalanceA finalBalanceB)
      rcases hc : closed blockHeight channel finalBalanceA finalBalanceB L.channels with _ | s
      all_goals
        rw [hc] at hstore
        simp only [Ends, run_gets_bind, ChannelState.getChannel, hget, run_okOr_some_bind,
          run_modify_bind, hc]
        exact hstore
  · simp only [applyChannel, outcome, htype]
    rcases hget : L.channels.get tx.channelId with _ | channel
    · simp only [Ends, disputed, run_gets_bind, ChannelState.getChannel, hget, run_okOr_none_bind,
        Option.bind_none]
      exact ⟨_, rfl⟩
    · have hstore := EndsAs.onChannels
        (endsAs_dispute now hget sequence balanceA balanceB)
      rcases hd : disputed now tx sequence balanceA balanceB L.channels with _ | s
      all_goals
        rw [hd] at hstore
        simp only [Ends, run_gets_bind, ChannelState.getChannel, hget, run_okOr_some_bind]
        exact hstore

theorem endsAs_participantLine (trustlineId : Hash) (src : Address) (doing : String)
    (s : TrustLineState) :
    EndsAs (participantLine trustlineId src doing) s ((ownLine trustlineId src s).map fun _ => ((), s)) := by
  simp only [participantLine, ownLine]
  rcases hget : s.get trustlineId with _ | trustline
  · refine .of_err ⟨"TrustLine not found", ?_⟩
    simp only [run_gets_bind, hget, run_okOr_none_bind]
  · by_cases hp : trustline.isParticipant src = true
    · simp only [Option.filter_some, hp, if_true, Option.map_some]
      refine .of_ok ?_
      simp only [run_gets_bind, hget, run_okOr_some_bind]
      simp [rejectIf, throwIf, hp]
    · simp only [Option.filter_some, hp]
      refine .of_err ⟨"Not authorized to " ++ doing, ?_⟩
      simp only [run_gets_bind, hget, run_okOr_some_bind, rejectIf, throwIf, hp, Bool.not_false,
        if_true, run_throw]

/-- A line that is not the sender's is refused; on one that is, the operation runs. -/
theorem endsAs_ownLine {trustlineId : Hash} {src : Address} {doing : String} {s : TrustLineState}
    {x : Exec Failure TrustLineState Unit} {o : TrustLine → Option TrustLineState}
    (h : ∀ trustline, s.get trustlineId = some trustline →
      EndsAs x s ((o trustline).map fun s' => ((), s'))) :
    EndsAs (do participantLine trustlineId src doing; x) s
      (((ownLine trustlineId src s).bind o).map fun s' => ((), s')) := by
  have hline := endsAs_participantLine trustlineId src doing s
  rcases hown : ownLine trustlineId src s with _ | trustline
  · rw [hown] at hline
    exact hline.bind_none _
  · rw [hown] at hline
    have hget : s.get trustlineId = some trustline := by
      unfold ownLine at hown
      exact (Option.filter_eq_some_iff.mp hown).1
    have hx := h trustline hget
    simp only [Option.bind_some]
    rcases ho : o trustline with _ | s'
    all_goals rw [ho] at hx
    · obtain ⟨m, hm⟩ := hx
      exact .of_err ⟨m, by rw [hline.bind_some, hm]⟩
    · exact .of_ok (by rw [hline.bind_some]; exact hx)

theorem endsAs_trustlineOperation (tx : TrustLineTransaction) (s : TrustLineState) :
    EndsAs (trustlineOperation ext blockHeight tx) s
      ((trustlineChanged ext blockHeight tx s).map fun s' => ((), s')) := by
  unfold trustlineOperation trustlineChanged
  rcases tx.trustlineType with ⟨accountB, limitAToB, limitBToA, qualityIn, qualityOut, ripple, scale⟩ |
    ⟨limitAToB, limitBToA⟩ | _ | _ | ⟨deltaTau⟩
  · have h := EndsAs.mapErr "Failed to create trustline: " (EndsAs.of_guarded
      (TrustLineState.createTrustline_guarded ((trustlineOf blockHeight tx accountB limitAToB
        limitBToA qualityIn qualityOut ripple scale).updateVivianiOracle ext) s))
    simp only at h ⊢
    split_ifs at h ⊢ with h1 h2 h2
    · exact h
    · exact absurd h1 h2
    · exact absurd h2 h1
    · exact h
  · refine endsAs_ownLine fun trustline hget => ?_
    have h := EndsAs.of_guarded
      (TrustLineState.updateLimits_guarded ext hget limitAToB limitBToA blockHeight)
    split_ifs at h ⊢ with hg
    · exact h
    · exact h
  · refine endsAs_ownLine fun trustline hget => ?_
    exact .of_ok ((TrustLineState.freezeTrustline_guarded hget blockHeight).ok trivial)
  · refine endsAs_ownLine fun trustline hget => ?_
    have h := EndsAs.of_guarded (TrustLineState.closeTrustline_guarded hget blockHeight)
    split_ifs at h ⊢ with hg
    · exact h
    · exact h
  · refine endsAs_ownLine fun trustline hget => ?_
    exact .of_ok ((TrustLineState.evolveTrustlinePhase_guarded ext hget deltaTau blockHeight).ok
      trivial)

theorem ends_applyTrustLine (tx : TrustLineTransaction) :
    Ends (applyTrustLine ext blockHeight tx) L (outcome ext now blockHeight (.TrustLine tx) L) := by
  simp only [applyTrustLine, outcome]
  split_ifs with h
  · simp only [Ends, run_gets_bind, run_rejectIf_bind, if_pos h]
    exact ⟨_, rfl⟩
  · have hstore := EndsAs.onTrustlines (L := charge tx.from tx.fee tx.nonce L)
      (endsAs_trustlineOperation ext blockHeight tx L.trustlines)
    rcases ht : trustlineChanged ext blockHeight tx L.trustlines with _ | s
    all_goals
      rw [ht] at hstore
      simp only [Ends, run_gets_bind, run_rejectIf_bind, if_neg h, run_modify_bind]
      exact hstore

theorem endsAs_swapOperation (tx : PoolSwapTransaction) (s : DimensionalPoolState) :
    EndsAs (swapOperation ext blockHeight tx) s
      ((swapDone ext blockHeight tx s).map fun s' => ((), s')) := by
  unfold swapOperation swapDone
  rcases hsrc : s.pools.get tx.poolFrom with _ | src
  · exact (EndsAs.of_err (DimensionalPoolState.executeSwap_none (Or.inl hsrc) ..)).bind_none _
  rcases hdst : s.pools.get tx.poolTo with _ | dst
  · exact (EndsAs.of_err (DimensionalPoolState.executeSwap_none (Or.inr hdst) ..)).bind_none _
  have h := DimensionalPoolState.executeSwap_guarded hsrc hdst tx.amountIn tx.minAmountOut blockHeight
  simp only
  split_ifs with hg
  · exact .of_ok ((EndsAs.of_ok (h.ok hg)).bind_some _)
  · exact (EndsAs.of_err (h.refused hg)).bind_none _

theorem ends_applyPoolSwap (tx : PoolSwapTransaction) :
    Ends (applyPoolSwap ext blockHeight tx) L
      (outcome ext now blockHeight (.DimensionalPoolSwap tx) L) := by
  simp only [applyPoolSwap, outcome]
  split_ifs with h
  · simp only [Ends, run_gets_bind, run_rejectIf_bind, if_pos h]
    exact ⟨_, rfl⟩
  · have hstore := EndsAs.onPools (L := charge tx.from tx.fee tx.nonce L)
      (endsAs_swapOperation ext blockHeight tx L.pools)
    rcases hs : swapDone ext blockHeight tx L.pools with _ | s
    all_goals
      rw [hs] at hstore
      simp only [Ends, run_gets_bind, run_rejectIf_bind, if_neg h, run_modify_bind]
      exact hstore

theorem ends_applyMarketplace (tx : MarketplaceTransaction) :
    Ends (applyMarketplace ext now tx) L (outcome ext now blockHeight (.Marketplace tx) L) := by
  rcases hop : tx.operation with ⟨problem, bounty, minWorkScore, expirationDays, title, briefing⟩ |
    ⟨problemId, solution⟩ | ⟨problemId⟩ | ⟨problemId⟩
  · simp only [applyMarketplace, outcome, marketCost, marketOutcome, hop]
    have hstore := MarketplaceState.submitProblem_guarded ext now problem tx.from bounty
      minWorkScore expirationDays title briefing L.marketplace
    split_ifs with h1 h2
    · simp only [Ends, run_gets_bind, run_rejectIf_bind, if_pos h1]
      exact ⟨_, rfl⟩
    · simp only [Ends, run_gets_bind, run_rejectIf_bind, if_neg h1, run_modify_bind, credit_zero]
      exact EndsAs.bind_some (EndsAs.onMarketplace (L := L.debit tx.from (tx.fee + bounty))
        (EndsAs.mapErr _ (.of_ok (hstore.ok h2)))) _
    · simp only [Ends, run_gets_bind, run_rejectIf_bind, if_neg h1, run_modify_bind]
      exact EndsAs.bind_none (EndsAs.onMarketplace (L := L.debit tx.from (tx.fee + bounty))
        (EndsAs.mapErr _ (.of_err (hstore.refused h2)))) _
  · simp only [applyMarketplace, outcome, marketCost, marketOutcome, hop]
    split_ifs with h1
    · simp only [Ends, run_gets_bind, run_rejectIf_bind, if_pos h1]
      exact ⟨_, rfl⟩
    simp only [Ends, run_gets_bind, run_rejectIf_bind, if_neg h1, run_modify_bind]
    have hsolve := MarketplaceState.run_submitSolution now problemId tx.from solution L.marketplace
    rcases hv : MarketplaceState.solutionVerdict now problemId solution L.marketplace with
      _ | submission | _ | submission
    all_goals
      rw [hv] at hsolve
      simp only at hsolve ⊢
    · exact EndsAs.bind_none (EndsAs.onMarketplace (L := L.debit tx.from tx.fee)
        (EndsAs.mapErr _ (.of_err hsolve))) _
    · exact ⟨_, run_bind_error (run_onMarketplace (L := L.debit tx.from tx.fee)
        (run_mapErr_error hsolve _)) _⟩
    · exact run_bind_error (run_onMarketplace (L := L.debit tx.from tx.fee)
        (run_mapErr_error hsolve _)) _
    · have hclaim := MarketplaceState.run_claimBounty problemId
        (solvedStore tx.from solution submission L.marketplace)
      rw [solvedStore, MarketplaceState.claimable_solvedBy
        (MarketplaceState.open_of_verdict (.inl hv)).1]
        at hclaim
      have hbind := fun {β : Type} => run_bind_ok (β := β) (run_onMarketplace
        (L := L.debit tx.from tx.fee) (run_mapErr_ok hsolve
          (Failure.context "Failed to submit solution: ")))
      rcases hb : L.marketplace.escrow problemId with _ | bounty
      all_goals
        rw [hb] at hclaim
      · obtain ⟨m, hm⟩ := hclaim
        exact ⟨_, (hbind _).trans (run_bind_error (run_onMarketplace
          (L := (L.debit tx.from tx.fee).withMarketplace _) (run_mapErr_error hm _)) _)⟩
      · exact (hbind _).trans (run_bind_ok (run_onMarketplace
          (L := (L.debit tx.from tx.fee).withMarketplace _) (run_mapErr_ok hclaim _)) _)
  · simp only [applyMarketplace, outcome, marketCost, marketOutcome, hop]
    have hstore := MarketplaceState.run_claimBounty problemId L.marketplace
    split_ifs with h1
    · simp only [Ends, run_gets_bind, run_rejectIf_bind, if_pos h1]
      exact ⟨_, rfl⟩
    rcases hc : MarketplaceState.claimable problemId L.marketplace with _ | ⟨solver, bounty⟩
    all_goals
      rw [hc] at hstore
      simp only [Ends, run_gets_bind, run_rejectIf_bind, if_neg h1, run_modify_bind]
    · exact EndsAs.bind_none (EndsAs.onMarketplace (L := L.debit tx.from tx.fee)
        (EndsAs.mapErr _ (.of_err hstore))) _
    · exact EndsAs.bind_some (EndsAs.onMarketplace (L := L.debit tx.from tx.fee)
        (EndsAs.mapErr _ (.of_ok hstore))) _
  · simp only [applyMarketplace, outcome, marketCost, marketOutcome, hop]
    have hstore := MarketplaceState.run_cancelProblem problemId tx.from L.marketplace
    split_ifs with h1
    · simp only [Ends, run_gets_bind, run_rejectIf_bind, if_pos h1]
      exact ⟨_, rfl⟩
    rcases hc : MarketplaceState.cancellable problemId tx.from L.marketplace with _ | ⟨sub, bounty⟩
    all_goals
      rw [hc] at hstore
      simp only [Ends, run_gets_bind, run_rejectIf_bind, if_neg h1, run_modify_bind]
    · exact EndsAs.bind_none (EndsAs.onMarketplace (L := L.debit tx.from tx.fee)
        (EndsAs.mapErr _ (.of_err hstore))) _
    · exact EndsAs.bind_some (EndsAs.onMarketplace (L := L.debit tx.from tx.fee)
        (EndsAs.mapErr _ (.of_ok hstore))) _

/-- The code does to a ledger what `outcome` says. -/
theorem run_applySingleTransaction (tx : Transaction) (L : Ledger) :
    Ends (applySingleTransaction ext now blockHeight tx) L (outcome ext now blockHeight tx L) := by
  cases tx with
  | Transfer tx => exact ends_applyTransfer ext now blockHeight tx
  | TimeLock tx => exact ends_applyTimeLock ext now blockHeight tx
  | Escrow tx => exact ends_applyEscrow ext now blockHeight tx
  | Channel tx => exact ends_applyChannel ext now blockHeight tx
  | TrustLine tx => exact ends_applyTrustLine ext now blockHeight tx
  | DimensionalPoolSwap tx => exact ends_applyPoolSwap ext now blockHeight tx
  | Marketplace tx => exact ends_applyMarketplace ext now blockHeight tx

end Coinjecture.Node.Outcomes
