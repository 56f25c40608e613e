import Coinjecture.State.Stores

/-! # Applying a block

`applySingleTransaction` is the code's, branch by branch: every sub-operation reads and writes the
stores in the order of the source and may fail after some of its writes. `applyBlockTransactions`
credits the coinbase to the miner and runs the transactions in order, skipping those that report an
error; a panic ends it.

A branch reads the clock at most once, so a transaction is given one reading, and a block one reading
for each position. Database transactions are taken to commit: the errors of the database itself
are not modelled. -/

namespace Coinjecture.Node.BlockProcessing

open Lib.Effect
open Core.Types Core.Problem Core.Transactions
open Core.Blocks Core.Extern Core.Crypto
open Core.Privacy
open State.Timelocks State.Escrows State.Channels
open State.TrustLines State.DimensionalPools
open State.Marketplace State.Stores State.Stores.Ledger

/-! ### Transfers and time locks -/

def applyTransfer (tx : TransferTransaction) : Exec Failure Ledger Unit := do
  let senderBalance ← gets (balance tx.from)
  rejectIf (senderBalance < tx.amount + tx.fee)
    s!"Insufficient balance: has {senderBalance.toNat}, needs {(tx.amount + tx.fee).toNat}"
  modify (setBalance tx.from (senderBalance - tx.amount - tx.fee))
  modify (setNonce tx.from (tx.nonce + 1))
  let recipientBalance ← gets (balance tx.to)
  modify (setBalance tx.to (recipientBalance + tx.amount))

/-- The record of a time lock; its key is the hash of the whole transaction. -/
def timelockOf (ext : Ext) (blockHeight : UInt64) (tx : TimeLockTransaction) : TimeLock where
  txHash := Transaction.hash ext (.TimeLock tx)
  «from» := tx.from
  recipient := tx.recipient
  amount := tx.amount
  unlockTime := tx.unlockTime
  createdAtHeight := blockHeight

def applyTimeLock (ext : Ext) (blockHeight : UInt64) (tx : TimeLockTransaction) :
    Exec Failure Ledger Unit := do
  let senderBalance ← gets (balance tx.from)
  rejectIf (senderBalance < tx.amount + tx.fee)
    s!"Insufficient balance for timelock: has {senderBalance.toNat}, needs {(tx.amount + tx.fee).toNat}"
  modify (setBalance tx.from (senderBalance - tx.amount - tx.fee))
  modify (setNonce tx.from (tx.nonce + 1))
  modify (onTimelocks (TimeLockState.addTimelock (timelockOf ext blockHeight tx)))

/-! ### Escrows -/

def escrowOf (blockHeight : UInt64) (tx : EscrowTransaction) (recipient : Address)
    (arbiter : Option Address) (amount : Balance) (timeout : Int64) (conditionsHash : Hash) :
    Escrow where
  escrowId := tx.escrowId
  sender := tx.from
  recipient := recipient
  arbiter := arbiter
  amount := amount
  timeout := timeout
  conditionsHash := conditionsHash
  status := .Active
  createdAtHeight := blockHeight
  resolvedAtHeight := none

/-- Neither a release nor a refund looks at the fee or the nonce. -/
def applyEscrow (now : Int64) (blockHeight : UInt64) (tx : EscrowTransaction) :
    Exec Failure Ledger Unit :=
  match tx.escrowType with
  | .Create recipient arbiter amount timeout conditionsHash => do
    let senderBalance ← gets (balance tx.from)
    rejectIf (senderBalance < amount + tx.fee)
      s!"Insufficient balance for escrow: has {senderBalance.toNat}, needs {(amount + tx.fee).toNat}"
    modify (setBalance tx.from (senderBalance - amount - tx.fee))
    modify (setNonce tx.from (tx.nonce + 1))
    onEscrows (EscrowState.createEscrow
      (escrowOf blockHeight tx recipient arbiter amount timeout conditionsHash))
  | .Release => do
    let escrow ← okOr (.err "Escrow not found") (← gets fun L => L.escrows.getEscrow tx.escrowId)
    rejectIf (!(← gets fun L => L.escrows.canRelease tx.escrowId tx.from))
      "Not authorized to release escrow"
    let recipientBalance ← gets (balance escrow.recipient)
    modify (setBalance escrow.recipient (recipientBalance + escrow.amount))
    onEscrows (EscrowState.updateEscrowStatus tx.escrowId .Released (some blockHeight))
  | .Refund => do
    let escrow ← okOr (.err "Escrow not found") (← gets fun L => L.escrows.getEscrow tx.escrowId)
    rejectIf (!(← gets fun L => L.escrows.canRefund now tx.escrowId tx.from))
      "Not authorized to refund escrow"
    let senderBalance ← gets (balance escrow.sender)
    modify (setBalance escrow.sender (senderBalance + escrow.amount))
    onEscrows (EscrowState.updateEscrowStatus tx.escrowId .Refunded (some blockHeight))

/-! ### Channels -/

def channelOf (blockHeight : UInt64) (tx : ChannelTransaction)
    (participantA participantB : Address) (depositA depositB : Balance) (timeout : Int64) :
    Channel where
  channelId := tx.channelId
  participantA := participantA
  participantB := participantB
  depositA := depositA
  depositB := depositB
  balanceA := depositA
  balanceB := depositB
  sequence := 0
  disputeTimeout := timeout
  status := .Open
  openedAtHeight := blockHeight
  closedAtHeight := none
  disputeStartedAt := none

/-- The deposit the sender of an opening pays: only its own. -/
def initiatorDeposit (src participantA : Address) (depositA depositB : Balance) : Balance :=
  if src = participantA then depositA else depositB

/-- A cooperative close credits both participants before the channel store looks at the channel's
status or the sum of the final balances. Only an opening looks at the fee or the nonce. -/
def applyChannel (now : Int64) (blockHeight : UInt64) (tx : ChannelTransaction) :
    Exec Failure Ledger Unit :=
  match tx.channelType with
  | .Open participantA participantB depositA depositB timeout => do
    let initiatorBalance ← gets (balance tx.from)
    let deposit := initiatorDeposit tx.from participantA depositA depositB
    rejectIf (initiatorBalance < deposit + tx.fee)
      s!"Insufficient balance for channel: has {initiatorBalance.toNat}, needs {(deposit + tx.fee).toNat}"
    modify (setBalance tx.from (initiatorBalance - deposit - tx.fee))
    modify (setNonce tx.from (tx.nonce + 1))
    onChannels (ChannelState.openChannel
      (channelOf blockHeight tx participantA participantB depositA depositB timeout))
  | .Update sequence balanceA balanceB =>
    onChannels (ChannelState.updateChannelState tx.channelId sequence balanceA balanceB)
  | .CooperativeClose finalBalanceA finalBalanceB => do
    let channel ← okOr (.err "Channel not found")
      (← gets fun L => L.channels.getChannel tx.channelId)
    let balanceA ← gets (balance channel.participantA)
    modify (setBalance channel.participantA (balanceA + finalBalanceA))
    let balanceB ← gets (balance channel.participantB)
    modify (setBalance channel.participantB (balanceB + finalBalanceB))
    onChannels (ChannelState.closeCooperative tx.channelId finalBalanceA finalBalanceB blockHeight)
  | .UnilateralClose sequence balanceA balanceB _ => do
    let _channel ← okOr (.err "Channel not found")
      (← gets fun L => L.channels.getChannel tx.channelId)
    onChannels (ChannelState.startDispute now tx.channelId sequence balanceA balanceB)

/-! ### Trustlines -/

/-- The record of a new trustline, before its oracle metric is computed. -/
def trustlineOf (blockHeight : UInt64) (tx : TrustLineTransaction) (accountB : Address)
    (limitAToB limitBToA : Balance) (qualityIn qualityOut : UInt16) (rippleEnabled : Bool)
    (dimensionalScale : UInt8) : TrustLine where
  trustlineId := tx.trustlineId
  accountA := tx.from
  accountB := accountB
  limitAToB := limitAToB
  limitBToA := limitBToA
  balance := 0
  qualityIn := qualityIn
  qualityOut := qualityOut
  rippleEnabled := rippleEnabled
  dimensionalScale := dimensionalScale
  tau := Lib.Float64.F64.zero
  vivianiDelta := Lib.Float64.F64.zero
  status := .Active
  createdAtHeight := blockHeight
  modifiedAtHeight := blockHeight

/-- The existing line, if `src` is one of its accounts. -/
def participantLine (trustlineId : Hash) (src : Address) (doing : String) :
    Exec Failure TrustLineState Unit := do
  let trustline ← okOr (.err "TrustLine not found")
    (← gets (TrustLineState.getTrustline trustlineId))
  rejectIf (!trustline.isParticipant src) ("Not authorized to " ++ doing)

/-- What a trustline transaction does to the trustline store, once it is paid for. -/
def trustlineOperation (ext : Ext) (blockHeight : UInt64) (tx : TrustLineTransaction) :
    Exec Failure TrustLineState Unit :=
  match tx.trustlineType with
  | .Create accountB limitAToB limitBToA qualityIn qualityOut rippleEnabled dimensionalScale =>
    mapErr (Failure.context "Failed to create trustline: ") (TrustLineState.createTrustline
      ((trustlineOf blockHeight tx accountB limitAToB limitBToA qualityIn qualityOut rippleEnabled
        dimensionalScale).updateVivianiOracle ext))
  | .UpdateLimits limitAToB limitBToA => do
    participantLine tx.trustlineId tx.from "update trustline"
    TrustLineState.updateLimits ext tx.trustlineId limitAToB limitBToA blockHeight
  | .Freeze => do
    participantLine tx.trustlineId tx.from "freeze trustline"
    TrustLineState.freezeTrustline tx.trustlineId blockHeight
  | .Close => do
    participantLine tx.trustlineId tx.from "close trustline"
    TrustLineState.closeTrustline tx.trustlineId blockHeight
  | .EvolvePhase deltaTau => do
    participantLine tx.trustlineId tx.from "evolve trustline phase"
    TrustLineState.evolveTrustlinePhase ext tx.trustlineId deltaTau blockHeight

def applyTrustLine (ext : Ext) (blockHeight : UInt64) (tx : TrustLineTransaction) :
    Exec Failure Ledger Unit := do
  let senderBalance ← gets (balance tx.from)
  rejectIf (senderBalance < tx.fee)
    s!"Insufficient balance for trustline fee: has {senderBalance.toNat}, needs {tx.fee.toNat}"
  modify (setBalance tx.from (senderBalance - tx.fee))
  modify (setNonce tx.from (tx.nonce + 1))
  onTrustlines (trustlineOperation ext blockHeight tx)

/-! ### Pool swaps -/

/-- What a swap does to the pools, once it is paid for. -/
def swapOperation (ext : Ext) (blockHeight : UInt64) (tx : PoolSwapTransaction) :
    Exec Failure DimensionalPoolState Unit := do
  let amountOut ← DimensionalPoolState.executeSwap tx.poolFrom tx.poolTo tx.amountIn
    tx.minAmountOut blockHeight
  modify (DimensionalPoolState.recordSwap (Transaction.hash ext (.DimensionalPoolSwap tx)) tx.from
    tx.poolFrom tx.poolTo tx.amountIn amountOut blockHeight)

/-- A swap charges the fee only: neither amount touches the account. -/
def applyPoolSwap (ext : Ext) (blockHeight : UInt64) (tx : PoolSwapTransaction) :
    Exec Failure Ledger Unit := do
  let senderBalance ← gets (balance tx.from)
  rejectIf (senderBalance < tx.fee)
    s!"Insufficient balance for pool swap fee: has {senderBalance.toNat}, needs {tx.fee.toNat}"
  modify (setBalance tx.from (senderBalance - tx.fee))
  modify (setNonce tx.from (tx.nonce + 1))
  onPools (swapOperation ext blockHeight tx)

/-! ### The marketplace -/

/-- The nonce is written at the end, so a failing marketplace transaction keeps the old one. -/
def applyMarketplace (ext : Ext) (now : Int64) (tx : MarketplaceTransaction) :
    Exec Failure Ledger Unit := do
  let senderBalance ← gets (balance tx.from)
  match tx.operation with
  | .SubmitProblem problem bounty minWorkScore expirationDays title briefing => do
    let totalNeeded := tx.fee + bounty
    rejectIf (senderBalance < totalNeeded)
      s!"Insufficient balance for problem submission: has {senderBalance.toNat}, needs {totalNeeded.toNat}"
    modify (setBalance tx.from (senderBalance - totalNeeded))
    let _problemId ← onMarketplace (mapErr (Failure.context "Failed to submit problem: ")
      (MarketplaceState.submitProblem ext now (.Public problem) tx.from bounty minWorkScore
        expirationDays title briefing))
  | .SubmitSolution problemId solution => do
    rejectIf (senderBalance < tx.fee)
      s!"Insufficient balance for marketplace fee: has {senderBalance.toNat}, needs {tx.fee.toNat}"
    modify (setBalance tx.from (senderBalance - tx.fee))
    onMarketplace (mapErr (Failure.context "Failed to submit solution: ")
      (MarketplaceState.submitSolution now problemId tx.from solution))
    let (solver, bounty) ← onMarketplace (mapErr (Failure.context "Failed to auto-claim bounty: ")
      (MarketplaceState.claimBounty problemId))
    let solverBalance ← gets (balance solver)
    modify (setBalance solver (solverBalance + bounty))
  | .ClaimBounty problemId => do
    rejectIf (senderBalance < tx.fee)
      s!"Insufficient balance for marketplace fee: has {senderBalance.toNat}, needs {tx.fee.toNat}"
    modify (setBalance tx.from (senderBalance - tx.fee))
    let (solver, bounty) ← onMarketplace (mapErr (Failure.context "Failed to claim bounty: ")
      (MarketplaceState.claimBounty problemId))
    let solverBalance ← gets (balance solver)
    modify (setBalance solver (solverBalance + bounty))
  | .CancelProblem problemId => do
    rejectIf (senderBalance < tx.fee)
      s!"Insufficient balance for marketplace fee: has {senderBalance.toNat}, needs {tx.fee.toNat}"
    modify (setBalance tx.from (senderBalance - tx.fee))
    let bounty ← onMarketplace (mapErr (Failure.context "Failed to cancel problem: ")
      (MarketplaceState.cancelProblem problemId tx.from))
    let submitterBalance ← gets (balance tx.from)
    modify (setBalance tx.from (submitterBalance + bounty))
  modify (setNonce tx.from (tx.nonce + 1))

/-! ### Transactions and blocks -/

/-- `apply_single_transaction`. -/
def applySingleTransaction (ext : Ext) (now : Int64) (blockHeight : UInt64) :
    Transaction → Exec Failure Ledger Unit
  | .Transfer tx => applyTransfer tx
  | .TimeLock tx => applyTimeLock ext blockHeight tx
  | .Escrow tx => applyEscrow now blockHeight tx
  | .Channel tx => applyChannel now blockHeight tx
  | .TrustLine tx => applyTrustLine ext blockHeight tx
  | .DimensionalPoolSwap tx => applyPoolSwap ext blockHeight tx
  | .Marketplace tx => applyMarketplace ext now tx

/-- The loop of `apply_block_transactions`, from position `i` on: the hashes of the transactions that
went through. -/
def applyTransactions (ext : Ext) (clock : ℕ → Int64) (blockHeight : UInt64) :
    ℕ → List Transaction → Exec Failure Ledger (List Hash)
  | _, [] => pure []
  | i, tx :: txs => do
    let result ← attempt (applySingleTransaction ext (clock i) blockHeight tx)
    let appliedTxs ← applyTransactions ext clock blockHeight (i + 1) txs
    match result with
    | .ok () => pure (Transaction.hash ext tx :: appliedTxs)
    | .error _ => pure appliedTxs

/-- `apply_block_transactions`. The coinbase goes to the miner of the header, not to `coinbase.to`. -/
def applyBlockTransactions (ext : Ext) (clock : ℕ → Int64) (block : Block) :
    Exec Failure Ledger (List Hash) := do
  let currentBalance ← gets (balance block.header.miner)
  modify (setBalance block.header.miner (currentBalance + block.coinbase.reward))
  applyTransactions ext clock block.header.height 0 block.transactions

/-! ### Unwinding

With the database errors left out no step of an unwind fails: the one call that could,
`update_escrow_status`, is made on an escrow that was just read. The functions are therefore plain. -/

/-- Take back a credit: the balance falls by `v`, or to zero. -/
def takeBack (a : Address) (v : Balance) (L : Ledger) : Ledger :=
  if v ≤ L.balance a then L.setBalance a (L.balance a - v) else L.setBalance a 0

/-- Take the nonce back by one, unless it is zero. -/
def unwindNonce (a : Address) (L : Ledger) : Ledger :=
  if 0 < L.nonce a then L.setNonce a (L.nonce a - 1) else L

def unwindTransfer (tx : TransferTransaction) (L : Ledger) : Ledger :=
  takeBack tx.to tx.amount
    (unwindNonce tx.from (L.setBalance tx.from (L.balance tx.from + tx.amount + tx.fee)))

def unwindTimeLock (ext : Ext) (tx : TimeLockTransaction) (L : Ledger) : Ledger :=
  onTimelocks (TimeLockState.removeTimelock (Transaction.hash ext (.TimeLock tx)))
    (unwindNonce tx.from (L.setBalance tx.from (L.balance tx.from + tx.amount + tx.fee)))

/-- An unwound creation leaves the escrow in the store; what is paid back is the amount of the escrow
found there. -/
def unwindEscrow (tx : EscrowTransaction) (L : Ledger) : Ledger :=
  match tx.escrowType, L.escrows.getEscrow tx.escrowId with
  | .Create .., some escrow =>
    unwindNonce tx.from (L.setBalance tx.from (L.balance tx.from + escrow.amount + tx.fee))
  | .Release, some escrow =>
    (takeBack escrow.recipient escrow.amount L).withEscrows
      (L.escrows.insert { escrow with status := .Active, resolvedAtHeight := none })
  | .Refund, some escrow =>
    (takeBack escrow.sender escrow.amount L).withEscrows
      (L.escrows.insert { escrow with status := .Active, resolvedAtHeight := none })
  | _, none => L

/-- Neither an update nor a dispute is unwound, and no channel record is ever changed back. -/
def unwindChannel (tx : ChannelTransaction) (L : Ledger) : Ledger :=
  match tx.channelType with
  | .Open participantA _ depositA depositB _ =>
    let deposit := initiatorDeposit tx.from participantA depositA depositB
    unwindNonce tx.from (L.setBalance tx.from (L.balance tx.from + deposit + tx.fee))
  | .CooperativeClose finalBalanceA finalBalanceB =>
    match L.channels.getChannel tx.channelId with
    | some channel =>
      takeBack channel.participantB finalBalanceB (takeBack channel.participantA finalBalanceA L)
    | none => L
  | .Update .. | .UnilateralClose .. => L

/-- The fee and the nonce; the store the transaction changed is left as it is. -/
def unwindFee (src : Address) (fee : Balance) (L : Ledger) : Ledger :=
  unwindNonce src (L.setBalance src (L.balance src + fee))

/-- The bounty of a submission is paid back on top of the balance read at the start. -/
def unwindMarketplace (tx : MarketplaceTransaction) (L : Ledger) : Ledger :=
  match tx.operation with
  | .SubmitProblem _ bounty .. =>
    (unwindFee tx.from tx.fee L).setBalance tx.from (L.balance tx.from + tx.fee + bounty)
  | .SubmitSolution .. | .ClaimBounty .. | .CancelProblem .. => unwindFee tx.from tx.fee L

/-- `unwind_single_transaction`. -/
def unwindSingleTransaction (ext : Ext) : Transaction → Ledger → Ledger
  | .Transfer tx => unwindTransfer tx
  | .TimeLock tx => unwindTimeLock ext tx
  | .Escrow tx => unwindEscrow tx
  | .Channel tx => unwindChannel tx
  | .TrustLine tx => unwindFee tx.from tx.fee
  | .DimensionalPoolSwap tx => unwindFee tx.from tx.fee
  | .Marketplace tx => unwindMarketplace tx

/-- `unwind_block_transactions`: the last transaction first, then the coinbase. -/
def unwindBlockTransactions (ext : Ext) (block : Block) (L : Ledger) : Ledger :=
  takeBack block.header.miner block.coinbase.reward
    (block.transactions.foldr (unwindSingleTransaction ext) L)

end Coinjecture.Node.BlockProcessing
