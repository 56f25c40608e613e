import Coinjecture.Node.Conservation

/-! # Arithmetic that wraps

`operations` lists the additions and subtractions that applying a transaction makes on balances,
amounts, deposits, liquidity and nonces, in order and with their operands. `Fits` is the condition,
on the transaction and the ledger it meets, under which none of them wraps: its own sums fit, the
nonce is not the last one, and who is credited has room for it. What is subtracted is always
covered. -/

namespace Coinjecture.Node.NoWrap

open Lib.Effect Lib.Bincode Lib.Table
open Core.Types Core.Problem Core.Transactions
open Core.Blocks Core.Extern Core.Crypto
open State.Accounts State.Timelocks State.Escrows State.Channels
open State.DimensionalPools State.Marketplace
open State.Stores State.Stores.Ledger
open Node.BlockProcessing Node.Outcomes Node.Runs
open Node.Validator Node.Conservation

/-! ### Operations -/

inductive Operation where
  | add (x y : Balance)
  | sub (x y : Balance)
  /-- The nonce plus one. -/
  | next (nonce : UInt64)

def Operation.Wraps : Operation → Prop
  | .add x y => 2 ^ 128 ≤ x.toNat + y.toNat
  | .sub x y => x.toNat < y.toNat
  | .next nonce => 2 ^ 64 ≤ nonce.toNat + 1

/-- No operation of the list wraps. -/
def NoneWraps (operations : List Operation) : Prop := ∀ op ∈ operations, ¬ op.Wraps

/-- The sender pays an amount and a fee, if they are covered. -/
def paying (src : Address) (amount fee : Balance) (nonce : UInt64) (L : Ledger) : List Operation :=
  .add amount fee :: if L.balance src < amount + fee then [] else
    [.sub (L.balance src) amount, .sub (L.balance src - amount) fee, .next nonce]

/-- The sender pays a fee only. -/
def payingFee (src : Address) (fee : Balance) (nonce : UInt64) (L : Ledger) : List Operation :=
  if L.balance src < fee then [] else [.sub (L.balance src) fee, .next nonce]

/-- The balances of a channel are compared with its capacity. -/
def comparing (balanceA balanceB : Balance) (channel : Channel) : List Operation :=
  [.add balanceA balanceB, .add channel.depositA channel.depositB]

/-- The liquidity of two pools is lowered. -/
def swapping (tx : PoolSwapTransaction) (s : DimensionalPoolState) : List Operation :=
  match s.pools.get tx.poolFrom, s.pools.get tx.poolTo with
  | some src, some dst =>
    let out := DimensionalPoolState.amountOut src dst tx.amountIn
    if tx.amountIn ≤ src.liquidity ∧ tx.minAmountOut ≤ out ∧ out ≤ dst.liquidity
    then [.sub src.liquidity tx.amountIn, .sub dst.liquidity out]
    else []
  | _, _ => []

/-- The marketplace pays out to an account, if it does, and the nonce is written. -/
def paidOut (nonce : UInt64) (L : Ledger) : MarketOutcome → List Operation
  | .late _ | .panicked => []
  | .done s payee amount => [.add ((L.withMarketplace s).balance payee) amount, .next nonce]

variable (ext : Ext)

/-- The additions and subtractions of `applySingleTransaction`. -/
def operations (now : Int64) : Transaction → Ledger → List Operation
  | .Transfer tx, L =>
    paying tx.from tx.amount tx.fee tx.nonce L ++
      if L.balance tx.from < tx.amount + tx.fee then [] else
        [.add ((charge tx.from (tx.amount + tx.fee) tx.nonce L).balance tx.to) tx.amount]
  | .TimeLock tx, L => paying tx.from tx.amount tx.fee tx.nonce L
  | .Escrow tx, L =>
    match tx.escrowType with
    | .Create _ _ amount _ _ => paying tx.from amount tx.fee tx.nonce L
    | .Release =>
      match L.escrows.get tx.escrowId with
      | none => []
      | some escrow =>
        if L.escrows.canRelease tx.escrowId tx.from = true
        then [.add (L.balance escrow.recipient) escrow.amount] else []
    | .Refund =>
      match L.escrows.get tx.escrowId with
      | none => []
      | some escrow =>
        if L.escrows.canRefund now tx.escrowId tx.from = true
        then [.add (L.balance escrow.sender) escrow.amount] else []
  | .Channel tx, L =>
    match tx.channelType with
    | .Open participantA _ depositA depositB _ =>
      paying tx.from (initiatorDeposit tx.from participantA depositA depositB) tx.fee tx.nonce L
    | .Update sequence balanceA balanceB =>
      match L.channels.get tx.channelId with
      | none => []
      | some channel =>
        if channel.status = .Open ∧ channel.sequence < sequence
        then comparing balanceA balanceB channel else []
    | .CooperativeClose finalBalanceA finalBalanceB =>
      match L.channels.get tx.channelId with
      | none => []
      | some channel =>
        [.add (L.balance channel.participantA) finalBalanceA,
          .add ((L.credit channel.participantA finalBalanceA).balance channel.participantB)
            finalBalanceB] ++
          if channel.status = .Open then comparing finalBalanceA finalBalanceB channel else []
    | .UnilateralClose _ balanceA balanceB _ =>
      match L.channels.get tx.channelId with
      | none => []
      | some channel => if channel.status = .Open then comparing balanceA balanceB channel else []
  | .TrustLine tx, L => payingFee tx.from tx.fee tx.nonce L
  | .DimensionalPoolSwap tx, L =>
    payingFee tx.from tx.fee tx.nonce L ++
      if L.balance tx.from < tx.fee then [] else swapping tx L.pools
  | .Marketplace tx, L =>
    match tx.operation with
    | .SubmitProblem problem bounty .. =>
      .add tx.fee bounty :: if L.balance tx.from < tx.fee + bounty then [] else
        .sub (L.balance tx.from) (tx.fee + bounty) ::
          if L.marketplace.problems.get (ProblemType.hash ext problem) = none
          then [.next tx.nonce] else []
    | .SubmitSolution .. | .ClaimBounty .. | .CancelProblem .. =>
      if L.balance tx.from < tx.fee then [] else
        .sub (L.balance tx.from) tx.fee ::
          paidOut tx.nonce (L.debit tx.from tx.fee) (marketOutcome ext now tx L.marketplace)

/-- The operations of a step of a block. -/
def stepOperations : Step → List Operation
  | (.coinbase miner reward, L) => [.add (L.balance miner) reward]
  | (.transaction now _ tx, L) => operations ext now tx L

/-! ### When they do not wrap -/

/-- The amount and the fee have a sum, and a nonce that is used is not the last one. -/
def PaysFits (src : Address) (amount fee : Balance) (nonce : UInt64) (L : Ledger) : Prop :=
  amount.toNat + fee.toNat < 2 ^ 128 ∧
    (amount.toNat + fee.toNat ≤ (L.balance src).toNat → nonce.toNat + 1 < 2 ^ 64)

def FeeFits (src : Address) (fee : Balance) (nonce : UInt64) (L : Ledger) : Prop :=
  fee ≤ L.balance src → nonce.toNat + 1 < 2 ^ 64

/-- The account can be credited. -/
def Room (a : Address) (amount : Balance) (L : Ledger) : Prop :=
  (L.balance a).toNat + amount.toNat < 2 ^ 128

/-- The balances and the deposits have sums. -/
def SumsFit (balanceA balanceB : Balance) (channel : Channel) : Prop :=
  balanceA.toNat + balanceB.toNat < 2 ^ 128 ∧
    channel.depositA.toNat + channel.depositB.toNat < 2 ^ 128

def Fits (now : Int64) : Transaction → Ledger → Prop
  | .Transfer tx, L => PaysFits tx.from tx.amount tx.fee tx.nonce L ∧
      (tx.to ≠ tx.from → tx.amount.toNat + tx.fee.toNat ≤ (L.balance tx.from).toNat →
        Room tx.to tx.amount L)
  | .TimeLock tx, L => PaysFits tx.from tx.amount tx.fee tx.nonce L
  | .Escrow tx, L =>
    match tx.escrowType with
    | .Create _ _ amount _ _ => PaysFits tx.from amount tx.fee tx.nonce L
    | .Release => ∀ escrow, L.escrows.get tx.escrowId = some escrow →
        L.escrows.canRelease tx.escrowId tx.from = true → Room escrow.recipient escrow.amount L
    | .Refund => ∀ escrow, L.escrows.get tx.escrowId = some escrow →
        L.escrows.canRefund now tx.escrowId tx.from = true → Room escrow.sender escrow.amount L
  | .Channel tx, L =>
    match tx.channelType with
    | .Open participantA _ depositA depositB _ =>
      PaysFits tx.from (initiatorDeposit tx.from participantA depositA depositB) tx.fee tx.nonce L
    | .Update sequence balanceA balanceB => ∀ channel, L.channels.get tx.channelId = some channel →
        channel.status = .Open → channel.sequence < sequence → SumsFit balanceA balanceB channel
    | .CooperativeClose finalBalanceA finalBalanceB =>
      ∀ channel, L.channels.get tx.channelId = some channel →
        (Room channel.participantA finalBalanceA L ∧
          Room channel.participantB finalBalanceB (L.credit channel.participantA finalBalanceA)) ∧
        (channel.status = .Open → SumsFit finalBalanceA finalBalanceB channel)
    | .UnilateralClose _ balanceA balanceB _ =>
      ∀ channel, L.channels.get tx.channelId = some channel →
        channel.status = .Open → SumsFit balanceA balanceB channel
  | .TrustLine tx, L => FeeFits tx.from tx.fee tx.nonce L
  | .DimensionalPoolSwap tx, L => FeeFits tx.from tx.fee tx.nonce L
  | .Marketplace tx, L =>
    match tx.operation with
    | .SubmitProblem problem bounty .. => tx.fee.toNat + bounty.toNat < 2 ^ 128 ∧
        (tx.fee.toNat + bounty.toNat ≤ (L.balance tx.from).toNat →
          L.marketplace.problems.get (ProblemType.hash ext problem) = none →
          tx.nonce.toNat + 1 < 2 ^ 64)
    | .SubmitSolution .. | .ClaimBounty .. | .CancelProblem .. => tx.fee ≤ L.balance tx.from →
        ∀ s payee amount, marketOutcome ext now tx L.marketplace = .done s payee amount →
          Room payee amount (L.debit tx.from tx.fee) ∧ tx.nonce.toNat + 1 < 2 ^ 64

/-- The miner has room for the reward, and every transaction fits the ledger it meets. -/
def StepFits : Step → Prop
  | (.coinbase miner reward, L) => Room miner reward L
  | (.transaction now _ tx, L) => Fits ext now tx L

section Parts

variable {L : Ledger}

theorem noneWraps_nil : NoneWraps [] := fun op hop => by cases hop

theorem noneWraps_cons (op : Operation) (ops : List Operation) :
    NoneWraps (op :: ops) ↔ ¬ op.Wraps ∧ NoneWraps ops :=
  List.forall_mem_cons

theorem noneWraps_append (ops ops' : List Operation) :
    NoneWraps (ops ++ ops') ↔ NoneWraps ops ∧ NoneWraps ops' :=
  List.forall_mem_append

theorem noneWraps_paying (src : Address) (amount fee : Balance) (nonce : UInt64) (L : Ledger) :
    NoneWraps (paying src amount fee nonce L) ↔ PaysFits src amount fee nonce L := by
  rw [paying, noneWraps_cons, PaysFits]
  simp only [Operation.Wraps, not_le]
  refine and_congr_right fun hsum => ?_
  have hadd := BitVec.toNat_add_of_lt hsum
  split_ifs with hlow
  · rw [BitVec.lt_def, hadd] at hlow
    exact ⟨fun _ hcovered => absurd hcovered (by omega), fun _ => noneWraps_nil⟩
  · rw [BitVec.lt_def, hadd] at hlow
    have hle : amount ≤ L.balance src := by rw [BitVec.le_def]; omega
    have hsub := BitVec.toNat_sub_of_le hle
    simp only [noneWraps_cons, Operation.Wraps, not_lt, not_le]
    constructor
    · rintro ⟨-, -, hnonce, -⟩ -
      exact hnonce
    · intro hnonce
      exact ⟨by omega, by omega, hnonce (by omega), noneWraps_nil⟩

theorem noneWraps_payingFee (src : Address) (fee : Balance) (nonce : UInt64) (L : Ledger) :
    NoneWraps (payingFee src fee nonce L) ↔ FeeFits src fee nonce L := by
  rw [payingFee, FeeFits]
  split_ifs with hlow
  · exact ⟨fun _ hcovered => absurd hcovered (BitVec.not_le.mpr hlow), fun _ => noneWraps_nil⟩
  · have hle := BitVec.not_lt.mp hlow
    simp only [noneWraps_cons, Operation.Wraps, not_lt, not_le]
    constructor
    · rintro ⟨-, hnonce, -⟩ -
      exact hnonce
    · intro hnonce
      exact ⟨BitVec.le_def.mp hle, hnonce hle, noneWraps_nil⟩

theorem noneWraps_comparing (balanceA balanceB : Balance) (channel : Channel) :
    NoneWraps (comparing balanceA balanceB channel) ↔ SumsFit balanceA balanceB channel := by
  simp only [comparing, noneWraps_cons, Operation.Wraps, not_le, SumsFit, noneWraps_nil, and_true]

/-- A swap that is made is covered. -/
theorem noneWraps_swapping (tx : PoolSwapTransaction) (s : DimensionalPoolState) :
    NoneWraps (swapping tx s) := by
  unfold swapping
  split
  · dsimp only
    split_ifs with hcovered
    · simp only [noneWraps_cons, Operation.Wraps, not_lt]
      exact ⟨BitVec.le_def.mp hcovered.1, BitVec.le_def.mp hcovered.2.2, noneWraps_nil⟩
    · exact noneWraps_nil
  · exact noneWraps_nil

theorem noneWraps_paidOut (nonce : UInt64) (L : Ledger) (o : MarketOutcome) :
    NoneWraps (paidOut nonce L o) ↔ ∀ s payee amount, o = .done s payee amount →
      Room payee amount L ∧ nonce.toNat + 1 < 2 ^ 64 := by
  cases o with
  | late s => exact ⟨fun _ s payee amount h => (by cases h), fun _ => noneWraps_nil⟩
  | panicked => exact ⟨fun _ s payee amount h => (by cases h), fun _ => noneWraps_nil⟩
  | done s payee amount =>
    simp only [paidOut, noneWraps_cons, Operation.Wraps, not_le]
    constructor
    · rintro ⟨hroom, hnonce, -⟩ s' payee' amount' h
      cases h
      exact ⟨hroom, hnonce⟩
    · intro h
      obtain ⟨hroom, hnonce⟩ := h s payee amount rfl
      exact ⟨hroom, hnonce, noneWraps_nil⟩

theorem noneWraps_absent {α : Type} {P : α → Prop} :
    NoneWraps [] ↔ ∀ a, (none : Option α) = some a → P a :=
  ⟨fun _ a ha => (by cases ha), fun _ => noneWraps_nil⟩

theorem noneWraps_ite {c : Prop} [Decidable c] {ops : List Operation} {P : Prop}
    (h : NoneWraps ops ↔ P) : NoneWraps (if c then ops else []) ↔ (c → P) := by
  split_ifs with hc
  · rw [h]
    exact ⟨fun hp _ => hp, fun hp => hp hc⟩
  · exact ⟨fun _ hcond => absurd hcond hc, fun _ => noneWraps_nil⟩

theorem noneWraps_single (x y : Balance) :
    NoneWraps [.add x y] ↔ x.toNat + y.toNat < 2 ^ 128 := by
  simp only [noneWraps_cons, Operation.Wraps, not_le, noneWraps_nil, and_true]

end Parts

/-! ### Transactions and blocks -/

variable {ext : Ext} {now : Int64}

/-- The credit of a transfer, once the sender has paid. -/
theorem room_charged {tx : TransferTransaction} {L : Ledger}
    (hsum : tx.amount.toNat + tx.fee.toNat < 2 ^ 128)
    (hcovered : tx.amount.toNat + tx.fee.toNat ≤ (L.balance tx.from).toNat) :
    Room tx.to tx.amount (charge tx.from (tx.amount + tx.fee) tx.nonce L) ↔
      (tx.to ≠ tx.from → Room tx.to tx.amount L) := by
  have hadd := BitVec.toNat_add_of_lt hsum
  have hbalance : (charge tx.from (tx.amount + tx.fee) tx.nonce L).balance tx.to =
      (L.debit tx.from (tx.amount + tx.fee)).balance tx.to := rfl
  rw [Room, Room, hbalance]
  by_cases hself : tx.to = tx.from
  · have hle : tx.amount + tx.fee ≤ L.balance tx.from := by rw [BitVec.le_def]; omega
    have hsub := BitVec.toNat_sub_of_le hle
    have hlt := (L.balance tx.from).isLt
    rw [hself, balance_debit_self]
    exact ⟨fun _ hne => absurd rfl hne, fun _ => by omega⟩
  · have hsame : (L.debit tx.from (tx.amount + tx.fee)).balance tx.to = L.balance tx.to :=
      Function.update_of_ne hself ..
    rw [hsame]
    exact ⟨fun hroom _ => hroom, fun hroom => hroom hself⟩

theorem noneWraps_transfer (tx : TransferTransaction) (L : Ledger) :
    NoneWraps (operations ext now (.Transfer tx) L) ↔ Fits ext now (.Transfer tx) L := by
  simp only [operations, Fits]
  rw [noneWraps_append, noneWraps_paying]
  refine and_congr_right fun hpays => ?_
  have hadd := BitVec.toNat_add_of_lt hpays.1
  split_ifs with hlow
  · rw [BitVec.lt_def, hadd] at hlow
    exact ⟨fun _ _ hcovered => absurd hcovered (by omega), fun _ => noneWraps_nil⟩
  · rw [BitVec.lt_def, hadd] at hlow
    have hcovered : tx.amount.toNat + tx.fee.toNat ≤ (L.balance tx.from).toNat := by omega
    rw [noneWraps_single]
    exact (room_charged hpays.1 hcovered).trans
      ⟨fun hroom hne _ => hroom hne, fun hroom hne => hroom hne hcovered⟩

theorem noneWraps_submission (tx : MarketplaceTransaction) (problem : ProblemType)
    (bounty : Balance) (L : Ledger) :
    NoneWraps (.add tx.fee bounty :: if L.balance tx.from < tx.fee + bounty then [] else
      .sub (L.balance tx.from) (tx.fee + bounty) ::
        if L.marketplace.problems.get (ProblemType.hash ext problem) = none
        then [.next tx.nonce] else []) ↔
    tx.fee.toNat + bounty.toNat < 2 ^ 128 ∧
      (tx.fee.toNat + bounty.toNat ≤ (L.balance tx.from).toNat →
        L.marketplace.problems.get (ProblemType.hash ext problem) = none →
        tx.nonce.toNat + 1 < 2 ^ 64) := by
  rw [noneWraps_cons]
  simp only [Operation.Wraps, not_le]
  refine and_congr_right fun hsum => ?_
  have hadd := BitVec.toNat_add_of_lt hsum
  by_cases hlow : L.balance tx.from < tx.fee + bounty
  · rw [if_pos hlow]
    rw [BitVec.lt_def, hadd] at hlow
    exact ⟨fun _ hcovered => absurd hcovered (by omega), fun _ => noneWraps_nil⟩
  · rw [if_neg hlow, noneWraps_cons]
    rw [BitVec.lt_def, hadd] at hlow
    have hnext : NoneWraps [.next tx.nonce] ↔ tx.nonce.toNat + 1 < 2 ^ 64 := by
      simp only [noneWraps_cons, Operation.Wraps, not_le, noneWraps_nil, and_true]
    rw [noneWraps_ite hnext]
    simp only [Operation.Wraps, hadd]
    exact ⟨fun h _ => h.2, fun h => ⟨hlow, h (by omega)⟩⟩

theorem noneWraps_feeAndOutcome (tx : MarketplaceTransaction) (L : Ledger) (o : MarketOutcome) :
    NoneWraps (if L.balance tx.from < tx.fee then [] else
      .sub (L.balance tx.from) tx.fee :: paidOut tx.nonce (L.debit tx.from tx.fee) o) ↔
    (tx.fee ≤ L.balance tx.from → ∀ s payee amount, o = .done s payee amount →
      Room payee amount (L.debit tx.from tx.fee) ∧ tx.nonce.toNat + 1 < 2 ^ 64) := by
  split_ifs with hlow
  · exact ⟨fun _ hcovered => absurd hcovered (BitVec.not_le.mpr hlow), fun _ => noneWraps_nil⟩
  · have hle := BitVec.not_lt.mp hlow
    rw [noneWraps_cons, noneWraps_paidOut]
    simp only [Operation.Wraps, not_lt]
    exact ⟨fun h _ => h.2, fun h => ⟨BitVec.le_def.mp hle, h hle⟩⟩

theorem noneWraps_operations (tx : Transaction) (L : Ledger) :
    NoneWraps (operations ext now tx L) ↔ Fits ext now tx L := by
  cases tx with
  | Transfer tx => exact noneWraps_transfer tx L
  | TimeLock tx => exact noneWraps_paying ..
  | Escrow tx =>
    simp only [operations, Fits]
    rcases tx.escrowType with ⟨recipient, arbiter, amount, timeout, conditionsHash⟩ | _ | _
    · exact noneWraps_paying ..
    · rcases L.escrows.get tx.escrowId with _ | escrow
      · exact noneWraps_absent
      · simp only [Option.some.injEq, forall_eq']
        exact noneWraps_ite (noneWraps_single ..)
    · rcases L.escrows.get tx.escrowId with _ | escrow
      · exact noneWraps_absent
      · simp only [Option.some.injEq, forall_eq']
        exact noneWraps_ite (noneWraps_single ..)
  | Channel tx =>
    simp only [operations, Fits]
    rcases tx.channelType with ⟨participantA, participantB, depositA, depositB, timeout⟩ |
      ⟨sequence, balanceA, balanceB⟩ | ⟨finalBalanceA, finalBalanceB⟩ |
      ⟨sequence, balanceA, balanceB, disputeProof⟩
    · exact noneWraps_paying ..
    all_goals
      rcases L.channels.get tx.channelId with _ | channel
      · exact noneWraps_absent
      simp only [Option.some.injEq, forall_eq']
    · rw [noneWraps_ite (noneWraps_comparing ..), and_imp]
    · rw [noneWraps_append, noneWraps_ite (noneWraps_comparing ..), noneWraps_cons,
        noneWraps_single]
      simp only [Operation.Wraps, not_le, Room]
    · exact noneWraps_ite (noneWraps_comparing ..)
  | TrustLine tx => exact noneWraps_payingFee ..
  | DimensionalPoolSwap tx =>
    simp only [operations, Fits]
    rw [noneWraps_append, noneWraps_payingFee]
    refine and_iff_left ?_
    split_ifs
    · exact noneWraps_nil
    · exact noneWraps_swapping tx L.pools
  | Marketplace tx =>
    simp only [operations, Fits]
    rcases tx.operation with ⟨problem, bounty, minWorkScore, expirationDays, title, briefing⟩ |
      ⟨problemId, solution⟩ | ⟨problemId⟩ | ⟨problemId⟩
    · exact noneWraps_submission ..
    all_goals exact noneWraps_feeAndOutcome ..

theorem noneWraps_stepOperations (p : Step) :
    NoneWraps (stepOperations ext p) ↔ StepFits ext p := by
  obtain ⟨e, L⟩ := p
  cases e with
  | coinbase miner reward => exact noneWraps_single ..
  | transaction now blockHeight tx => exact noneWraps_operations tx L

/-- Alice pays `u128::MAX` to Bob, at a fee of 2: the sum is 1. -/
def hugeTransfer : TransferTransaction where
  «from» := Sample.aliceKey.toAddress
  «to» := Sample.bob
  amount := 340282366920938463463374607431768211455
  fee := 2
  nonce := 0
  publicKey := Sample.aliceKey
  signature := ⟨0xa9ec1d15bbf735f2cfe183e52815aa358b59da0e4c1d9fce757e0408677880de96f204c1209eee73ffef1757827d6aa3dc178767fcbec46101a0cb7b35b48608⟩

def hugeHeader : BlockHeader :=
  Sample.header ⟨0xe72f0879c8ba7c68c22f65fadb4659a207ba201cf5cef8f749b8588359c12d3b⟩ 56350

def hugeBlock : Block := Sample.block hugeHeader [.Transfer hugeTransfer]

def hugeExt : Ext := Ext.ofTables
  [(encode Sample.problem, Sample.problemHash.bytes),
    (encode Sample.solution, Sample.solutionHash.bytes),
    (Sample.problemHash.asBytes ++ Sample.parent.asBytes ++ Sample.solutionHash.asBytes,
      Sample.commitment.hash.bytes),
    (encode (Transaction.Transfer hugeTransfer),
      0x820761d2b980e1bd0fd398f0c69aca745a422a60e198aa41c504b5234cf11c7b),
    (encode hugeHeader, 0x0000b0e0551a20a052238e50c3ee0d6c61bde87790fa034579bef4e218956775)]
  [(Sample.aliceKey, hugeTransfer.signingMessage, hugeTransfer.signature)]

/-- Alice has 100 and nobody else has anything. -/
def hundred : Ledger :=
  (Ledger.ofAccounts (.ofBalances [])).setBalance Sample.aliceKey.toAddress 100

theorem weighMap_none {K V : Type} [Fintype K] (f : V → ℕ) :
    weighMap f (fun _ : K => none) = 0 := by
  simp only [weighMap, Option.elim_none, Finset.sum_const_zero]

theorem held_ofAccounts (s : AccountState) : held (Ledger.ofAccounts s) = 0 := by
  have htimelocks := weighMap_none (K := Hash) fun t : TimeLock => t.amount.toNat
  have hescrows := weighMap_none (K := Hash) escrowHeld
  have hchannels := weighMap_none (K := Hash) channelHeld
  have hbounties := weighMap_none (K := Hash) (BitVec.toNat : Balance → ℕ)
  rw [held, Keyed.weigh, Keyed.weigh, Keyed.weigh]
  rw [Ledger.ofAccounts]
  dsimp only [Keyed.empty]
  rw [htimelocks, hescrows, hchannels, hbounties]

theorem total_ofAccounts (s : AccountState) : total (Ledger.ofAccounts s) = coins s := by
  have htotal : total (Ledger.ofAccounts s) = coins s + held (Ledger.ofAccounts s) := rfl
  rw [htotal, held_ofAccounts, add_zero]

theorem total_empty : total (Ledger.ofAccounts (.ofBalances [])) = 0 := by
  have hnone : ∀ a, ((AccountState.ofBalances []).balances a).toNat = 0 := fun a => rfl
  have hcoins : coins (AccountState.ofBalances []) = 0 := by
    rw [coins]
    exact Finset.sum_eq_zero fun a _ => hnone a
  rw [total_ofAccounts, hcoins]

theorem total_single (a : Address) (v : Balance) :
    total ((Ledger.ofAccounts (.ofBalances [])).setBalance a v) = v.toNat := by
  have hset := total_setBalance a v (Ledger.ofAccounts (.ofBalances []))
  have hnone : ((Ledger.ofAccounts (.ofBalances [])).balance a).toNat = 0 := rfl
  rw [total_empty, hnone] at hset
  omega

theorem total_hundred : total hundred < 2 ^ 128 :=
  (total_single Sample.aliceKey.toAddress 100).trans_lt (BitVec.isLt _)

end Coinjecture.Node.NoWrap
