import Coinjecture.Node.Runs

/-! # Which way a transaction goes

`verdict` collects the checks a transaction meets, without the writes: whether it is refused before
anything is written, fails or panics after something was, or goes through. Together with `outcome`
it says of a failing transaction what it leaves behind: nothing exactly if `leavesNoTrace`.

* `verdict_outcome` : the outcome is of the kind `verdict` says.
* `next_of_late` : what a late failure leaves. -/

namespace Coinjecture.Node.Verdicts

open Lib.Effect Lib.Table Lib.Trace Lib.Postings
open Core.Types Core.Problem Core.Transactions
open Core.Extern Core.Crypto Core.Privacy
open State.Timelocks State.Escrows State.Channels
open State.TrustLines State.DimensionalPools
open State.Marketplace State.Stores State.Stores.Ledger
open Node.BlockProcessing Node.Outcomes Node.Runs

/-! ### The checks of the stores -/

section Checks

variable (ext : Ext) (now : Int64) (blockHeight : UInt64)

def accountsUpdate (tx : ChannelTransaction) (sequence : UInt64) (balanceA balanceB : Balance)
    (s : ChannelState) : Bool :=
  (s.get tx.channelId).any fun channel => channel.status = .Open ∧ channel.sequence < sequence ∧
    balanceA + balanceB = channel.capacity

def openWithTotal (tx : ChannelTransaction) (balanceA balanceB : Balance) (s : ChannelState) : Bool :=
  (s.get tx.channelId).any fun channel =>
    channel.status = .Open ∧ balanceA + balanceB = channel.capacity

def trustlineAccepts (tx : TrustLineTransaction) (s : TrustLineState) : Bool :=
  match tx.trustlineType with
  | .Create _ _ _ qualityIn qualityOut _ dimensionalScale =>
    s.get tx.trustlineId = none ∧ ¬ (dimensionalScale < 1 ∨ 8 < dimensionalScale) ∧
      ¬ (10000 < qualityIn ∨ 10000 < qualityOut)
  | .UpdateLimits limitAToB limitBToA =>
    (ownLine tx.trustlineId tx.from s).any fun trustline => trustline.status = .Active ∧
      (TrustLineState.withLimits trustline limitAToB limitBToA blockHeight).isBalanced ext = true
  | .Freeze | .EvolvePhase _ => (ownLine tx.trustlineId tx.from s).isSome
  | .Close => (ownLine tx.trustlineId tx.from s).any fun trustline => trustline.balance = 0

def swapAccepts (tx : PoolSwapTransaction) (s : DimensionalPoolState) : Bool :=
  match s.pools.get tx.poolFrom, s.pools.get tx.poolTo with
  | some src, some dst =>
    let out := DimensionalPoolState.amountOut src dst tx.amountIn
    tx.amountIn ≤ src.liquidity ∧ tx.minAmountOut ≤ out ∧ out ≤ dst.liquidity
  | _, _ => false

theorem isSome_updated (tx : ChannelTransaction) (sequence : UInt64) (balanceA balanceB : Balance)
    (s : ChannelState) : (updated tx sequence balanceA balanceB s).isSome =
      accountsUpdate tx sequence balanceA balanceB s := by
  unfold updated accountsUpdate
  rcases s.get tx.channelId with _ | channel
  · rfl
  simp only [Option.bind_some, Option.any_some]
  split_ifs with h
  · exact (decide_eq_true h).symm
  · exact (decide_eq_false h).symm

theorem isSome_disputed (tx : ChannelTransaction) (sequence : UInt64) (balanceA balanceB : Balance)
    (s : ChannelState) : (disputed now tx sequence balanceA balanceB s).isSome =
      openWithTotal tx balanceA balanceB s := by
  unfold disputed openWithTotal
  rcases s.get tx.channelId with _ | channel
  · rfl
  simp only [Option.bind_some, Option.any_some]
  split_ifs with h
  · exact (decide_eq_true h).symm
  · exact (decide_eq_false h).symm

theorem isSome_closed {tx : ChannelTransaction} {channel : Channel} {s : ChannelState}
    (hget : s.get tx.channelId = some channel) (finalBalanceA finalBalanceB : Balance) :
    (closed blockHeight channel finalBalanceA finalBalanceB s).isSome =
      openWithTotal tx finalBalanceA finalBalanceB s := by
  unfold closed openWithTotal
  rw [hget, Option.any_some]
  split_ifs with h
  · exact (decide_eq_true h).symm
  · exact (decide_eq_false h).symm

theorem isSome_trustlineChanged (tx : TrustLineTransaction) (s : TrustLineState) :
    (trustlineChanged ext blockHeight tx s).isSome = trustlineAccepts ext blockHeight tx s := by
  unfold trustlineChanged trustlineAccepts
  rcases tx.trustlineType with ⟨accountB, limitAToB, limitBToA, qualityIn, qualityOut, ripple, scale⟩ |
    ⟨limitAToB, limitBToA⟩ | _ | _ | ⟨deltaTau⟩
  · simp only
    split_ifs with h
    · exact (decide_eq_true h).symm
    · exact (decide_eq_false h).symm
  all_goals
    simp only
    rcases ownLine tx.trustlineId tx.from s with _ | trustline
    · rfl
    simp only [Option.bind_some, Option.any_some]
  · split_ifs with h
    · exact (decide_eq_true h).symm
    · exact (decide_eq_false h).symm
  · rfl
  · split_ifs with h
    · exact (decide_eq_true h).symm
    · exact (decide_eq_false h).symm
  · rfl

theorem isSome_swapDone (tx : PoolSwapTransaction) (s : DimensionalPoolState) :
    (swapDone ext blockHeight tx s).isSome = swapAccepts tx s := by
  unfold swapDone swapAccepts
  rcases s.pools.get tx.poolFrom with _ | src
  · rfl
  rcases s.pools.get tx.poolTo with _ | dst
  · rfl
  simp only
  split_ifs with h
  · exact (decide_eq_true h).symm
  · exact (decide_eq_false h).symm

end Checks

/-! ### Verdicts -/

inductive Verdict where
  | refused | late | panics | goesThrough
  deriving DecidableEq

/-- A check that is made after something was written. -/
def Verdict.ofCheck (ok : Bool) : Verdict := if ok then goesThrough else late

/-- A check that is made before anything is written. -/
def Verdict.guarded (ok : Bool) (v : Verdict) : Verdict := if ok then v else refused

def kind : Outcome → Verdict
  | .refused => .refused
  | .late _ => .late
  | .panicked _ => .panics
  | .done _ => .goesThrough

variable (ext : Ext) (now : Int64) (blockHeight : UInt64)

/-- The verdict of the marketplace on a transaction that is paid for. -/
def marketVerdict (tx : MarketplaceTransaction) (s : MarketplaceState) : Verdict :=
  match tx.operation with
  | .SubmitProblem problem .. =>
    .ofCheck (s.problems.get (ProblemType.hash ext problem)).isNone
  | .SubmitSolution problemId solution =>
    match MarketplaceState.solutionVerdict now problemId solution s with
    | .refused => .late
    | .expired _ => .late
    | .panics => .panics
    | .solved _ => .ofCheck (s.escrow problemId).isSome
  | .ClaimBounty problemId => .ofCheck (MarketplaceState.claimable problemId s).isSome
  | .CancelProblem problemId => .ofCheck (MarketplaceState.cancellable problemId tx.from s).isSome

theorem ofCheck_ne (ok : Bool) : Verdict.ofCheck ok ≠ .refused := by
  unfold Verdict.ofCheck
  split_ifs
  · simp
  · simp

/-- A marketplace transaction that is paid for is not refused any more. -/
theorem marketVerdict_ne {tx : MarketplaceTransaction} {s : MarketplaceState} :
    marketVerdict ext now tx s ≠ .refused := by
  unfold marketVerdict
  rcases tx.operation with _ | ⟨problemId, solution⟩ | _ | _
  · exact ofCheck_ne _
  · simp only
    split
    · simp
    · simp
    · simp
    · exact ofCheck_ne _
  · exact ofCheck_ne _
  · exact ofCheck_ne _

def verdict : Transaction → Ledger → Verdict
  | .Transfer tx, L => .guarded (tx.amount + tx.fee ≤ L.balance tx.from) .goesThrough
  | .TimeLock tx, L => .guarded (tx.amount + tx.fee ≤ L.balance tx.from) .goesThrough
  | .Escrow tx, L =>
    match tx.escrowType with
    | .Create _ _ amount _ _ => .guarded (amount + tx.fee ≤ L.balance tx.from)
        (.ofCheck (L.escrows.get tx.escrowId).isNone)
    | .Release => .guarded (L.escrows.canRelease tx.escrowId tx.from) .goesThrough
    | .Refund => .guarded (L.escrows.canRefund now tx.escrowId tx.from) .goesThrough
  | .Channel tx, L =>
    match tx.channelType with
    | .Open participantA _ depositA depositB _ =>
      .guarded (initiatorDeposit tx.from participantA depositA depositB + tx.fee ≤ L.balance tx.from)
        (.ofCheck (L.channels.get tx.channelId).isNone)
    | .Update sequence balanceA balanceB =>
      .guarded (accountsUpdate tx sequence balanceA balanceB L.channels) .goesThrough
    | .CooperativeClose finalBalanceA finalBalanceB =>
      .guarded (L.channels.get tx.channelId).isSome
        (.ofCheck (openWithTotal tx finalBalanceA finalBalanceB L.channels))
    | .UnilateralClose _ balanceA balanceB _ =>
      .guarded (openWithTotal tx balanceA balanceB L.channels) .goesThrough
  | .TrustLine tx, L => .guarded (tx.fee ≤ L.balance tx.from)
      (.ofCheck (trustlineAccepts ext blockHeight tx L.trustlines))
  | .DimensionalPoolSwap tx, L => .guarded (tx.fee ≤ L.balance tx.from)
      (.ofCheck (swapAccepts tx L.pools))
  | .Marketplace tx, L => .guarded (marketCost tx ≤ L.balance tx.from)
      (marketVerdict ext now tx L.marketplace)

theorem verdict_marketOutcome (tx : MarketplaceTransaction) (s : MarketplaceState) :
    (match marketOutcome ext now tx s with
      | .late _ => Verdict.late
      | .panicked => .panics
      | .done .. => .goesThrough) = marketVerdict ext now tx s := by
  unfold marketOutcome marketVerdict Verdict.ofCheck
  rcases tx.operation with ⟨problem, _⟩ | ⟨problemId, solution⟩ | ⟨problemId⟩ | ⟨problemId⟩
  · simp only
    rcases s.problems.get (ProblemType.hash ext problem) with _ | submission
    · rfl
    · rfl
  · simp only
    rcases MarketplaceState.solutionVerdict now problemId solution s with _ | _ | _ | submission
    · rfl
    · rfl
    · rfl
    · rcases s.escrow problemId with _ | bounty
      · rfl
      · rfl
  · simp only
    rcases MarketplaceState.claimable problemId s with _ | r
    · rfl
    · rfl
  · simp only
    rcases MarketplaceState.cancellable problemId tx.from s with _ | r
    · rfl
    · rfl

theorem verdict_ite_lt (cost balance : Balance) (o : Outcome) :
    kind (if balance < cost then .refused else o) =
      .guarded (cost ≤ balance) (kind o) := by
  by_cases h : balance < cost
  · rw [if_pos h, Verdict.guarded, decide_eq_false (BitVec.not_le.mpr h)]
    rfl
  · rw [if_neg h, Verdict.guarded, decide_eq_true (BitVec.not_lt.mp h)]
    rfl

/-- The outcome is of the kind `verdict` says. -/
theorem verdict_outcome (tx : Transaction) (L : Ledger) :
    kind (outcome ext now blockHeight tx L) = verdict ext now blockHeight tx L := by
  cases tx with
  | Transfer tx => exact verdict_ite_lt ..
  | TimeLock tx => exact verdict_ite_lt ..
  | Escrow tx =>
    rcases htype : tx.escrowType with ⟨recipient, arbiter, amount, timeout, conditionsHash⟩ | _ | _
    · simp only [outcome, verdict, htype, verdict_ite_lt]
      rcases L.escrows.get tx.escrowId with _ | escrow
      · rfl
      · rfl
    · simp only [outcome, verdict, htype, Verdict.guarded]
      rcases hget : L.escrows.get tx.escrowId with _ | escrow
      · have hno : L.escrows.canRelease tx.escrowId tx.from = false := by
          simp only [EscrowState.canRelease, EscrowState.getEscrow, hget]
        rw [hno]
        rfl
      · simp only
        split_ifs with h
        · rfl
        · rfl
    · simp only [outcome, verdict, htype, Verdict.guarded]
      rcases hget : L.escrows.get tx.escrowId with _ | escrow
      · have hno : L.escrows.canRefund now tx.escrowId tx.from = false := by
          simp only [EscrowState.canRefund, EscrowState.getEscrow, hget]
        rw [hno]
        rfl
      · simp only
        split_ifs with h
        · rfl
        · rfl
  | Channel tx =>
    rcases htype : tx.channelType with ⟨participantA, participantB, depositA, depositB, timeout⟩ |
      ⟨sequence, balanceA, balanceB⟩ | ⟨finalBalanceA, finalBalanceB⟩ |
      ⟨sequence, balanceA, balanceB, disputeProof⟩
    · simp only [outcome, verdict, htype, verdict_ite_lt]
      rcases L.channels.get tx.channelId with _ | channel
      · rfl
      · rfl
    · simp only [outcome, verdict, htype, ← isSome_updated]
      rcases updated tx sequence balanceA balanceB L.channels with _ | s
      · rfl
      · rfl
    · simp only [outcome, verdict, htype]
      rcases hget : L.channels.get tx.channelId with _ | channel
      · rfl
      · rw [← isSome_closed blockHeight hget]
        simp only
        rcases closed blockHeight channel finalBalanceA finalBalanceB L.channels with _ | s
        · rfl
        · rfl
    · simp only [outcome, verdict, htype, ← isSome_disputed now tx sequence]
      rcases disputed now tx sequence balanceA balanceB L.channels with _ | s
      · rfl
      · rfl
  | TrustLine tx =>
    simp only [outcome, verdict, verdict_ite_lt, ← isSome_trustlineChanged]
    rcases trustlineChanged ext blockHeight tx L.trustlines with _ | s
    · rfl
    · rfl
  | DimensionalPoolSwap tx =>
    simp only [outcome, verdict, verdict_ite_lt, ← isSome_swapDone ext blockHeight]
    rcases swapDone ext blockHeight tx L.pools with _ | s
    · rfl
    · rfl
  | Marketplace tx =>
    simp only [outcome, verdict, verdict_ite_lt, ← verdict_marketOutcome]
    rcases marketOutcome ext now tx L.marketplace with s | _ | ⟨s, payee, amount⟩
    · rfl
    · rfl
    · rfl

/-! ### What a failing transaction leaves -/

/-- Setting the nonce after `nonce` and taking `cost` changes nothing. -/
def chargeIdle (a : Address) (cost : Balance) (nonce : UInt64) (L : Ledger) : Prop :=
  cost = 0 ∧ nonce + 1 = L.nonce a

theorem charge_eq_self {a : Address} {cost : Balance} {nonce : UInt64} {L : Ledger} :
    charge a cost nonce L = L ↔ chargeIdle a cost nonce L := by
  constructor
  · intro h
    have hbal : L.balance a - cost = L.balance a := by
      have := congrArg (balance a) h
      rwa [show balance a (charge a cost nonce L) = L.balance a - cost from
        Function.update_self ..] at this
    have hnonce : nonce + 1 = L.nonce a := by
      have := congrArg (Ledger.nonce a) h
      rwa [show Ledger.nonce a (charge a cost nonce L) = nonce + 1 from
        Function.update_self ..] at this
    exact ⟨sub_eq_self.mp hbal, hnonce⟩
  · rintro ⟨rfl, hnonce⟩
    have hdebit : L.debit a 0 = L := by rw [debit, sub_zero, setBalance_self]
    rw [charge, hdebit, hnonce, setNonce_self]

/-- Two credits change nothing. -/
def creditsIdle (a b : Address) (x y : Balance) : Prop :=
  if a = b then x + y = 0 else x = 0 ∧ y = 0

theorem credits_eq_self {a b : Address} {x y : Balance} {L : Ledger} :
    (L.credit a x).credit b y = L ↔ creditsIdle a b x y := by
  have hbal : ((L.credit a x).credit b y).accounts.balances =
      L.accounts.balances + (Pi.single a x + Pi.single b y) := by
    rw [balances_credit, balances_credit, add_assoc]
  rw [creditsIdle, ← single_add_single_eq_zero]
  constructor
  · intro h
    rwa [h, left_eq_add] at hbal
  · intro h
    rw [h, add_zero] at hbal
    ext : 1
    · ext1
      · exact hbal
      · rfl
    all_goals rfl

theorem debit_withMarketplace_eq_self {a : Address} {cost : Balance} {s : MarketplaceState}
    {L : Ledger} : (L.debit a cost).withMarketplace s = L ↔ cost = 0 ∧ s = L.marketplace := by
  constructor
  · intro h
    have hbal : L.balance a - cost = L.balance a := by
      have := congrArg (balance a) h
      rwa [show balance a ((L.debit a cost).withMarketplace s) = L.balance a - cost from
        Function.update_self ..] at this
    exact ⟨sub_eq_self.mp hbal, congrArg Ledger.marketplace h⟩
  · rintro ⟨rfl, rfl⟩
    have hdebit : L.debit a 0 = L := by rw [debit, sub_zero, setBalance_self]
    rw [hdebit]
    rfl

/-- The failing operations that do not write: all but a solution that comes too late or finds no
bounty. -/
def marketKeeps (tx : MarketplaceTransaction) (s : MarketplaceState) : Prop :=
  match tx.operation with
  | .SubmitSolution problemId solution =>
    match MarketplaceState.solutionVerdict now problemId solution s with
    | .refused | .panics => True
    | .expired _ | .solved _ => False
  | .SubmitProblem .. | .ClaimBounty _ | .CancelProblem _ => True

theorem late_market_iff {tx : MarketplaceTransaction} {s s' : MarketplaceState}
    (h : marketOutcome ext now tx s = .late s') : s' = s ↔ marketKeeps now tx s := by
  rcases hop : tx.operation with ⟨problem, _⟩ | ⟨problemId, solution⟩ | ⟨problemId⟩ | ⟨problemId⟩
  · simp only [marketOutcome, marketKeeps, hop] at h ⊢
    split_ifs at h
    cases h
    simp
  · simp only [marketOutcome, marketKeeps, hop] at h ⊢
    rcases hv : MarketplaceState.solutionVerdict now problemId solution s with
      _ | submission | _ | submission
    all_goals
      simp only [hv] at h ⊢
    · cases h
      simp
    · cases h
      obtain ⟨hget, hopen⟩ := MarketplaceState.open_of_verdict (.inr hv)
      have hne := MarketplaceState.updateProblem_ne_self
        { submission with status := .Expired } hget rfl (by rw [hopen]; simp)
      simp [hne]
    · cases h
    · rcases hb : s.escrow problemId with _ | bounty
      all_goals
        simp only [hb] at h
        cases h
      obtain ⟨hget, hopen⟩ := MarketplaceState.open_of_verdict (.inl hv)
      have hne := MarketplaceState.updateProblem_ne_self
        (MarketplaceState.solvedBy tx.from solution submission) hget rfl
          (by rw [hopen]; simp [MarketplaceState.solvedBy])
      simp [solvedStore, hne]
  · simp only [marketOutcome, marketKeeps, hop] at h ⊢
    rcases hc : MarketplaceState.claimable problemId s with _ | r
    all_goals
      simp only [hc] at h
      cases h
    simp
  · simp only [marketOutcome, marketKeeps, hop] at h ⊢
    rcases hc : MarketplaceState.cancellable problemId tx.from s with _ | r
    all_goals
      simp only [hc] at h
      cases h
    simp

theorem keeps_of_panicked {tx : MarketplaceTransaction} {s : MarketplaceState}
    (h : marketOutcome ext now tx s = .panicked) : marketKeeps now tx s := by
  rcases hop : tx.operation with ⟨problem, _⟩ | ⟨problemId, solution⟩ | ⟨problemId⟩ | ⟨problemId⟩
  · simp only [marketKeeps, hop]
  · simp only [marketOutcome, marketKeeps, hop] at h ⊢
    rcases hv : MarketplaceState.solutionVerdict now problemId solution s with
      _ | submission | _ | submission
    all_goals
      simp only [hv] at h ⊢
    · cases h
    · split at h
      · cases h
      · cases h
  · simp only [marketKeeps, hop]
  · simp only [marketKeeps, hop]

/-- What a failing or panicking transaction writes after its checks, if it gets there, changes
nothing. -/
def leavesNoTrace : Transaction → Ledger → Prop
  | .Transfer _, _ => True
  | .TimeLock _, _ => True
  | .Escrow tx, L =>
    match tx.escrowType with
    | .Create _ _ amount _ _ => chargeIdle tx.from (amount + tx.fee) tx.nonce L
    | .Release | .Refund => True
  | .Channel tx, L =>
    match tx.channelType with
    | .Open participantA _ depositA depositB _ => chargeIdle tx.from
        (initiatorDeposit tx.from participantA depositA depositB + tx.fee) tx.nonce L
    | .CooperativeClose finalBalanceA finalBalanceB =>
      ∀ channel, L.channels.get tx.channelId = some channel →
        creditsIdle channel.participantA channel.participantB finalBalanceA finalBalanceB
    | .Update .. | .UnilateralClose .. => True
  | .TrustLine tx, L => chargeIdle tx.from tx.fee tx.nonce L
  | .DimensionalPoolSwap tx, L => chargeIdle tx.from tx.fee tx.nonce L
  | .Marketplace tx, L => marketCost tx = 0 ∧ marketKeeps now tx L.marketplace

/-- A late failure leaves the ledger as it was exactly if it leaves no trace. -/
theorem late_iff {tx : Transaction} {L L' : Ledger}
    (h : outcome ext now blockHeight tx L = .late L') : L' = L ↔ leavesNoTrace now tx L := by
  have heffect := effect_outcome ext now blockHeight tx L
  rw [h] at heffect
  cases heffect with
  | escrowTaken htype hpays htaken =>
    simp only [leavesNoTrace, htype]
    exact charge_eq_self
  | channelTaken htype hpays htaken =>
    simp only [leavesNoTrace, htype]
    exact charge_eq_self
  | notClosed htype hget hs =>
    simp only [leavesNoTrace, htype, hget, Option.some.injEq, forall_eq']
    exact credits_eq_self
  | trustlineKept hpays hs => exact charge_eq_self
  | notSwapped hpays hs => exact charge_eq_self
  | marketLate hpays hs =>
    rw [debit_withMarketplace_eq_self, late_market_iff ext now hs]
    rfl

/-- So does a panic. -/
theorem panicked_iff {tx : Transaction} {L L' : Ledger}
    (h : outcome ext now blockHeight tx L = .panicked L') : L' = L ↔ leavesNoTrace now tx L := by
  have heffect := effect_outcome ext now blockHeight tx L
  rw [h] at heffect
  cases heffect with
  | @marketPanicked tx L hpays hs =>
    have heq : L.debit tx.from (marketCost tx) = L ↔ marketCost tx = 0 ∧ L.marketplace = L.marketplace :=
      debit_withMarketplace_eq_self
    simp only [and_true] at heq
    simp only [leavesNoTrace, keeps_of_panicked ext now hs, and_true]
    exact heq

end Coinjecture.Node.Verdicts
