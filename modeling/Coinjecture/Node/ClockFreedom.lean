import Coinjecture.Node.Validator
import Coinjecture.Node.Verdicts

/-! # Blocks and the clock

Four branches read the clock: a refund compares it with the escrow's timeout, a dispute and a new
listing store it, a solution compares it with the listing's expiry. `ClockFree` says when none of
this shows for two readings; a block is applied alike at two times if every transaction of it is clock
free where it is applied. -/

namespace Coinjecture.Node.ClockFreedom

open Lib.Effect Lib.Table Lib.Trace
open Core.Types Core.Problem Core.Transactions
open Core.Blocks Core.Extern Core.Crypto
open Core.Privacy
open State.Accounts State.Escrows State.Channels
open State.Marketplace
open State.Stores State.Stores.Ledger
open Node.BlockProcessing Node.Outcomes Node.Runs
open Node.Verdicts Node.Validator

variable (ext : Ext)

/-! ### The condition -/

/-- A check against the clock that the transaction reaches comes out alike at both readings, and
nothing it stores shows them. -/
def ClockFree (n m : Int64) : Transaction → Ledger → Prop
  | .Escrow tx, L =>
    match tx.escrowType with
    | .Refund => ∀ escrow, L.escrows.get tx.escrowId = some escrow → escrow.status = .Active →
        escrow.arbiter ≠ some tx.from → tx.from = escrow.sender →
          (escrow.timeout ≤ n ↔ escrow.timeout ≤ m)
    | .Create .. | .Release => True
  | .Channel tx, L =>
    match tx.channelType with
    | .UnilateralClose _ balanceA balanceB _ =>
      openWithTotal tx balanceA balanceB L.channels = true → n = m
    | .Open .. | .Update .. | .CooperativeClose .. => True
  | .Marketplace tx, L => ¬ L.balance tx.from < marketCost tx →
      match tx.operation with
      | .SubmitProblem problem .. =>
        L.marketplace.problems.get (ProblemType.hash ext problem) = none → n = m
      | .SubmitSolution problemId _ => ∀ submission,
          L.marketplace.problems.get problemId = some submission → submission.status = .Open →
            (submission.expiresAt < n ↔ submission.expiresAt < m)
      | .ClaimBounty .. | .CancelProblem .. => True
  | .Transfer _, _ | .TimeLock _, _ | .TrustLine _, _ | .DimensionalPoolSwap _, _ => True

variable {ext} {n m : Int64} {blockHeight : UInt64}

/-! ### Escrows and channels -/

theorem canRefund_some {now : Int64} {escrowId : Hash} {refunder : Address} {escrow : Escrow}
    {s : EscrowState} (hget : s.get escrowId = some escrow) : s.canRefund now escrowId refunder =
      decide (escrow.status = .Active ∧
        (escrow.arbiter = some refunder ∨ refunder = escrow.sender ∧ escrow.timeout ≤ now)) := by
  have hgetEscrow : s.getEscrow escrowId = some escrow := hget
  unfold EscrowState.canRefund
  rw [hgetEscrow]
  simp only
  by_cases hactive : escrow.status = .Active
  · by_cases harbiter : escrow.arbiter = some refunder
    · simp [hactive, harbiter]
    · simp [hactive, harbiter]
  · simp [hactive]

/-- The right to a refund is the same at both readings exactly if a check of the timeout is. -/
theorem canRefund_eq_iff {escrowId : Hash} {refunder : Address} {escrow : Escrow} {s : EscrowState}
    (hget : s.get escrowId = some escrow) :
    s.canRefund n escrowId refunder = s.canRefund m escrowId refunder ↔
      (escrow.status = .Active → escrow.arbiter ≠ some refunder → refunder = escrow.sender →
        (escrow.timeout ≤ n ↔ escrow.timeout ≤ m)) := by
  rw [canRefund_some hget, canRefund_some hget, decide_eq_decide]
  tauto

theorem outcome_refund_iff {tx : EscrowTransaction} {L : Ledger} (htype : tx.escrowType = .Refund) :
    outcome ext n blockHeight (.Escrow tx) L = outcome ext m blockHeight (.Escrow tx) L ↔
      ClockFree ext n m (.Escrow tx) L := by
  simp only [outcome, ClockFree, htype]
  rcases hget : L.escrows.get tx.escrowId with _ | escrow
  · simp
  simp only [Option.some.injEq, forall_eq', ← canRefund_eq_iff hget]
  constructor
  · intro h
    rcases hn : L.escrows.canRefund n tx.escrowId tx.from with _ | _
    · rcases hm : L.escrows.canRefund m tx.escrowId tx.from with _ | _
      · rfl
      · rw [hn, hm] at h
        simp at h
    · rcases hm : L.escrows.canRefund m tx.escrowId tx.from with _ | _
      · rw [hn, hm] at h
        simp at h
      · rfl
  · intro h
    rw [h]

theorem disputed_eq_iff (sequence : UInt64) {tx : ChannelTransaction} {balanceA balanceB : Balance}
    {s : ChannelState} :
    disputed n tx sequence balanceA balanceB s = disputed m tx sequence balanceA balanceB s ↔
      (openWithTotal tx balanceA balanceB s = true → n = m) := by
  unfold disputed openWithTotal
  rcases hget : s.get tx.channelId with _ | channel
  · simp
  simp only [Option.bind_some, Option.any_some, decide_eq_true_eq]
  by_cases hopen : channel.status = .Open ∧ balanceA + balanceB = channel.capacity
  · simp only [hopen, and_self, if_true, true_implies, Option.some.injEq]
    constructor
    · intro h
      -- the record that was stored carries the reading
      have hstored := congrArg (fun t : ChannelState => t.get channel.channelId) h
      simp only [Keyed.get_insert, if_true, Option.some.injEq, Channel.mk.injEq, true_and] at hstored
      exact hstored
    · rintro rfl
      rfl
  · simp only [hopen, if_false, false_implies]

theorem outcome_dispute_iff {tx : ChannelTransaction} {sequence : UInt64}
    {balanceA balanceB : Balance} {disputeProof : Lib.Bincode.Bytes} {L : Ledger}
    (htype : tx.channelType = .UnilateralClose sequence balanceA balanceB disputeProof) :
    outcome ext n blockHeight (.Channel tx) L = outcome ext m blockHeight (.Channel tx) L ↔
      ClockFree ext n m (.Channel tx) L := by
  simp only [outcome, ClockFree, htype, ← disputed_eq_iff sequence]
  constructor
  · intro h
    rcases hn : disputed n tx sequence balanceA balanceB L.channels with _ | s
    · rcases hm : disputed m tx sequence balanceA balanceB L.channels with _ | s'
      · rfl
      · rw [hn, hm] at h
        cases h
    · rcases hm : disputed m tx sequence balanceA balanceB L.channels with _ | s'
      · rw [hn, hm] at h
        cases h
      · rw [hn, hm] at h
        simp only [Outcome.done.injEq] at h
        have hchannels : s = s' := (congrArg Ledger.channels h :)
        rw [hchannels]
  · intro h
    rw [h]

/-! ### The marketplace -/

/-- Where a solution was found expired at one reading, the other did not find the same. -/
theorem solution_of_expiry {problemId : Hash} {solution : Solution} {s : MarketplaceState}
    (h : ∀ submission, s.problems.get problemId = some submission → submission.status = .Open →
      (submission.expiresAt < n ↔ submission.expiresAt < m)) :
    MarketplaceState.solutionVerdict n problemId solution s =
      MarketplaceState.solutionVerdict m problemId solution s := by
  unfold MarketplaceState.solutionVerdict
  rcases hget : s.problems.get problemId with _ | submission
  · rfl
  simp only
  by_cases hopen : submission.status = .Open
  · have hexpiry := h submission hget hopen
    simp only [ne_eq, hopen, not_true_eq_false, if_false, hexpiry]
  · simp only [ne_eq, hopen, not_false_eq_true, if_true]

theorem expired_iff (solution : Solution) {now : Int64} {problemId : Hash} {s : MarketplaceState}
    {submission : ProblemSubmission} (hget : s.problems.get problemId = some submission)
    (hopen : submission.status = .Open) : submission.expiresAt < now ↔
      MarketplaceState.solutionVerdict now problemId solution s = .expired submission := by
  unfold MarketplaceState.solutionVerdict
  rw [hget]
  simp only [ne_eq, hopen, not_true_eq_false, if_false]
  by_cases hexpired : submission.expiresAt < now
  · simp only [hexpired, if_true]
  · simp only [hexpired, if_false, false_iff]
    split
    · simp
    · split
      · simp
      · split
        · simp
        · split
          · simp
          · simp

variable (ext) in
/-- The status a listing has after a solution was submitted. -/
theorem status_of_solution {now : Int64} {tx : MarketplaceTransaction} {problemId : Hash}
    {solution : Solution} {s : MarketplaceState} {submission : ProblemSubmission}
    (hop : tx.operation = .SubmitSolution problemId solution)
    (hget : s.problems.get problemId = some submission) (hopen : submission.status = .Open) :
    (∃ s', marketOutcome ext now tx s = .late s' ∧
      (s'.problems.get problemId).map ProblemSubmission.status = some .Expired) ↔
        submission.expiresAt < now := by
  rw [expired_iff solution hget hopen]
  have hkey := s.problems.keyed hget
  simp only [marketOutcome, hop]
  rcases hv : MarketplaceState.solutionVerdict now problemId solution s with
    _ | submission' | _ | submission'
  · simp only [MarketOutcome.late.injEq, exists_eq_left', hget, Option.map_some, hopen]
    simp
  · obtain ⟨hget', -⟩ := MarketplaceState.open_of_verdict (.inr hv)
    rw [hget] at hget'
    cases hget'
    simp only [MarketOutcome.late.injEq, exists_eq_left']
    have hstored : (s.updateProblem { submission with status := .Expired }).problems.get problemId =
        some { submission with status := .Expired } := by
      rw [← hkey]
      exact Keyed.get_insert_self ..
    rw [hstored]
    simp
  · simp
  · simp only [reduceCtorEq, iff_false]
    obtain ⟨hget', -⟩ := MarketplaceState.open_of_verdict (.inl hv)
    rcases s.escrow problemId with _ | bounty
    · rintro ⟨s', hs', hstatus⟩
      cases hs'
      have hstored : (solvedStore tx.from solution submission' s).problems.get problemId =
          some (MarketplaceState.solvedBy tx.from solution submission') := by
        have hkey' := s.problems.keyed hget'
        rw [← hkey']
        exact Keyed.get_insert_self ..
      rw [hstored] at hstatus
      simp [MarketplaceState.solvedBy] at hstatus
    · rintro ⟨s', hs', -⟩
      cases hs'

variable (ext blockHeight) in
/-- … and so the ledger after it. -/
theorem outcome_of_solution {now : Int64} {tx : MarketplaceTransaction} {problemId : Hash}
    {solution : Solution} {L : Ledger} {submission : ProblemSubmission}
    (hop : tx.operation = .SubmitSolution problemId solution)
    (hpays : ¬ L.balance tx.from < marketCost tx)
    (hget : L.marketplace.problems.get problemId = some submission)
    (hopen : submission.status = .Open) :
    (∃ L', outcome ext now blockHeight (.Marketplace tx) L = .late L' ∧
      (L'.marketplace.problems.get problemId).map ProblemSubmission.status = some .Expired) ↔
        submission.expiresAt < now := by
  rw [← status_of_solution ext hop hget hopen]
  simp only [outcome, hpays, if_false]
  constructor
  · rintro ⟨L', hL', hstatus⟩
    rcases hs : marketOutcome ext now tx L.marketplace with s | _ | ⟨s, payee, amount⟩
    · rw [hs] at hL'
      cases hL'
      exact ⟨s, rfl, hstatus⟩
    · rw [hs] at hL'
      cases hL'
    · rw [hs] at hL'
      cases hL'
  · rintro ⟨s, hs, hstatus⟩
    rw [hs]
    exact ⟨_, rfl, hstatus⟩

/-- A new listing shows the reading it was stored at. -/
theorem outcome_submission_iff {tx : MarketplaceTransaction} {problem : ProblemType}
    {bounty : Balance} {minWorkScore : Lib.Float64.F64} {expirationDays : UInt64}
    {title briefing : Option String} {L : Ledger}
    (hop : tx.operation = .SubmitProblem problem bounty minWorkScore expirationDays title briefing)
    (hpays : ¬ L.balance tx.from < marketCost tx) :
    outcome ext n blockHeight (.Marketplace tx) L = outcome ext m blockHeight (.Marketplace tx) L ↔
      (L.marketplace.problems.get (ProblemType.hash ext problem) = none → n = m) := by
  simp only [outcome, hpays, if_false, marketOutcome, hop]
  by_cases hnew : L.marketplace.problems.get (ProblemType.hash ext problem) = none
  · simp only [hnew, if_true, true_implies, Outcome.done.injEq]
    constructor
    · intro h
      have hproblems : L.marketplace.problems.insert (MarketplaceState.newSubmission ext n
          (.Public problem) tx.from bounty minWorkScore expirationDays title briefing) =
          L.marketplace.problems.insert (MarketplaceState.newSubmission ext m
          (.Public problem) tx.from bounty minWorkScore expirationDays title briefing) :=
        (congrArg (fun L : Ledger => L.marketplace.problems) h :)
      have hstored := congrArg (fun t => (t.get (ProblemType.hash ext problem)).map
        ProblemSubmission.submittedAt) hproblems
      have hget : ∀ now : Int64, (L.marketplace.problems.insert
          (MarketplaceState.newSubmission ext now (.Public problem) tx.from bounty minWorkScore
            expirationDays title briefing)).get (ProblemType.hash ext problem) =
          some (MarketplaceState.newSubmission ext now (.Public problem) tx.from bounty minWorkScore
            expirationDays title briefing) := fun now => Keyed.get_insert_self ..
      simp only [hget, Option.map_some, Option.some.injEq] at hstored
      exact hstored
    · rintro rfl
      rfl
  · simp only [hnew, if_false, false_implies]

theorem outcome_market_iff (tx : MarketplaceTransaction) (L : Ledger) :
    outcome ext n blockHeight (.Marketplace tx) L = outcome ext m blockHeight (.Marketplace tx) L ↔
      ClockFree ext n m (.Marketplace tx) L := by
  by_cases hpays : L.balance tx.from < marketCost tx
  · simp only [outcome, ClockFree, hpays, if_true, not_true_eq_false, false_implies]
  rcases hop : tx.operation with ⟨problem, bounty, minWorkScore, expirationDays, title, briefing⟩ |
    ⟨problemId, solution⟩ | ⟨problemId⟩ | ⟨problemId⟩
  · rw [outcome_submission_iff hop hpays]
    simp only [ClockFree, hop, hpays, not_false_eq_true, true_implies]
  · simp only [ClockFree, hop, hpays, not_false_eq_true, true_implies]
    constructor
    · intro h submission hget hopen
      rw [← outcome_of_solution ext blockHeight hop hpays hget hopen, h,
        outcome_of_solution ext blockHeight hop hpays hget hopen]
    · intro h
      simp only [outcome, marketOutcome, hop, solution_of_expiry h]
  · simp only [ClockFree, hop, outcome, marketOutcome, implies_true]
  · simp only [ClockFree, hop, outcome, marketOutcome, implies_true]

/-! ### Transactions and blocks -/

/-- A transaction does the same at two readings exactly if it is clock free. -/
theorem outcome_eq_iff (tx : Transaction) (L : Ledger) :
    outcome ext n blockHeight tx L = outcome ext m blockHeight tx L ↔ ClockFree ext n m tx L := by
  cases tx with
  | Transfer tx => simp only [outcome, ClockFree]
  | TimeLock tx => simp only [outcome, ClockFree]
  | Escrow tx =>
    rcases htype : tx.escrowType with ⟨recipient, arbiter, amount, timeout, conditionsHash⟩ | _ | _
    · simp only [outcome, ClockFree, htype]
    · simp only [outcome, ClockFree, htype]
    · exact outcome_refund_iff htype
  | Channel tx =>
    rcases htype : tx.channelType with ⟨participantA, participantB, depositA, depositB, timeout⟩ |
      ⟨sequence, balanceA, balanceB⟩ | ⟨finalBalanceA, finalBalanceB⟩ |
      ⟨sequence, balanceA, balanceB, disputeProof⟩
    · simp only [outcome, ClockFree, htype]
    · simp only [outcome, ClockFree, htype]
    · simp only [outcome, ClockFree, htype]
    · exact outcome_dispute_iff htype
  | TrustLine tx => simp only [outcome, ClockFree]
  | DimensionalPoolSwap tx => simp only [outcome, ClockFree]
  | Marketplace tx => exact outcome_market_iff tx L

/-- What `apply_single_transaction` does, up to the text of an error: whether it went through or
panicked, and the ledger it leaves. -/
def result (ext : Ext) (now : Int64) (blockHeight : UInt64) (tx : Transaction) (L : Ledger) :
    Option (Option Unit) × Ledger :=
  match run (applySingleTransaction ext now blockHeight tx) L with
  | (.ok (), L') => (some (some ()), L')
  | (.error (.err _), L') => (some none, L')
  | (.error .panic, L') => (none, L')

/-- How a result shows an outcome: an early refusal is an error that left the ledger. -/
def shown (L : Ledger) : Outcome → Option (Option Unit) × Ledger
  | .refused => (some none, L)
  | .late L' => (some none, L')
  | .panicked L' => (none, L')
  | .done L' => (some (some ()), L')

theorem result_eq (now : Int64) (tx : Transaction) (L : Ledger) :
    result ext now blockHeight tx L = shown L (outcome ext now blockHeight tx L) := by
  have hrun := run_applySingleTransaction ext now blockHeight tx L
  unfold result
  cases ho : outcome ext now blockHeight tx L with
  | refused =>
    rw [ho] at hrun
    obtain ⟨msg, hmsg⟩ := hrun
    rw [hmsg, shown]
  | late L' =>
    rw [ho] at hrun
    obtain ⟨msg, hmsg⟩ := hrun
    rw [hmsg, shown]
  | panicked L' =>
    rw [ho] at hrun
    rw [show run _ L = _ from hrun, shown]
  | done L' =>
    rw [ho] at hrun
    rw [show run _ L = _ from hrun, shown]

/-- Whether a transaction is refused at once or fails late is no matter of the clock. -/
theorem not_late_of_refused {tx : Transaction} {L : Ledger}
    (hn : verdict ext n blockHeight tx L = .refused) : verdict ext m blockHeight tx L ≠ .late := by
  intro hm
  cases tx with
  | Transfer tx =>
    have hsame : verdict ext m blockHeight (.Transfer tx) L = verdict ext n blockHeight (.Transfer tx) L :=
      rfl
    rw [hsame, hn] at hm
    cases hm
  | TimeLock tx =>
    have hsame : verdict ext m blockHeight (.TimeLock tx) L = verdict ext n blockHeight (.TimeLock tx) L :=
      rfl
    rw [hsame, hn] at hm
    cases hm
  | Escrow tx =>
    rcases htype : tx.escrowType with ⟨recipient, arbiter, amount, timeout, conditionsHash⟩ | _ | _
    · simp only [verdict, htype] at hn hm
      rw [hn] at hm
      cases hm
    · simp only [verdict, htype] at hn hm
      rw [hn] at hm
      cases hm
    · simp only [verdict, htype, Verdict.guarded] at hm
      split_ifs at hm
  | Channel tx =>
    rcases htype : tx.channelType with ⟨participantA, participantB, depositA, depositB, timeout⟩ |
      ⟨sequence, balanceA, balanceB⟩ | ⟨finalBalanceA, finalBalanceB⟩ |
      ⟨sequence, balanceA, balanceB, disputeProof⟩
    all_goals
      simp only [verdict, htype] at hn hm
      rw [hn] at hm
      cases hm
  | TrustLine tx =>
    have hsame : verdict ext m blockHeight (.TrustLine tx) L = verdict ext n blockHeight (.TrustLine tx) L :=
      rfl
    rw [hsame, hn] at hm
    cases hm
  | DimensionalPoolSwap tx =>
    have hsame : verdict ext m blockHeight (.DimensionalPoolSwap tx) L =
        verdict ext n blockHeight (.DimensionalPoolSwap tx) L := rfl
    rw [hsame, hn] at hm
    cases hm
  | Marketplace tx =>
    simp only [verdict, Verdict.guarded] at hn hm
    split_ifs at hn hm
    exact marketVerdict_ne ext n hn

theorem result_eq_iff (tx : Transaction) (L : Ledger) :
    result ext n blockHeight tx L = result ext m blockHeight tx L ↔ ClockFree ext n m tx L := by
  have houtcome : outcome ext n blockHeight tx L = outcome ext m blockHeight tx L ↔
    ClockFree ext n m tx L := outcome_eq_iff tx L
  rw [result_eq, result_eq, ← houtcome]
  constructor
  · intro h
    have hn := verdict_outcome ext n blockHeight tx L
    have hm := verdict_outcome ext m blockHeight tx L
    rcases hon : outcome ext n blockHeight tx L with _ | L1 | L1 | L1
    all_goals
      rcases hom : outcome ext m blockHeight tx L with _ | L2 | L2 | L2
      all_goals
        simp only [hon, hom, kind, shown, Prod.mk.injEq, Option.some.injEq, reduceCtorEq, false_and,
          true_and] at h hn hm
    · rfl
    · exact absurd hm.symm (not_late_of_refused hn.symm)
    · exact absurd hn.symm (not_late_of_refused hm.symm)
    · rw [h]
    · rw [h]
    · rw [h]
  · intro h
    rw [h]

/-- Every transaction is clock free for the readings of the two clocks, where the first applies it. -/
def ClockFreeFrom (ext : Ext) (clock clock' : ℕ → Int64) (blockHeight : UInt64) :
    ℕ → List Transaction → Ledger → Prop
  | _, [], _ => True
  | i, tx :: txs, L => ClockFree ext (clock i) (clock' i) tx L ∧
      ClockFreeFrom ext clock clock' blockHeight (i + 1) txs
        ((machine ext).next (.transaction (clock i) blockHeight tx) L)

theorem applyTransactions_clockFree {clock clock' : ℕ → Int64} {i : ℕ} {txs : List Transaction}
    {L : Ledger} (h : ClockFreeFrom ext clock clock' blockHeight i txs L) :
    run (applyTransactions ext clock blockHeight i txs) L =
      run (applyTransactions ext clock' blockHeight i txs) L := by
  induction txs generalizing i L with
  | nil => rfl
  | cons tx txs ih =>
    obtain ⟨hfirst, hrest⟩ := h
    rw [next_transaction] at hrest
    have hsame : outcome ext (clock i) blockHeight tx L = outcome ext (clock' i) blockHeight tx L :=
      (outcome_eq_iff tx L).mpr hfirst
    have hrun := run_applySingleTransaction ext (clock i) blockHeight tx L
    have hrun' := run_applySingleTransaction ext (clock' i) blockHeight tx L
    rw [← hsame] at hrun'
    rw [BlockProcessing.applyTransactions, BlockProcessing.applyTransactions, run_bind, run_bind, run_attempt, run_attempt]
    cases ho : outcome ext (clock i) blockHeight tx L with
    | refused =>
      rw [ho] at hrun hrun' hrest
      obtain ⟨msg, hmsg⟩ := hrun
      obtain ⟨msg', hmsg'⟩ := hrun'
      have htail := ih hrest
      simp only [after] at htail
      simp only [hmsg, hmsg', run_bind, htail]
    | late L' =>
      rw [ho] at hrun hrun' hrest
      obtain ⟨msg, hmsg⟩ := hrun
      obtain ⟨msg', hmsg'⟩ := hrun'
      have htail := ih hrest
      simp only [after] at htail
      simp only [hmsg, hmsg', run_bind, htail]
    | panicked L' =>
      rw [ho] at hrun hrun'
      rw [show run _ L = _ from hrun, show run _ L = _ from hrun']
    | done L' =>
      rw [ho] at hrun hrun' hrest
      have htail := ih hrest
      simp only [after] at htail
      rw [show run _ L = _ from hrun, show run _ L = _ from hrun']
      simp only [run_bind, htail]

/-- A transaction does the same at two readings exactly if it is clock free; and a block whose
transactions all are for two clocks has the same result and leaves the same ledger under both. -/
theorem clock_free_iff (ext : Ext) :
    (∀ n m blockHeight tx L, result ext n blockHeight tx L = result ext m blockHeight tx L ↔
      ClockFree ext n m tx L) ∧
    ∀ clock clock' block L,
      ClockFreeFrom ext clock clock' block.header.height 0 block.transactions
        (L.credit block.header.miner block.coinbase.reward) →
      run (applyBlockTransactions ext clock block) L =
        run (applyBlockTransactions ext clock' block) L := by
  refine ⟨fun n m blockHeight tx L => result_eq_iff tx L, fun clock clock' block L h => ?_⟩
  simp only [applyBlockTransactions, run_gets_bind, run_modify_bind]
  exact applyTransactions_clockFree h

/-- The block with Alice's transfer does not see the clock. -/
theorem clock_free_aliceBlock :
    run (applyBlockTransactions Sample.ext (fun _ => 0) Sample.aliceBlock)
      (.ofAccounts Sample.aliceHas100) =
    run (applyBlockTransactions Sample.ext (fun _ => 1000) Sample.aliceBlock)
      (.ofAccounts Sample.aliceHas100) :=
  (clock_free_iff Sample.ext).2 _ _ Sample.aliceBlock _ ⟨trivial, trivial⟩

/-- Alice asks for the refund of an escrow. -/
def aliceRefund : EscrowTransaction where
  escrowType := .Refund
  escrowId := Hash.ZERO
  «from» := Sample.aliceKey.toAddress
  fee := 0
  nonce := 0
  publicKey := Sample.aliceKey
  signature := ⟨0⟩
  additionalSignatures := []

/-- Alice has 100, and 10 in an escrow that times out at 10. -/
def escrowUntil10 : Ledger :=
  (Ledger.ofAccounts Sample.aliceHas100).withEscrows
    (Keyed.empty.insert (escrowOf 0 aliceRefund Sample.bob none 10 10 Hash.ZERO))

/-- A block with her refund skips it at 5 and pays it at 15. -/
theorem refund_sees_clock :
    ((run (applyBlockTransactions Sample.ext (fun _ => 5)
      (Sample.block Sample.emptyHeader [.Escrow aliceRefund])) escrowUntil10).2.balance
        Sample.aliceKey.toAddress = 100 ∧
    (run (applyBlockTransactions Sample.ext (fun _ => 15)
      (Sample.block Sample.emptyHeader [.Escrow aliceRefund])) escrowUntil10).2.balance
        Sample.aliceKey.toAddress = 110) ∧
    ¬ ∀ clock clock' block L, run (applyBlockTransactions Sample.ext clock block) L =
      run (applyBlockTransactions Sample.ext clock' block) L := by
  have hbalances : (run (applyBlockTransactions Sample.ext (fun _ => 5)
      (Sample.block Sample.emptyHeader [.Escrow aliceRefund])) escrowUntil10).2.balance
        Sample.aliceKey.toAddress = 100 ∧
    (run (applyBlockTransactions Sample.ext (fun _ => 15)
      (Sample.block Sample.emptyHeader [.Escrow aliceRefund])) escrowUntil10).2.balance
        Sample.aliceKey.toAddress = 110 := by decide
  refine ⟨hbalances, fun h => ?_⟩
  have hsame := h (fun _ => 5) (fun _ => 15) (Sample.block Sample.emptyHeader [.Escrow aliceRefund])
    escrowUntil10
  rw [hsame] at hbalances
  rw [hbalances.2] at hbalances
  exact absurd hbalances.1 (by decide)

end Coinjecture.Node.ClockFreedom
