import Coinjecture.Node.ChainRules
import Coinjecture.Rpc.Server

/-! # What a call does to the ledger

A call that gets past its checks writes to the marketplace, and no block asked for it: `Writes` says
when. Every other call leaves the ledger alone. So the accounts and the marketplace are those of the
blocks alone, at every point of a run, exactly if no call of the run writes. -/

namespace Coinjecture.Rpc.CallEffects

open Lib.Effect Lib.Float64 Lib.Bincode Lib.Table
open Lib.Trace
open Core.Types Core.Problem Core.Transactions
open Core.Extern Core.Crypto Core.Privacy
open State.Accounts
open State.Stores State.Stores.Ledger State.Marketplace
open State.Marketplace.MarketplaceState
open Node.Validator Node.Service Node.ServiceCalls
open Node.ChainMetadata Node.ChainRules
open Rpc.Server Rpc.Server.RpcFailure

/-! ### The parts of a method -/

section Parts

variable {ext : Ext} {α : Type} {L : Ledger}

theorem run_onMarket_ok {x : Exec Failure MarketplaceState α} {a : α} {m : MarketplaceState}
    (h : run x L.marketplace = (.ok a, m)) : run (onMarket x) L = (.ok a, L.withMarketplace m) :=
  run_mapErr_ok (run_onMarketplace h) ofFailure

theorem run_onMarket_error {x : Exec Failure MarketplaceState α} {e : Failure}
    {m : MarketplaceState} (h : run x L.marketplace = (.error e, m)) :
    run (onMarket x) L = (.error (ofFailure e), L.withMarketplace m) :=
  run_mapErr_error (run_onMarketplace h) ofFailure

/-- The account covers the bounty and the fee, and their sum is not too large for a `u128`. -/
def Affords (submitter : Address) (bounty : Balance) (L : Ledger) : Prop :=
  bounty.toNat + MIN_FEE_BOUNTY_SUBMISSION.toNat < 2 ^ 128 ∧
    bounty + MIN_FEE_BOUNTY_SUBMISSION ≤ L.balance submitter

theorem run_affordable_ok {submitter : Address} {bounty : Balance}
    (h : Affords submitter bounty L) : run (affordable submitter bounty) L =
      (.ok (L.balance submitter, bounty + MIN_FEE_BOUNTY_SUBMISSION), L) := by
  have hsum : ¬ 2 ^ 128 ≤ bounty.toNat + MIN_FEE_BOUNTY_SUBMISSION.toNat := not_le.mpr h.1
  have hcovered : ¬ L.balance submitter < bounty + MIN_FEE_BOUNTY_SUBMISSION :=
    BitVec.not_lt.mpr h.2
  simp only [affordable, run_gets_bind, run_throwIf_bind, if_neg hsum, if_neg hcovered, run_pure]

theorem run_affordable_refused {submitter : Address} {bounty : Balance}
    (h : ¬ Affords submitter bounty L) :
    ∃ e, run (affordable submitter bounty) L = (.error e, L) := by
  simp only [affordable, run_gets_bind, run_throwIf_bind]
  split_ifs with hsum hcovered
  · exact ⟨_, rfl⟩
  · exact ⟨_, rfl⟩
  · exact absurd ⟨not_le.mp hsum, BitVec.not_lt.mp hcovered⟩ h

/-- What cannot be afforded changes nothing. -/
theorem affordable_keeps {submitter : Address} {bounty : Balance} {β : Type}
    {f : Balance × Balance → Exec RpcFailure Ledger β}
    (h : Affords submitter bounty L →
      (run (f (L.balance submitter, bounty + MIN_FEE_BOUNTY_SUBMISSION)) L).2 = L) :
    (run (affordable submitter bounty >>= f) L).2 = L := by
  by_cases hpay : Affords submitter bounty L
  · rw [run_bind_ok (run_affordable_ok hpay)]
    exact h hpay
  · obtain ⟨e, he⟩ := run_affordable_refused hpay
    rw [run_bind_error he]

/-- The marketplace takes the listing. -/
def Listable (ext : Ext) (mode : SubmissionMode) (minWorkScore : F64) (L : Ledger) : Prop :=
  modeAdmitted ext mode minWorkScore = true ∧
    L.marketplace.problems.get (problemIdOf ext mode) = none

theorem listable_public (problem : ProblemType) (minWorkScore : F64) :
    Listable ext (.Public problem) minWorkScore L ↔
      L.marketplace.problems.get (ProblemType.hash ext problem) = none := by
  simp only [Listable, modeAdmitted, problemIdOf, true_and]

/-- The mode the server makes for a wallet. -/
def walletMode (rpc : RpcExt) (ext : Ext) (params : PrivateProblemWalletParams) (salt : Bytes32) :
    SubmissionMode :=
  .Private
    (WellformednessProof.create ext params.problem salt
      (problemPublicParams rpc params.problem params.minWorkScore)).2
    (WellformednessProof.create ext params.problem salt
      (problemPublicParams rpc params.problem params.minWorkScore)).1
    (problemPublicParams rpc params.problem params.minWorkScore)

theorem max_not_lt (x y : F64) : (x.max y).lt y = false := by
  have hirrefl : y.lt y = false := by simp only [F64.lt, lt_irrefl, decide_false, Bool.and_false]
  unfold F64.max
  split_ifs with hnan hlt
  · exact hirrefl
  · exact hirrefl
  · exact Bool.eq_false_iff.mpr hlt

/-- What the server makes passes the checks of the marketplace. -/
theorem listable_wallet (rpc : RpcExt) (params : PrivateProblemWalletParams) (salt : Bytes32) :
    Listable ext (walletMode rpc ext params salt) params.minWorkScore L ↔
      L.marketplace.problems.get (WellformednessProof.create ext params.problem salt
        (problemPublicParams rpc params.problem params.minWorkScore)).2 = none := by
  have hscore : (problemPublicParams rpc params.problem params.minWorkScore).complexityEstimate.lt
      params.minWorkScore = false := max_not_lt _ _
  simp only [Listable, walletMode, modeAdmitted, problemIdOf, verify_create, hscore, Bool.not_false,
    Bool.and_self, true_and]

variable {mode : SubmissionMode} {minWorkScore : F64}

theorem run_submit_ok (now : Int64) (submitter : Address) (bounty : Balance)
    (expirationDays : UInt64) (title briefing : Option String)
    (h : Listable ext mode minWorkScore L) :
    run (onMarket (submitProblem ext now mode submitter bounty minWorkScore expirationDays title
        briefing)) L = (.ok (problemIdOf ext mode), L.withMarketplace (storeSubmission
          (newSubmission ext now mode submitter bounty minWorkScore expirationDays title briefing)
          L.marketplace)) :=
  run_onMarket_ok ((submitProblem_guarded_mode ..).ok h)

theorem run_submit_refused (now : Int64) (submitter : Address) (bounty : Balance)
    (expirationDays : UInt64) (title briefing : Option String)
    (h : ¬ Listable ext mode minWorkScore L) :
    ∃ e, run (onMarket (submitProblem ext now mode submitter bounty minWorkScore expirationDays
        title briefing)) L = (.error e, L) := by
  obtain ⟨m, hm⟩ := (submitProblem_guarded_mode ext now mode submitter bounty minWorkScore
    expirationDays title briefing L.marketplace).refused h
  exact ⟨_, run_onMarket_error hm⟩

/-- A new listing is a change. -/
theorem storeSubmission_ne {submission : ProblemSubmission} {m : MarketplaceState}
    (h : m.problems.get submission.problemId = none) : storeSubmission submission m ≠ m := by
  intro heq
  have hget : (storeSubmission submission m).problems.get submission.problemId = some submission :=
    Keyed.get_insert_self ..
  rw [heq, h] at hget
  cases hget

/-- A listing with another record is a change. -/
theorem updateProblem_ne {problemId : Hash} {m : MarketplaceState}
    {stored submission : ProblemSubmission} (hne : submission ≠ stored)
    (hget : m.problems.get problemId = some stored) (hid : submission.problemId = stored.problemId) :
    (m.updateProblem submission).problems ≠ m.problems := by
  intro heq
  have hnew : (m.updateProblem submission).problems.get problemId = some submission :=
    Keyed.get_insert_of_get hget hid
  rw [heq, hget] at hnew
  exact hne (Option.some.inj hnew).symm

theorem updateProblem_self {problemId : Hash} {m : MarketplaceState} {stored : ProblemSubmission}
    (hget : m.problems.get problemId = some stored) : m.updateProblem stored = m := by
  have hins : m.problems.insert stored = m.problems :=
    Keyed.insert_eq_self.mpr (by rw [m.problems.keyed hget, hget])
  rw [updateProblem, hins]

theorem get_of_revealable {problemId : Hash} {reveal : ProblemReveal} {m : MarketplaceState}
    {submission : ProblemSubmission} (h : revealable ext problemId reveal m = some submission) :
    m.problems.get problemId = some submission :=
  (Option.filter_eq_some_iff.mp h).1

end Parts

/-! ### The calls that write -/

variable {rpc : RpcExt} {ext : Ext} {Pool : Type}

/-- The call gets past its checks, and what it then writes is not there already. -/
def Writes (rpc : RpcExt) (ext : Ext) : RpcCall ext Pool → Ledger → Prop
  | .query _, _ => False
  | .submitTransaction _, _ => False
  | .submitPrivateProblem _ params, L =>
    ∃ mode, params.check rpc = .ok mode ∧ Listable ext mode params.minWorkScore L
  | .submitPrivateProblemWithWallet _ params, L => ∃ submitter metadata salt,
    params.check rpc = .ok (submitter, metadata) ∧ Affords submitter params.bounty L ∧
      parseSalt rpc params.salt = .ok salt ∧
      L.marketplace.problems.get (WellformednessProof.create ext params.problem salt
        (problemPublicParams rpc params.problem params.minWorkScore)).2 = none
  | .revealProblem now params, L => ∃ problemId problem salt submission,
    params.check rpc = .ok (problemId, problem, salt) ∧
      revealable ext problemId ⟨problem, salt, now⟩ L.marketplace = some submission ∧
      submission.problemReveal ≠ some ⟨problem, salt, now⟩
  | .submitPublicProblem _ params, L => ∃ submitter metadata,
    params.check rpc = .ok (submitter, metadata) ∧ Affords submitter params.bounty L ∧
      L.marketplace.problems.get (ProblemType.hash ext params.problem) = none
  | .submitPublicSubsetSum _ params, L => ∃ submitter,
    params.check rpc = .ok submitter ∧ Affords submitter params.bounty L ∧
      L.marketplace.problems.get
        (ProblemType.hash ext (.SubsetSum params.numbers params.target)) = none
  | .submitSolution now params, L => ∃ solver problemId submission,
    params.check rpc = .ok (solver, problemId) ∧
      (solutionVerdict now problemId params.solution L.marketplace = .solved submission ∨
        solutionVerdict now problemId params.solution L.marketplace = .expired submission)

section Charged

variable {now : Int64} {mode : SubmissionMode} {submitter : Address} {bounty : Balance}
  {minWorkScore : F64} {expirationDays : UInt64} {title briefing : Option String}
  {balance totalCost : Balance} {L : Ledger}

/-- A listing that is refused leaves the ledger alone, whatever would come after it. -/
theorem listAndDebit_refused {β : Type} (f : Hash → Exec RpcFailure Ledger β)
    (h : ¬ Listable ext mode minWorkScore L) :
    (run (listAndDebit ext now mode submitter bounty minWorkScore expirationDays title briefing
      balance totalCost >>= f) L).2 = L := by
  obtain ⟨e, he⟩ := run_submit_refused now submitter bounty expirationDays title briefing h
  have hrun := run_bind_error he fun problemId => do
    modify (setBalance submitter (balance - totalCost))
    pure problemId
  exact congrArg Prod.snd (run_bind_error hrun f)

/-- A listing that is taken changes the marketplace. -/
theorem listAndDebit_ne {β : Type} (f : Hash → Exec RpcFailure Ledger β)
    (hf : ∀ a L, (run (f a) L).2 = L) (h : Listable ext mode minWorkScore L) :
    (run (listAndDebit ext now mode submitter bounty minWorkScore expirationDays title briefing
      balance totalCost >>= f) L).2.marketplace ≠ L.marketplace := by
  have hsubmit := run_submit_ok now submitter bounty expirationDays title briefing h
  have hrun := run_bind_ok hsubmit fun problemId => do
    modify (setBalance submitter (balance - totalCost))
    pure problemId
  rw [listAndDebit, run_bind_ok hrun, hf]
  exact storeSubmission_ne h.2

end Charged

variable {L : Ledger}

theorem serve_of_not_writes {call : RpcCall ext Pool} (h : ¬ Writes rpc ext call L) :
    call.serve rpc ext L = L := by
  cases call with
  | query answer => rfl
  | submitTransaction txHex => rfl
  | submitPrivateProblem now params =>
    simp only [RpcCall.serve, submitPrivateProblem]
    rcases hcheck : params.check rpc with e | mode
    · rfl
    have hlist : ¬ Listable ext mode params.minWorkScore L := fun hlist => h ⟨mode, hcheck, hlist⟩
    obtain ⟨e, he⟩ := run_submit_refused now ⟨0⟩ params.bounty params.expirationDays none none hlist
    rw [run_ofExcept_ok_bind, run_bind_error he]
  | submitPrivateProblemWithWallet now params =>
    simp only [RpcCall.serve, submitPrivateProblemWithWallet]
    rcases hcheck : params.check rpc with e | ⟨submitter, title, briefing⟩
    · rfl
    rw [run_ofExcept_ok_bind]
    refine affordable_keeps fun hpay => ?_
    rcases hsalt : parseSalt rpc params.salt with e | salt
    · rfl
    rw [run_ofExcept_ok_bind]
    exact listAndDebit_refused _ fun hlist => h ⟨submitter, (title, briefing), salt, hcheck, hpay,
      hsalt, (listable_wallet rpc params salt).mp hlist⟩
  | revealProblem now params =>
    simp only [RpcCall.serve, Server.revealProblem]
    rcases hcheck : params.check rpc with e | ⟨problemId, problem, salt⟩
    · rfl
    rw [run_ofExcept_ok_bind]
    have hrun := run_revealProblem ext problemId ⟨problem, salt, now⟩ L.marketplace
    rcases hto : revealable ext problemId ⟨problem, salt, now⟩ L.marketplace with _ | submission
    · rw [hto] at hrun
      obtain ⟨m, hm⟩ := hrun
      rw [run_bind_error (run_onMarket_error hm)]
      rfl
    · rw [hto] at hrun
      have hsame : submission.problemReveal = some ⟨problem, salt, now⟩ := by
        by_contra hne
        exact h ⟨problemId, problem, salt, submission, hcheck, hto, hne⟩
      rw [run_bind_ok (run_onMarket_ok hrun), run_pure, ← hsame,
        updateProblem_self (get_of_revealable hto)]
      rfl
  | submitPublicProblem now params =>
    simp only [RpcCall.serve, submitPublicProblem]
    rcases hcheck : params.check rpc with e | ⟨submitter, title, briefing⟩
    · rfl
    rw [run_ofExcept_ok_bind]
    refine affordable_keeps fun hpay => ?_
    exact listAndDebit_refused _ fun hlist =>
      h ⟨submitter, (title, briefing), hcheck, hpay, (listable_public ..).mp hlist⟩
  | submitPublicSubsetSum now params =>
    simp only [RpcCall.serve, submitPublicSubsetSum]
    rcases hcheck : params.check rpc with e | submitter
    · rfl
    rw [run_ofExcept_ok_bind]
    refine affordable_keeps fun hpay => ?_
    exact listAndDebit_refused _ fun hlist =>
      h ⟨submitter, hcheck, hpay, (listable_public ..).mp hlist⟩
  | submitSolution now params =>
    simp only [RpcCall.serve, Server.submitSolution]
    rcases hcheck : params.check rpc with e | ⟨solver, problemId⟩
    · rfl
    rw [run_ofExcept_ok_bind]
    have hrun := run_submitSolution now problemId solver params.solution L.marketplace
    rcases hverdict : solutionVerdict now problemId params.solution L.marketplace with
      _ | submission | _ | submission
    · rw [hverdict] at hrun
      obtain ⟨m, hm⟩ := hrun
      rw [run_bind_error (run_onMarket_error hm)]
      rfl
    · exact absurd ⟨solver, problemId, submission, hcheck, .inr hverdict⟩ h
    · rw [hverdict] at hrun
      rw [run_bind_error (run_onMarket_error hrun)]
      rfl
    · exact absurd ⟨solver, problemId, submission, hcheck, .inl hverdict⟩ h

theorem marketplace_serve_ne {call : RpcCall ext Pool} (h : Writes rpc ext call L) :
    (call.serve rpc ext L).marketplace ≠ L.marketplace := by
  cases call with
  | query answer => exact h.elim
  | submitTransaction txHex => exact h.elim
  | submitPrivateProblem now params =>
    obtain ⟨mode, hcheck, hlist⟩ := h
    have hsubmit := run_submit_ok now ⟨0⟩ params.bounty params.expirationDays none none hlist
    simp only [RpcCall.serve, submitPrivateProblem]
    rw [hcheck, run_ofExcept_ok_bind]
    rw [run_bind_ok hsubmit]
    exact storeSubmission_ne hlist.2
  | submitPrivateProblemWithWallet now params =>
    obtain ⟨submitter, ⟨title, briefing⟩, salt, hcheck, hpay, hsalt, hget⟩ := h
    have hlist := (listable_wallet rpc params salt).mpr hget
    simp only [RpcCall.serve, submitPrivateProblemWithWallet]
    rw [hcheck, run_ofExcept_ok_bind]
    rw [run_bind_ok (run_affordable_ok hpay), hsalt, run_ofExcept_ok_bind]
    dsimp only
    refine listAndDebit_ne _ (fun _ _ => ?_) hlist
    rw [run_pure]
  | revealProblem now params =>
    obtain ⟨problemId, problem, salt, submission, hcheck, hto, hne⟩ := h
    have hrun := run_revealProblem ext problemId ⟨problem, salt, now⟩ L.marketplace
    rw [hto] at hrun
    simp only [RpcCall.serve, Server.revealProblem]
    rw [hcheck, run_ofExcept_ok_bind]
    rw [run_bind_ok (run_onMarket_ok hrun), run_pure]
    have hchanged : { submission with problemReveal := some ⟨problem, salt, now⟩ } ≠ submission :=
      fun hsame => hne (congrArg ProblemSubmission.problemReveal hsame).symm
    have hproblems := updateProblem_ne hchanged (get_of_revealable hto) rfl
    exact fun heq => hproblems (congrArg MarketplaceState.problems heq)
  | submitPublicProblem now params =>
    obtain ⟨submitter, ⟨title, briefing⟩, hcheck, hpay, hget⟩ := h
    simp only [RpcCall.serve, submitPublicProblem]
    rw [hcheck, run_ofExcept_ok_bind]
    rw [run_bind_ok (run_affordable_ok hpay)]
    dsimp only
    refine listAndDebit_ne _ (fun _ _ => ?_) ((listable_public ..).mpr hget)
    rw [run_pure]
  | submitPublicSubsetSum now params =>
    obtain ⟨submitter, hcheck, hpay, hget⟩ := h
    simp only [RpcCall.serve, submitPublicSubsetSum]
    rw [hcheck, run_ofExcept_ok_bind]
    rw [run_bind_ok (run_affordable_ok hpay)]
    dsimp only
    refine listAndDebit_ne _ (fun _ _ => ?_) ((listable_public ..).mpr hget)
    rw [run_pure]
  | submitSolution now params =>
    obtain ⟨solver, problemId, submission, hcheck, hverdict⟩ := h
    have hopen := open_of_verdict hverdict
    have hrun := run_submitSolution now problemId solver params.solution L.marketplace
    simp only [RpcCall.serve, Server.submitSolution]
    rw [hcheck, run_ofExcept_ok_bind]
    rcases hverdict with hsolved | hexpired
    · rw [hsolved] at hrun
      rw [run_bind_ok (run_onMarket_ok hrun)]
      have hclaim := run_claimBounty problemId
        (L.marketplace.updateProblem (solvedBy solver params.solution submission))
      have hchanged : solvedBy solver params.solution submission ≠ submission := by
        intro hsame
        have hstatus := congrArg ProblemSubmission.status hsame
        rw [hopen.2] at hstatus
        cases hstatus
      have hproblems := updateProblem_ne hchanged hopen.1 rfl
      -- whether the bounty is claimed or not, the listing stays solved
      rcases hclaimable : claimable problemId
        (L.marketplace.updateProblem (solvedBy solver params.solution submission)) with _ | ⟨a, b⟩
      · rw [hclaimable] at hclaim
        obtain ⟨m, hm⟩ := hclaim
        rw [run_bind_error (run_onMarket_error hm)]
        exact fun heq => hproblems (congrArg MarketplaceState.problems heq)
      · rw [hclaimable] at hclaim
        rw [run_bind_ok (run_onMarket_ok hclaim)]
        simp only [run_gets_bind, run_modify_bind, run_pure]
        intro heq
        have hsame := congrArg MarketplaceState.problems heq
        exact hproblems hsame
    · rw [hexpired] at hrun
      rw [run_bind_error (run_onMarket_error hrun)]
      refine updateProblem_ne_self _ hopen.1 rfl ?_
      rw [hopen.2]
      exact fun hstatus => by cases hstatus

/-! ### Runs -/

variable (add : Transaction → Pool → Except String Hash × Pool) (v : BlockValidator)

/-- The blocks of a run. -/
def blockEvents (events : List (ServerEvent ext Pool)) : List NodeEvent :=
  events.filterMap fun
    | .block event => some event
    | .call _ => none

/-- The same balances, nonces, listings and escrows. -/
def SameStores (L L' : Ledger) : Prop :=
  L.accounts = L'.accounts ∧ L.marketplace = L'.marketplace

theorem node_next_call {rpc : RpcExt} {call : RpcCall ext Pool} {start : ServerState ext Pool}
    (h : ¬ Writes rpc ext call start.node.ledger) :
    ((serverMachine rpc ext add v).next (.call call) start).node = start.node := by
  change { start.node with ledger := call.serve rpc ext start.node.ledger } = start.node
  rw [serve_of_not_writes h]

/-- No call writes, where it is served. -/
def NoCallWrites (rpc : RpcExt) (events : List (ServerEvent ext Pool))
    (start : ServerState ext Pool) : Prop :=
  ∀ p ∈ (serverMachine rpc ext add v).trace events start,
    ∀ call, p.1 = .call call → ¬ Writes rpc ext call p.2.node.ledger

/-- The accounts and the marketplace are those of the blocks alone, after every event of a run,
exactly if no call of the run writes. -/
theorem calls_change_nothing_iff (rpc : RpcExt) (events : List (ServerEvent ext Pool))
    (start : ServerState ext Pool) :
    (∀ events', events' <+: events →
      SameStores ((serverMachine rpc ext add v).final events' start).node.ledger
        ((nodeMachine ext v).final (blockEvents events') start.node).ledger) ↔
    NoCallWrites add v rpc events start := by
  induction events generalizing start with
  | nil =>
    refine ⟨fun _ p hp => (by cases hp), fun _ events' hprefix => ?_⟩
    rw [List.prefix_nil.mp hprefix]
    exact ⟨rfl, rfl⟩
  | cons e events ih =>
    have htail := ih ((serverMachine rpc ext add v).next e start)
    cases e with
    | block event =>
      constructor
      · intro h p hp call hcall
        rcases List.mem_cons.mp hp with rfl | hp
        · cases hcall
        · exact htail.mp (fun events' hprefix =>
            h (.block event :: events') ((List.prefix_cons_inj _).mpr hprefix)) p hp call hcall
      · intro h events' hprefix
        rcases List.prefix_cons_iff.mp hprefix with rfl | ⟨rest, rfl, hrest⟩
        · exact ⟨rfl, rfl⟩
        · exact htail.mpr (fun p hp => h p (List.mem_cons_of_mem _ hp)) rest hrest
    | call call =>
      constructor
      · intro h
        -- the run that stops after this call shows that it does not write
        have hcall : ¬ Writes rpc ext call start.node.ledger := fun hwrites =>
          marketplace_serve_ne hwrites
            (h [.call call] ((List.prefix_cons_inj _).mpr List.nil_prefix)).2
        have hnode := node_next_call add v hcall
        intro p hp call' hp'
        rcases List.mem_cons.mp hp with rfl | hp
        · cases hp'
          exact hcall
        · refine htail.mp (fun events' hprefix => ?_) p hp call' hp'
          have hwhole := h (.call call :: events') ((List.prefix_cons_inj _).mpr hprefix)
          rw [hnode]
          exact hwhole
      · intro h events' hprefix
        have hnode := node_next_call add v (h _ List.mem_cons_self call rfl)
        rcases List.prefix_cons_iff.mp hprefix with rfl | ⟨rest, rfl, hrest⟩
        · exact ⟨rfl, rfl⟩
        · have hwhole := htail.mpr (fun p hp => h p (List.mem_cons_of_mem _ hp)) rest hrest
          rw [hnode] at hwhole
          exact hwhole

/-! ### A listing in Alice's name -/

/-- Decoders that know one string: the hex of Alice's address. -/
def aliceRpc : RpcExt where
  hexDecode s :=
    if s = "8a88e3dd7409f195fd52db2d3cba5d72ca6709bf1d94121bf3748801b40f6f5c" then
      .ok Sample.aliceKey.toAddress.asBytes
    else .error "Odd number of digits"
  problemFromJson _ := .error "expected value at line 1 column 1"
  transactionFromJson _ := .error "expected value at line 1 column 1"
  transactionFromBincode _ := .error "io error: unexpected end of file"
  log2 _ := F64.zero

/-- A bounty of 5 atoms on the sample problem. Nothing in it comes from Alice. -/
def aliceListing : PublicSubsetSumParams where
  numbers := [1]
  target := 1
  bounty := 5
  minWorkScore := F64.one
  expirationDays := 30
  submitter := "8a88e3dd7409f195fd52db2d3cba5d72ca6709bf1d94121bf3748801b40f6f5c"

/-- Alice owns two BEANS. -/
def twoBeans : NodeState ext0 :=
  { start0 with ledger := .ofAccounts (.ofBalances [(Sample.aliceKey.toAddress, 2000000000000)]) }

/-- No block is taken, and Alice has paid 1 BEANS and 5 atoms, of which 5 are escrowed. -/
theorem call_debits_alice :
    ((run (submitPublicSubsetSum aliceRpc ext0 1767225660 aliceListing) twoBeans.ledger).2.balance
        Sample.aliceKey.toAddress = 999999999995 ∧
      (run (submitPublicSubsetSum aliceRpc ext0 1767225660 aliceListing)
        twoBeans.ledger).2.marketplace.escrow Sample.problemHash = some 5) ∧
    ¬ ∀ (rpc : RpcExt) (events : List (ServerEvent ext0 Unit)) (start : ServerState ext0 Unit),
      ∀ events', events' <+: events →
        SameStores ((serverMachine rpc ext0 (fun _ pool => (.error "", pool))
            Sample.validator).final events' start).node.ledger
          ((nodeMachine ext0 Sample.validator).final (blockEvents events') start.node).ledger := by
  have hbalance : (run (submitPublicSubsetSum aliceRpc ext0 1767225660 aliceListing)
      twoBeans.ledger).2.balance Sample.aliceKey.toAddress = 999999999995 := by decide
  refine ⟨⟨hbalance, by decide⟩, fun h => ?_⟩
  have hsame := (h aliceRpc [.call (.submitPublicSubsetSum 1767225660 aliceListing)] ⟨twoBeans, ()⟩ _
    List.prefix_rfl).1
  have hbefore : twoBeans.ledger.balance Sample.aliceKey.toAddress = 2000000000000 := by
    decide
  have hpaid : (run (submitPublicSubsetSum aliceRpc ext0 1767225660 aliceListing)
      twoBeans.ledger).2.accounts = twoBeans.ledger.accounts := hsame
  rw [Ledger.balance, hpaid] at hbalance
  rw [Ledger.balance, hbalance] at hbefore
  exact absurd hbefore (by decide)

end Coinjecture.Rpc.CallEffects
