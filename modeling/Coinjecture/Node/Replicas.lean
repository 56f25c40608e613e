import Coinjecture.Node.ChainRules
import Coinjecture.Node.ClockFreedom

/-! # Two nodes on one chain

Two nodes take the blocks of one chain, each in its own way: as a block it mined, or as one it
received, and by its own clock. A node that mined a block also maintains its pools. Their ledgers
agree as long as the maintenance leaves both with the same pools and no transaction sees which clock
it is applied by. -/

namespace Coinjecture.Node.Replicas

open Lib.Effect Lib.Float64 Lib.Trace Lib.Table
open Core.Types Core.Blocks Core.Extern
open State.Stores State.Stores.Ledger State.DimensionalPools
open State.PoolMaintenance
open Node.BlockProcessing Node.Validator
open Node.Chain Node.Chain.ChainState Node.Service
open Node.ServiceCalls Node.ClockFreedom
open Node.ChainMetadata Node.ChainRules

variable {ext : Ext} {α β : Type}

/-! ### The ledger after a block -/

/-- The error is one of applying a block. -/
def FromLedger : ServiceError → Prop
  | .ledger _ => True
  | _ => False

/-- The computation got as far as applying the block. -/
def Applied : Except ServiceError α → Prop
  | .ok _ => True
  | .error e => FromLedger e

/-- The computation does not touch the ledger, and does not fail with an error of it. -/
def Quiet (x : Exec ServiceError (NodeState ext) α) : Prop :=
  ∀ s, (run x s).2.ledger = s.ledger ∧ ∀ e, (run x s).1 = .error e → ¬ FromLedger e

/-- Where the computation gets as far as applying a block, the ledger is `g` of what it was. -/
def LedgerIs (g : Ledger → Ledger) (x : Exec ServiceError (NodeState ext) α) : Prop :=
  ∀ s, Applied (run x s).1 → (run x s).2.ledger = g s.ledger

theorem LedgerIs.bind {g : Ledger → Ledger} {x : Exec ServiceError (NodeState ext) α}
    {f : α → Exec ServiceError (NodeState ext) β} (hx : Quiet x) (hf : ∀ a, LedgerIs g (f a)) :
    LedgerIs g (x >>= f) := by
  intro s happlied
  obtain ⟨hledger, herror⟩ := hx s
  rcases hrun : run x s with ⟨e | a, t⟩
  · rw [hrun] at herror
    rw [run_bind_error hrun] at happlied
    exact (herror e rfl happlied).elim
  · rw [hrun] at hledger
    rw [run_bind_ok hrun] at happlied ⊢
    rw [hf a t happlied, hledger]

theorem ledgerIs_onLedger (x : Exec Failure Ledger α) :
    LedgerIs (fun L => (run x L).2) (onLedger x : Exec ServiceError (NodeState ext) α) := by
  intro s _
  change (run (mapErr ServiceError.ledger x) s.ledger).2 = _
  rw [snd_run_mapErr]

theorem quiet_gets (f : NodeState ext → α) : Quiet (gets f) :=
  fun _ => ⟨rfl, fun e he => by cases he⟩

theorem quiet_throwIf (c : Prop) [Decidable c] (e : ServiceError)
    (he : ¬ FromLedger e) :
    Quiet (throwIf c e : Exec ServiceError (NodeState ext) Unit) := by
  intro s
  unfold throwIf
  split_ifs
  · refine ⟨rfl, fun e' he' => ?_⟩
    cases he'
    exact he
  · exact ⟨rfl, fun e' he' => by cases he'⟩

theorem quiet_onChain (context : String) (x : Exec ChainError (ChainState ext) α) :
    Quiet (onChain context x) := by
  intro s
  refine ⟨rfl, fun e he => ?_⟩
  rw [run_onChain, run_mapErr] at he
  rcases hrun : run x s.chain with ⟨e' | a, t⟩
  · rw [hrun] at he
    cases he
    exact fun h => h
  · rw [hrun] at he
    cases he

theorem quiet_validated (context : String) (r : Except ValidationError Unit) :
    Quiet (validated context r : Exec ServiceError (NodeState ext) Unit) := by
  intro s
  cases r with
  | ok => exact ⟨rfl, fun e he => by cases he⟩
  | error e =>
    refine ⟨rfl, fun e' he' => ?_⟩
    cases he'
    exact fun h => h

theorem quiet_emissionWork (block : Block) :
    Quiet (emissionWork block : Exec ServiceError (NodeState ext) (Option (BitVec 128))) := by
  intro s
  unfold emissionWork
  split_ifs
  · exact ⟨rfl, fun e he => by cases he⟩
  · obtain ⟨hledger, herror⟩ := quiet_onChain "Could not compute parent cumulative work: "
      (computeCumulativeWorkTipDb block.header.prevHash) s
    rcases hrun : run (onChain "Could not compute parent cumulative work: "
      (computeCumulativeWorkTipDb block.header.prevHash)) s with ⟨e | w, t⟩
    · rw [hrun] at hledger herror
      rw [run_bind_error hrun]
      refine ⟨hledger, fun e' he' => ?_⟩
      cases he'
      exact herror e rfl
    · rw [hrun] at hledger
      rw [run_bind_ok hrun]
      exact ⟨hledger, fun e' he' => by cases he'⟩

theorem ledger_receiveBlock (v : BlockValidator) (now : Int64) (clock : ℕ → Int64) (skip : Bool)
    (block : Block) : LedgerIs (fun L => (run (applyBlockTransactions ext clock block) L).2)
      (receiveBlock v now clock skip block : Exec ServiceError (NodeState ext) (List Hash)) := by
  unfold receiveBlock
  refine .bind (quiet_gets _) fun expectedHeight => ?_
  refine .bind (quiet_gets _) fun bestHash => ?_
  refine .bind (quiet_throwIf _ _ fun h => h) fun _ => ?_
  refine .bind (quiet_throwIf _ _ fun h => h) fun _ => ?_
  refine .bind (quiet_emissionWork block) fun emissionW => ?_
  refine .bind (quiet_validated _ _) fun _ => ?_
  refine .bind (quiet_onChain _ _) fun isNewBest => ?_
  refine .bind (quiet_throwIf _ _ fun h => h) fun _ => ?_
  exact ledgerIs_onLedger _

/-! ### Ways of taking a block -/

inductive Way where
  | mined
  | received (now : Int64) (skipTimestampAgeCheck : Bool)

/-- A way of taking a block, and the clock it is applied by. -/
structure Taking where
  way : Way
  clock : ℕ → Int64

/-- The ledger that the block is applied to. -/
def maintained (block : Block) (way : Way) (s : NodeState ext) : Ledger :=
  match way with
  | .mined => (maintainPools block (saveConsensusState block.header.height s)).ledger
  | .received .. => s.ledger

theorem maintained_congr {s t : NodeState ext} (block : Block) (way : Way)
    (hledger : t.ledger = s.ledger) (hheight : t.consensusHeight = s.consensusHeight) :
    maintained block way t = maintained block way s := by
  cases way with
  | received => exact hledger
  | mined =>
    simp only [maintained, saveConsensusState, maintainPools, hledger, hheight]
    rcases s.consensusHeight with _ | h
    · rfl
    · rfl

/-- Only the pools are maintained. -/
theorem maintained_eq (block : Block) (way : Way) (s : NodeState ext) :
    maintained block way s = s.ledger.withPools (maintained block way s).pools := by
  cases way with
  | received => rfl
  | mined =>
    simp only [maintained, saveConsensusState, maintainPools]
    rcases s.consensusHeight with _ | h
    · rfl
    · rfl

def take (v : BlockValidator) (block : Block) (t : Taking) :
    Exec ServiceError (NodeState ext) (List Hash) :=
  match t.way with
  | .mined => mineBlock t.clock block
  | .received now skip => receiveBlock v now t.clock skip block

/-- A block that is taken is applied to the ledger, after the maintenance. -/
theorem ledger_take {v : BlockValidator} {block : Block} {t : Taking} {s : NodeState ext}
    (h : Applied (run (take v block t) s).1) : (run (take v block t) s).2.ledger =
      (run (applyBlockTransactions ext t.clock block) (maintained block t.way s)).2 := by
  obtain ⟨way, clock⟩ := t
  cases way with
  | received now skip => exact ledger_receiveBlock v now clock skip block s h
  | mined =>
    simp only [take, mineBlock] at h ⊢
    obtain ⟨hledger, herror⟩ := quiet_onChain "failed to store mined block: " (storeBlock block) s
    have hheight : (run (onChain "failed to store mined block: " (storeBlock block)) s
      ).2.consensusHeight = s.consensusHeight := rfl
    rcases hrun : run (onChain "failed to store mined block: " (storeBlock block)) s with ⟨e | b, t⟩
    · rw [hrun] at herror
      rw [run_bind_error hrun] at h
      exact (herror e rfl h).elim
    · rw [hrun] at hledger hheight
      rw [run_bind_ok hrun] at h ⊢
      rw [run_modify_bind, run_modify_bind] at h ⊢
      rw [ledgerIs_onLedger _ _ h, ← maintained_congr block .mined hledger hheight]
      rfl

/-! ### Two nodes -/

/-- A block of the chain, and how each of the two nodes takes it. -/
structure Delivery where
  block : Block
  left : Taking
  right : Taking

variable (ext) in
def replicas (v v' : BlockValidator) : Machine Delivery (NodeState ext × NodeState ext) where
  next d s := ((run (take v d.block d.left) s.1).2, (run (take v' d.block d.right) s.2).2)
  halts _ _ := false

/-- Both nodes take the block: it is stored and applied. -/
def BothTake (v v' : BlockValidator) (p : Delivery × (NodeState ext × NodeState ext)) : Prop :=
  Applied (run (take v p.1.block p.1.left) p.2.1).1 ∧
    Applied (run (take v' p.1.block p.1.right) p.2.2).1

/-- The maintenance leaves the nodes with the same pools, and no transaction of the block sees which
of the clocks it is applied by. -/
def Indifferent (p : Delivery × (NodeState ext × NodeState ext)) : Prop :=
  (maintained p.1.block p.1.left.way p.2.1).pools =
    (maintained p.1.block p.1.right.way p.2.2).pools ∧
    ClockFreeFrom ext p.1.left.clock p.1.right.clock p.1.block.header.height 0
      p.1.block.transactions ((maintained p.1.block p.1.left.way p.2.1).credit
        p.1.block.header.miner p.1.block.coinbase.reward)

theorem agree_next {v v' : BlockValidator} {p : Delivery × (NodeState ext × NodeState ext)}
    (htake : BothTake v v' p) (hindifferent : Indifferent p)
    (hagree : p.2.1.ledger = p.2.2.ledger) :
    ((replicas ext v v').next p.1 p.2).1.ledger = ((replicas ext v v').next p.1 p.2).2.ledger := by
  obtain ⟨d, s, s'⟩ := p
  obtain ⟨hpools, hclock⟩ := hindifferent
  have hmaintained : maintained d.block d.left.way s = maintained d.block d.right.way s' := by
    rw [maintained_eq d.block d.left.way s, maintained_eq d.block d.right.way s']
    rw [show s.ledger = s'.ledger from hagree]
    exact congrArg (fun pools => s'.ledger.withPools pools) hpools
  have hsame : run (applyBlockTransactions ext d.left.clock d.block)
      (maintained d.block d.left.way s) = run (applyBlockTransactions ext d.right.clock d.block)
        (maintained d.block d.left.way s) := by
    simp only [applyBlockTransactions, run_gets_bind, run_modify_bind]
    exact applyTransactions_clockFree hclock
  calc (run (take v d.block d.left) s).2.ledger
      = (run (applyBlockTransactions ext d.left.clock d.block)
          (maintained d.block d.left.way s)).2 := ledger_take htake.1
    _ = (run (applyBlockTransactions ext d.right.clock d.block)
          (maintained d.block d.right.way s')).2 := by rw [hsame, hmaintained]
    _ = (run (take v' d.block d.right) s').2.ledger := (ledger_take htake.2).symm

theorem trace_single (v v' : BlockValidator) (d : Delivery) (s : NodeState ext × NodeState ext) :
    (replicas ext v v').trace [d] s = [(d, s)] := rfl

theorem ledgers_of_next {v v' : BlockValidator} {d : Delivery} {s s' : NodeState ext}
    (h : ((replicas ext v v').next (d, (s, s')).1 (d, (s, s')).2).1.ledger =
      ((replicas ext v v').next (d, (s, s')).1 (d, (s, s')).2).2.ledger) :
    (run (take v d.block d.left) s).2.ledger = (run (take v' d.block d.right) s').2.ledger := h

theorem bothTake_of_ok {v v' : BlockValidator} {d : Delivery} {s s' : NodeState ext}
    {hashes hashes' : List Hash} (hleft : (run (take v d.block d.left) s).1 = .ok hashes)
    (hright : (run (take v' d.block d.right) s').1 = .ok hashes') : BothTake v v' (d, (s, s')) := by
  rw [BothTake, hleft, hright]
  exact ⟨trivial, trivial⟩

theorem clockFreeFrom_nil (clock clock' : ℕ → Int64) (blockHeight : UInt64) (i : ℕ) (L : Ledger) :
    ClockFreeFrom ext clock clock' blockHeight i [] L := trivial

/-- Both nodes receive the later block, at different times. -/
def laterReceived : Delivery where
  block := laterBlock
  left := ⟨.received 1767225660 false, fun _ => 1767225660⟩
  right := ⟨.received 1767225670 false, fun _ => 1767225670⟩

/-- `exp` at the points the maintenance of height 1 asks for. -/
def expTable : List (F64 × F64) :=
  [(⟨0xBFE0000000000000⟩, ⟨0x3FE368B2FC6F960A⟩), (⟨0x8000000000000000⟩, ⟨0x3FF0000000000000⟩),
    (⟨0xBFC21A1851FF630B⟩, ⟨0x3FEBC7AAD1DB89E7⟩), (⟨0xBFD28DF2873F5F1E⟩, ⟨0x3FE7F24DBDB33F55⟩),
    (⟨0xBFDEC5F624FEF52C⟩, ⟨0x3FE3C8DACFE63951⟩), (⟨0xBFE62CC4313F3FB9⟩, ⟨0x3FE000BF6B56642F⟩),
    (⟨0xBFEEC5F624FEF52C⟩, ⟨0x3FD876E117C0AF88⟩), (⟨0xBFF62CC4313F3FB9⟩, ⟨0x3FD0017EDF9EDDDD⟩),
    (⟨0xBFFEC5F624FEF52C⟩, ⟨0x3FC2B40B45DF8A72⟩)]

def poolExt : Ext := { ext0 with exp := fun x => (expTable.lookup x).getD F64.one }

/-- The first pool, with a thousand atoms locked. -/
def firstPool : PoolLiquidity where
  pool := .D1
  liquidity := 1000
  lockedLiquidity := 1000
  unlockedLiquidity := 0
  lastUnlockFraction := F64.zero
  dimensionalFactor := F64.one
  allocationRatio := F64.one
  tau := F64.zero
  phase := F64.zero
  lastUpdateHeight := 0

def poolLedger : Ledger :=
  (Ledger.ofAccounts Sample.aliceHas100).withPools ⟨Keyed.empty.insert firstPool, .empty⟩

def poolStart : NodeState poolExt := Coinjecture.Node.ChainRules.start block0 poolLedger

/-- One node mined the later block, the other receives it. -/
def laterMined : Delivery :=
  { laterReceived with left := ⟨.mined, fun _ => 1767225660⟩ }

theorem ne_of_liquidity {L L' : Ledger} {pool : Core.Transactions.DimensionalPool} {a b : Balance}
    (hab : a ≠ b)
    (ha : (L.pools.pools.get pool).map PoolLiquidity.liquidity = some a)
    (hb : (L'.pools.pools.get pool).map PoolLiquidity.liquidity = some b) : L ≠ L' := by
  intro h
  rw [h, hb] at ha
  exact hab (Option.some.inj ha).symm

end Coinjecture.Node.Replicas
