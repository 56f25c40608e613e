import Coinjecture.Node.Service

/-! # The calls the service makes on the chain state

The service writes to the chain state through `store_block` and `update_best_chain` only. `MakesCalls`
says which calls a computation of the service makes: all of them if it succeeds, a first part of them
if it stops. A run of the node is therefore a run of the chain state (`chain_next`). -/

namespace Coinjecture.Node.ServiceCalls

open Lib.Effect Lib.Trace
open Core.Types Core.Blocks Core.Extern
open Core.Crypto
open State.Stores
open Node.BlockProcessing Node.Validator
open Node.Chain Node.Chain.ChainState Node.Service

variable {ext : Ext} {α β : Type}

/-- The computation makes the calls, or a first part of them if it fails. -/
def MakesCalls (calls : List ChainCall) (x : Exec ServiceError (NodeState ext) α) : Prop :=
  ∀ s, ∃ made, made <+: calls ∧ (run x s).2.chain = (chainMachine ext).final made s.chain ∧
    ∀ a, (run x s).1 = .ok a → made = calls

theorem final_append (calls calls' : List ChainCall) (c : ChainState ext) :
    (chainMachine ext).final (calls ++ calls') c =
      (chainMachine ext).final calls' ((chainMachine ext).final calls c) := by
  induction calls generalizing c with
  | nil => rfl
  | cons call calls ih => exact ih _

/-! ### Composition -/

theorem makesCalls_nil {x : Exec ServiceError (NodeState ext) α}
    (h : ∀ s, (run x s).2.chain = s.chain) : MakesCalls [] x :=
  fun s => ⟨[], List.prefix_rfl, h s, fun _ _ => rfl⟩

theorem MakesCalls.bind {calls calls' : List ChainCall} {x : Exec ServiceError (NodeState ext) α}
    {f : α → Exec ServiceError (NodeState ext) β} (hx : MakesCalls calls x)
    (hf : ∀ a, MakesCalls calls' (f a)) : MakesCalls (calls ++ calls') (x >>= f) := by
  intro s
  obtain ⟨made, hmade, hchain, hall⟩ := hx s
  rw [run_bind]
  rcases hrun : run x s with ⟨e | a, t⟩
  · rw [hrun] at hchain
    refine ⟨made, hmade.trans (List.prefix_append ..), hchain, fun b hb => by cases hb⟩
  · rw [hrun] at hchain hall
    obtain ⟨made', hmade', hchain', hall'⟩ := hf a t
    obtain rfl := hall a rfl
    refine ⟨made ++ made', (List.prefix_append_right_inj made).mpr hmade', ?_, fun b hb => ?_⟩
    · rw [final_append, ← hchain]
      exact hchain'
    · rw [hall' b hb]

theorem MakesCalls.nil_bind {calls : List ChainCall} {x : Exec ServiceError (NodeState ext) α}
    {f : α → Exec ServiceError (NodeState ext) β} (hx : ∀ s, (run x s).2.chain = s.chain)
    (hf : ∀ a, MakesCalls calls (f a)) : MakesCalls calls (x >>= f) :=
  (makesCalls_nil hx).bind hf

theorem MakesCalls.bind_nil {calls : List ChainCall} {x : Exec ServiceError (NodeState ext) α}
    {f : α → Exec ServiceError (NodeState ext) β} (hx : MakesCalls calls x)
    (hf : ∀ a s, (run (f a) s).2.chain = s.chain) : MakesCalls calls (x >>= f) := by
  have h := hx.bind fun a => makesCalls_nil (hf a)
  rwa [List.append_nil] at h

/-! ### The parts -/

theorem run_onChain (context : String) (x : Exec ChainError (ChainState ext) α) (s : NodeState ext) :
    run (onChain context x) s = ((run (mapErr (ServiceError.chain context) x) s.chain).1,
      { s with chain := (run (mapErr (ServiceError.chain context) x) s.chain).2 }) := rfl

theorem snd_run_mapErr {ε ε' σ : Type} (f : ε → ε') (x : Exec ε σ α) (s : σ) :
    (run (mapErr f x) s).2 = (run x s).2 := by
  rw [run_mapErr]
  rcases run x s with ⟨e | a, t⟩
  · rfl
  · rfl

theorem chain_onChain (context : String) (x : Exec ChainError (ChainState ext) α)
    (s : NodeState ext) : (run (onChain context x) s).2.chain = (run x s.chain).2 := by
  rw [run_onChain, snd_run_mapErr]

theorem chain_onLedger (x : Exec Failure Ledger α) (s : NodeState ext) :
    (run (onLedger x) s).2.chain = s.chain := rfl

theorem makesCalls_storeBlock (context : String) (block : Block) :
    MakesCalls [.storeBlock block]
      (onChain context (storeBlock block) : Exec ServiceError (NodeState ext) Bool) :=
  fun _ => ⟨[.storeBlock block], List.prefix_rfl, chain_onChain .., fun _ _ => rfl⟩

theorem makesCalls_updateBestChain (context : String) (hash : Hash) (height : UInt64) :
    MakesCalls [.updateBestChain hash height]
      (onChain context (updateBestChain hash height) : Exec ServiceError (NodeState ext) Unit) :=
  fun _ => ⟨[.updateBestChain hash height], List.prefix_rfl, chain_onChain .., fun _ _ => rfl⟩

/-- A sum over the chain writes nothing. -/
theorem snd_run_sumFromTip (f : Block → BitVec 128) (tip : Hash) (c : ChainState ext) :
    (run (sumFromTip f tip) c).2 = c := by
  simp only [sumFromTip, run_gets_bind]
  rcases walkFromTip tip c with blocks | _ | _
  · rfl
  · rfl
  · rfl

theorem chain_emissionWork (block : Block) (s : NodeState ext) :
    (run (emissionWork block) s).2.chain = s.chain := by
  unfold emissionWork
  split_ifs with hzero
  · rfl
  · have hsum := snd_run_sumFromTip truncatedWork block.header.prevHash s.chain
    rw [run_bind]
    have hchain := chain_onChain "Could not compute parent cumulative work: "
      (computeCumulativeWorkTipDb block.header.prevHash) s
    rcases hrun : run (onChain "Could not compute parent cumulative work: "
      (computeCumulativeWorkTipDb block.header.prevHash)) s with ⟨e | w, t⟩
    · rw [hrun] at hchain
      exact hchain.trans hsum
    · rw [hrun] at hchain
      exact hchain.trans hsum

theorem chain_validated (context : String) (r : Except ValidationError Unit) (s : NodeState ext) :
    (run (validated context r) s).2.chain = s.chain := by
  cases r with
  | ok => rfl
  | error => rfl

theorem chain_throwIf (c : Prop) [Decidable c] (e : ServiceError) (s : NodeState ext) :
    (run (throwIf c e : Exec ServiceError (NodeState ext) Unit) s).2.chain = s.chain := by
  unfold throwIf
  split_ifs
  · rfl
  · rfl

theorem chain_maintainPools (block : Block) (s : NodeState ext) :
    (maintainPools block s).chain = s.chain := by
  unfold maintainPools
  rcases s.consensusHeight with _ | h
  · rfl
  · rfl

/-! ### The paths -/

variable (v : BlockValidator) (now : Int64)

theorem makesCalls_receiveBlock (clock : ℕ → Int64) (skip : Bool) (block : Block) :
    MakesCalls [.storeBlock block]
      (receiveBlock v now clock skip block : Exec ServiceError (NodeState ext) (List Hash)) := by
  unfold receiveBlock
  refine .nil_bind (fun s => rfl) fun expectedHeight => ?_
  refine .nil_bind (fun s => rfl) fun bestHash => ?_
  refine .nil_bind (fun s => chain_throwIf ..) fun _ => ?_
  refine .nil_bind (fun s => chain_throwIf ..) fun _ => ?_
  refine .nil_bind (fun s => chain_emissionWork block s) fun w => ?_
  refine .nil_bind (fun s => chain_validated ..) fun _ => ?_
  refine .bind_nil (makesCalls_storeBlock _ block) fun isNewBest s => ?_
  simp only [run_throwIf_bind]
  split_ifs
  · rfl
  · rfl

theorem makesCalls_mineBlock (clock : ℕ → Int64) (block : Block) :
    MakesCalls [.storeBlock block]
      (mineBlock clock block : Exec ServiceError (NodeState ext) (List Hash)) := by
  unfold mineBlock
  refine .bind_nil (makesCalls_storeBlock _ block) fun _ s => ?_
  simp only [run_modify_bind]
  rw [chain_onLedger, chain_maintainPools]
  rfl

theorem makesCalls_applyNewChain (clock : ℕ → ℕ → Int64) (i : ℕ) (blocks : List Block) :
    MakesCalls (blocks.map ChainCall.storeBlock)
      (applyNewChain clock i blocks : Exec ServiceError (NodeState ext) Unit) := by
  induction blocks generalizing i with
  | nil => exact makesCalls_nil fun s => rfl
  | cons block blocks ih =>
    rw [applyNewChain, List.map_cons, ← List.singleton_append]
    refine (makesCalls_storeBlock _ block).bind fun _ => ?_
    refine .nil_bind (fun s => chain_onLedger ..) fun _ => ?_
    exact .nil_bind (fun s => rfl) fun _ => ih (i + 1)

/-- The calls of a reorganisation to a valid new chain. -/
def switchCalls (ext : Ext) (newChain : List Block) : List ChainCall :=
  newChain.map .storeBlock ++
    match newChain.getLast? with
    | none => []
    | some lastBlock => [.updateBestChain (Block.hash ext lastBlock) lastBlock.header.height]

theorem makesCalls_reorganizeChain (clock : ℕ → ℕ → Int64) (oldChain newChain : List Block) :
    MakesCalls (switchCalls ext newChain)
      (reorganizeChain v now clock oldChain newChain : Exec ServiceError (NodeState ext) Unit) := by
  unfold reorganizeChain
  refine .nil_bind (fun s => rfl) fun _ => ?_
  refine .nil_bind (fun s => ?_) fun firstBlock => ?_
  · rcases newChain.head? with _ | block
    · rfl
    · rfl
  refine .nil_bind (fun s => ?_) fun w => ?_
  · rw [chain_onChain]
    exact snd_run_sumFromTip ..
  rcases validateNewChain ext v now firstBlock.header.prevHash w newChain with e | _
  · exact fun s => ⟨[], List.nil_prefix, rfl, fun a ha => by cases ha⟩
  · refine (makesCalls_applyNewChain clock 0 newChain).bind fun _ => ?_
    rcases newChain.getLast? with _ | lastBlock
    · exact makesCalls_nil fun s => rfl
    · exact makesCalls_updateBestChain _ _ _

/-! ### Events -/

/-- What happens to a node. -/
inductive NodeEvent where
  | received (now : Int64) (clock : ℕ → Int64) (skipTimestampAgeCheck : Bool) (block : Block)
  | mined (clock : ℕ → Int64) (block : Block)
  | reorganised (now : Int64) (clock : ℕ → ℕ → Int64) (oldChain newChain : List Block)

/-- The work through the parent of a block, if its chain is stored. -/
def parentWork (block : Block) (c : ChainState ext) : Except ChainError (Option (BitVec 128)) :=
  if block.header.height = 0 then .ok none
  else (run (computeCumulativeWorkTipDb block.header.prevHash) c).1.map some

/-- A received block gets as far as the store. -/
def Receives (skip : Bool) (block : Block) (c : ChainState ext) : Prop :=
  block.header.height = c.bestHeight + 1 ∧ block.header.prevHash = c.bestHash ∧
    ∃ w, parentWork block c = .ok w ∧ v.validateBlockWithOptions ext now block c.bestHash
      (c.bestHeight + 1) skip w = .ok ()

/-- A new chain gets as far as the stores. -/
def SwitchesTo (newChain : List Block) (c : ChainState ext) : Prop :=
  ∃ firstBlock w, newChain.head? = some firstBlock ∧
    (run (computeCumulativeWorkTipDb firstBlock.header.prevHash) c).1 = .ok w ∧
    validateNewChain ext v now firstBlock.header.prevHash w newChain = .ok ()

open Classical in
/-- The calls of an event that is not stopped before the first of them. -/
noncomputable def plannedCalls (c : ChainState ext) : NodeEvent → List ChainCall
  | .received now _ skip block => if Receives v now skip block c then [.storeBlock block] else []
  | .mined _ block => [.storeBlock block]
  | .reorganised now _ _ newChain => if SwitchesTo v now newChain c then switchCalls ext newChain else []

/-- The node taking events. An error ends the event and the node goes on. -/
def nodeMachine (ext : Ext) (v : BlockValidator) : Machine NodeEvent (NodeState ext) where
  next e s :=
    match e with
    | .received now clock skip block => (run (receiveBlock v now clock skip block) s).2
    | .mined clock block => (run (mineBlock clock block) s).2
    | .reorganised now clock oldChain newChain =>
      (run (reorganizeChain v now clock oldChain newChain) s).2
  halts _ _ := false

section Stopped

variable {v : BlockValidator} {now : Int64} {s : NodeState ext}

theorem run_emissionWork {block : Block} {w : Option (BitVec 128)}
    (h : (run (emissionWork block) s).1 = .ok w) : parentWork block s.chain = .ok w := by
  unfold emissionWork at h
  unfold parentWork
  split_ifs at h ⊢ with hzero
  · rw [run_pure] at h
    cases h
    rfl
  · rw [run_bind, run_onChain, run_mapErr] at h
    rcases hrun : run (computeCumulativeWorkTipDb block.header.prevHash) s.chain with ⟨e | x, t⟩
    · rw [hrun] at h
      cases h
    · rw [hrun] at h
      simp only [run_pure, Except.ok.injEq] at h
      rw [← h]
      rfl

/-- A received block that gets nowhere leaves the chain alone. -/
theorem chain_of_not_receives {clock : ℕ → Int64} {skip : Bool} {block : Block}
    (h : ¬ Receives v now skip block s.chain) :
    (run (receiveBlock v now clock skip block) s).2.chain = s.chain := by
  simp only [receiveBlock, run_gets_bind, run_throwIf_bind]
  split_ifs with hheight hprev
  · rfl
  · rfl
  have hemission := chain_emissionWork block s
  rw [run_bind]
  rcases hrun : run (emissionWork block) s with ⟨e | w, t⟩
  · rw [hrun] at hemission
    exact hemission
  · rw [hrun] at hemission
    have hwork : parentWork block s.chain = .ok w := run_emissionWork (by rw [hrun])
    simp only
    rw [run_bind]
    rcases hvalid : v.validateBlockWithOptions ext now block s.chain.bestHash
      (s.chain.bestHeight + 1) skip w with e | ⟨⟩
    · exact hemission
    · exact absurd ⟨not_not.mp hheight, not_not.mp hprev, w, hwork, hvalid⟩ h

/-- A new chain that is not valid leaves the chain alone. -/
theorem chain_of_not_switchesTo {clock : ℕ → ℕ → Int64} {oldChain newChain : List Block}
    (h : ¬ SwitchesTo v now newChain s.chain) :
    (run (reorganizeChain v now clock oldChain newChain) s).2.chain = s.chain := by
  simp only [reorganizeChain, run_modify_bind]
  rcases hhead : newChain.head? with _ | firstBlock
  · rfl
  simp only [run_okOr_some_bind]
  rw [run_bind, run_onChain, run_mapErr]
  have hsum := snd_run_sumFromTip truncatedWork firstBlock.header.prevHash s.chain
  rcases hrun : run (computeCumulativeWorkTipDb firstBlock.header.prevHash) s.chain with ⟨e | w, t⟩
  · have hchain : t = s.chain := by
      rw [← hsum]
      exact (congrArg Prod.snd hrun).symm
    exact hchain
  · have hchain : t = s.chain := by
      rw [← hsum]
      exact (congrArg Prod.snd hrun).symm
    simp only
    rcases hvalid : validateNewChain ext v now firstBlock.header.prevHash w newChain with e | ⟨⟩
    · exact hchain
    · exact absurd ⟨firstBlock, w, hhead, by rw [hrun], hvalid⟩ h

end Stopped

/-- What an event does to the chain state are the planned calls, or a first part of them. -/
theorem chain_next (e : NodeEvent) (s : NodeState ext) : ∃ made, made <+: plannedCalls v s.chain e ∧
    ((nodeMachine ext v).next e s).chain = (chainMachine ext).final made s.chain := by
  cases e with
  | received now clock skip block =>
    simp only [plannedCalls]
    split_ifs with h
    · obtain ⟨made, hmade, hchain, -⟩ := makesCalls_receiveBlock v now clock skip block s
      exact ⟨made, hmade, hchain⟩
    · exact ⟨[], List.prefix_rfl, chain_of_not_receives h⟩
  | mined clock block =>
    obtain ⟨made, hmade, hchain, -⟩ := makesCalls_mineBlock clock block s
    exact ⟨made, hmade, hchain⟩
  | reorganised now clock oldChain newChain =>
    simp only [plannedCalls]
    split_ifs with h
    · obtain ⟨made, hmade, hchain, -⟩ := makesCalls_reorganizeChain v now clock oldChain newChain s
      exact ⟨made, hmade, hchain⟩
    · exact ⟨[], List.prefix_rfl, chain_of_not_switchesTo h⟩

end Coinjecture.Node.ServiceCalls
