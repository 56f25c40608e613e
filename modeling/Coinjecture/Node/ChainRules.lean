import Coinjecture.Node.ChainMetadata
import Coinjecture.Node.ServiceCalls

/-! # The documented rules on the best chain

`validate_block_sequence` and `validate_transaction_ordering` are not called on any path. Whether the
best chain meets them is therefore up to the blocks: `rules_hold` says that it does in every run whose
calls on the chain state meet `Obeys`, which asks for the rules where the tip moves to a block they have
not been checked for. -/

namespace Coinjecture.Node.ChainRules

open Lib.Effect Lib.Table Lib.Ancestry
open Lib.Bincode Lib.Trace
open Core.Types Core.Transactions Core.Blocks
open Core.Extern Core.Crypto
open State.Stores
open Node.Chain Node.Chain.ChainState Node.ChainMetadata
open Node.Validator Node.Service Node.ServiceCalls

/-! ### The rules -/

/-- The variants of `ValidationError` for the rules. -/
inductive RuleError where
  | InvalidSequence (actual parent : UInt64)
  | InvalidPrevHash
  | TimestampNotAfterParent (blockTs parentTs : Timestamp)
  | DuplicateTransaction
  | TransactionOrderViolation
  deriving DecidableEq

variable (ext : Ext)

/-- `validate_block_sequence`. -/
def validateBlockSequence (block parent : Block) : Except RuleError Unit :=
  if block.header.height ≠ parent.header.height + 1 then
    .error (.InvalidSequence block.header.height parent.header.height)
  else if block.header.prevHash ≠ Block.hash ext parent then .error .InvalidPrevHash
  else if block.header.timestamp ≤ parent.header.timestamp then
    .error (.TimestampNotAfterParent block.header.timestamp parent.header.timestamp)
  else .ok ()

/-- The loop of `validate_transaction_ordering`. -/
def orderedAfter : Hash → List Transaction → Except RuleError Unit
  | _, [] => .ok ()
  | prevHash, tx :: txs =>
    let txHash := Transaction.hash ext tx
    if txHash = prevHash then .error .DuplicateTransaction
    else if txHash.asBytes < prevHash.asBytes then .error .TransactionOrderViolation
    else orderedAfter txHash txs

/-- `validate_transaction_ordering`. -/
def validateTransactionOrdering (block : Block) : Except RuleError Unit :=
  match block.transactions with
  | [] => .ok ()
  | tx :: txs => orderedAfter ext (Transaction.hash ext tx) txs

structure FollowsRules (block parent : Block) : Prop where
  sequence : validateBlockSequence ext block parent = .ok ()
  ordering : validateTransactionOrdering ext block = .ok ()

variable {ext}

/-- The best chain goes back to genesis, and each of its blocks above follows the rules with its
parent. -/
def RulesHold (s : ChainState ext) : Prop :=
  ∃ blocks, ChainFrom s s.bestHash blocks ∧
    blocks.getLast?.map (Block.hash ext) = some s.genesisHash ∧
    ∀ b ∈ blocks, b.header.height ≠ 0 → ∀ parent, s.blocks.get b.header.prevHash = some parent →
      FollowsRules ext b parent

/-- The block is on the best chain. -/
def OnBestChain (s : ChainState ext) (b : Block) : Prop :=
  ∃ blocks, ChainFrom s s.bestHash blocks ∧ b ∈ blocks

/-- A block that is stored over one of the best chain has its header and, above genesis, ordered
transactions. A block that extends the tip follows the rules with it. Where the tip is moved to, a chain
to genesis is stored, and its blocks that are not on the best chain yet follow the rules. -/
def Obeys (s : ChainState ext) : ChainCall → Prop
  | .storeBlock block => ¬ MAX_REASONABLE_HEIGHT < block.header.height →
      (∀ b, OnBestChain s b → Block.hash ext b = Block.hash ext block → b.header = block.header ∧
        (b.header.height ≠ 0 → validateTransactionOrdering ext block = .ok ())) ∧
      (Extends block s → ∀ tip, s.blocks.get s.bestHash = some tip → FollowsRules ext block tip)
  | .updateBestChain hash _ => ∃ blocks, walkFromTip hash s = .found blocks ∧
      blocks.getLast?.map (Block.hash ext) = some s.genesisHash ∧
      ∀ b ∈ blocks, b.header.height ≠ 0 → ¬ OnBestChain s b →
        ∀ parent, s.blocks.get b.header.prevHash = some parent → FollowsRules ext b parent

/-! ### One call -/

section Step

variable {s : ChainState ext} {block : Block}

theorem FollowsRules.congr {b b' p p' : Block} (h : FollowsRules ext b p)
    (hblock : b'.header = b.header) (hparent : p'.header = p.header)
    (hordering : validateTransactionOrdering ext b' = .ok ()) : FollowsRules ext b' p' := by
  refine ⟨?_, hordering⟩
  have hsequence := h.sequence
  have hhash : Block.hash ext p' = Block.hash ext p := by
    rw [Block.hash, Block.hash, hparent]
  unfold validateBlockSequence at hsequence ⊢
  rw [hblock, hparent, hhash]
  exact hsequence

/-- What is stored under the hash of a block of the best chain has, after a store, the header of
before. -/
theorem header_of_stored {hash : Hash} {p p' : Block} (hp : OnBestChain s p)
    (hget : s.blocks.get hash = some p)
    (hsame : ∀ b, OnBestChain s b → Block.hash ext b = Block.hash ext block →
      b.header = block.header)
    (hget' : (storeBlockRaw block s).blocks.get hash = some p') : p'.header = p.header := by
  change (s.blocks.insert block).get hash = some p' at hget'
  rw [Keyed.get_insert] at hget'
  split_ifs at hget' with hk
  · cases hget'
    have hkey : Block.hash ext p = hash := s.blocks.keyed hget
    exact (hsame p hp (hkey.trans hk)).symm
  · rw [hget] at hget'
    cases hget'
    rfl

/-- After a store the blocks of the best chain follow the rules with what is stored under their
parents' hashes. -/
theorem followsRules_replaced {blocks : List Block} (hchain : ChainFrom s s.bestHash blocks)
    (hrules : ∀ b ∈ blocks, b.header.height ≠ 0 → ∀ parent,
      s.blocks.get b.header.prevHash = some parent → FollowsRules ext b parent)
    (hsame : ∀ b, OnBestChain s b → Block.hash ext b = Block.hash ext block →
      b.header = block.header ∧
        (b.header.height ≠ 0 → validateTransactionOrdering ext block = .ok ())) :
    ∀ b ∈ replaced ext block blocks, b.header.height ≠ 0 → ∀ parent,
      (storeBlockRaw block s).blocks.get b.header.prevHash = some parent →
        FollowsRules ext b parent := by
  intro b hb hheight parent hparent
  obtain ⟨c, hc, rfl⟩ := List.mem_map.mp hb
  have hheader : (if Block.hash ext c = Block.hash ext block then block else c).header =
      c.header := by
    split_ifs with hk
    · exact (hsame c ⟨blocks, hchain, hc⟩ hk).1.symm
    · rfl
  rw [hheader] at hheight hparent
  obtain ⟨p, hp, hget⟩ := hchain.exists_parent hc hheight
  have hfollows := hrules c hc hheight p hget
  have hparentHeader : parent.header = p.header := header_of_stored ⟨blocks, hchain, hp⟩ hget
    (fun b hb hk => (hsame b hb hk).1) hparent
  refine hfollows.congr hheader hparentHeader ?_
  split_ifs with hk
  · exact (hsame c ⟨blocks, hchain, hc⟩ hk).2 hheight
  · exact hfollows.ordering

theorem storeBlock_obeys (hrules : RulesHold s) (hobeys : Obeys s (.storeBlock block)) :
    RulesHold (run (storeBlock block) s).2 := by
  rw [run_storeBlock]
  by_cases hmax : MAX_REASONABLE_HEIGHT < block.header.height
  · rw [if_pos hmax]
    exact hrules
  obtain ⟨hsame, hextend⟩ := hobeys hmax
  obtain ⟨blocks, hchain, hlast, hfollow⟩ := hrules
  have hheaders : ∀ b ∈ blocks, Block.hash ext b = Block.hash ext block →
      b.header = block.header := fun b hb hk => (hsame b ⟨blocks, hchain, hb⟩ hk).1
  have hchain' : ChainFrom (storeBlockRaw block s) s.bestHash (replaced ext block blocks) :=
    chainFrom_storeBlockRaw hchain hheaders
  have hfollow' := followsRules_replaced hchain hfollow hsame
  have hlast' : (replaced ext block blocks).getLast?.map (Block.hash ext) = some s.genesisHash :=
    (lastHash_replaced ext block blocks).trans hlast
  rw [if_neg hmax]
  by_cases hextends : Extends block s
  · rw [if_pos hextends]
    refine ⟨block :: replaced ext block blocks, chainFrom_extendTip hextends hchain', ?_, ?_⟩
    · obtain ⟨b, hb, -⟩ := hchain'.exists_root
      rw [hb] at hlast'
      rw [List.getLast?_cons, hb]
      exact hlast'
    · intro b hb hheight parent hparent
      rcases List.mem_cons.mp hb with rfl | hb
      · obtain ⟨tip, htip, hget⟩ := hchain.exists_head
        have hfollows := hextend hextends tip hget
        rw [hextends.2] at hparent
        have hheader : parent.header = tip.header := header_of_stored ⟨blocks, hchain, htip⟩ hget
          (fun b hb hk => (hsame b hb hk).1) hparent
        exact hfollows.congr rfl hheader hfollows.ordering
      · exact hfollow' b hb hheight parent hparent
  · rw [if_neg hextends]
    exact ⟨replaced ext block blocks, hchain', hlast', hfollow'⟩

theorem updateBestChain_obeys {hash : Hash} {height : UInt64} (hrules : RulesHold s)
    (hobeys : Obeys s (.updateBestChain hash height)) :
    RulesHold (run (updateBestChain hash height) s).2 := by
  obtain ⟨blocks, hwalk, hlast, hnew⟩ := hobeys
  obtain ⟨best, hbest, -, hfollow⟩ := hrules
  obtain ⟨index, hresult⟩ := updateBestChain_of_found height hwalk
  rw [hresult]
  refine ⟨blocks, lineage_of_walk hwalk, hlast, fun b hb hheight parent hparent => ?_⟩
  by_cases hon : OnBestChain s b
  · obtain ⟨best', hbest', hb'⟩ := hon
    rw [hbest'.unique hbest] at hb'
    exact hfollow b hb' hheight parent hparent
  · exact hnew b hb hheight hon parent hparent

theorem next_obeys {call : ChainCall} (hrules : RulesHold s) (hobeys : Obeys s call) :
    RulesHold ((chainMachine ext).next call s) := by
  cases call with
  | storeBlock block => exact storeBlock_obeys hrules hobeys
  | updateBestChain hash height => exact updateBestChain_obeys hrules hobeys

end Step

/-! ### Runs of the node -/

variable (v : BlockValidator)

theorem final_obeys {calls : List ChainCall} {s : ChainState ext} (hrules : RulesHold s)
    (hobeys : ∀ p ∈ (chainMachine ext).trace calls s, Obeys p.2 p.1) :
    RulesHold ((chainMachine ext).final calls s) :=
  Machine.invariant (fun p hp hs => next_obeys hs (hobeys p hp)) hrules

/-- The steps of a first part of the calls are steps of all of them. -/
theorem prefix_trace {calls made : List ChainCall} {s : ChainState ext} (h : made <+: calls)
    {p : ChainCall × ChainState ext} (hp : p ∈ (chainMachine ext).trace made s) :
    p ∈ (chainMachine ext).trace calls s := by
  obtain ⟨rest, rfl⟩ := h
  rw [Machine.trace_append]
  exact List.mem_append_left _ hp

/-- The calls that an event makes on the chain state meet `Obeys`. -/
def EventObeys (v : BlockValidator) (s : NodeState ext) (e : NodeEvent) : Prop :=
  ∀ p ∈ (chainMachine ext).trace (plannedCalls v s.chain e) s.chain, Obeys p.2 p.1

/-- A node that starts from genesis. -/
def start (genesisBlock : Block) (ledger : Ledger) : NodeState ext where
  chain := ChainState.new genesisBlock
  ledger := ledger
  consensusHeight := none

theorem genesis_rulesHold {genesisBlock : Block} (h : genesisBlock.header.height = 0) :
    RulesHold (ChainState.new genesisBlock : ChainState ext) := by
  refine ⟨[genesisBlock], .root (Keyed.get_insert_self ..) h, rfl, fun b hb hheight => ?_⟩
  rw [List.mem_singleton.mp hb] at hheight
  exact absurd h hheight

variable (ext) in
/-- In a run of received and mined blocks and reorganisations from genesis on, whose calls on the chain
state meet `Obeys` where they are made, the documented rules hold on the best chain after every
event. -/
theorem rules_hold (genesisBlock : Block) (ledger : Ledger) (events : List NodeEvent)
    (hgenesis : genesisBlock.header.height = 0)
    (hobeys : ∀ p ∈ (nodeMachine ext v).trace events (start genesisBlock ledger),
      EventObeys v p.2 p.1) :
    ∀ p ∈ (nodeMachine ext v).trace events (start genesisBlock ledger),
      RulesHold ((nodeMachine ext v).next p.1 p.2).chain := by
  have hstep : ∀ p ∈ (nodeMachine ext v).trace events (start genesisBlock ledger),
      RulesHold p.2.chain → RulesHold ((nodeMachine ext v).next p.1 p.2).chain := by
    intro p hp hrules
    obtain ⟨made, hmade, hchain⟩ := chain_next v p.1 p.2
    rw [hchain]
    exact final_obeys hrules fun q hq => hobeys p hp q (prefix_trace hmade hq)
  intro p hp
  refine hstep p hp ?_
  exact Machine.invariant_trace (P := fun s : NodeState ext => RulesHold s.chain) hstep
    (genesis_rulesHold hgenesis) p hp

/-! ### Blocks on genesis -/

def commitment1 : Commitment :=
  ⟨⟨0xccce036812d40921cb90428cf25a43b9249bfc19e7e6c4b8a88f263d2f1a0091⟩, Sample.problemHash⟩

/-- A header of height 1 on genesis. -/
def headerOn0 (transactionsRoot : Hash) (timestamp : Timestamp) (nonce : UInt64) : BlockHeader :=
  { Sample.header transactionsRoot nonce with
    prevHash := hash0
    commitment := commitment1
    timestamp := timestamp }

def blockOn0 (header : BlockHeader) (transactions : List Transaction) : Block :=
  { Sample.block header transactions with
    solutionReveal := ⟨Sample.problem, Sample.solution, commitment1⟩ }

/-- One second after genesis, without transactions. -/
def laterHeader : BlockHeader := headerOn0 Hash.ZERO 1767225601 139179

/-- In the second of genesis. -/
def twiceHeader : BlockHeader :=
  headerOn0 ⟨0xc642ef939a43595a72c54e6dfab323515c1712f475877565391ef98be656d3f0⟩ 1767225600 49266

def laterBlock : Block := blockOn0 laterHeader []

/-- Alice's transfer, twice. -/
def twiceBlock : Block :=
  blockOn0 twiceHeader [.Transfer Sample.aliceTransfer, .Transfer Sample.aliceTransfer]

def ext0 : Ext := Ext.ofTables
  [(encode Sample.problem, Sample.problemHash.bytes),
    (encode Sample.solution, Sample.solutionHash.bytes),
    (Sample.problemHash.asBytes ++ hash0.asBytes ++ Sample.solutionHash.asBytes,
      commitment1.hash.bytes),
    (encode (Transaction.Transfer Sample.aliceTransfer),
      0x79859dd23297515296d9ec5b3f373d85d5b7c799e324ef61097aead751ee4521),
    (encode (headerAt 0 Hash.ZERO), hash0.bytes),
    (encode laterHeader, 0x0000d76a11aac658906ec36cac79fb9ef4f3f158753451dc1ae37638971a661a),
    (encode twiceHeader, 0x000083ce1a8bc754c8757bb983806e41f72b5ba2f11d0a5f9715bc919673f512)]
  [(Sample.aliceKey, Sample.aliceTransfer.signingMessage, Sample.aliceTransfer.signature)]

/-- A node on genesis, whose account store is Alice's 100. -/
abbrev start0 : NodeState ext0 := start block0 (.ofAccounts Sample.aliceHas100)

set_option maxRecDepth 20000 in
theorem walk_start0 {blocks : List Block} (h : ChainFrom start0.chain start0.chain.bestHash blocks) :
    blocks = [block0] := by
  have hwalk : walkFromTip start0.chain.bestHash start0.chain = .found [block0] := by decide
  exact h.unique (lineage_of_walk hwalk)

theorem trace_singleton (e : NodeEvent) (s : NodeState ext) :
    (nodeMachine ext v).trace [e] s = [(e, s)] := rfl

set_option maxRecDepth 20000 in
/-- The rules hold after the later block is received. -/
theorem rules_hold_laterBlock : RulesHold ((nodeMachine ext0 Sample.validator).next
    (.received 1767225660 (fun _ => 0) false laterBlock) start0).chain := by
  have hrules := rules_hold ext0 Sample.validator block0 (.ofAccounts Sample.aliceHas100)
    [.received 1767225660 (fun _ => 0) false laterBlock] (by decide)
  rw [trace_singleton] at hrules
  simp only [List.forall_mem_singleton] at hrules
  rw [start0]
  refine hrules fun q hq => ?_
  simp only [plannedCalls] at hq
  split_ifs at hq with hreceives
  · obtain rfl := List.mem_singleton.mp hq
    refine fun _ => ⟨fun b hb hhash => ?_, fun _ tip htip => ?_⟩
    · obtain ⟨blocks, hchain, hmem⟩ := hb
      rw [walk_start0 hchain, List.mem_singleton] at hmem
      rw [hmem] at hhash
      exact absurd hhash (by decide)
    · have hget : start0.chain.blocks.get start0.chain.bestHash = some block0 := by decide
      have heq : some block0 = some tip := hget.symm.trans htip
      cases heq
      exact ⟨by decide, by decide⟩
  · cases hq

/-- The block with two copies of one transfer, in the second of its parent, is received, stored and
applied; and the rules do not hold. -/
theorem rules_do_not_hold :
    ((run (receiveBlock Sample.validator 1767225660 (fun _ => 0) false twiceBlock) start0).1 =
        .ok [Transaction.hash ext0 (.Transfer Sample.aliceTransfer),
          Transaction.hash ext0 (.Transfer Sample.aliceTransfer)] ∧
      validateBlockSequence ext0 twiceBlock block0 =
        .error (.TimestampNotAfterParent 1767225600 1767225600) ∧
      validateTransactionOrdering ext0 twiceBlock = .error .DuplicateTransaction) ∧
    ¬ ∀ genesisBlock ledger events, genesisBlock.header.height = 0 →
      ∀ p ∈ (nodeMachine ext0 Sample.validator).trace events (start genesisBlock ledger),
        RulesHold ((nodeMachine ext0 Sample.validator).next p.1 p.2).chain := by
  have hduplicate : validateTransactionOrdering ext0 twiceBlock = .error .DuplicateTransaction := by
    decide +kernel
  refine ⟨⟨by decide +kernel, by decide +kernel, hduplicate⟩, fun h => ?_⟩
  have hrules := h block0 (.ofAccounts Sample.aliceHas100)
    [.received 1767225660 (fun _ => 0) false twiceBlock] (by decide)
  rw [trace_singleton] at hrules
  simp only [List.forall_mem_singleton] at hrules
  rw [← start0] at hrules
  obtain ⟨blocks, hchain, -, hfollow⟩ := hrules
  obtain ⟨b, hb, hget⟩ := hchain.exists_head
  have htip : ((nodeMachine ext0 Sample.validator).next
      (.received 1767225660 (fun _ => 0) false twiceBlock) start0).chain.blocks.get
      ((nodeMachine ext0 Sample.validator).next
      (.received 1767225660 (fun _ => 0) false twiceBlock) start0).chain.bestHash =
        some twiceBlock := by decide +kernel
  have hparent : ((nodeMachine ext0 Sample.validator).next
      (.received 1767225660 (fun _ => 0) false twiceBlock) start0).chain.blocks.get
      twiceBlock.header.prevHash = some block0 := by decide +kernel
  obtain rfl : twiceBlock = b := Option.some.inj (htip.symm.trans hget)
  have hordering := (hfollow twiceBlock hb (by decide) block0 hparent).ordering
  rw [hduplicate] at hordering
  cases hordering

end Coinjecture.Node.ChainRules
