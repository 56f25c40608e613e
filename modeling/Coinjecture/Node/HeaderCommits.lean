import Coinjecture.Node.Runs
import Coinjecture.Node.Validator

/-! # What an accepted header says about the body

The validator reads the body of a block in three places: the amount of the coinbase, the signatures of
the transactions, and the reveal, which is checked against its own commitment. The body may be exchanged
for any other that passes these checks (`accepted_of_body`), and the header with its hash stays. -/

namespace Coinjecture.Node.HeaderCommits

open Lib.Effect
open Core.Types Core.Transactions Core.Blocks
open Core.Extern Core.Crypto
open State.Stores
open Node.BlockProcessing Node.Validator

variable {ext : Ext} {now : Int64} {v : BlockValidator} {block : Block} {prevHash : Hash}
  {expectedHeight : UInt64} {skip : Bool} {w : Option (BitVec 128)}

/-- Another coinbase of the same amount, other signed transactions and another reveal that opens its
own commitment are accepted under the same header. -/
theorem accepted_of_body {coinbase : CoinbaseTransaction} {txs : List Transaction}
    {reveal : SolutionReveal}
    (h : v.validateBlockWithOptions ext now block prevHash expectedHeight skip w = .ok ())
    (hreward : coinbase.reward = block.coinbase.reward)
    (hsigned : ∀ tx ∈ txs, Transaction.verifySignature ext tx = true)
    (hsolves : reveal.solution.verify reveal.problem = true)
    (hopens : Commitment.verify ext reveal.commitment reveal.problem reveal.solution prevHash = true) :
    v.validateBlockWithOptions ext now ⟨block.header, coinbase, txs, reveal⟩ prevHash expectedHeight
      skip w = .ok () := by
  obtain ⟨hheight, hprev, htime, -, -, hwork, hdifficulty, -, hpaid⟩ :=
    validateBlockWithOptions_ok.mp h
  refine validateBlockWithOptions_ok.mpr ⟨hheight, hprev, htime, hsolves, ?_, hwork, hdifficulty,
    hsigned, ?_⟩
  · simpa only [hprev] using hopens
  · simpa only [BlockValidator.validateReward, hreward] using hpaid

/-- Two blocks have the same transactions and coinbase, and their reveals open the commitments of
their headers. -/
def SameBody (ext : Ext) (b b' : Block) : Prop :=
  b'.transactions = b.transactions ∧ b'.coinbase.to = b.coinbase.to ∧
  b'.coinbase.reward = b.coinbase.reward ∧
  ∀ c ∈ [b, b'], Commitment.verify ext c.header.commitment c.solutionReveal.problem
    c.solutionReveal.solution c.header.prevHash = true

theorem exists_ne_address (a : Address) : ∃ b : Address, b ≠ a := by
  by_cases h : a = ⟨0⟩
  · exact ⟨⟨1⟩, by rw [h]; decide⟩
  · exact ⟨⟨0⟩, fun h' => h h'.symm⟩

/-- No header commits to its body: to every accepted block there is another one with the same header,
hence the same hash, whose coinbase names another recipient and which has no transactions. -/
theorem header_never_commits
    (h : v.validateBlockWithOptions ext now block prevHash expectedHeight skip w = .ok ()) :
    ∃ block', v.validateBlockWithOptions ext now block' prevHash expectedHeight skip w = .ok () ∧
      block'.header = block.header ∧ Block.hash ext block' = Block.hash ext block ∧
      block'.coinbase.to ≠ block.coinbase.to ∧ block'.transactions = [] ∧
      ¬ SameBody ext block block' := by
  obtain ⟨recipient, hne⟩ := exists_ne_address block.coinbase.to
  obtain ⟨-, hprev, -, hsolves, hopens, -⟩ := validateBlockWithOptions_ok.mp h
  rw [hprev] at hopens
  refine ⟨⟨block.header, { block.coinbase with «to» := recipient }, [], block.solutionReveal⟩,
    accepted_of_body h rfl (fun tx htx => absurd htx List.not_mem_nil) hsolves hopens, rfl, rfl, hne,
    rfl, ?_⟩
  rintro ⟨-, hto, -⟩
  exact hne hto

/-- The sample block with Alice's transfer has such a companion. -/
theorem header_never_commits_aliceBlock :
    ∃ block', Sample.accepts block' = true ∧ block'.header = Sample.aliceBlock.header ∧
      ¬ SameBody Sample.ext Sample.aliceBlock block' := by
  have haccepted : Sample.accepts Sample.aliceBlock = true := by decide +kernel
  obtain ⟨block', hok, hheader, -, -, -, hbody⟩ :=
    header_never_commits (of_decide_eq_true haccepted)
  exact ⟨block', decide_eq_true hok, hheader, hbody⟩

/-- Alice's block without its transaction and with the coinbase made out to Bob. -/
def strippedBlock : Block :=
  { Sample.aliceBlock with
    coinbase := { Sample.aliceBlock.coinbase with «to» := Sample.bob }
    transactions := [] }

/-- Both blocks are accepted on the same parent and have the same hash; the recipients and the
transactions differ, and Alice has paid after the one and not after the other. -/
theorem header_does_not_commit :
    Sample.accepts Sample.aliceBlock = true ∧ Sample.accepts strippedBlock = true ∧
    strippedBlock.header = Sample.aliceBlock.header ∧
    strippedBlock.transactions ≠ Sample.aliceBlock.transactions ∧
    strippedBlock.coinbase.to ≠ Sample.aliceBlock.coinbase.to ∧
    (run (applyBlockTransactions Sample.ext (fun _ => 0) strippedBlock)
      (.ofAccounts Sample.aliceHas100)).2.balance Sample.aliceKey.toAddress = 100 ∧
    (run (applyBlockTransactions Sample.ext (fun _ => 0) Sample.aliceBlock)
      (.ofAccounts Sample.aliceHas100)).2.balance Sample.aliceKey.toAddress = 94 := by
  refine ⟨?_, ?_, rfl, ?_, ?_, ?_, ?_⟩
  all_goals decide +kernel

end Coinjecture.Node.HeaderCommits
