import Coinjecture.Node.ForkChoice

/-! # The work of a candidate chain

`validateChainFromGenesis` also returns the work of the chain that it has validated, added up in a `u64` on the way
back to genesis. What it accepts is a chain of valid blocks from genesis to the tip that was asked for
(`validateChainFromGenesisWork_iff`); the work is the sum of the scores exactly where that fits
(`real_chains_iff`). -/

namespace Coinjecture.Node.CandidateWork

open Lib.Effect Lib.Saturating Lib.Bincode
open Core.Types Core.Blocks Core.Extern
open Core.Crypto
open Node.Validator Node.Chain Node.Chain.ChainState Node.Service
open Node.ChainMetadata Node.ReorgAcceptance Node.ForkHandler

variable {ext : Ext}

/-! ### The code -/

section Code

variable (v : BlockValidator) (now : Int64) (chain : ChainState ext) (altChain : List Block)

/-- The walk with the sum of a release build. -/
def candidateWalkWork : ℕ → Hash → BitVec 64 → Option (List Block × Hash × BitVec 64)
  | 0, hash, totalWork => some ([], hash, totalWork)
  | n + 1, hash, totalWork => do
    let block ← blockFromChainOrAlt chain altChain hash
    guard (block.header.height.toNat = n + 1)
    let (blocks, endHash, totalWork) ← candidateWalkWork n block.header.prevHash (totalWork + scoreAsU64 block)
    pure (block :: blocks, endHash, totalWork)

/-- `validate_chain_from_genesis` with both its results. -/
def validateChainFromGenesisWork (endHash : Hash) (endHeight : UInt64) : Option (List Block × BitVec 64) := do
  let (blocks, hash, totalWork) ← candidateWalkWork chain altChain endHeight.toNat endHash 0
  guard (hash = chain.genesisHash)
  let genesis ← chain.getBlockByHash chain.genesisHash
  guard (genesis.header.height = 0)
  let totalWork := totalWork + scoreAsU64 genesis
  guard (Connected ext (genesis :: blocks.reverse))
  match validateNewChain ext v now (Block.hash ext genesis) (truncatedWork genesis) blocks.reverse with
  | .ok () => some (genesis :: blocks.reverse, totalWork)
  | .error _ => none

end Code

/-! ### Real chains -/

/-- The emission is asked for the work of the blocks below. -/
def workBelow (blocks : List Block) : BitVec 128 :=
  blocks.foldl (fun sum block => satAdd sum (truncatedWork block)) 0

/-- The sum of the truncated scores. -/
def exactWork (blocks : List Block) : ℕ := (blocks.map fun b => (scoreAsU64 b).toNat).sum

/-- The stored genesis block and blocks on it, each one higher than the one before, whose hash it names, found in
the store or the buffer and valid in its place; the last one is the tip that is asked for. -/
structure RealChain (v : BlockValidator) (now : Int64) (chain : ChainState ext) (altChain : List Block)
    (endHash : Hash) (endHeight : UInt64) (genesis : Block) (rest : List Block) : Prop where
  stored : chain.getBlockByHash chain.genesisHash = some genesis
  heights : (genesis :: rest).map (fun b => b.header.height.toNat) = List.range (endHeight.toNat + 1)
  linked : LinkedFrom ext chain.genesisHash rest
  tip : (rest.getLast?.map (Block.hash ext)).getD chain.genesisHash = endHash
  found : ∀ b ∈ rest, blockFromChainOrAlt chain altChain (Block.hash ext b) = some b
  valid : ∀ pre block post, rest = pre ++ block :: post →
    v.validateBlockWithOptions ext now block block.header.prevHash block.header.height true
      (some (workBelow (genesis :: pre))) = .ok ()

section Walk

variable {v : BlockValidator} {now : Int64} {chain : ChainState ext} {altChain : List Block} {hash k : Hash}

/-- The sum of the walk is that of its blocks. -/
theorem candidateWalkWork_eq (n : ℕ) (hash : Hash) (totalWork : BitVec 64) :
    candidateWalkWork chain altChain n hash totalWork =
      (candidateWalk chain altChain n hash).map fun result =>
        (result.1, result.2, totalWork + (result.1.map scoreAsU64).sum) := by
  induction n generalizing hash totalWork with
  | zero => simp [candidateWalkWork, candidateWalk]
  | succ n ih =>
    rw [candidateWalkWork, candidateWalk]
    rcases blockFromChainOrAlt chain altChain hash with _ | block
    · rfl
    by_cases hheight : block.header.height.toNat = n + 1
    · simp only [Option.bind_eq_bind, Option.bind_some, hheight, guard_true, ih]
      rcases candidateWalk chain altChain n block.header.prevHash with _ | ⟨blocks, endHash⟩
      · rfl
      · simp [add_assoc]
    · simp [hheight]

theorem chainWork_eq (blocks : List Block) : chainWork blocks = (blocks.map scoreAsU64).sum := by
  have hfold (work : BitVec 64) :
      blocks.foldl (fun work block => work + scoreAsU64 block) work = work + (blocks.map scoreAsU64).sum := by
    induction blocks generalizing work with
    | nil => simp
    | cons block blocks ih => rw [List.foldl_cons, ih, List.map_cons, List.sum_cons, add_assoc]
  rw [chainWork, hfold, zero_add]

/-- The result with the work is the one without it. -/
theorem validateChainFromGenesisWork_eq (endHash : Hash) (endHeight : UInt64) :
    validateChainFromGenesisWork v now chain altChain endHash endHeight =
      (validateChainFromGenesis v now chain altChain endHash endHeight).map fun blocks => (blocks, chainWork blocks) := by
  rw [validateChainFromGenesisWork, validateChainFromGenesis, candidateWalkWork_eq]
  rcases candidateWalk chain altChain endHeight.toNat endHash with _ | ⟨blocks, hash⟩
  · rfl
  simp only [Option.map_some, Option.bind_eq_bind, Option.bind_some]
  have hsum (genesis : Block) : 0 + (blocks.map scoreAsU64).sum + scoreAsU64 genesis =
      chainWork (genesis :: blocks.reverse) := by
    rw [chainWork_eq, List.map_cons, List.sum_cons, (blocks.reverse_perm.map scoreAsU64).sum_eq, zero_add, add_comm]
  by_cases hgenesis : hash = chain.genesisHash
  · simp only [hgenesis, guard_true, Option.pure_def, Option.bind_some]
    rcases chain.getBlockByHash chain.genesisHash with _ | genesis
    · rfl
    simp only [Option.bind_some, hsum]
    by_cases hzero : genesis.header.height = 0
    · by_cases hconnected : Connected ext (genesis :: blocks.reverse)
      · simp only [hzero, hconnected, guard_true, Option.pure_def, Option.bind_some]
        rcases validateNewChain ext v now (Block.hash ext genesis) (truncatedWork genesis) blocks.reverse with _ | _
        · rfl
        · rfl
      · simp [hconnected]
    · simp [hzero]
  · simp [hgenesis]

theorem exactWork_mod (blocks : List Block) : (chainWork blocks).toNat = exactWork blocks % 2 ^ 64 := by
  rw [chainWork_eq, exactWork]
  induction blocks with
  | nil => rfl
  | cons block blocks ih =>
    rw [List.map_cons, List.map_cons, List.sum_cons, List.sum_cons, BitVec.toNat_add, ih, Nat.add_mod_mod]

theorem linkedFrom_append_singleton {rest : List Block} {b : Block} :
    LinkedFrom ext k (rest ++ [b]) ↔
      LinkedFrom ext k rest ∧ b.header.prevHash = (rest.getLast?.map (Block.hash ext)).getD k := by
  induction rest generalizing k with
  | nil => simp [LinkedFrom]
  | cons c rest ih =>
    rw [List.cons_append, LinkedFrom, LinkedFrom, ih, and_assoc]
    cases rest with
    | nil => rfl
    | cons d rest =>
      rw [List.getLast?_cons_cons]
      cases hlast : (d :: rest).getLast? with
      | none => exact absurd (List.getLast?_eq_none_iff.mp hlast) (List.cons_ne_nil d rest)
      | some last => rfl

theorem hash_of_found {b : Block} (h : blockFromChainOrAlt chain altChain hash = some b) : Block.hash ext b = hash := by
  rw [blockFromChainOrAlt] at h
  rcases hget : chain.getBlockByHash hash with _ | stored
  · rw [hget] at h
    simpa using List.find?_some h
  · rw [hget] at h
    cases h
    exact chain.blocks.keyed hget

/-- What the walk collects. -/
theorem candidateWalk_iff {rest : List Block} (n : ℕ) :
    candidateWalk chain altChain n hash = some (rest.reverse, k) ↔
      rest.map (fun b => b.header.height.toNat) = List.range' 1 n ∧ LinkedFrom ext k rest ∧
      (rest.getLast?.map (Block.hash ext)).getD k = hash ∧
      ∀ b ∈ rest, blockFromChainOrAlt chain altChain (Block.hash ext b) = some b := by
  induction n generalizing hash rest with
  | zero =>
    rw [candidateWalk, List.range'_zero, List.map_eq_nil_iff]
    constructor
    · intro h
      obtain ⟨hrest, rfl⟩ := Prod.mk.inj (Option.some.inj h)
      obtain rfl : rest = [] := List.reverse_eq_nil_iff.mp hrest.symm
      exact ⟨rfl, trivial, rfl, fun b hb => absurd hb List.not_mem_nil⟩
    · rintro ⟨rfl, -, rfl, -⟩
      rfl
  | succ n ih =>
    rw [candidateWalk, List.range'_1_concat]
    constructor
    · intro h
      simp only [Option.bind_eq_bind, Option.bind_eq_some_iff, Option.guard_eq_some', Option.pure_def] at h
      obtain ⟨block, hblock, -, hheight, ⟨blocks, endHash⟩, hwalk, hpair⟩ := h
      obtain ⟨hrest, rfl⟩ := Prod.mk.inj (Option.some.inj hpair)
      have hself : Block.hash ext block = hash := hash_of_found hblock
      obtain rfl : rest = blocks.reverse ++ [block] := by
        rw [← List.reverse_reverse rest, ← hrest, List.reverse_cons]
      rw [← List.reverse_reverse blocks] at hwalk
      obtain ⟨hheights, hlinked, htip, hfound⟩ := ih.mp hwalk
      refine ⟨?_, linkedFrom_append_singleton.mpr ⟨hlinked, htip.symm⟩, ?_, fun b hb => ?_⟩
      · rw [List.map_append, hheights, List.map_singleton, hheight, Nat.add_comm]
      · rw [List.getLast?_concat]
        exact hself
      · rcases List.mem_append.mp hb with hb | hb
        · exact hfound b hb
        · rw [List.mem_singleton.mp hb, hself]
          exact hblock
    · rintro ⟨hheights, hlinked, htip, hfound⟩
      obtain ⟨init, block, rfl⟩ : ∃ init block, rest = init ++ [block] := by
        rcases rest.eq_nil_or_concat with rfl | ⟨init, block, rfl⟩
        · simp at hheights
        · exact ⟨init, block, List.concat_eq_append⟩
      rw [List.map_append, List.map_singleton] at hheights
      obtain ⟨hinit, hlast⟩ := List.append_inj' hheights rfl
      obtain ⟨hlinked, hprev⟩ := linkedFrom_append_singleton.mp hlinked
      rw [List.getLast?_concat] at htip
      have hblock : blockFromChainOrAlt chain altChain hash = some block := by
        rw [← show Block.hash ext block = hash from htip]
        exact hfound block (List.mem_append_right _ (List.mem_singleton_self block))
      have hheight : block.header.height.toNat = n + 1 := by
        rw [List.head_eq_of_cons_eq hlast, Nat.add_comm]
      have hwalk := ih.mpr ⟨hinit, hlinked, hprev.symm, fun b hb => hfound b (List.mem_append_left _ hb)⟩
      simp only [hblock, hheight, hwalk, guard_true, Option.bind_eq_bind, Option.bind_some, Option.pure_def,
        List.reverse_append, List.reverse_singleton, List.singleton_append]

end Walk

/-! ### What is accepted -/

section Accepted

variable {v : BlockValidator} {now : Int64} {chain : ChainState ext} {altChain : List Block} {k : Hash}

theorem workBelow_cons (genesis : Block) (pre : List Block) : workBelow (genesis :: pre) =
    pre.foldl (fun sum block => satAdd sum (truncatedWork block)) (truncatedWork genesis) := by
  have hstart : satAdd 0 (truncatedWork genesis) = truncatedWork genesis := by
    refine BitVec.eq_of_toNat_eq ?_
    rw [toNat_satAdd, toNat_zero', Nat.zero_add]
    rw [NoCarry, toNat_zero', Nat.zero_add]
    exact (truncatedWork genesis).isLt
  rw [workBelow, List.foldl_cons, hstart]

/-- Each block is validated on top of those before it. -/
theorem validateNewChain_iff {rest : List Block} {w : BitVec 128} :
    validateNewChain ext v now k w rest = .ok () ↔ LinkedFrom ext k rest ∧
      ∀ pre block post, rest = pre ++ block :: post →
        v.validateBlockWithOptions ext now block block.header.prevHash block.header.height true
          (if block.header.height = 0 then none
            else some (pre.foldl (fun sum block => satAdd sum (truncatedWork block)) w)) = .ok () := by
  induction rest generalizing k w with
  | nil =>
    refine iff_of_true rfl ⟨trivial, fun pre block post h => ?_⟩
    exact absurd h.symm (List.append_ne_nil_of_right_ne_nil _ (List.cons_ne_nil _ _))
  | cons first rest ih =>
    rw [validateNewChain_cons, ih, LinkedFrom]
    constructor
    · rintro ⟨rfl, hvalid, hlinked, hall⟩
      refine ⟨⟨rfl, hlinked⟩, fun pre block post h => ?_⟩
      cases pre with
      | nil =>
        obtain ⟨rfl, rfl⟩ := List.cons.inj h
        exact hvalid
      | cons c pre =>
        obtain ⟨rfl, rfl⟩ := List.cons.inj h
        exact hall pre block post rfl
    · rintro ⟨⟨rfl, hlinked⟩, hall⟩
      exact ⟨rfl, hall [] first rest rfl, hlinked, fun pre block post h =>
        hall (first :: pre) block post (by rw [h, List.cons_append])⟩

/-- Blocks that are linked, at heights one after the other, pass the integrity check. -/
theorem connected_of_heights {first : Block} {rest : List Block} {m n : ℕ}
    (hheights : (first :: rest).map (fun b => b.header.height.toNat) = List.range' m n)
    (hlinked : LinkedFrom ext (Block.hash ext first) rest) : Connected ext (first :: rest) := by
  induction rest generalizing first m n with
  | nil => exact List.isChain_singleton _
  | cons next rest ih =>
    obtain ⟨hprev, hlinked⟩ := hlinked
    obtain ⟨n, rfl⟩ : ∃ j, n = j + 2 := by
      have hlength := congrArg List.length hheights
      rw [List.length_map, List.length_range', List.length_cons, List.length_cons] at hlength
      exact ⟨rest.length, hlength.symm⟩
    rw [List.map_cons, List.range'_succ] at hheights
    obtain ⟨hfirst, htail⟩ := List.cons.inj hheights
    have hnext : next.header.height.toNat = m + 1 := by
      rw [List.map_cons, List.range'_succ] at htail
      exact (List.cons.inj htail).1
    refine List.isChain_cons_cons.mpr ⟨⟨hprev, ?_⟩, ih htail hlinked⟩
    have hlt := next.header.height.toNat_lt
    rw [← UInt64.toNat_inj, UInt64.toNat_add, UInt64.toNat_one, hfirst, hnext, Nat.mod_eq_of_lt (by omega)]

/-- What is accepted are the real chains. -/
theorem validateChainFromGenesis_iff {endHash : Hash} {endHeight : UInt64} {blocks : List Block} :
    validateChainFromGenesis v now chain altChain endHash endHeight = some blocks ↔
      ∃ genesis rest, blocks = genesis :: rest ∧ RealChain v now chain altChain endHash endHeight genesis rest := by
  have hrange : List.range (endHeight.toNat + 1) = 0 :: List.range' 1 endHeight.toNat := by
    rw [List.range_eq_range', List.range'_succ]
  have hpositive {rest : List Block} (h : rest.map (fun b => b.header.height.toNat) = List.range' 1 endHeight.toNat)
      {pre post : List Block} {block : Block} (hsplit : rest = pre ++ block :: post) : block.header.height ≠ 0 := by
    intro hzero
    have hmem : block.header.height.toNat ∈ List.range' 1 endHeight.toNat := by
      rw [← h, hsplit]
      exact List.mem_map_of_mem (List.mem_append_right _ List.mem_cons_self)
    rw [hzero] at hmem
    obtain ⟨hle, -⟩ := List.mem_range'_1.mp hmem
    exact absurd hle (by decide)
  constructor
  · intro h
    simp only [validateChainFromGenesis, Option.bind_eq_bind, Option.bind_eq_some_iff, Option.guard_eq_some'] at h
    obtain ⟨⟨walked, hash⟩, hwalk, -, rfl, genesis, hgenesis, -, hzero, -, -, hvalid⟩ := h
    have hself : Block.hash ext genesis = chain.genesisHash := chain.blocks.keyed hgenesis
    rw [← walked.reverse_reverse] at hwalk
    obtain ⟨hheights, hlinked, htip, hfound⟩ := (candidateWalk_iff _).mp hwalk
    rcases hnew : validateNewChain ext v now (Block.hash ext genesis) (truncatedWork genesis) walked.reverse with
      e | ⟨⟩
    · rw [hnew] at hvalid
      cases hvalid
    · rw [hnew] at hvalid
      obtain ⟨-, hall⟩ := validateNewChain_iff.mp hnew
      refine ⟨genesis, walked.reverse, (Option.some.inj hvalid).symm, hgenesis, ?_, hlinked, htip, hfound, ?_⟩
      · rw [List.map_cons, hheights, hzero, hrange]
        rfl
      · intro pre block post hsplit
        have hblock := hall pre block post hsplit
        rw [if_neg (hpositive hheights hsplit)] at hblock
        rw [workBelow_cons]
        exact hblock
  · rintro ⟨genesis, rest, rfl, h⟩
    have hself : Block.hash ext genesis = chain.genesisHash := chain.blocks.keyed h.stored
    have hall := h.heights
    rw [List.map_cons, hrange] at hall
    obtain ⟨hzero, hheights⟩ := List.cons.inj hall
    have hwalk := (candidateWalk_iff endHeight.toNat).mpr ⟨hheights, h.linked, h.tip, h.found⟩
    have hlinked : LinkedFrom ext (Block.hash ext genesis) rest := by
      rw [hself]
      exact h.linked
    have hconnected : Connected ext (genesis :: rest) := by
      refine connected_of_heights (m := 0) (n := endHeight.toNat + 1) ?_ hlinked
      rw [h.heights, List.range_eq_range']
    have hnew : validateNewChain ext v now (Block.hash ext genesis) (truncatedWork genesis) rest = .ok () := by
      refine validateNewChain_iff.mpr ⟨hlinked, fun pre block post hsplit => ?_⟩
      have hblock := h.valid pre block post hsplit
      rw [workBelow_cons] at hblock
      rw [if_neg (hpositive hheights hsplit)]
      exact hblock
    have hgenesisZero : genesis.header.height = 0 := UInt64.toNat_inj.mp hzero
    rw [validateChainFromGenesis, hwalk]
    simp only [Option.bind_eq_bind, Option.bind_some, guard_true, Option.pure_def, h.stored, hgenesisZero,
      List.reverse_reverse, hconnected, hnew]

/-- … with the sum of the scores modulo 2 ^ 64. -/
theorem validateChainFromGenesisWork_iff {endHash : Hash} {endHeight : UInt64} {blocks : List Block}
    {work : BitVec 64} :
    validateChainFromGenesisWork v now chain altChain endHash endHeight = some (blocks, work) ↔
      (∃ genesis rest, blocks = genesis :: rest ∧ RealChain v now chain altChain endHash endHeight genesis rest) ∧
        work = chainWork blocks := by
  rw [validateChainFromGenesisWork_eq, ← validateChainFromGenesis_iff, Option.map_eq_some_iff]
  constructor
  · rintro ⟨accepted, haccepted, hpair⟩
    obtain ⟨rfl, rfl⟩ := Prod.mk.inj hpair
    exact ⟨haccepted, rfl⟩
  · rintro ⟨haccepted, rfl⟩
    exact ⟨blocks, haccepted, rfl⟩

/-- Only real chains are accepted, each with the sum of its scores, exactly if the sum of every real chain to the
tip fits. -/
theorem real_chains_iff (v : BlockValidator) (now : Int64) (chain : ChainState ext) (altChain : List Block)
    (endHash : Hash) (endHeight : UInt64) :
    (∀ blocks work, validateChainFromGenesisWork v now chain altChain endHash endHeight = some (blocks, work) →
      (∃ genesis rest, blocks = genesis :: rest ∧ RealChain v now chain altChain endHash endHeight genesis rest) ∧
        work.toNat = exactWork blocks) ↔
    ∀ genesis rest, RealChain v now chain altChain endHash endHeight genesis rest →
      exactWork (genesis :: rest) < 2 ^ 64 := by
  constructor
  · intro h genesis rest hreal
    obtain ⟨-, hwork⟩ := h _ _ (validateChainFromGenesisWork_iff.mpr ⟨⟨genesis, rest, rfl, hreal⟩, rfl⟩)
    rw [← hwork]
    exact (chainWork (genesis :: rest)).isLt
  · intro h blocks work haccepted
    obtain ⟨⟨genesis, rest, rfl, hreal⟩, rfl⟩ := validateChainFromGenesisWork_iff.mp haccepted
    exact ⟨⟨genesis, rest, rfl, hreal⟩, by rw [exactWork_mod, Nat.mod_eq_of_lt (h genesis rest hreal)]⟩

end Accepted

/-! ### A sum that wraps -/

def commitmentHash1 : Hash := ⟨0xccce036812d40921cb90428cf25a43b9249bfc19e7e6c4b8a88f263d2f1a0091⟩

def overHash : Hash := ⟨0x00001c20048f53efbcf5483cc60b5b7959b97b6907ad581b7dd2074ccfa98de2⟩

/-- On genesis, with the score 2 ^ 64 and the coinbase that it pays. -/
def overBlock : Block :=
  { minedBlock 1 hash0 commitmentHash1 69329 with
    header := { (minedBlock 1 hash0 commitmentHash1 69329).header with workScore := ⟨0x43f0000000000000⟩ }
    coinbase := ⟨Sample.carol, 922337203685477580750000000000000, 1⟩ }

def overExt : Ext := Ext.ofTables
  [(encode Sample.problem, Sample.problemHash.bytes),
    (encode Sample.solution, Sample.solutionHash.bytes),
    (Sample.problemHash.asBytes ++ hash0.asBytes ++ Sample.solutionHash.asBytes, commitmentHash1.bytes),
    (encode (headerAt 0 Hash.ZERO), hash0.bytes), (encode overBlock.header, overHash.bytes)] []

/-- The score is cut off at 2 ^ 64 - 1, and with the 1 of genesis the sum is 0. -/
theorem sum_wraps :
    validateChainFromGenesisWork Sample.validator 1767225660 (ChainState.new block0 : ChainState overExt) [overBlock]
        overHash 1 = some ([block0, overBlock], 0) ∧
      exactWork [block0, overBlock] = 2 ^ 64 := by
  decide +kernel

end Coinjecture.Node.CandidateWork
