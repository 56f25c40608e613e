import Coinjecture.Lib.Rank
import Coinjecture.Node.ForkHandler
import Coinjecture.Node.ReorgAcceptance

/-! # The ancestors the fork handler finds

All blocks that a run brings are `seen`; where no two of them have one hash, the headers under the
hashes are a fixed table (`known`) in which every walk of the handler is a path. The search for the
common ancestor follows our chain to the height it names, and theirs over at least as many blocks as
are counted (`meets_of_found`). It fails only where one of the chains does not reach genesis
(`found_of_fromGenesis`). -/

namespace Coinjecture.Node.ForkPaths

open Lib.Effect Lib.Table Lib.Rank
open Core.Types Core.Blocks Core.Extern
open Core.Crypto
open Node.Validator Node.Chain Node.Chain.ChainState Node.Service
open Node.ForkHandler

/-! ### The known headers -/

section Known

variable (ext : Ext) (seen : List Block)

/-- The headers under the hashes. -/
def known (hash : Hash) : Option BlockHeader :=
  (seen.find? fun b => Block.hash ext b = hash).map Block.header

/-- Paths along the parents. -/
abbrev PathTo (k : Hash) (headers : List BlockHeader) (a : Hash) : Prop :=
  Trail BlockHeader.prevHash (known ext seen) k headers a

abbrev headers (blocks : List Block) : List BlockHeader := blocks.map Block.header

/-- The hash function does well on the blocks of a run: those with the same hash have the same header,
and none has the hash that genesis names as its parent. -/
structure HashesApart (genesisBlock : Block) : Prop where
  collisionFree : ∀ b ∈ seen, ∀ c ∈ seen, Block.hash ext b = Block.hash ext c → b.header = c.header
  genesis : genesisBlock ∈ seen
  nothingBefore : ∀ b ∈ seen, Block.hash ext b ≠ genesisBlock.header.prevHash

variable {ext seen} {genesisBlock : Block} {b : Block} {hash k : Hash} {header : BlockHeader}

theorem HashesApart.known_eq (h : HashesApart ext seen genesisBlock) (hb : b ∈ seen) :
    known ext seen (Block.hash ext b) = some b.header := by
  unfold known
  rcases hfind : seen.find? fun c => Block.hash ext c = Block.hash ext b with _ | c
  · exact absurd (List.find?_eq_none.mp hfind b hb) (by simp)
  · have hhash : Block.hash ext c = Block.hash ext b := by simpa using List.find?_some hfind
    rw [Option.map_some, h.collisionFree c (List.mem_of_find?_eq_some hfind) b hb hhash]

theorem exists_of_known (h : known ext seen hash = some header) :
    ∃ b ∈ seen, Block.hash ext b = hash ∧ b.header = header := by
  obtain ⟨b, hfind, rfl⟩ := Option.map_eq_some_iff.mp h
  exact ⟨b, List.mem_of_find?_eq_some hfind, by simpa using List.find?_some hfind, rfl⟩

/-- Genesis is where every path ends. -/
theorem HashesApart.source (h : HashesApart ext seen genesisBlock) :
    Source BlockHeader.prevHash (known ext seen) (Block.hash ext genesisBlock) := by
  refine ⟨_, h.known_eq h.genesis, ?_⟩
  rw [Option.eq_none_iff_forall_not_mem]
  intro header hheader
  obtain ⟨b, hb, hhash, -⟩ := exists_of_known hheader
  exact h.nothingBefore b hb hhash

end Known

/-! ### Walks -/

section Walks

variable {ext : Ext} {seen : List Block} {genesisBlock : Block} {chain : ChainState ext}
  {altChain : List Block} {hash k a : Hash} {n m : ℕ}

variable (ext) in
/-- The lookup finds blocks that have been seen, under their hashes. -/
def Finds (seen : List Block) (block? : Hash → Option Block) : Prop :=
  ∀ hash block, block? hash = some block → block ∈ seen ∧ Block.hash ext block = hash

theorem Finds.known (hapart : HashesApart ext seen genesisBlock) {block? : Hash → Option Block}
    (h : Finds ext seen block?) {block : Block} (hblock : block? hash = some block) :
    ForkPaths.known ext seen hash = some block.header := by
  obtain ⟨hseen, rfl⟩ := h hash block hblock
  exact hapart.known_eq hseen

/-- Every stored block has been seen. -/
def StoredSeen (seen : List Block) (chain : ChainState ext) : Prop :=
  ∀ hash block, chain.getBlockByHash hash = some block → block ∈ seen

theorem finds_stored (h : StoredSeen seen chain) :
    Finds ext seen chain.getBlockByHash :=
  fun hash block hblock => ⟨h hash block hblock, chain.blocks.keyed hblock⟩

theorem finds_chainOrAlt (h : StoredSeen seen chain) (halt : ∀ b ∈ altChain, b ∈ seen) :
    Finds ext seen (blockFromChainOrAlt chain altChain) := by
  intro hash block hblock
  unfold blockFromChainOrAlt at hblock
  rcases hget : chain.getBlockByHash hash with _ | stored
  · rw [hget] at hblock
    exact ⟨halt block (List.mem_of_find?_eq_some hblock), by simpa using List.find?_some hblock⟩
  · rw [hget] at hblock
    cases hblock
    exact ⟨h hash _ hget, chain.blocks.keyed hget⟩

theorem hashBack_add (block? : Hash → Option Block) (m n : ℕ) (hash : Hash) :
    hashBack block? (m + n) hash = (hashBack block? m hash).bind (hashBack block? n) := by
  induction m generalizing hash with
  | zero => rw [Nat.zero_add]; rfl
  | succ m ih =>
    rw [Nat.succ_add, hashBack, hashBack]
    rcases block? hash with _ | block
    · rfl
    · exact ih _

theorem hashBack_step {block? : Hash → Option Block} {block : Block}
    (h : hashBack block? n hash = some k) (hblock : block? k = some block) :
    hashBack block? (n + 1) hash = some block.header.prevHash := by
  rw [hashBack_add, h, Option.bind_some, hashBack, hblock]
  rfl

theorem path_of_hashBack (hapart : HashesApart ext seen genesisBlock) {block? : Hash → Option Block}
    (hfinds : Finds ext seen block?) (h : hashBack block? n hash = some k) :
    ∃ vs, vs.length = n ∧ PathTo ext seen hash vs k := by
  induction n generalizing hash with
  | zero =>
    cases h
    exact ⟨[], rfl, .nil _⟩
  | succ n ih =>
    obtain ⟨block, hblock, hrest⟩ := Option.bind_eq_some_iff.mp h
    obtain ⟨vs, hlength, hvs⟩ := ih hrest
    exact ⟨block.header :: vs, by rw [List.length_cons, hlength], .cons (hfinds.known hapart hblock) hvs⟩

theorem hashBack_of_blockBack {block : Block} (h : chain.blockBack n hash = some block) :
    hashBack chain.getBlockByHash n hash = some (Block.hash ext block) ∧
      chain.getBlockByHash (Block.hash ext block) = some block := by
  induction n generalizing hash with
  | zero =>
    have hkey : Block.hash ext block = hash := chain.blocks.keyed h
    rw [hkey]
    exact ⟨rfl, h⟩
  | succ n ih =>
    obtain ⟨first, hfirst, hrest⟩ := Option.bind_eq_some_iff.mp h
    rw [hashBack, hfirst]
    exact ih hrest

end Walks

/-! ### The search -/

section Search

variable {ext : Ext} {chain : ChainState ext} {altChain : List Block} {endHash ourHash theirHash : Hash}
  {endHeight : UInt64} {n m theirHeight : ℕ} {found : Hash × UInt64}

/-- The tip in memory is the one in the metadata. -/
structure OneTip (chain : ChainState ext) : Prop where
  height : chain.metadata.bestHeight = chain.bestHeight
  hash : chain.metadata.bestHash = chain.bestHash

/-- A hash of our chain at the height that is given with it, and of theirs at least as many blocks back
as are counted. -/
structure Meets (chain : ChainState ext) (altChain : List Block) (endHash : Hash) (endHeight : UInt64)
    (found : Hash × UInt64) : Prop where
  le : found.2.toNat ≤ chain.bestHeight.toNat
  ours : hashBack chain.getBlockByHash (chain.bestHeight.toNat - found.2.toNat) chain.bestHash =
    some found.1
  theirs : ∃ m, endHeight.toNat ≤ m + found.2.toNat ∧
    hashBack (blockFromChainOrAlt chain altChain) m endHash = some found.1

theorem canonical_back (htip : OneTip chain) {height : UInt64} {block : Block}
    (h : chain.getCanonicalBlockByHeight height = some block) :
    height.toNat ≤ chain.bestHeight.toNat ∧
      hashBack chain.getBlockByHash (chain.bestHeight.toNat - height.toNat) chain.bestHash =
        some (Block.hash ext block) ∧
      chain.getBlockByHash (Block.hash ext block) = some block := by
  unfold getCanonicalBlockByHeight at h
  rw [htip.height, htip.hash] at h
  split_ifs at h with habove
  have hle : height.toNat ≤ chain.bestHeight.toNat :=
    not_lt.mp fun hlt => habove (UInt64.lt_iff_toNat_lt.mpr hlt)
  exact ⟨hle, hashBack_of_blockBack h⟩

theorem ourBlockAt_some (htip : OneTip chain) {hash : Hash} (hn : n < 2 ^ 64)
    (h : ourBlockAt chain n hash = some found) : found.1 = hash ∧ found.2.toNat = n ∧
      n ≤ chain.bestHeight.toNat ∧
      hashBack chain.getBlockByHash (chain.bestHeight.toNat - n) chain.bestHash = some hash := by
  have hofNat : (UInt64.ofNat n).toNat = n := UInt64.toNat_ofNat_of_lt' hn
  unfold ourBlockAt at h
  rcases hours : chain.getCanonicalBlockByHeight (.ofNat n) with _ | ours
  · rw [hours] at h
    cases h
  · rw [hours] at h
    simp only at h
    split_ifs at h with hsame
    cases h
    obtain ⟨hle, hback, -⟩ := canonical_back htip hours
    rw [hofNat] at hle hback
    exact ⟨rfl, hofNat, hle, hsame ▸ hback⟩

theorem meets_of_ourBlockAt (htip : OneTip chain) {hash : Hash} (hn : n < 2 ^ 64)
    (h : ourBlockAt chain n hash = some found) (hm : endHeight.toNat ≤ m + n)
    (htheirs : hashBack (blockFromChainOrAlt chain altChain) m endHash = some hash) :
    Meets chain altChain endHash endHeight found := by
  obtain ⟨hhash, hheight, hle, hback⟩ := ourBlockAt_some htip hn h
  exact ⟨by rwa [hheight], by rwa [hheight, hhash], m, by rwa [hheight], by rwa [hhash]⟩

theorem meets_here (hn : n ≤ chain.bestHeight.toNat)
    (hours : hashBack chain.getBlockByHash (chain.bestHeight.toNat - n) chain.bestHash = some ourHash)
    (hm : endHeight.toNat ≤ m + n)
    (htheirs : hashBack (blockFromChainOrAlt chain altChain) m endHash = some ourHash) :
    Meets chain altChain endHash endHeight (ourHash, .ofNat n) := by
  have hofNat : (UInt64.ofNat n).toNat = n :=
    UInt64.toNat_ofNat_of_lt' (hn.trans_lt chain.bestHeight.toNat_lt)
  exact ⟨by rwa [hofNat], by rwa [hofNat], m, by rwa [hofNat], htheirs⟩

/-- The last loop. Their height is not counted down in it, so what it finds may be further back. -/
theorem meets_of_walkBoth (htip : OneTip chain) (hn : n ≤ chain.bestHeight.toNat)
    (htheirHeight : n ≤ theirHeight) (hbound : theirHeight < 2 ^ 64)
    (hours : hashBack chain.getBlockByHash (chain.bestHeight.toNat - n) chain.bestHash = some ourHash)
    (hm : endHeight.toNat ≤ m + n)
    (htheirs : hashBack (blockFromChainOrAlt chain altChain) m endHash = some theirHash)
    (h : walkBoth chain altChain theirHeight n ourHash theirHash = some found) :
    Meets chain altChain endHash endHeight found := by
  induction n generalizing m ourHash theirHash with
  | zero =>
    unfold walkBoth at h
    split_ifs at h with hsame
    cases h
    exact meets_here hn hours hm (hsame ▸ htheirs)
  | succ n ih =>
    unfold walkBoth at h
    by_cases hsame : ourHash = theirHash
    · rw [if_pos hsame] at h
      cases h
      exact meets_here hn hours hm (hsame ▸ htheirs)
    rw [if_neg hsame] at h
    rcases hour : chain.getBlockByHash ourHash with _ | ourBlock <;>
      rcases htheir : blockFromChainOrAlt chain altChain theirHash with _ | theirBlock <;>
      rw [hour, htheir] at h
    · cases h
    · exact meets_of_ourBlockAt htip (hn.trans_lt chain.bestHeight.toNat_lt) h
        (by omega) (hashBack_step htheirs htheir)
    · exact meets_of_ourBlockAt htip hbound h (by omega) htheirs
    · rcases Option.or_eq_some_iff.mp h with hat | ⟨-, hrest⟩
      · split_ifs at hat with hpositive
        exact meets_of_ourBlockAt htip (by omega) hat (by omega) (hashBack_step htheirs htheir)
      · refine ih (m := m + 1) (by omega) (by omega) ?_ (by omega) (hashBack_step htheirs htheir)
          hrest
        have hback : chain.bestHeight.toNat - n = chain.bestHeight.toNat - (n + 1) + 1 := by omega
        rw [hback]
        exact hashBack_step hours hour

theorem meets_of_walkTheirs (htip : OneTip chain) (hbound : chain.bestHeight.toNat + n < 2 ^ 64)
    (hm : endHeight.toNat ≤ m + (chain.bestHeight.toNat + n))
    (htheirs : hashBack (blockFromChainOrAlt chain altChain) m endHash = some theirHash)
    (h : walkTheirs chain altChain n theirHash = some found) :
    Meets chain altChain endHash endHeight found := by
  induction n generalizing m theirHash with
  | zero =>
    exact meets_of_walkBoth htip le_rfl le_rfl hbound (by rw [Nat.sub_self]; rfl) hm htheirs h
  | succ n ih =>
    unfold walkTheirs at h
    rcases htheir : blockFromChainOrAlt chain altChain theirHash with _ | block
    · rw [htheir] at h
      exact meets_of_ourBlockAt htip hbound h hm htheirs
    · rw [htheir] at h
      rcases Option.or_eq_some_iff.mp h with hat | ⟨-, hrest⟩
      · exact meets_of_ourBlockAt htip (by omega) hat (by omega) (hashBack_step htheirs htheir)
      · exact ih (m := m + 1) (by omega) (by omega) (hashBack_step htheirs htheir) hrest

/-- What the search finds is on both chains. -/
theorem meets_of_found (htip : OneTip chain)
    (h : findCommonAncestorWithAltChain chain altChain endHash endHeight = some found) :
    Meets chain altChain endHash endHeight found := by
  unfold findCommonAncestorWithAltChain at h
  split_ifs at h with hle
  · have hle' := UInt64.le_iff_toNat_le.mp hle
    have hback : chain.bestHeight.toNat - (chain.bestHeight.toNat - endHeight.toNat) =
        endHeight.toNat := by omega
    rcases hours : hashBack chain.getBlockByHash (chain.bestHeight.toNat - endHeight.toNat)
      chain.bestHash with _ | ourHash
    · rw [hours] at h
      cases h
    rw [hours] at h
    by_cases hsame : ourHash = endHash
    · simp only at h
      rw [if_pos hsame] at h
      cases h
      exact ⟨hle', hours, 0, (Nat.zero_add _).ge, by rw [hsame]; rfl⟩
    · simp only at h
      rw [if_neg hsame] at h
      exact meets_of_walkBoth (m := 0) htip hle' le_rfl endHeight.toNat_lt hours (by omega) rfl h
  · have hlt : chain.bestHeight.toNat < endHeight.toNat :=
      not_le.mp fun hle' => hle (UInt64.le_iff_toNat_le.mpr hle')
    have hbound := endHeight.toNat_lt
    exact meets_of_walkTheirs (m := 0) htip (by omega) (by omega) rfl h

/-! ### Chains that reach genesis -/

theorem walkBoth_isSome {genesis : Hash}
    (hours : hashBack chain.getBlockByHash n ourHash = some genesis)
    (htheirs : hashBack (blockFromChainOrAlt chain altChain) n theirHash = some genesis) :
    (walkBoth chain altChain theirHeight n ourHash theirHash).isSome := by
  induction n generalizing ourHash theirHash with
  | zero =>
    cases hours
    cases htheirs
    rw [walkBoth, if_pos rfl]
    rfl
  | succ n ih =>
    obtain ⟨ourBlock, hour, hours⟩ := Option.bind_eq_some_iff.mp hours
    obtain ⟨theirBlock, htheir, htheirs⟩ := Option.bind_eq_some_iff.mp htheirs
    have hget : chain.getBlockByHash ourHash = some ourBlock := hour
    unfold walkBoth
    by_cases hsame : ourHash = theirHash
    · rw [if_pos hsame]
      rfl
    · rw [if_neg hsame, hget, htheir]
      simp only
      rw [Option.isSome_or, ih hours htheirs, Bool.or_true]

theorem walkTheirs_isSome {genesis : Hash}
    (hours : hashBack chain.getBlockByHash chain.bestHeight.toNat chain.bestHash = some genesis)
    (htheirs : hashBack (blockFromChainOrAlt chain altChain) (n + chain.bestHeight.toNat) theirHash =
      some genesis) : (walkTheirs chain altChain n theirHash).isSome := by
  induction n generalizing theirHash with
  | zero =>
    rw [Nat.zero_add] at htheirs
    exact walkBoth_isSome hours htheirs
  | succ n ih =>
    rw [Nat.succ_add] at htheirs
    obtain ⟨block, hblock, hrest⟩ := Option.bind_eq_some_iff.mp htheirs
    rw [walkTheirs, hblock]
    simp only
    rw [Option.isSome_or, ih hrest, Bool.or_true]

/-- If both chains reach genesis the search finds an ancestor. -/
theorem found_of_fromGenesis {genesis : Hash}
    (hours : hashBack chain.getBlockByHash chain.bestHeight.toNat chain.bestHash = some genesis)
    (htheirs : hashBack (blockFromChainOrAlt chain altChain) endHeight.toNat endHash = some genesis) :
    (findCommonAncestorWithAltChain chain altChain endHash endHeight).isSome := by
  unfold findCommonAncestorWithAltChain
  split_ifs with hle
  · have hle' := UInt64.le_iff_toNat_le.mp hle
    have hsplit : chain.bestHeight.toNat =
        (chain.bestHeight.toNat - endHeight.toNat) + endHeight.toNat := by omega
    rw [hsplit, hashBack_add] at hours
    obtain ⟨ourHash, hback, hrest⟩ := Option.bind_eq_some_iff.mp hours
    rw [hback]
    simp only
    split_ifs with hsame
    · rfl
    · exact walkBoth_isSome hrest htheirs
  · have hlt : chain.bestHeight.toNat < endHeight.toNat :=
      not_le.mp fun hle' => hle (UInt64.le_iff_toNat_le.mpr hle')
    refine walkTheirs_isSome hours ?_
    rwa [Nat.sub_add_cancel hlt.le]

theorem hashBack_of_candidateWalk {blocks : List Block} {hash k : Hash}
    (h : candidateWalk chain altChain n hash = some (blocks, k)) :
    hashBack (blockFromChainOrAlt chain altChain) n hash = some k := by
  induction n generalizing hash blocks with
  | zero =>
    cases h
    rfl
  | succ n ih =>
    simp only [candidateWalk, Option.bind_eq_bind, Option.bind_eq_some_iff] at h
    obtain ⟨block, hblock, -, -, ⟨rest, k'⟩, hrest, hpure⟩ := h
    cases hpure
    rw [hashBack, hblock]
    exact ih hrest

/-- So where there is none the branch for a complete fork does not switch. -/
theorem not_fromGenesis {v : BlockValidator} {now : Int64} {newChain oldChain : List Block}
    (htip : OneTip chain)
    (hnone : findCommonAncestorWithAltChain chain altChain endHash endHeight = none)
    (hnew : validateChainFromGenesis v now chain altChain endHash endHeight = some newChain) :
    getChainFromGenesis chain ≠ some oldChain := by
  intro hold
  simp only [validateChainFromGenesis, Option.bind_eq_bind, Option.bind_eq_some_iff,
    Option.guard_eq_some'] at hnew
  obtain ⟨⟨blocks, hash⟩, hwalk, ⟨⟩, hreached, -⟩ := hnew
  obtain rfl : hash = chain.genesisHash := hreached
  simp only [getChainFromGenesis, Option.bind_eq_bind, Option.bind_eq_some_iff,
    Option.guard_eq_some'] at hold
  obtain ⟨-, -, genesis, hcanonical, ⟨⟩, hgenesis', -⟩ := hold
  obtain ⟨-, hours, -⟩ := canonical_back htip hcanonical
  rw [UInt64.toNat_zero, Nat.sub_zero, hgenesis'] at hours
  have hfound := found_of_fromGenesis hours (hashBack_of_candidateWalk hwalk)
  rw [hnone] at hfound
  cases hfound

end Search

/-! ### The branches -/

section Branches

variable {ext : Ext} {seen : List Block} {genesisBlock : Block} {chain : ChainState ext}
  {altChain blocks : List Block} {hash k a : Hash} {n m : ℕ}

theorem path_of_canonicalBlocks (hapart : HashesApart ext seen genesisBlock)
    (hstored : StoredSeen seen chain) (htip : OneTip chain) {height : UInt64}
    (hheight : n = 0 ∨ height.toNat + n = chain.bestHeight.toNat + 1)
    (h : canonicalBlocks chain height n = some blocks)
    (hback : hashBack chain.getBlockByHash n chain.bestHash = some a) :
    PathTo ext seen chain.bestHash (headers blocks.reverse) a := by
  induction n generalizing height blocks a with
  | zero =>
    cases h
    cases hback
    exact .nil _
  | succ n ih =>
    simp only [canonicalBlocks, Option.bind_eq_bind, Option.bind_eq_some_iff] at h
    obtain ⟨block, hblock, rest, hrest, hpure⟩ := h
    cases hpure
    obtain ⟨hle, hback', hget⟩ := canonical_back htip hblock
    have hsum : height.toNat + (n + 1) = chain.bestHeight.toNat + 1 := by omega
    have hsub : chain.bestHeight.toNat - height.toNat = n := by omega
    rw [hsub] at hback'
    have hparent := hashBack_step hback' hget
    rw [hback, Option.some.injEq] at hparent
    have hnext : n = 0 ∨ (height + 1).toNat + n = chain.bestHeight.toNat + 1 := by
      rcases Nat.eq_zero_or_pos n with hzero | hpositive
      · exact .inl hzero
      · right
        have hbound := chain.bestHeight.toNat_lt
        rw [UInt64.toNat_add, Nat.mod_eq_of_lt]
        · change height.toNat + 1 + n = _
          omega
        · change height.toNat + 1 < _
          omega
    rw [hparent, List.reverse_cons, headers, List.map_append]
    exact (ih hnext hrest hback').append
      (.single ((finds_stored hstored).known hapart hget))

theorem path_of_newChainWalk (hapart : HashesApart ext seen genesisBlock)
    (hfinds : Finds ext seen (blockFromChainOrAlt chain altChain))
    (h : newChainWalk chain altChain n hash = some blocks) :
    ∃ k, hashBack (blockFromChainOrAlt chain altChain) n hash = some k ∧
      PathTo ext seen hash (headers blocks) k ∧ blocks.length = n ∧ ∀ b ∈ blocks, b ∈ seen := by
  induction n generalizing hash blocks with
  | zero =>
    cases h
    exact ⟨hash, rfl, .nil _, rfl, fun b hb => by cases hb⟩
  | succ n ih =>
    simp only [newChainWalk, Option.bind_eq_bind, Option.bind_eq_some_iff] at h
    obtain ⟨block, hblock, rest, hrest, hpure⟩ := h
    cases hpure
    obtain ⟨k, hback, hpath, hlength, hmem⟩ := ih hrest
    refine ⟨k, ?_, .cons (hfinds.known hapart hblock) hpath, by rw [List.length_cons, hlength], ?_⟩
    · rw [hashBack, hblock]
      exact hback
    · intro b hb
      rcases List.mem_cons.mp hb with rfl | hb
      · exact (hfinds hash b hblock).1
      · exact hmem b hb

end Branches

end Coinjecture.Node.ForkPaths
