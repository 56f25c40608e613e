import Coinjecture.Core.MerkleTree
import Coinjecture.Core.MessageCodes
import Coinjecture.Lib.Table

/-! # The four ways to commit

A commitment hashes a problem, a salt and a solution, each as a hash of 32 bytes; the golden ones also hash 16
bytes of a stream that the genesis hash and the epoch give. Problem and solution are written as bincode or as
JSON. `verify` tries the two without the stream, `verify_with_golden` all four.

* `opens_one_way` : without a collision no commitment is made in two ways, or of two problems, solutions or salts.
* `commitment_binding` : the verifiers accept just what is committed to in the ways they try. -/

namespace Coinjecture.Core.Commitments

open Lib.Bincode Lib.Codes
open Core.Types Core.Problem Core.Blocks Core.Extern
open Core.Crypto Core.MessageCodes
open Lib.Table (mem_of_lookup)
open Core.MerkleTree (length_asBytes asBytes_injective)

/-! ### The golden stream -/

def GOLDEN_SEED : Bytes :=
  [0x9e, 0x37, 0x79, 0xb9, 0x7f, 0x4a, 0x7c, 0x15, 0xf3, 0x9c, 0xc0, 0x60, 0x5c, 0xee, 0xdc, 0x83,
    0x41, 0x08, 0x2c, 0x12, 0x4a, 0xfc, 0x05, 0x51, 0xc7, 0xab, 0x88, 0x26, 0x6e, 0xcf, 0x1f, 0x17]

def GOLDEN_EPOCH_BLOCKS : UInt64 := 100

structure GoldenGenerator where
  state : Bytes32
  counter : UInt64
  deriving DecidableEq

namespace GoldenGenerator

variable (ext : Ext)

def new (seed : Bytes32) : GoldenGenerator := ⟨ext.blake3 (beBytes 32 seed.toNat), 0⟩

def fromGenesisEpoch (genesis : Hash) (height : UInt64) : GoldenGenerator :=
  let epoch := height / GOLDEN_EPOCH_BLOCKS
  new ext (ext.blake3 (genesis.asBytes ++ leBytes 8 epoch.toNat ++ GOLDEN_SEED))

def basisMatch (byte : UInt8) : Bool := ((byte >>> 1) &&& 1 : UInt8) == ((byte >>> 2) &&& 1 : UInt8)

/-- The loop that collects 256 bits, over at most so many hashes. The source does not bound it. -/
def sift : ℕ → GoldenGenerator → Bytes → Option (Bytes × GoldenGenerator)
  | fuel, g, bits =>
    if 256 ≤ bits.length then some (bits, g)
    else match fuel with
      | 0 => none
      | fuel + 1 =>
        let hash := ext.blake3 (beBytes 32 g.state.toNat ++ leBytes 8 g.counter.toNat)
        let sifted := ((beBytes 32 hash.toNat).filter basisMatch).map (· &&& 1)
        sift fuel ⟨hash, g.counter + 1⟩ ((bits ++ sifted).take 256)

/-- The first 128 bits combined with the others, eight to a byte. -/
def fold (bits : Bytes) : Bytes :=
  (List.range 16).map fun k => (List.range 8).foldl
    (fun byte j => byte ||| ((bits.getD (8 * k + j) 0 ^^^ bits.getD (8 * k + j + 128) 0) <<< UInt8.ofNat j)) 0

def nextBytes (fuel : ℕ) (g : GoldenGenerator) : Option (Bytes × GoldenGenerator) :=
  (sift ext fuel g []).map fun r => (fold r.1, r.2)

theorem length_nextBytes {fuel : ℕ} {g : GoldenGenerator} {r : Bytes × GoldenGenerator}
    (h : nextBytes ext fuel g = some r) : r.1.length = 16 := by
  obtain ⟨sifted, -, rfl⟩ := Option.map_eq_some_iff.mp h
  rw [fold, List.length_map, List.length_range]

/-- What the loop returns does not depend on the bound. -/
theorem sift_add {fuel : ℕ} {g : GoldenGenerator} {bits : Bytes} {r : Bytes × GoldenGenerator}
    (h : sift ext fuel g bits = some r) (more : ℕ) : sift ext (fuel + more) g bits = some r := by
  induction fuel generalizing g bits with
  | zero =>
    unfold sift at h ⊢
    split_ifs at h ⊢ with henough
    exact h
  | succ fuel ih =>
    rw [Nat.succ_add]
    unfold sift at h ⊢
    split_ifs at h ⊢ with henough
    · exact h
    · exact ih h

end GoldenGenerator

/-! ### Commitments -/

section Create

variable (ext : Ext)

/-- The bytes of the stream that a commitment hashes. -/
def goldenBytes (fuel : ℕ) (genesisHash : Hash) (blockHeight : UInt64) : Option Bytes :=
  (GoldenGenerator.nextBytes ext fuel (GoldenGenerator.fromGenesisEpoch ext genesisHash blockHeight)).map Prod.fst

/-- `H(problem hash ‖ salt ‖ golden stream ‖ solution hash)`. -/
def goldenCommitmentOf (golden : Bytes) (problemHash solutionHash epochSalt : Hash) : Commitment :=
  ⟨Hash.new ext (problemHash.asBytes ++ epochSalt.asBytes ++ golden ++ solutionHash.asBytes), problemHash⟩

/-- `Commitment::create_with_golden`. -/
def createWithGolden (fuel : ℕ) (problem : ProblemType) (solution : Solution) (epochSalt genesisHash : Hash)
    (blockHeight : UInt64) : Option Commitment :=
  (goldenBytes ext fuel genesisHash blockHeight).map fun golden =>
    goldenCommitmentOf ext golden (ProblemType.hash ext problem) (Hash.new ext (encode solution)) epochSalt

/-- `Commitment::create_with_golden_json`. -/
def createWithGoldenJson (fuel : ℕ) (problem : ProblemType) (solution : Solution) (epochSalt genesisHash : Hash)
    (blockHeight : UInt64) : Option Commitment :=
  (goldenBytes ext fuel genesisHash blockHeight).map fun golden =>
    goldenCommitmentOf ext golden (Hash.new ext (ext.problemJson problem))
      (Hash.new ext (ext.solutionJson solution)) epochSalt

/-- `Commitment::verify_with_golden`. -/
def verifyWithGolden (fuel : ℕ) (c : Commitment) (problem : ProblemType) (solution : Solution) (epochSalt : Hash)
    (genesisHash : Option Hash) (blockHeight : Option UInt64) : Option Bool :=
  if c = Commitment.create ext problem solution epochSalt then some true
  else if c = Commitment.createFromJson ext problem solution epochSalt then some true
  else match genesisHash, blockHeight with
    | some genesis, some height => do
      let golden ← createWithGolden ext fuel problem solution epochSalt genesis height
      if c = golden then return true
      let goldenJson ← createWithGoldenJson ext fuel problem solution epochSalt genesis height
      return c = goldenJson
    | _, _ => some false

end Create

/-! ### What a commitment is made of -/

/-- What is committed to. Its sequences are of 64-bit lengths, as all are in memory. -/
structure Opening where
  problem : ProblemType
  solution : Solution
  epochSalt : Hash
  genesisHash : Option Hash
  blockHeight : Option UInt64
  problemFits : Fits problem
  solutionFits : Fits solution

/-- The four ways. -/
inductive Variant where
  | bincode | json | goldenBincode | goldenJson
  deriving DecidableEq

namespace Variant

def all : List Variant := [.bincode, .json, .goldenBincode, .goldenJson]

def isJson : Variant → Bool
  | .bincode | .goldenBincode => false
  | .json | .goldenJson => true

def isGolden : Variant → Bool
  | .bincode | .json => false
  | .goldenBincode | .goldenJson => true

theorem eq_of_same {v w : Variant} (hjson : v.isJson = w.isJson) (hgolden : v.isGolden = w.isGolden) :
    v = w := by
  cases v
  all_goals
    cases w
    all_goals first | rfl | exact Bool.noConfusion hjson | exact Bool.noConfusion hgolden

theorem mem_all (v : Variant) : v ∈ all := by
  cases v
  all_goals decide

end Variant

section Variants

variable (ext : Ext) (fuel : ℕ) (v : Variant) (t : Opening)

/-- The commitment that is made in this way. -/
def createAs : Option Commitment :=
  match v with
  | .bincode => some (Commitment.create ext t.problem t.solution t.epochSalt)
  | .json => some (Commitment.createFromJson ext t.problem t.solution t.epochSalt)
  | .goldenBincode => t.genesisHash.bind fun genesis => t.blockHeight.bind fun height =>
      createWithGolden ext fuel t.problem t.solution t.epochSalt genesis height
  | .goldenJson => t.genesisHash.bind fun genesis => t.blockHeight.bind fun height =>
      createWithGoldenJson ext fuel t.problem t.solution t.epochSalt genesis height

def verifies (c : Commitment) : Bool := Commitment.verify ext c t.problem t.solution t.epochSalt

def verifiesGolden (c : Commitment) : Option Bool :=
  verifyWithGolden ext fuel c t.problem t.solution t.epochSalt t.genesisHash t.blockHeight

def problemBytes : Bytes := if v.isJson then ext.problemJson t.problem else encode t.problem

def solutionBytes : Bytes := if v.isJson then ext.solutionJson t.solution else encode t.solution

/-- The stream, of a golden commitment. -/
def stream : Option Bytes :=
  if v.isGolden then
    t.genesisHash.bind fun genesis => t.blockHeight.bind fun height => goldenBytes ext fuel genesis height
  else some []

def preimage (golden : Bytes) : Bytes :=
  (Hash.new ext (problemBytes ext v t)).asBytes ++ t.epochSalt.asBytes ++ golden ++
    (Hash.new ext (solutionBytes ext v t)).asBytes

/-- All that is hashed for this opening in one way or the other, the stream apart. -/
def hashed : List Bytes :=
  (Variant.all.flatMap fun v => [problemBytes ext v t, solutionBytes ext v t]) ++
    Variant.all.filterMap fun v => (stream ext fuel v t).map (preimage ext v t)

theorem createAs_eq : createAs ext fuel v t = (stream ext fuel v t).map fun golden =>
    ⟨Hash.new ext (preimage ext v t golden), Hash.new ext (problemBytes ext v t)⟩ := by
  cases v with
  | bincode =>
    simp only [createAs, stream, Variant.isGolden, preimage, problemBytes, solutionBytes, Variant.isJson,
      Commitment.create, commitmentOf, ProblemType.hash, Bool.false_eq_true, if_false, Option.map_some,
      List.append_nil]
  | json =>
    simp only [createAs, stream, Variant.isGolden, preimage, problemBytes, solutionBytes, Variant.isJson,
      Commitment.createFromJson, commitmentOf, Bool.false_eq_true, if_true, if_false, Option.map_some,
      List.append_nil]
  | goldenBincode =>
    simp only [createAs, stream, Variant.isGolden, preimage, problemBytes, solutionBytes, Variant.isJson,
      createWithGolden, goldenCommitmentOf, ProblemType.hash, Bool.false_eq_true, if_true, if_false,
      Option.map_bind, Function.comp_def]
  | goldenJson =>
    simp only [createAs, stream, Variant.isGolden, preimage, problemBytes, solutionBytes, Variant.isJson,
      createWithGoldenJson, goldenCommitmentOf, if_true, Option.map_bind, Function.comp_def]

variable {ext fuel v t}

theorem exists_of_createAs {c : Commitment} (h : createAs ext fuel v t = some c) :
    ∃ golden, stream ext fuel v t = some golden ∧ c.hash = Hash.new ext (preimage ext v t golden) ∧
      c.problemHash = Hash.new ext (problemBytes ext v t) := by
  rw [createAs_eq] at h
  obtain ⟨golden, hstream, rfl⟩ := Option.map_eq_some_iff.mp h
  exact ⟨golden, hstream, rfl, rfl⟩

theorem length_stream {golden : Bytes} (h : stream ext fuel v t = some golden) :
    golden.length = if v.isGolden then 16 else 0 := by
  rw [stream] at h
  split_ifs at h ⊢
  · obtain ⟨genesis, -, h⟩ := Option.bind_eq_some_iff.mp h
    obtain ⟨height, -, h⟩ := Option.bind_eq_some_iff.mp h
    obtain ⟨r, hnext, rfl⟩ := Option.map_eq_some_iff.mp h
    exact GoldenGenerator.length_nextBytes ext hnext
  · rw [← Option.some.inj h]
    rfl

theorem problemBytes_mem : problemBytes ext v t ∈ hashed ext fuel t :=
  List.mem_append_left _ (List.mem_flatMap.mpr ⟨v, v.mem_all, List.mem_cons_self⟩)

theorem solutionBytes_mem : solutionBytes ext v t ∈ hashed ext fuel t :=
  List.mem_append_left _ (List.mem_flatMap.mpr ⟨v, v.mem_all, List.mem_cons_of_mem _ List.mem_cons_self⟩)

theorem preimage_mem {golden : Bytes} (h : stream ext fuel v t = some golden) :
    preimage ext v t golden ∈ hashed ext fuel t :=
  List.mem_append_right _ (List.mem_filterMap.mpr ⟨v, v.mem_all, by rw [h]; rfl⟩)

end Variants

/-! ### One opening -/

/-- What `serde_json` does with these types: it writes what can be read back, and a problem as an object. -/
structure JsonCodes (ext : Ext) : Prop where
  problem_injective : ∀ p q, Fits p → Fits q → ext.problemJson p = ext.problemJson q → p = q
  solution_injective : ∀ s t, Fits s → Fits t → ext.solutionJson s = ext.solutionJson t → s = t
  problem_object : ∀ p, (ext.problemJson p).head? = some 0x7B

/-- BLAKE3 takes no string hashed for the one opening and no string hashed for the other to one. -/
def CollisionFree (ext : Ext) (fuel fuel' : ℕ) (t t' : Opening) : Prop :=
  ∀ x ∈ hashed ext fuel t, ∀ y ∈ hashed ext fuel' t', ext.blake3 x = ext.blake3 y → x = y

instance (ext : Ext) (fuel fuel' : ℕ) (t t' : Opening) : Decidable (CollisionFree ext fuel fuel' t t') :=
  inferInstanceAs (Decidable (∀ x ∈ hashed ext fuel t, _))

/-- An enum of four variants starts with the index of one. -/
theorem exists_head_variant {n : ℕ} (hn : n < 4) (body : Bytes) :
    ∃ b : UInt8, b < 4 ∧ (variant n ++ body).head? = some b := by
  refine ⟨UInt8.ofNat (n % 256), ?_, rfl⟩
  interval_cases n
  all_goals decide

theorem exists_head_problem (p : ProblemType) : ∃ b : UInt8, b < 4 ∧ (encode p).head? = some b := by
  rw [encode_problem]
  refine exists_head_variant ?_ _
  cases p
  all_goals simp only [problemTag, Nat.reduceLT]

theorem head_encode_problem (p : ProblemType) : (encode p).head? ≠ some 0x7B := by
  obtain ⟨b, hb, hhead⟩ := exists_head_problem p
  rw [hhead]
  rintro ⟨⟩
  exact absurd hb (by decide)

theorem exists_head_solution (x : Solution) : ∃ b : UInt8, b < 4 ∧ (encode x).head? = some b := by
  rw [encode_solution]
  refine exists_head_variant ?_ _
  cases x
  all_goals simp only [solutionTag, Nat.reduceLT]

theorem encode_inj {α : Type} [Encode α] [PrefixCode α] {a b : α} (ha : Fits a) (hb : Fits b)
    (h : encode a = encode b) : a = b :=
  (PrefixCode.split (s := []) (t := []) ha hb (by rw [h])).1

section Binding

variable {ext : Ext} (hcodes : JsonCodes ext) {v w : Variant} {t t' : Opening}

include hcodes

/-- Problems are written alike only in one format. -/
theorem problem_eq (h : problemBytes ext v t = problemBytes ext w t') :
    v.isJson = w.isJson ∧ t.problem = t'.problem := by
  unfold problemBytes at h
  cases hv : v.isJson with
  | false =>
    cases hw : w.isJson with
    | false =>
      rw [hv, hw] at h
      exact ⟨rfl, encode_inj t.problemFits t'.problemFits h⟩
    | true =>
      rw [hv, hw] at h
      have hhead := hcodes.problem_object t'.problem
      rw [if_pos rfl, if_neg Bool.false_ne_true] at h
      rw [← h] at hhead
      exact absurd hhead (head_encode_problem _)
  | true =>
    cases hw : w.isJson with
    | false =>
      rw [hv, hw] at h
      have hhead := hcodes.problem_object t.problem
      rw [if_pos rfl, if_neg Bool.false_ne_true] at h
      rw [h] at hhead
      exact absurd hhead (head_encode_problem _)
    | true =>
      rw [hv, hw] at h
      exact ⟨rfl, hcodes.problem_injective _ _ t.problemFits t'.problemFits h⟩

theorem solution_eq (hformat : v.isJson = w.isJson) (h : solutionBytes ext v t = solutionBytes ext w t') :
    t.solution = t'.solution := by
  unfold solutionBytes at h
  rw [← hformat] at h
  split_ifs at h
  · exact hcodes.solution_injective _ _ t.solutionFits t'.solutionFits h
  · exact encode_inj t.solutionFits t'.solutionFits h

/-- Without a collision a commitment is made in one way, of one problem, one solution and one salt. -/
theorem opens_one_way {fuel fuel' : ℕ} {c : Commitment} (hfree : CollisionFree ext fuel fuel' t t')
    (h : createAs ext fuel v t = some c) (h' : createAs ext fuel' w t' = some c) :
    v = w ∧ t.problem = t'.problem ∧ t.solution = t'.solution ∧ t.epochSalt = t'.epochSalt := by
  obtain ⟨golden, hstream, hhash, hproblem⟩ := exists_of_createAs h
  obtain ⟨golden', hstream', hhash', hproblem'⟩ := exists_of_createAs h'
  have hbytes : problemBytes ext v t = problemBytes ext w t' :=
    hfree _ problemBytes_mem _ problemBytes_mem (congrArg Hash.bytes (hproblem.symm.trans hproblem'))
  obtain ⟨hformat, hsame⟩ := problem_eq hcodes hbytes
  have hpre : preimage ext v t golden = preimage ext w t' golden' :=
    hfree _ (preimage_mem hstream) _ (preimage_mem hstream') (congrArg Hash.bytes (hhash.symm.trans hhash'))
  -- the golden strings are longer by 16 bytes
  have hlen := congrArg List.length hpre
  simp only [preimage, List.length_append, length_asBytes, length_stream hstream, length_stream hstream'] at hlen
  have hgolden : v.isGolden = w.isGolden := by
    cases hv : v.isGolden
    all_goals
      cases hw : w.isGolden
      all_goals first | rfl | (rw [hv, hw] at hlen; exact absurd hlen (by decide))
  have hmiddle : golden.length = golden'.length := by
    rw [length_stream hstream, length_stream hstream', hgolden]
  simp only [preimage, List.append_assoc] at hpre
  obtain ⟨-, hpre⟩ := append_split (by rw [length_asBytes, length_asBytes]) hpre
  obtain ⟨hsalt, hpre⟩ := append_split (by rw [length_asBytes, length_asBytes]) hpre
  obtain ⟨-, hsolution⟩ := append_split hmiddle hpre
  have hsolutionBytes : solutionBytes ext v t = solutionBytes ext w t' :=
    hfree _ solutionBytes_mem _ solutionBytes_mem (congrArg Hash.bytes (asBytes_injective hsolution))
  exact ⟨Variant.eq_of_same hformat hgolden, hsame, solution_eq hcodes hformat hsolutionBytes,
    asBytes_injective hsalt⟩

end Binding

/-! ### The verifiers -/

section Verifiers

variable {ext : Ext} {fuel : ℕ} {t : Opening} {c : Commitment}

theorem verifies_iff : verifies ext t c = true ↔ ∃ v, v.isGolden = false ∧ createAs ext fuel v t = some c := by
  simp only [verifies, Commitment.verify, Bool.or_eq_true, decide_eq_true_eq]
  constructor
  · rintro (rfl | rfl)
    · exact ⟨.bincode, rfl, rfl⟩
    · exact ⟨.json, rfl, rfl⟩
  · rintro ⟨v, hstandard, hcreate⟩
    cases v with
    | bincode => exact .inl (Option.some.inj hcreate).symm
    | json => exact .inr (Option.some.inj hcreate).symm
    | goldenBincode => cases hstandard
    | goldenJson => cases hstandard

/-- The golden verifier looks at the standard commitments first. -/
theorem verifiesGolden_of_verifies (h : verifies ext t c = true) : verifiesGolden ext fuel t c = some true := by
  simp only [verifies, Commitment.verify, Bool.or_eq_true, decide_eq_true_eq] at h
  simp only [verifiesGolden, verifyWithGolden]
  split_ifs with hbincode hjson
  · rfl
  · rfl
  · exact absurd h (not_or.mpr ⟨hbincode, hjson⟩)

/-- What it compares with when neither standard commitment is it. -/
theorem verifiesGolden_eq (h : ¬ verifies ext t c = true) : verifiesGolden ext fuel t c =
    match t.genesisHash, t.blockHeight with
    | some genesis, some height => (goldenBytes ext fuel genesis height).map fun golden =>
        decide (c = ⟨Hash.new ext (preimage ext .goldenBincode t golden),
          Hash.new ext (problemBytes ext .goldenBincode t)⟩) ||
        decide (c = ⟨Hash.new ext (preimage ext .goldenJson t golden),
          Hash.new ext (problemBytes ext .goldenJson t)⟩)
    | _, _ => some false := by
  simp only [verifies, Commitment.verify, Bool.or_eq_true, decide_eq_true_eq] at h
  obtain ⟨hbincode, hjson⟩ := not_or.mp h
  unfold verifiesGolden verifyWithGolden
  rw [if_neg hbincode, if_neg hjson]
  cases t.genesisHash with
  | none => rfl
  | some genesis =>
    cases t.blockHeight with
    | none => rfl
    | some height =>
      cases hgolden : goldenBytes ext fuel genesis height with
      | none => simp only [createWithGolden, hgolden, Option.map_none, Option.bind_eq_bind, Option.bind_none]
      | some golden =>
        simp only [createWithGolden, createWithGoldenJson, hgolden, Option.map_some, Option.bind_eq_bind,
          Option.bind_some, goldenCommitmentOf, preimage, problemBytes, solutionBytes, Variant.isJson,
          ProblemType.hash, Bool.false_eq_true, if_false, if_true]
        split_ifs with hsame
        · rw [decide_eq_true hsame, Bool.true_or]
          rfl
        · rw [decide_eq_false hsame, Bool.false_or]
          rfl

theorem createAs_golden {v : Variant} (hv : v.isGolden = true) : createAs ext fuel v t = some c ↔
    ∃ genesis height golden, t.genesisHash = some genesis ∧ t.blockHeight = some height ∧
      goldenBytes ext fuel genesis height = some golden ∧
      c = ⟨Hash.new ext (preimage ext v t golden), Hash.new ext (problemBytes ext v t)⟩ := by
  rw [createAs_eq, stream, if_pos hv]
  simp only [Option.map_eq_some_iff, Option.bind_eq_some_iff]
  constructor
  · rintro ⟨golden, ⟨genesis, hgenesis, height, hheight, hgolden⟩, rfl⟩
    exact ⟨genesis, height, golden, hgenesis, hheight, hgolden, rfl⟩
  · rintro ⟨genesis, height, golden, hgenesis, hheight, hgolden, rfl⟩
    exact ⟨golden, ⟨genesis, hgenesis, height, hheight, hgolden⟩, rfl⟩

theorem verifiesGolden_iff : verifiesGolden ext fuel t c = some true ↔ ∃ v, createAs ext fuel v t = some c := by
  by_cases hstandard : verifies ext t c = true
  · obtain ⟨v, -, hcreate⟩ : ∃ v, v.isGolden = false ∧ createAs ext fuel v t = some c :=
      verifies_iff.mp hstandard
    exact iff_of_true (verifiesGolden_of_verifies hstandard) ⟨v, hcreate⟩
  · rw [verifiesGolden_eq hstandard]
    constructor
    · intro haccepted
      cases hgenesis : t.genesisHash with
      | none => simp only [hgenesis, Option.some.injEq, Bool.false_eq_true] at haccepted
      | some genesis =>
        cases hheight : t.blockHeight with
        | none => simp only [hgenesis, hheight, Option.some.injEq, Bool.false_eq_true] at haccepted
        | some height =>
          simp only [hgenesis, hheight, Option.map_eq_some_iff, Bool.or_eq_true, decide_eq_true_eq] at haccepted
          obtain ⟨golden, hgolden, hbincode | hjson⟩ := haccepted
          · exact ⟨.goldenBincode, (createAs_golden rfl).mpr
              ⟨genesis, height, golden, hgenesis, hheight, hgolden, hbincode⟩⟩
          · exact ⟨.goldenJson, (createAs_golden rfl).mpr
              ⟨genesis, height, golden, hgenesis, hheight, hgolden, hjson⟩⟩
    · rintro ⟨v, hcreate⟩
      cases hgolden : v.isGolden with
      | false => exact absurd (verifies_iff.mpr ⟨v, hgolden, hcreate⟩) hstandard
      | true =>
        obtain ⟨genesis, height, golden, hgenesis, hheight, hbytes, hc⟩ := (createAs_golden hgolden).mp hcreate
        simp only [hgenesis, hheight, hbytes, Option.map_some, Option.some.injEq, Bool.or_eq_true,
          decide_eq_true_eq]
        cases v with
        | bincode => cases hgolden
        | json => cases hgolden
        | goldenBincode => exact .inl hc
        | goldenJson => exact .inr hc

end Verifiers

/-- One of the verifiers accepts the commitment with this opening. -/
def Accepted (ext : Ext) (fuel : ℕ) (t : Opening) (c : Commitment) : Prop :=
  verifies ext t c = true ∨ verifiesGolden ext fuel t c = some true

theorem Accepted.exists_variant {ext : Ext} {fuel : ℕ} {t : Opening} {c : Commitment}
    (h : Accepted ext fuel t c) : ∃ v, createAs ext fuel v t = some c :=
  h.elim (fun hstandard => verifiesGolden_iff.mp (verifiesGolden_of_verifies hstandard)) verifiesGolden_iff.mp

/-- `verify` accepts the two standard commitments, `verify_with_golden` all four. No commitment is of two kinds,
and none is accepted with two problems, solutions or salts. -/
theorem commitment_binding {ext : Ext} (hcodes : JsonCodes ext) :
    (∀ fuel t c, verifies ext t c = true ↔ ∃ v, v.isGolden = false ∧ createAs ext fuel v t = some c) ∧
      (∀ fuel t c, verifiesGolden ext fuel t c = some true ↔ ∃ v, createAs ext fuel v t = some c) ∧
      ∀ fuel fuel' t t' c, CollisionFree ext fuel fuel' t t' →
        (∀ v w, createAs ext fuel v t = some c → createAs ext fuel' w t' = some c → v = w) ∧
          (Accepted ext fuel t c → Accepted ext fuel' t' c →
            t.problem = t'.problem ∧ t.solution = t'.solution ∧ t.epochSalt = t'.epochSalt) := by
  refine ⟨fun fuel t c => verifies_iff, fun fuel t c => verifiesGolden_iff,
    fun fuel fuel' t t' c hfree => ⟨fun v w hv hw => (opens_one_way hcodes hfree hv hw).1, fun ht ht' => ?_⟩⟩
  obtain ⟨v, hv⟩ := ht.exists_variant
  obtain ⟨w, hw⟩ := ht'.exists_variant
  exact (opens_one_way hcodes hfree hv hw).2

/-! ### A problem of one number -/

namespace Sample

def problem : ProblemType := .SubsetSum [1] 1

def solution : Solution := .SubsetSum [0]

def noIndices : Solution := .SubsetSum []

/-- Thirty-two bytes of 5a. -/
def salt : Hash := ⟨0x5a5a5a5a5a5a5a5a5a5a5a5a5a5a5a5a5a5a5a5a5a5a5a5a5a5a5a5a5a5a5a5a⟩

def opening (genesisHash : Option Hash) : Opening :=
  ⟨problem, solution, salt, genesisHash, some 7, ⟨by decide, fun _ _ => trivial⟩, ⟨by decide, fun _ _ => trivial⟩⟩

def otherOpening : Opening :=
  ⟨problem, noIndices, salt, none, none, ⟨by decide, fun _ _ => trivial⟩, ⟨by decide, fun _ _ => trivial⟩⟩

/-- The text of the values that are listed, after the brace; the others are written as bincode there. -/
def jsonOf {α : Type} [DecidableEq α] [Encode α] (texts : List (α × String)) (x : α) : Bytes :=
  0x7B :: ((texts.lookup x).map fun text => text.toUTF8.toList).getD (encode x)

def problemTexts : List (ProblemType × String) :=
  [(problem, "\"SubsetSum\":\x7b\"numbers\":[1],\"target\":1\x7d\x7d")]

def solutionTexts : List (Solution × String) :=
  [(solution, "\"SubsetSum\":[0]\x7d"), (noIndices, "\"SubsetSum\":[]\x7d")]

/-- Texts go on with a quote, bincode with the index of a variant. -/
theorem jsonOf_inj {α : Type} [DecidableEq α] [Encode α] [PrefixCode α] {texts : List (α × String)}
    (hquote : ∀ entry ∈ texts, entry.2.toUTF8.toList.head? = some 0x22)
    (hdistinct : ∀ entry ∈ texts, ∀ other ∈ texts,
      entry.2.toUTF8.toList = other.2.toUTF8.toList → entry.1 = other.1)
    (hvariant : ∀ x : α, ∃ b : UInt8, b < 4 ∧ (encode x).head? = some b) {x y : α} (hx : Fits x) (hy : Fits y)
    (h : jsonOf texts x = jsonOf texts y) : x = y := by
  have hapart : ∀ entry ∈ texts, ∀ z : α, entry.2.toUTF8.toList ≠ encode z := by
    intro entry hentry z heq
    obtain ⟨b, hb, hhead⟩ := hvariant z
    rw [← heq, hquote entry hentry] at hhead
    rw [← Option.some.inj hhead] at hb
    exact absurd hb (by decide)
  have hrest := (List.cons.inj h).2
  cases hlookup : texts.lookup x with
  | none =>
    cases hlookup' : texts.lookup y with
    | none =>
      rw [hlookup, hlookup'] at hrest
      exact encode_inj hx hy hrest
    | some text =>
      rw [hlookup, hlookup'] at hrest
      exact absurd hrest.symm (hapart _ (mem_of_lookup hlookup') x)
  | some text =>
    cases hlookup' : texts.lookup y with
    | none =>
      rw [hlookup, hlookup'] at hrest
      exact absurd hrest (hapart _ (mem_of_lookup hlookup) y)
    | some text' =>
      rw [hlookup, hlookup'] at hrest
      exact hdistinct _ (mem_of_lookup hlookup) _ (mem_of_lookup hlookup') hrest

def ext : Ext :=
  { Ext.ofTables
    [(encode problem, 0x6b274ae156511318e0a2e3aefd738b06559949b1b53cfb10a050ee125c37644d),
      (jsonOf problemTexts problem, 0x24b338141b06787ff43d383978b9f8ddc8ff19cf6a052a187187fff202a36143),
      (encode solution, 0xe0ff1c2bce1210c02be06dc88e72ce1c11d4c30f6c590a2e066ab443d0553913),
      (jsonOf solutionTexts solution, 0x083927b8fb3792c8fa63ace2bdc53bb9e8f93b7a2bef652cbb43cecc84e51244),
      (encode noIndices, 0x7e3eff9ef7613a50340eb12677ee03b83ac759fcba9bb32705f07248d56d473b),
      (jsonOf solutionTexts noIndices, 0x273b77afa2a6cf2cfe4fe778020c6f7de98a9c16c04a18e2a59d1e69f0f89aed),
      (beBytes 32 0x6b274ae156511318e0a2e3aefd738b06559949b1b53cfb10a050ee125c37644d ++ salt.asBytes ++
        beBytes 32 0xe0ff1c2bce1210c02be06dc88e72ce1c11d4c30f6c590a2e066ab443d0553913,
        0x50591a84be81d6c60bcea32c0aa1cab7932f1a4c7806548649a626edc4c2494a),
      (beBytes 32 0x24b338141b06787ff43d383978b9f8ddc8ff19cf6a052a187187fff202a36143 ++ salt.asBytes ++
        beBytes 32 0x083927b8fb3792c8fa63ace2bdc53bb9e8f93b7a2bef652cbb43cecc84e51244,
        0x306dbff055be1d484bfe127d5c3050629d6ccb70b291710287e0ffb8b170ac0f),
      (beBytes 32 0x6b274ae156511318e0a2e3aefd738b06559949b1b53cfb10a050ee125c37644d ++ salt.asBytes ++
        beBytes 32 0x7e3eff9ef7613a50340eb12677ee03b83ac759fcba9bb32705f07248d56d473b,
        0x8ba5ac09b66e697548b27822cfa7f768dcbde182dff17d5315a8920a6ce68dd5),
      (beBytes 32 0x24b338141b06787ff43d383978b9f8ddc8ff19cf6a052a187187fff202a36143 ++ salt.asBytes ++
        beBytes 32 0x273b77afa2a6cf2cfe4fe778020c6f7de98a9c16c04a18e2a59d1e69f0f89aed,
        0x326ee02ffdf49326c664dc87de1049104a2e55a657c95957ecd15779b4b457c2)] [] with
    problemJson := jsonOf problemTexts
    solutionJson := jsonOf solutionTexts }

theorem jsonCodes : JsonCodes ext where
  problem_injective _ _ := jsonOf_inj (by decide +kernel) (by decide +kernel) exists_head_problem
  solution_injective _ _ := jsonOf_inj (by decide +kernel) (by decide +kernel) exists_head_solution
  problem_object _ := rfl

end Sample

/-- No other solution is accepted for the commitment to this one. -/
theorem commitment_binding_one_number :
    (∃ c, Accepted Sample.ext 0 (Sample.opening none) c) ∧
      ¬ ∃ c, Accepted Sample.ext 0 (Sample.opening none) c ∧ Accepted Sample.ext 0 Sample.otherOpening c := by
  refine ⟨⟨Commitment.create Sample.ext Sample.problem Sample.solution Sample.salt, .inl (by decide +kernel)⟩,
    fun hboth => ?_⟩
  obtain ⟨c, haccepted, hother⟩ := hboth
  obtain ⟨-, -, hbinding⟩ := commitment_binding Sample.jsonCodes
  have hsame := (hbinding 0 0 (Sample.opening none) Sample.otherOpening c (by decide +kernel)).2 haccepted hother
  exact absurd hsame.2.1 (by decide)

/-- `verify` also accepts what `create_from_json` makes, and `verify_with_golden` what either of the two makes. -/
theorem other_variants_accepted :
    Commitment.create Sample.ext Sample.problem Sample.solution Sample.salt ≠
        Commitment.createFromJson Sample.ext Sample.problem Sample.solution Sample.salt ∧
      verifies Sample.ext (Sample.opening (some Sample.salt))
        (Commitment.createFromJson Sample.ext Sample.problem Sample.solution Sample.salt) = true ∧
      verifiesGolden Sample.ext 0 (Sample.opening (some Sample.salt))
        (Commitment.create Sample.ext Sample.problem Sample.solution Sample.salt) = some true ∧
      ¬ ∀ t c, verifies Sample.ext t c = true ↔ createAs Sample.ext 0 .bincode t = some c := by
  have hdiffer : Commitment.create Sample.ext Sample.problem Sample.solution Sample.salt ≠
      Commitment.createFromJson Sample.ext Sample.problem Sample.solution Sample.salt := by decide +kernel
  have hjson : verifies Sample.ext (Sample.opening (some Sample.salt))
      (Commitment.createFromJson Sample.ext Sample.problem Sample.solution Sample.salt) = true := by decide +kernel
  refine ⟨hdiffer, hjson, by decide +kernel, fun hexact => ?_⟩
  have hbincode := (hexact (Sample.opening (some Sample.salt)) _).mp hjson
  rw [createAs] at hbincode
  exact hdiffer (Option.some.inj hbincode)

end Coinjecture.Core.Commitments
