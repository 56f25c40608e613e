import Coinjecture.Lib.Trace
import Coinjecture.Node.LightSoundness

/-! # The header store of a light client

A header whose parent is stored is stored under its hash and under its height, and is the best one if it is
higher; the tip of an accepted FlyClient proof is the best header from then on. The synchronisation progress
and pruning are left out. Nothing compares a header's height with its parent's, the index is overwritten by
whatever is stored last, and the tip of a proof is not stored.

* `header_store_consistent` : while every header that is stored extends the best one, and every proof that is
  accepted has the best one for its tip, the stored headers, the index and the best path agree. -/

namespace Coinjecture.Node.LightClient

open Lib.Trace
open Core.Types Core.Blocks Core.Extern Core.Crypto
open Node.LightSync Node.LightProofs Node.LightSoundness

inductive LightSyncMode where
  | FullHeaders
  | FlyClient
  | Hybrid
  deriving DecidableEq

inductive LightClientError where
  | MissingParent (hash : Hash)
  deriving DecidableEq

structure LightClientState where
  headersByHash : Hash → Option BlockHeader
  headersByHeight : ℕ → Option Hash
  bestHeader : Option BlockHeader
  genesisHash : Hash
  headersSynced : ℕ
  flyclientVerifier : Option LightClientVerifier
  verifiedMmrRoot : Option Hash

namespace LightClientState

variable (ext : Ext)

def withMode (genesisHash : Hash) (genesisHeader : BlockHeader) (syncMode : LightSyncMode) :
    LightClientState where
  headersByHash := Function.update (fun _ => none) genesisHash (some genesisHeader)
  headersByHeight := Function.update (fun _ => none) 0 (some genesisHash)
  bestHeader := some genesisHeader
  genesisHash := genesisHash
  headersSynced := 1
  flyclientVerifier := if syncMode = .FullHeaders then none else some (.new genesisHash)
  verifiedMmrRoot := none

/-- Its parent is not stored. -/
def isOrphan (header : BlockHeader) (c : LightClientState) : Bool :=
  decide (0 < header.height) && (c.headersByHash header.prevHash).isNone

/-- What is stored for a header. -/
def insert (header : BlockHeader) (c : LightClientState) : LightClientState :=
  let hash := BlockHeader.hash ext header
  { c with
    headersByHash := Function.update c.headersByHash hash (some header)
    headersByHeight := Function.update c.headersByHeight header.height.toNat (some hash)
    bestHeader := if c.bestHeader.all fun b => b.height < header.height then some header else c.bestHeader
    headersSynced := c.headersSynced + 1 }

def storeHeader (header : BlockHeader) (c : LightClientState) : Except LightClientError Bool × LightClientState :=
  if c.isOrphan header then (.error (.MissingParent header.prevHash), c)
  else if (c.headersByHash (BlockHeader.hash ext header)).isSome then (.ok false, c)
  else (.ok true, c.insert ext header)

/-- A batch is stored up to the first error. -/
def storeHeaders : List BlockHeader → LightClientState → Except LightClientError ℕ × LightClientState
  | [], c => (.ok 0, c)
  | header :: headers, c =>
    match c.storeHeader ext header with
    | (.error e, c) => (.error e, c)
    | (.ok new, c) =>
      let (stored, c) := storeHeaders headers c
      (stored.map fun n => n + if new then 1 else 0, c)

def verifyFlyclientProof (proof : FlyClientProof) (c : LightClientState) :
    Except FlyClientError VerificationResult × LightClientState :=
  match c.flyclientVerifier with
  | none => (.error (.VerificationFailed "FlyClient not enabled"), c)
  | some verifier =>
    match verifier.verifyAndUpdate ext proof with
    | .error e => (.error e, c)
    | .ok (result, verifier) =>
      let c := { c with flyclientVerifier := some verifier }
      (.ok result, if result.valid then
        { c with verifiedMmrRoot := some proof.mmrRoot, bestHeader := some proof.tipHeader } else c)

end LightClientState

/-! ### Runs -/

inductive Event where
  | storeHeader (header : BlockHeader)
  | storeHeaders (headers : List BlockHeader)
  | verifyFlyclientProof (proof : FlyClientProof)

variable (ext : Ext)

def machine : Machine Event LightClientState where
  next
    | .storeHeader header, c => (c.storeHeader ext header).2
    | .storeHeaders headers, c => (c.storeHeaders ext headers).2
    | .verifyFlyclientProof proof, c => (c.verifyFlyclientProof ext proof).2
  halts _ _ := false

namespace LightClientState

/-- The headers from the genesis header to this one, following the parents for so many steps. -/
def pathTo (c : LightClientState) : ℕ → BlockHeader → List BlockHeader
  | 0, header => [header]
  | n + 1, header =>
    if BlockHeader.hash ext header = c.genesisHash then [header]
    else match c.headersByHash header.prevHash with
      | none => [header]
      | some parent => pathTo c n parent ++ [header]

def bestPath (c : LightClientState) : List BlockHeader :=
  c.bestHeader.elim [] fun best => c.pathTo ext best.height.toNat best

def totalWork (work : BlockHeader → ℕ) (c : LightClientState) : ℕ := ((c.bestPath ext).map work).sum

end LightClientState

/-- Stored headers have stored parents one below them, and the index has the path from the genesis header to
the best one. -/
structure Consistent (c : LightClientState) : Prop where
  parents : ∀ hash header, c.headersByHash hash = some header → hash ≠ c.genesisHash →
    ∃ parent, c.headersByHash header.prevHash = some parent ∧ header.height.toNat = parent.height.toNat + 1
  genesis : (c.bestPath ext).head?.map (BlockHeader.hash ext) = some c.genesisHash
  best : ∃ best, c.bestHeader = some best ∧ (c.bestPath ext).length = best.height.toNat + 1
  index : ∀ i header, (c.bestPath ext)[i]? = some header →
    header.height.toNat = i ∧ c.headersByHeight i = some (BlockHeader.hash ext header)

namespace LightClientState

/-- The header's parent is the best header, one below it. -/
def isNext (header : BlockHeader) (c : LightClientState) : Bool :=
  c.bestHeader.any fun best =>
    decide (header.prevHash = BlockHeader.hash ext best ∧ header.height.toNat = best.height.toNat + 1)

/-- A header that is neither refused nor stored already is next. -/
def extendsBest (header : BlockHeader) (c : LightClientState) : Bool :=
  c.isOrphan header || (c.headersByHash (BlockHeader.hash ext header)).isSome || c.isNext ext header

/-- So is every header of a batch, up to the first one that is refused. -/
def batchExtends : List BlockHeader → LightClientState → Bool
  | [], _ => true
  | header :: headers, c =>
    c.isOrphan header || (c.extendsBest ext header && batchExtends headers (c.storeHeader ext header).2)

end LightClientState

/-- The condition: stored headers extend the best one, which is the tip of every accepted proof. -/
def respected : Event × LightClientState → Bool
  | (.storeHeader header, c) => c.extendsBest ext header
  | (.storeHeaders headers, c) => c.batchExtends ext headers
  | (.verifyFlyclientProof proof, c) =>
    c.flyclientVerifier.all fun verifier => !verifier.accepts ext proof || c.bestHeader = some proof.tipHeader

/-! ### The invariant -/

/-- With a consistent store, headers are stored under their hashes, the genesis header and the best one among
them. -/
structure Inv (c : LightClientState) : Prop extends Consistent ext c where
  keys : ∀ hash header, c.headersByHash hash = some header → BlockHeader.hash ext header = hash
  stored : ∀ best ∈ c.bestHeader, c.headersByHash (BlockHeader.hash ext best) = some best
  root : c.headersByHash c.genesisHash ≠ none

variable {ext}

theorem inv_withMode {genesis : BlockHeader} (hzero : genesis.height = 0) (mode : LightSyncMode) :
    Inv ext (.withMode (BlockHeader.hash ext genesis) genesis mode) := by
  have hbest : (LightClientState.withMode (BlockHeader.hash ext genesis) genesis mode).bestPath ext =
      [genesis] := by
    have hheight : genesis.height.toNat = 0 := congrArg UInt64.toNat hzero
    rw [LightClientState.bestPath, LightClientState.withMode, Option.elim_some, hheight]
    rfl
  have hself : (LightClientState.withMode (BlockHeader.hash ext genesis) genesis mode).headersByHash
      (BlockHeader.hash ext genesis) = some genesis := by
    simp [LightClientState.withMode]
  have honly : ∀ hash header, (LightClientState.withMode (BlockHeader.hash ext genesis) genesis mode).headersByHash
      hash = some header → hash = BlockHeader.hash ext genesis ∧ header = genesis := by
    intro hash header hstored
    by_cases heq : hash = BlockHeader.hash ext genesis
    · subst heq
      exact ⟨rfl, (Option.some.inj (hself.symm.trans hstored)).symm⟩
    · simp [LightClientState.withMode, Function.update_of_ne heq] at hstored
  refine ⟨⟨fun hash header hstored hne => ?_, ?_, ⟨genesis, rfl, ?_⟩, fun i header hi => ?_⟩, ?_, ?_, ?_⟩
  · exact absurd (honly hash header hstored).1 hne
  · rw [hbest]
    rfl
  · rw [hbest, hzero]
    rfl
  · rw [hbest] at hi
    cases i with
    | zero =>
      obtain rfl := Option.some.inj hi
      exact ⟨congrArg UInt64.toNat hzero, by simp [LightClientState.withMode]⟩
    | succ i => cases hi
  · intro hash header hstored
    obtain ⟨rfl, rfl⟩ := honly hash header hstored
    rfl
  · rintro best hbest
    obtain rfl := Option.some.inj hbest
    exact hself
  · intro hnone
    exact absurd (hself.symm.trans hnone) nofun

namespace Inv

variable {c : LightClientState} (h : Inv ext c)

include h

/-- A new header does not change the path to a stored one. -/
theorem pathTo_insert {header : BlockHeader} (hnew : c.headersByHash (BlockHeader.hash ext header) = none)
    (n : ℕ) {b : BlockHeader} (hb : c.headersByHash (BlockHeader.hash ext b) = some b) :
    (c.insert ext header).pathTo ext n b = c.pathTo ext n b := by
  induction n generalizing b with
  | zero => rfl
  | succ n ih =>
    have hgenesis : (c.insert ext header).genesisHash = c.genesisHash := rfl
    rw [LightClientState.pathTo, LightClientState.pathTo, hgenesis]
    by_cases hroot : BlockHeader.hash ext b = c.genesisHash
    · rw [if_pos hroot, if_pos hroot]
    · obtain ⟨parent, hparent, -⟩ := h.parents _ b hb hroot
      have hne : b.prevHash ≠ BlockHeader.hash ext header := by
        intro heq
        rw [heq, hnew] at hparent
        cases hparent
      have hsame : (c.insert ext header).headersByHash b.prevHash = some parent :=
        (Function.update_of_ne hne ..).trans hparent
      have hstored : c.headersByHash (BlockHeader.hash ext parent) = some parent := by
        rw [h.keys _ _ hparent]
        exact hparent
      rw [if_neg hroot, if_neg hroot, hsame, hparent]
      exact congrArg (· ++ [b]) (ih hstored)

/-- The next header comes to the end of the best path. -/
theorem bestPath_insert {header : BlockHeader} (hnew : c.headersByHash (BlockHeader.hash ext header) = none)
    {best : BlockHeader} (hbest : c.bestHeader = some best) (hprev : header.prevHash = BlockHeader.hash ext best)
    (hheight : header.height.toNat = best.height.toNat + 1) :
    (c.insert ext header).bestHeader = some header ∧
      (c.insert ext header).bestPath ext = c.bestPath ext ++ [header] := by
  have hstored := h.stored best hbest
  have hlt : best.height < header.height := by
    rw [UInt64.lt_iff_toNat_lt]
    omega
  have hhighest : (c.insert ext header).bestHeader = some header := by
    rw [LightClientState.insert, hbest]
    exact if_pos (decide_eq_true hlt)
  refine ⟨hhighest, ?_⟩
  have hroot : BlockHeader.hash ext header ≠ (c.insert ext header).genesisHash := by
    intro heq
    have hgenesis : c.headersByHash c.genesisHash = none := heq ▸ hnew
    exact h.root hgenesis
  have hne : header.prevHash ≠ BlockHeader.hash ext header := by
    intro heq
    rw [← heq, hprev, hstored] at hnew
    cases hnew
  have hparent : (c.insert ext header).headersByHash header.prevHash = some best := by
    refine (Function.update_of_ne hne ..).trans ?_
    rw [hprev]
    exact hstored
  rw [LightClientState.bestPath, LightClientState.bestPath, hhighest, hbest, Option.elim_some, Option.elim_some,
    hheight, LightClientState.pathTo, if_neg hroot, hparent]
  exact congrArg (· ++ [header]) (h.pathTo_insert hnew _ hstored)

theorem insert {header : BlockHeader} (hnew : c.headersByHash (BlockHeader.hash ext header) = none)
    (hnext : c.isNext ext header = true) :
    Inv ext (c.insert ext header) ∧
      (c.insert ext header).bestPath ext = c.bestPath ext ++ [header] := by
  obtain ⟨best, hbest, hextends⟩ := (Option.any_eq_true ..).mp hnext
  obtain ⟨hprev, hheight⟩ := of_decide_eq_true hextends
  obtain ⟨hhighest, hpath⟩ := h.bestPath_insert hnew hbest hprev hheight
  obtain ⟨best', hbest', hlength⟩ := h.best
  obtain rfl : best = best' := Option.some.inj (hbest.symm.trans hbest')
  have hold : ∀ hash b, c.headersByHash hash = some b → (c.insert ext header).headersByHash hash = some b := by
    intro hash b hb
    have hne : hash ≠ BlockHeader.hash ext header := by
      rintro rfl
      rw [hnew] at hb
      cases hb
    exact (Function.update_of_ne hne ..).trans hb
  have hself : (c.insert ext header).headersByHash (BlockHeader.hash ext header) = some header :=
    Function.update_self ..
  have hcases : ∀ hash b, (c.insert ext header).headersByHash hash = some b →
      (hash = BlockHeader.hash ext header ∧ b = header) ∨ c.headersByHash hash = some b := by
    intro hash b hb
    by_cases heq : hash = BlockHeader.hash ext header
    · subst heq
      exact .inl ⟨rfl, (Option.some.inj (hself.symm.trans hb)).symm⟩
    · exact .inr ((Function.update_of_ne heq ..).symm.trans hb)
  refine ⟨⟨⟨fun hash b hb hne => ?_, ?_, ⟨header, hhighest, ?_⟩, fun i b hi => ?_⟩, fun hash b hb => ?_, ?_, ?_⟩,
    hpath⟩
  · rcases hcases hash b hb with ⟨rfl, rfl⟩ | hb
    · refine ⟨best, hold _ _ ?_, hheight⟩
      rw [hprev]
      exact h.stored best hbest
    · obtain ⟨parent, hparent, hone⟩ := h.parents hash b hb hne
      exact ⟨parent, hold _ _ hparent, hone⟩
  · rw [hpath, List.head?_append_of_ne_nil]
    · exact h.genesis
    · intro hnil
      rw [hnil] at hlength
      cases hlength
  · rw [hpath, List.length_append, hlength, hheight]
    rfl
  · rw [hpath] at hi
    rcases lt_or_ge i (c.bestPath ext).length with hlt | hge
    · rw [List.getElem?_append_left hlt] at hi
      obtain ⟨hi', hindex⟩ := h.index i b hi
      refine ⟨hi', (Function.update_of_ne ?_ ..).trans hindex⟩
      omega
    · rw [List.getElem?_append_right hge] at hi
      obtain ⟨hzero, rfl⟩ : i - (c.bestPath ext).length = 0 ∧ header = b := by
        cases hsub : i - (c.bestPath ext).length with
        | zero =>
          rw [hsub] at hi
          exact ⟨rfl, Option.some.inj hi⟩
        | succ j =>
          rw [hsub] at hi
          cases hi
      have hi' : header.height.toNat = i := by omega
      refine ⟨hi', ?_⟩
      rw [← hi']
      exact Function.update_self ..
  · rcases hcases hash b hb with ⟨rfl, rfl⟩ | hb
    · rfl
    · exact h.keys hash b hb
  · rintro b hb
    obtain rfl := Option.some.inj (hhighest.symm.trans hb)
    exact hself
  · obtain ⟨b, hb⟩ := Option.ne_none_iff_exists'.mp h.root
    intro hnone
    exact absurd ((hold c.genesisHash b hb).symm.trans hnone) nofun

/-- The verifier and the root that it has verified are not looked at. -/
theorem withVerified (verifier : Option LightClientVerifier) (root : Option Hash) :
    Inv ext { c with flyclientVerifier := verifier, verifiedMmrRoot := root } ∧
      LightClientState.bestPath ext { c with flyclientVerifier := verifier, verifiedMmrRoot := root } =
        c.bestPath ext := by
  have hpathTo : ∀ n b, LightClientState.pathTo ext { c with
      flyclientVerifier := verifier, verifiedMmrRoot := root } n b = c.pathTo ext n b := by
    intro n
    induction n with
    | zero => exact fun b => rfl
    | succ n ih =>
      intro b
      simp only [LightClientState.pathTo, ih]
  have hpath : LightClientState.bestPath ext { c with
      flyclientVerifier := verifier, verifiedMmrRoot := root } = c.bestPath ext := by
    simp only [LightClientState.bestPath, hpathTo]
  refine ⟨⟨⟨h.parents, ?_, ?_, ?_⟩, h.keys, h.stored, h.root⟩, hpath⟩
  · rw [hpath]
    exact h.genesis
  · rw [hpath]
    exact h.best
  · rw [hpath]
    exact h.index

end Inv

/-- The store stays consistent, and headers only come to the end of the best path. -/
def Grows (ext : Ext) (c c' : LightClientState) : Prop :=
  Inv ext c' ∧ c.bestPath ext <+: c'.bestPath ext

theorem grows_storeHeader {c : LightClientState} (h : Inv ext c) {header : BlockHeader}
    (hcond : c.extendsBest ext header = true) : Grows ext c (c.storeHeader ext header).2 := by
  unfold LightClientState.storeHeader
  by_cases horphan : c.isOrphan header = true
  · rw [if_pos horphan]
    exact ⟨h, List.prefix_rfl⟩
  · by_cases hknown : (c.headersByHash (BlockHeader.hash ext header)).isSome = true
    · rw [if_neg horphan, if_pos hknown]
      exact ⟨h, List.prefix_rfl⟩
    · rw [if_neg horphan, if_neg hknown]
      rw [LightClientState.extendsBest, Bool.or_eq_true, Bool.or_eq_true] at hcond
      have hnext := hcond.resolve_left (not_or_intro horphan hknown)
      obtain ⟨hinv, hpath⟩ := h.insert (by simpa using hknown) hnext
      refine ⟨hinv, ?_⟩
      rw [hpath]
      exact List.prefix_append _ _

theorem grows_storeHeaders {headers : List BlockHeader} {c : LightClientState} (h : Inv ext c)
    (hcond : c.batchExtends ext headers = true) : Grows ext c (c.storeHeaders ext headers).2 := by
  induction headers generalizing c with
  | nil => exact ⟨h, List.prefix_rfl⟩
  | cons header headers ih =>
    rw [LightClientState.batchExtends, Bool.or_eq_true, Bool.and_eq_true] at hcond
    by_cases horphan : c.isOrphan header = true
    · have hrefused : c.storeHeader ext header = (.error (.MissingParent header.prevHash), c) := if_pos horphan
      rw [LightClientState.storeHeaders, hrefused]
      exact ⟨h, List.prefix_rfl⟩
    · obtain ⟨hnext, hrest⟩ := hcond.resolve_left horphan
      have hgrows := grows_storeHeader h hnext
      have htail := ih hgrows.1 hrest
      obtain ⟨new, hstored⟩ : ∃ new, (c.storeHeader ext header).1 = .ok new := by
        unfold LightClientState.storeHeader
        rw [if_neg horphan]
        split_ifs
        · exact ⟨false, rfl⟩
        · exact ⟨true, rfl⟩
      have hboth : c.storeHeader ext header = (.ok new, (c.storeHeader ext header).2) := Prod.ext hstored rfl
      rw [LightClientState.storeHeaders, hboth]
      exact ⟨htail.1, hgrows.2.trans htail.2⟩

theorem grows_verifyFlyclientProof {c : LightClientState} (h : Inv ext c) {proof : FlyClientProof}
    (hcond : respected ext (.verifyFlyclientProof proof, c) = true) :
    Grows ext c (c.verifyFlyclientProof ext proof).2 := by
  unfold LightClientState.verifyFlyclientProof
  cases hverifier : c.flyclientVerifier with
  | none => exact ⟨h, List.prefix_rfl⟩
  | some verifier =>
    simp only
    cases hresult : verifier.verifyAndUpdate ext proof with
    | error e => exact ⟨h, List.prefix_rfl⟩
    | ok r =>
      obtain ⟨result, verifier'⟩ := r
      have haccepts : verifier.accepts ext proof = true := by
        rw [LightClientVerifier.accepts, hresult]
        rfl
      simp only [respected, hverifier, Option.all_some, haccepts, Bool.not_true, Bool.false_or,
        decide_eq_true_eq] at hcond
      simp only
      split_ifs
      · rw [← hcond]
        obtain ⟨hinv, hpath⟩ := h.withVerified (some verifier') (some proof.mmrRoot)
        refine ⟨hinv, ?_⟩
        rw [hpath]
      · obtain ⟨hinv, hpath⟩ := h.withVerified (some verifier') c.verifiedMmrRoot
        refine ⟨hinv, ?_⟩
        rw [hpath]

theorem grows_next {c : LightClientState} (h : Inv ext c) {e : Event} (hcond : respected ext (e, c) = true) :
    Grows ext c ((machine ext).next e c) := by
  cases e with
  | storeHeader header => exact grows_storeHeader h hcond
  | storeHeaders headers => exact grows_storeHeaders h hcond
  | verifyFlyclientProof proof => exact grows_verifyFlyclientProof h hcond

/-- What a run under the condition does from a consistent store. -/
theorem grows_final {es : List Event} {c : LightClientState} (h : Inv ext c)
    (hcond : ∀ p ∈ (machine ext).trace es c, respected ext p = true) :
    Grows ext c ((machine ext).final es c) := by
  induction es generalizing c with
  | nil => exact ⟨h, List.prefix_rfl⟩
  | cons e es ih =>
    rw [Machine.trace_cons rfl] at hcond
    rw [Machine.final_cons rfl]
    have hnext := grows_next h (hcond _ List.mem_cons_self)
    have hrest := ih hnext.1 fun p hp => hcond p (List.mem_cons_of_mem _ hp)
    exact ⟨hrest.1, hnext.2.trans hrest.2⟩

theorem not_halted (es : List Event) (c : LightClientState) : (machine ext).halted es c = false := by
  induction es generalizing c with
  | nil => rfl
  | cons e es ih =>
    rw [Machine.halted_cons rfl]
    exact ih _

/-- In every run under the condition, every state is consistent, and the total work of the best header is no
less at the end than in any state before it. -/
theorem header_store_consistent (ext : Ext) (mode : LightSyncMode) (genesis : BlockHeader)
    (hzero : genesis.height = 0) (es : List Event)
    (hcond : ∀ p ∈ (machine ext).trace es (.withMode (BlockHeader.hash ext genesis) genesis mode),
      respected ext p = true) (es₁ es₂ : List Event) (hes : es = es₁ ++ es₂) :
    let c := LightClientState.withMode (BlockHeader.hash ext genesis) genesis mode
    Consistent ext ((machine ext).final es₁ c) ∧ ∀ work : BlockHeader → ℕ,
      ((machine ext).final es₁ c).totalWork ext work ≤ ((machine ext).final es c).totalWork ext work := by
  intro c
  subst hes
  rw [Machine.trace_append, not_halted, if_neg Bool.false_ne_true] at hcond
  have hfirst := grows_final (inv_withMode hzero mode) fun p hp => hcond p (List.mem_append_left _ hp)
  have hlast := grows_final hfirst.1 fun p hp => hcond p (List.mem_append_right _ hp)
  refine ⟨hfirst.1.toConsistent, fun work => ?_⟩
  rw [Machine.final_append, not_halted, if_neg Bool.false_ne_true]
  exact (hlast.2.map work).sublist.sum_le_sum fun n _ => Nat.zero_le n

/-! ### Two headers and more -/

def start : LightClientState := .withMode (BlockHeader.hash forgerExt genesis) genesis .Hybrid

theorem header_store_consistent_block :
    Consistent forgerExt ((machine forgerExt).final [.storeHeaders [block]] start) ∧ ∀ work : BlockHeader → ℕ,
      ((machine forgerExt).final [.storeHeaders [block]] start).totalWork forgerExt work ≤
        ((machine forgerExt).final [.storeHeaders [block], .storeHeader block, .verifyFlyclientProof honestProof]
          start).totalWork forgerExt work :=
  header_store_consistent forgerExt .Hybrid genesis rfl
    [.storeHeaders [block], .storeHeader block, .verifyFlyclientProof honestProof] (by decide +kernel) _ _ rfl

/-- A header far above its parent; a second header for one height; the tip of a proof; and the tip of a proof
below the best header. -/
theorem stores_inconsistent :
    ¬ Consistent forgerExt ((machine forgerExt).final [.storeHeader block, .storeHeader far] start) ∧
    ¬ Consistent forgerExt ((machine forgerExt).final [.storeHeader block, .storeHeader forged] start) ∧
    ¬ Consistent forgerExt ((machine forgerExt).final [.verifyFlyclientProof honestProof] start) ∧
    ((machine forgerExt).final [.storeHeader block, .storeHeader far, .verifyFlyclientProof honestProof]
      start).totalWork forgerExt (fun _ => 1) <
        ((machine forgerExt).final [.storeHeader block, .storeHeader far] start).totalWork forgerExt
          fun _ => 1 := by
  refine ⟨fun h => ?_, fun h => ?_, fun h => ?_, by decide +kernel⟩
  · obtain ⟨parent, hparent, hheight⟩ := h.parents farHash far (by decide +kernel) (by decide +kernel)
    have hblock : ((machine forgerExt).final [.storeHeader block, .storeHeader far] start).headersByHash
        far.prevHash = some block := by
      decide +kernel
    obtain rfl := Option.some.inj (hblock.symm.trans hparent)
    exact absurd hheight (by decide)
  · obtain ⟨-, hindex⟩ := h.index 1 block (by decide +kernel)
    exact absurd hindex (by decide +kernel)
  · obtain ⟨-, hindex⟩ := h.index 1 block (by decide +kernel)
    exact absurd hindex (by decide +kernel)

end Coinjecture.Node.LightClient
