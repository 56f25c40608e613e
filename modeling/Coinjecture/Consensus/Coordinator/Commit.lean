import Coinjecture.Core.Extern
import Coinjecture.Lib.Selection

/-! # Commits and the winner

In the Commit phase every node announces the hash and the score of its solution. The collector keeps
the first commit of each sender that it admits; the winner is the commit of the highest score, and of
those the one with the smallest id. The collector is a hash map: `ValueOrder` is the order in which its
values come.

* `winner_agreed_iff` : collectors that receive the same commits in any orders agree exactly if no sender
  has two different admissible commits among them. -/

namespace Coinjecture.Consensus.Coordinator.Commit

open Lib.Bincode Lib.Float64 Lib.Selection
open Core.Types Core.Extern

/-- `NodeId`. -/
abbrev NodeId := Bytes32

/-- `COMMIT_MSG_DOMAIN`. -/
def COMMIT_MSG_DOMAIN : Bytes := "COINJECT_COMMIT_V1".toUTF8.toList

/-- `commit_signing_message`. -/
def commitSigningMessage (epoch : UInt64) (solutionHash : Hash) (workScore : F64) : Bytes :=
  COMMIT_MSG_DOMAIN ++ encode epoch ++ encode solutionHash ++ encode workScore

structure SolutionCommit where
  nodeId : NodeId
  /-- All zeros if the commit is unsigned. -/
  publicKey : PublicKey
  solutionHash : Hash
  workScore : F64
  /-- Empty if the commit is unsigned. -/
  signature : Bytes
  deriving DecidableEq

/-- `Signature::from_bytes`. -/
def signatureFromBytes (bytes : Bytes) : Ed25519Signature :=
  ⟨BitVec.ofNat 512 (bytes.foldl (fun acc b => 256 * acc + b.toNat) 0)⟩

/-- `verify_commit_signature`. With the feature `allow-unsigned-commits` a commit without a key or
without a signature passes, else it fails. -/
def verifyCommitSignature (ext : Ext) (allowUnsigned : Bool) (epoch : UInt64) (commit : SolutionCommit) :
    Bool :=
  if commit.publicKey = ⟨0⟩ ∨ commit.signature = [] then allowUnsigned
  else commit.signature.length = 64 && ext.ed25519Verify commit.publicKey
    (commitSigningMessage epoch commit.solutionHash commit.workScore)
    (signatureFromBytes commit.signature)

/-- What `add_commit` checks of the commit alone. -/
def admissible (ext : Ext) (allowUnsigned : Bool) (epoch : UInt64) (commit : SolutionCommit) : Bool :=
  commit.workScore.isFinite && !commit.workScore.le F64.zero &&
    verifyCommitSignature ext allowUnsigned epoch commit

/-- The commits are the values of the map. -/
structure CommitCollector where
  epoch : UInt64
  commits : List SolutionCommit
  deriving DecidableEq

/-- The order in which the values of a hash map come. -/
structure ValueOrder where
  order : List SolutionCommit → List SolutionCommit
  perm (values : List SolutionCommit) : (order values).Perm values

def ValueOrder.id : ValueOrder := ⟨fun l => l, fun l => List.Perm.refl l⟩

/-- `WorkScore::partial_cmp`. -/
def partialCmp (x y : F64) : Option Ordering :=
  if x.isNaN || y.isNaN then none else some (compare x.key y.key)

/-- The comparison of `select_winner`; ids are compared the other way round. -/
def compareCommits (a b : SolutionCommit) : Ordering :=
  ((partialCmp a.workScore b.workScore).getD .eq).then (compare b.nodeId.toNat a.nodeId.toNat)

namespace CommitCollector

def new (epoch : UInt64) : CommitCollector := ⟨epoch, []⟩

variable (ext : Ext) (allowUnsigned : Bool)

/-- `add_commit` returns true. -/
def accepts (commit : SolutionCommit) (s : CommitCollector) : Bool :=
  admissible ext allowUnsigned s.epoch commit && s.commits.all fun c => c.nodeId ≠ commit.nodeId

/-- `add_commit`. -/
def addCommit (commit : SolutionCommit) (s : CommitCollector) : CommitCollector :=
  if s.accepts ext allowUnsigned commit then { s with commits := commit :: s.commits } else s

def commitCount (s : CommitCollector) : ℕ := s.commits.length

/-- `(peer_count as f64 * threshold).ceil() as usize`. -/
def required (peerCount : ℕ) (threshold : F64) : ℕ :=
  (((F64.ofNat peerCount).mul threshold).ceil.toUnsigned 64).toNat

def hasQuorum (peerCount : ℕ) (threshold : F64) (s : CommitCollector) : Bool :=
  if peerCount = 0 then false else required peerCount threshold ≤ s.commits.length

variable (values : ValueOrder)

def selectWinner (s : CommitCollector) : Option SolutionCommit :=
  maxBy compareCommits (values.order s.commits)

/-- Best first. -/
def ranked (s : CommitCollector) : List SolutionCommit :=
  sortBy (fun a b => compareCommits b a) (values.order s.commits)

/-- The winner of the sealed epoch, for this many peers and this threshold: there is one only with a
quorum. -/
def sealedWinner (peerCount : ℕ) (threshold : F64) (s : CommitCollector) : Option SolutionCommit :=
  if s.hasQuorum peerCount threshold then s.selectWinner values else none

end CommitCollector

open CommitCollector

/-! ### What a collector holds -/

section Collected

variable (ext : Ext) (allowUnsigned : Bool) (epoch : UInt64)

/-- A collector of the epoch that has received these commits in order. -/
def collect (received : List SolutionCommit) : CommitCollector :=
  received.foldl (fun s c => s.addCommit ext allowUnsigned c) (.new epoch)

/-- One commit a sender, all of them admitted. -/
structure WellFormed (s : CommitCollector) : Prop where
  senders : s.commits.Pairwise fun a b => a.nodeId ≠ b.nodeId
  admitted : ∀ c ∈ s.commits, admissible ext allowUnsigned s.epoch c = true

variable {ext allowUnsigned epoch}

@[simp] theorem epoch_addCommit (c : SolutionCommit) (s : CommitCollector) :
    (s.addCommit ext allowUnsigned c).epoch = s.epoch := by
  rw [addCommit]
  split_ifs <;> rfl

theorem accepts_iff {c : SolutionCommit} {s : CommitCollector} :
    s.accepts ext allowUnsigned c = true ↔ admissible ext allowUnsigned s.epoch c = true ∧
      ∀ a ∈ s.commits, a.nodeId ≠ c.nodeId := by
  simp [accepts]

theorem mem_addCommit {a c : SolutionCommit} {s : CommitCollector} :
    a ∈ (s.addCommit ext allowUnsigned c).commits ↔
      a ∈ s.commits ∨ a = c ∧ s.accepts ext allowUnsigned c = true := by
  rw [addCommit]
  split_ifs with haccepts
  · rw [List.mem_cons]
    tauto
  · tauto

theorem WellFormed.addCommit {s : CommitCollector} (h : WellFormed ext allowUnsigned s)
    (c : SolutionCommit) : WellFormed ext allowUnsigned (s.addCommit ext allowUnsigned c) := by
  rw [CommitCollector.addCommit]
  split_ifs with haccepts
  · obtain ⟨hadm, hnew⟩ := accepts_iff.mp haccepts
    refine ⟨List.pairwise_cons.mpr ⟨fun a ha => (hnew a ha).symm, h.senders⟩, fun a ha => ?_⟩
    rcases List.mem_cons.mp ha with rfl | ha
    · exact hadm
    · exact h.admitted a ha
  · exact h

theorem wellFormed_new : WellFormed ext allowUnsigned (.new epoch) :=
  ⟨List.Pairwise.nil, fun _ ha => absurd ha List.not_mem_nil⟩

theorem WellFormed.eq_of_nodeId {s : CommitCollector} (h : WellFormed ext allowUnsigned s)
    {a b : SolutionCommit} (ha : a ∈ s.commits) (hb : b ∈ s.commits) (heq : a.nodeId = b.nodeId) :
    a = b := by
  have hsymm : Std.Symm fun a b : SolutionCommit => a.nodeId ≠ b.nodeId := ⟨fun _ _ hne => hne.symm⟩
  by_contra hne
  exact h.senders.forall ha hb hne heq

theorem collect_append (received : List SolutionCommit) (c : SolutionCommit) :
    collect ext allowUnsigned epoch (received ++ [c]) =
      (collect ext allowUnsigned epoch received).addCommit ext allowUnsigned c := by
  rw [collect, collect, List.foldl_append, List.foldl_cons, List.foldl_nil]

theorem wellFormed_collect (received : List SolutionCommit) :
    WellFormed ext allowUnsigned (collect ext allowUnsigned epoch received) := by
  induction received using List.reverseRecOn with
  | nil => exact wellFormed_new
  | append_singleton received c ih =>
    rw [collect_append]
    exact ih.addCommit c

@[simp] theorem epoch_collect (received : List SolutionCommit) :
    (collect ext allowUnsigned epoch received).epoch = epoch := by
  induction received using List.reverseRecOn with
  | nil => rfl
  | append_singleton received c ih => rw [collect_append, epoch_addCommit, ih]

theorem mem_of_mem_collect {received : List SolutionCommit} {a : SolutionCommit}
    (h : a ∈ (collect ext allowUnsigned epoch received).commits) : a ∈ received := by
  induction received using List.reverseRecOn with
  | nil => exact absurd h List.not_mem_nil
  | append_singleton received c ih =>
    rw [collect_append, mem_addCommit] at h
    rcases h with h | ⟨rfl, -⟩
    · exact List.mem_append_left _ (ih h)
    · exact List.mem_append_right _ (List.mem_singleton_self a)

/-- Every sender with an admissible commit has one in the collector. -/
theorem exists_collected {received : List SolutionCommit} {a : SolutionCommit} (ha : a ∈ received)
    (hadm : admissible ext allowUnsigned epoch a = true) :
    ∃ b ∈ (collect ext allowUnsigned epoch received).commits, b.nodeId = a.nodeId := by
  induction received using List.reverseRecOn with
  | nil => exact absurd ha List.not_mem_nil
  | append_singleton received c ih =>
    rw [collect_append]
    rcases List.mem_append.mp ha with ha | ha
    · obtain ⟨b, hb, heq⟩ := ih ha
      exact ⟨b, mem_addCommit.mpr (.inl hb), heq⟩
    · rw [List.mem_singleton.mp ha] at hadm ⊢
      by_cases haccepts : (collect ext allowUnsigned epoch received).accepts ext allowUnsigned c = true
      · exact ⟨c, mem_addCommit.mpr (.inr ⟨rfl, haccepts⟩), rfl⟩
      · rw [accepts_iff, epoch_collect] at haccepts
        push Not at haccepts
        obtain ⟨b, hb, heq⟩ := haccepts hadm
        exact ⟨b, mem_addCommit.mpr (.inl hb), heq⟩

/-- The first commit received is kept if it is admissible. -/
theorem first_mem_collect {received : List SolutionCommit} {a : SolutionCommit}
    (hadm : admissible ext allowUnsigned epoch a = true) :
    a ∈ (collect ext allowUnsigned epoch (a :: received)).commits := by
  induction received using List.reverseRecOn with
  | nil => exact mem_addCommit.mpr (.inr ⟨rfl, accepts_iff.mpr ⟨hadm, fun _ h => nomatch h⟩⟩)
  | append_singleton received c ih =>
    rw [← List.cons_append, collect_append]
    exact mem_addCommit.mpr (.inl ih)

end Collected

/-! ### The order of the commits -/

/-- The winner is the greatest in this order. -/
def rank (c : SolutionCommit) : ℤ ×ₗ ℕᵒᵈ := toLex (c.workScore.key, OrderDual.toDual c.nodeId.toNat)

theorem compareCommits_gt {a b : SolutionCommit} (ha : a.workScore.isFinite = true)
    (hb : b.workScore.isFinite = true) : compareCommits a b = .gt ↔ rank b < rank a := by
  have hnan : ∀ x : F64, x.isFinite = true → x.isNaN = false := by
    intro x hx
    simp only [F64.isFinite, F64.isNaN, decide_eq_true_eq] at hx ⊢
    simp [hx]
  rw [compareCommits, partialCmp, hnan _ ha, hnan _ hb, Bool.or_false, if_neg Bool.false_ne_true,
    Option.getD_some, Ordering.then_eq_gt, compare_gt_iff_gt, compare_eq_iff_eq, compare_gt_iff_gt,
    rank, rank, Prod.Lex.toLex_lt_toLex, OrderDual.toDual_lt_toDual]
  simp only [eq_comm]

theorem nodeId_of_rank {a b : SolutionCommit} (h : rank a = rank b) : a.nodeId = b.nodeId := by
  have hpair : (a.workScore.key, OrderDual.toDual a.nodeId.toNat) =
      (b.workScore.key, OrderDual.toDual b.nodeId.toNat) := h
  exact BitVec.eq_of_toNat_eq (congrArg (fun p => OrderDual.ofDual p.2) hpair)

section Agreement

variable (ext : Ext) (allowUnsigned : Bool) (epoch : UInt64)

/-- All the messages, in some order and with repetitions. -/
def Delivers (messages received : List SolutionCommit) : Prop :=
  messages.Subperm received ∧ received ⊆ messages

/-- Any two nodes that receive the messages have the same winner, for every number of peers and every
threshold, and the same ranking. -/
def Agreed (messages : List SolutionCommit) : Prop :=
  ∀ received received' values values', Delivers messages received → Delivers messages received' →
    (∀ peerCount threshold,
      (collect ext allowUnsigned epoch received).sealedWinner values peerCount threshold =
        (collect ext allowUnsigned epoch received').sealedWinner values' peerCount threshold) ∧
    (collect ext allowUnsigned epoch received).ranked values =
      (collect ext allowUnsigned epoch received').ranked values'

/-- No sender has two different admissible commits among the messages. -/
def NoEquivocation (messages : List SolutionCommit) : Prop :=
  ∀ a ∈ messages, ∀ b ∈ messages, admissible ext allowUnsigned epoch a = true →
    admissible ext allowUnsigned epoch b = true → a.nodeId = b.nodeId → a = b

variable {ext allowUnsigned epoch}

/-- Without equivocation the collected commits are the admissible ones. -/
theorem mem_collect_iff {messages received : List SolutionCommit}
    (hno : NoEquivocation ext allowUnsigned epoch messages) (hdel : Delivers messages received)
    (a : SolutionCommit) : a ∈ (collect ext allowUnsigned epoch received).commits ↔
      a ∈ messages ∧ admissible ext allowUnsigned epoch a = true := by
  have hwf := @wellFormed_collect ext allowUnsigned epoch received
  have hadm : ∀ c ∈ (collect ext allowUnsigned epoch received).commits,
      c ∈ messages ∧ admissible ext allowUnsigned epoch c = true := fun c hc =>
    ⟨hdel.2 (mem_of_mem_collect hc), by simpa only [epoch_collect] using hwf.admitted c hc⟩
  constructor
  · exact hadm a
  · rintro ⟨ha, hadma⟩
    obtain ⟨b, hb, heq⟩ := exists_collected (hdel.1.subset ha) hadma
    obtain ⟨hbm, hadmb⟩ := hadm b hb
    rwa [hno a ha b hbm hadma hadmb heq.symm]

theorem WellFormed.nodup {s : CommitCollector} (h : WellFormed ext allowUnsigned s) :
    s.commits.Nodup := h.senders.imp fun hne heq => hne (congrArg SolutionCommit.nodeId heq)

theorem WellFormed.finite {s : CommitCollector} (h : WellFormed ext allowUnsigned s)
    {c : SolutionCommit} (hc : c ∈ s.commits) : c.workScore.isFinite = true := by
  have hadm := h.admitted c hc
  simp only [admissible, Bool.and_eq_true] at hadm
  exact hadm.1.1

theorem selectWinner_perm {s t : CommitCollector} (hs : WellFormed ext allowUnsigned s)
    (ht : WellFormed ext allowUnsigned t) (h : s.commits.Perm t.commits) (values values' : ValueOrder) :
    s.selectWinner values = t.selectWinner values' := by
  have hlast : ∀ (u : CommitCollector) (v : ValueOrder), WellFormed ext allowUnsigned u →
      u.selectWinner v = lastMax rank (v.order u.commits) := fun u v hu =>
    maxBy_eq_lastMax fun a ha b hb => compareCommits_gt (hu.finite ((v.perm _).subset ha))
      (hu.finite ((v.perm _).subset hb))
  rw [hlast s values hs, hlast t values' ht]
  refine lastMax_perm ((values.perm _).trans (h.trans (values'.perm _).symm)) ?_
  rintro a b ⟨ha, hlea⟩ ⟨hb, hleb⟩
  exact hs.eq_of_nodeId ((values.perm _).subset ha) ((values.perm _).subset hb)
    (nodeId_of_rank (le_antisymm (hleb a ha) (hlea b hb)))

theorem ranked_perm {s t : CommitCollector} (hs : WellFormed ext allowUnsigned s)
    (h : s.commits.Perm t.commits) (values values' : ValueOrder) :
    s.ranked values = t.ranked values' := by
  refine sortBy_eq_of_perm (f := fun c => OrderDual.toDual (rank c))
    ((values.perm _).trans (h.trans (values'.perm _).symm)) ?_ ?_
  · intro a ha b hb heq
    exact hs.eq_of_nodeId ((values.perm _).subset ha) ((values.perm _).subset hb) (nodeId_of_rank heq)
  · intro a ha b hb
    exact compareCommits_gt (hs.finite ((values.perm _).subset hb))
      (hs.finite ((values.perm _).subset ha))

theorem mem_ranked {s : CommitCollector} {values : ValueOrder} {c : SolutionCommit} :
    c ∈ s.ranked values ↔ c ∈ s.commits :=
  ((sortBy_perm _).trans (values.perm _)).mem_iff

/-- Winner and ranking are agreed on for every delivery exactly if nobody equivocates. -/
theorem winner_agreed_iff (ext : Ext) (allowUnsigned : Bool) (epoch : UInt64)
    (messages : List SolutionCommit) :
    Agreed ext allowUnsigned epoch messages ↔ NoEquivocation ext allowUnsigned epoch messages := by
  constructor
  · intro hagreed a ha b hb hadma hadmb heq
    have hdel : ∀ c ∈ messages, Delivers messages (c :: messages) := fun c hc =>
      ⟨(List.sublist_cons_self c messages).subperm, List.cons_subset.mpr ⟨hc, fun _ => id⟩⟩
    obtain ⟨-, hranked⟩ := hagreed _ _ .id .id (hdel a ha) (hdel b hb)
    have hmem : a ∈ (collect ext allowUnsigned epoch (b :: messages)).commits := by
      have hfirst : a ∈ (collect ext allowUnsigned epoch (a :: messages)).ranked .id :=
        mem_ranked.mpr (first_mem_collect hadma)
      rw [hranked] at hfirst
      exact mem_ranked.mp hfirst
    exact (wellFormed_collect _).eq_of_nodeId hmem (first_mem_collect hadmb) heq
  · intro hno received received' values values' hdel hdel'
    have hs := @wellFormed_collect ext allowUnsigned epoch received
    have ht := @wellFormed_collect ext allowUnsigned epoch received'
    have hperm : (collect ext allowUnsigned epoch received).commits.Perm
        (collect ext allowUnsigned epoch received').commits := by
      rw [List.perm_ext_iff_of_nodup hs.nodup ht.nodup]
      intro c
      rw [mem_collect_iff hno hdel, mem_collect_iff hno hdel']
    refine ⟨fun peerCount threshold => ?_, ranked_perm hs hperm values values'⟩
    rw [sealedWinner, sealedWinner, selectWinner_perm hs ht hperm values values', hasQuorum, hasQuorum,
      hperm.length_eq]

end Agreement

namespace Sample

/-- A commit for the first epoch under the key 5. -/
def commit (nodeId : NodeId) (solution : ℕ) (workScore : F64) : SolutionCommit :=
  ⟨nodeId, ⟨5⟩, ⟨BitVec.ofNat 256 solution⟩, workScore, List.replicate 64 1⟩

def signed (c : SolutionCommit) : PublicKey × Bytes × Ed25519Signature :=
  (c.publicKey, commitSigningMessage 1 c.solutionHash c.workScore, signatureFromBytes c.signature)

/-- Mallory's two commits, of scores 3 and 1, and Bob's of score 2. -/
def high : SolutionCommit := commit 7 1 ⟨0x4008000000000000⟩
def low : SolutionCommit := commit 7 2 ⟨0x3FF0000000000000⟩
def bobs : SolutionCommit := commit 9 3 ⟨0x4000000000000000⟩

def ext : Ext := .ofTables [] [signed high, signed low, signed bobs]

end Sample

/-- Three signed commits, two of them of one sender: the node that sees `high` first has another winner
than the node that sees `low` first. -/
theorem equivocation_splits_winner :
    ((collect Sample.ext false 1 [Sample.high, Sample.low, Sample.bobs]).sealedWinner .id 2
      F64.one).map SolutionCommit.nodeId = some 7 ∧
    ((collect Sample.ext false 1 [Sample.low, Sample.high, Sample.bobs]).sealedWinner .id 2
      F64.one).map SolutionCommit.nodeId = some 9 ∧
    ¬ Agreed Sample.ext false 1 [Sample.high, Sample.low, Sample.bobs] := by
  have hfirst : ((collect Sample.ext false 1 [Sample.high, Sample.low, Sample.bobs]).sealedWinner .id 2
      F64.one).map SolutionCommit.nodeId = some 7 := by decide +kernel
  have hsecond : ((collect Sample.ext false 1 [Sample.low, Sample.high, Sample.bobs]).sealedWinner .id 2
      F64.one).map SolutionCommit.nodeId = some 9 := by decide +kernel
  refine ⟨hfirst, hsecond, fun hagreed => ?_⟩
  have hdel : Delivers [Sample.high, Sample.low, Sample.bobs] [Sample.low, Sample.high, Sample.bobs] :=
    ⟨(List.Perm.swap Sample.low Sample.high [Sample.bobs]).subperm, by simp⟩
  obtain ⟨hwinner, -⟩ := hagreed _ _ .id .id ⟨List.Subperm.refl _, fun _ => id⟩ hdel
  rw [hwinner 2 F64.one, hsecond] at hfirst
  exact absurd hfirst (by decide)

end Coinjecture.Consensus.Coordinator.Commit
