import Coinjecture.Node.PeerConsensus
import Mathlib.Data.List.Dedup

/-! # Map order and sync decisions

Heights are sorted before they are used, and votes are counted; there the order of iteration is lost. It
stays where the last of several largest entries is taken: the best peer, and the tip with the most
votes. `order_free_iff`: the answers are the same for every order exactly if no two peers tie for the
best, and our tip does not tie with another for a sufficient number of votes. -/

namespace Coinjecture.Node.MapOrder

open Lib.Float64 Lib.Selection
open Core.Types
open Node.PeerConsensus

/-! ### The answers -/

/-- Orders of iteration of the peer table and of a table of votes. -/
structure Iteration (peers : Peers) where
  order : Peers
  perm : peers.Perm order
  votes : VoteOrder

/-- What the node asks. -/
structure Question where
  now : ℕ
  config : ConsensusConfig
  fixed : ℕ → F64 → String
  localWork : BitVec 128
  ourHeight : UInt64
  ourHash : Bytes32

structure Answers where
  shouldMine : Bool × String
  tipHashForkReason : Option String
  checkConsensus : Bool × UInt64 × F64
  medianPeerHeight : UInt64
  bestPeerHeight : UInt64
  bestActivePeer : Option (String × PeerState)
  bestPeerForForkRecovery : Option (String × PeerState)
  heaviestPeerWhenLocalForked : Option (String × PeerState)

/-- The answers for an order of iteration. -/
def answers (q : Question) {peers : Peers} (it : Iteration peers) : Answers where
  shouldMine := shouldMine q.now q.config it.order it.votes q.ourHeight q.ourHash q.fixed
  tipHashForkReason := tipHashForkReason q.now q.config it.order it.votes q.ourHeight q.ourHash
  checkConsensus := checkConsensus q.now q.config it.order
  medianPeerHeight := medianPeerHeight q.now it.order
  bestPeerHeight := bestPeerHeight q.now it.order
  bestActivePeer := bestActivePeerByCumulativeWork q.now it.order
  bestPeerForForkRecovery :=
    bestPeerForForkRecovery q.now it.order q.localWork q.ourHeight q.ourHash
  heaviestPeerWhenLocalForked :=
    heaviestPeerWhenLocalForked q.now q.config it.order it.votes q.ourHeight q.ourHash

/-- Our tip and another one have the most votes, and these are enough. -/
def TipTie (q : Question) (peers : Peers) : Prop :=
  ¬ Behind q.now q.config peers q.ourHeight ∧
    ∃ e e', IsMax Prod.snd (hashVotes q.now peers q.ourHeight) e ∧
      IsMax Prod.snd (hashVotes q.now peers q.ourHeight) e' ∧
      requiredVotes q.now q.config peers ≤ e.2 ∧ e.1 = q.ourHash ∧ e'.1 ≠ q.ourHash

/-- No two peers are the best active peer or the best one for fork recovery, and no other tip ties with
ours. -/
structure NoTies (q : Question) (peers : Peers) : Prop where
  best : AtMostOneMax heavyChain (activePeers q.now peers)
  recovery : AtMostOneMax heavyChain
    (recoveryPeers q.now peers q.localWork q.ourHeight q.ourHash)
  tip : ¬ TipTie q peers

/-! ### What is lost of the order -/

section Perm

variable {now : ℕ} {config : ConsensusConfig} {peers peers' : Peers} {ourHeight : UInt64}

theorem activePeers_perm (h : peers.Perm peers') :
    (activePeers now peers).Perm (activePeers now peers') := h.filter _

theorem activePeerCount_perm (h : peers.Perm peers') :
    activePeerCount now peers = activePeerCount now peers' := (activePeers_perm h).length_eq

theorem sortHeights_perm {l l' : List UInt64} (h : l.Perm l') : sortHeights l = sortHeights l' := by
  have htrans : IsTrans UInt64 (· ≤ ·) := ⟨fun _ _ _ => UInt64.le_trans⟩
  have htotal : Std.Total (α := UInt64) (· ≤ ·) := ⟨UInt64.le_total⟩
  have hsorted : ∀ l : List UInt64, (sortHeights l).Pairwise (· ≤ ·) :=
    fun l => List.pairwise_insertionSort (· ≤ ·) l
  have hperm : (sortHeights l).Perm (sortHeights l') :=
    (List.perm_insertionSort _ l).trans (h.trans (List.perm_insertionSort _ l').symm)
  exact hperm.eq_of_pairwise (fun a b _ _ hab hba => UInt64.le_antisymm hab hba) (hsorted l)
    (hsorted l')

theorem activeHeights_perm (h : peers.Perm peers') :
    activeHeights now peers = activeHeights now peers' :=
  sortHeights_perm ((activePeers_perm h).map _)

theorem medianPeerHeight_perm (h : peers.Perm peers') :
    medianPeerHeight now peers = medianPeerHeight now peers' := by
  simp only [medianPeerHeight, activeHeights_perm h]

theorem checkConsensus_perm (h : peers.Perm peers') :
    checkConsensus now config peers = checkConsensus now config peers' := by
  simp only [checkConsensus, activeHeights_perm h, activePeerCount_perm h]

theorem bestPeerHeight_perm (h : peers.Perm peers') :
    bestPeerHeight now peers = bestPeerHeight now peers' := by
  have hvalue := map_lastMax_perm (f := UInt64.toNat)
    ((h.filter fun p => !p.2.isFiltered && !p.2.isStale now).map fun p => p.2.bestHeight)
  rw [bestPeerHeight, bestPeerHeight,
    Option.map_injective (fun a b hab => UInt64.toNat_inj.mp hab) hvalue]

theorem behind_perm (h : peers.Perm peers') :
    Behind now config peers ourHeight ↔ Behind now config peers' ourHeight := by
  rw [Behind, Behind, medianPeerHeight_perm h]

theorem requiredVotes_perm (h : peers.Perm peers') :
    requiredVotes now config peers = requiredVotes now config peers' := by
  simp only [requiredVotes, activePeerCount_perm h]

/-- The tips have the same votes. -/
theorem hashVotes_perm (h : peers.Perm peers') :
    (hashVotes now peers ourHeight).Perm (hashVotes now peers' ourHeight) := by
  have htips : (tipsInBand now peers ourHeight).Perm (tipsInBand now peers' ourHeight) :=
    ((activePeers_perm h).filter _).map _
  have hcount : (fun hash => (hash, (tipsInBand now peers ourHeight).count hash)) =
      fun hash => (hash, (tipsInBand now peers' ourHeight).count hash) :=
    funext fun hash => by rw [htips.count_eq]
  rw [hashVotes, hashVotes, hcount]
  exact htips.dedup.map _

end Perm

/-! ### Without ties -/

section NoTies

variable {q : Question} {peers : Peers}

theorem tipHashForkReason_eq (h : ¬ TipTie q peers) (it it' : Iteration peers) :
    tipHashForkReason q.now q.config it.order it.votes q.ourHeight q.ourHash =
      tipHashForkReason q.now q.config it'.order it'.votes q.ourHeight q.ourHash := by
  have hperm := it.perm.symm.trans it'.perm
  have hvotes : ∀ it : Iteration peers, (hashVotes q.now peers q.ourHeight).Perm
      (it.votes.order (hashVotes q.now it.order q.ourHeight)) :=
    fun it => (hashVotes_perm it.perm).trans (it.votes.perm _)
  rw [tipHashForkReason, tipHashForkReason, requiredVotes_perm hperm, activePeerCount_perm hperm]
  by_cases hbehind : Behind q.now q.config peers q.ourHeight
  · rw [if_pos ((behind_perm it.perm).mp hbehind), if_pos ((behind_perm it'.perm).mp hbehind)]
  rw [if_neg fun h => hbehind ((behind_perm it.perm).mpr h),
    if_neg fun h => hbehind ((behind_perm it'.perm).mpr h)]
  have hvalue := map_lastMax_perm (f := Prod.snd) ((hvotes it).symm.trans (hvotes it'))
  rcases he : lastMax Prod.snd (it.votes.order (hashVotes q.now it.order q.ourHeight)) with
    _ | ⟨hash, count⟩
  · rw [he] at hvalue
    rcases he' : lastMax Prod.snd (it'.votes.order (hashVotes q.now it'.order q.ourHeight)) with
      _ | e'
    · rfl
    · rw [he'] at hvalue
      cases hvalue
  · rcases he' : lastMax Prod.snd (it'.votes.order (hashVotes q.now it'.order q.ourHeight)) with
      _ | ⟨hash', count'⟩
    · rw [he, he'] at hvalue
      cases hvalue
    rw [he, he'] at hvalue
    obtain rfl : count = count' := Option.some.inj hvalue
    dsimp only
    by_cases hcount : count < requiredVotes q.now q.config it'.order
    · rw [if_pos hcount, if_pos hcount]
    -- enough votes: our tip is either of both or of none
    have hmax := (isMax_lastMax he).perm (hvotes it).symm
    have hmax' := (isMax_lastMax he').perm (hvotes it').symm
    have henough : requiredVotes q.now q.config peers ≤ count := by
      rw [requiredVotes_perm it'.perm]
      exact not_lt.mp hcount
    have hours : q.ourHash ≠ hash ↔ q.ourHash ≠ hash' := by
      rw [not_iff_not]
      constructor
      · intro heq
        by_contra hne
        exact h ⟨hbehind, _, _, hmax, hmax', henough, heq.symm, fun heq' => hne heq'.symm⟩
      · intro heq
        by_contra hne
        exact h ⟨hbehind, _, _, hmax', hmax, henough, heq.symm, fun heq' => hne heq'.symm⟩
    rw [if_neg hcount, if_neg hcount]
    simp only [hours]

/-- Without ties the answers do not depend on the order. -/
theorem answers_eq (h : NoTies q peers) (it it' : Iteration peers) : answers q it = answers q it' := by
  have hperm := it.perm.symm.trans it'.perm
  have hfork := tipHashForkReason_eq h.tip it it'
  have hbest : bestActivePeerByCumulativeWork q.now it.order =
      bestActivePeerByCumulativeWork q.now it'.order :=
    lastMax_perm (activePeers_perm hperm) fun a b ha hb =>
      h.best a b (ha.perm (activePeers_perm it.perm).symm) (hb.perm (activePeers_perm it.perm).symm)
  have hrecovery : bestPeerForForkRecovery q.now it.order q.localWork q.ourHeight q.ourHash =
      bestPeerForForkRecovery q.now it'.order q.localWork q.ourHeight q.ourHash :=
    lastMax_perm ((activePeers_perm hperm).filter _) fun a b ha hb =>
      h.recovery a b (ha.perm ((activePeers_perm it.perm).filter _).symm)
        (hb.perm ((activePeers_perm it.perm).filter _).symm)
  rw [answers, answers, Answers.mk.injEq]
  refine ⟨?_, hfork, checkConsensus_perm hperm, medianPeerHeight_perm hperm,
    bestPeerHeight_perm hperm, hbest, hrecovery, ?_⟩
  · simp only [shouldMine, hfork, checkConsensus_perm hperm, medianPeerHeight_perm hperm,
      activePeerCount_perm hperm]
  · rw [heaviestPeerWhenLocalForked, heaviestPeerWhenLocalForked, hfork, hbest]

end NoTies

/-! ### Ties -/

section Ties

variable {q : Question} {peers : Peers}

/-- The order of votes in which `e` comes last. -/
def lastVote (e : Bytes32 × ℕ) : VoteOrder where
  order votes := if e ∈ votes then votes.erase e ++ [e] else votes
  perm votes := by
    split_ifs with h
    · exact (List.perm_cons_erase h).trans (List.perm_append_singleton e (votes.erase e)).symm
    · exact .refl _

/-- The table in its own order, and the votes with `e` last. -/
def voteIteration (peers : Peers) (e : Bytes32 × ℕ) : Iteration peers :=
  ⟨peers, .refl _, lastVote e⟩

/-- The table with a peer last. -/
def peerIteration {p : String × PeerState} (h : p ∈ peers) : Iteration peers where
  order := peers.erase p ++ [p]
  perm := (List.perm_cons_erase h).trans (List.perm_append_singleton p (peers.erase p)).symm
  votes := ⟨id, fun _ => .refl _⟩

theorem lastMax_lastVote {votes : List (Bytes32 × ℕ)} {e : Bytes32 × ℕ}
    (h : IsMax Prod.snd votes e) : lastMax Prod.snd ((lastVote e).order votes) = some e := by
  rw [lastVote]
  dsimp only
  rw [if_pos h.1]
  exact (exists_perm_lastMax h).2

/-- With a tie for the tip, the answer depends on the vote that comes last. -/
theorem not_tipTie (h : ∀ it it' : Iteration peers, answers q it = answers q it') :
    ¬ TipTie q peers := by
  rintro ⟨hbehind, e, e', hmax, hmax', henough, hours, hothers⟩
  have hsame : e.2 = e'.2 := le_antisymm (hmax'.2 e hmax.1) (hmax.2 e' hmax'.1)
  have hnone : tipHashForkReason q.now q.config peers (lastVote e) q.ourHeight q.ourHash = none := by
    rw [tipHashForkReason, if_neg hbehind, lastMax_lastVote hmax]
    dsimp only
    rw [if_neg (not_lt.mpr henough), if_neg (not_not.mpr hours.symm)]
  have hsome :
      (tipHashForkReason q.now q.config peers (lastVote e') q.ourHeight q.ourHash).isSome := by
    rw [tipHashForkReason, if_neg hbehind, lastMax_lastVote hmax']
    dsimp only
    rw [if_neg (not_lt.mpr (hsame ▸ henough)), if_pos fun heq => hothers heq.symm]
    rfl
  have hanswers := congrArg Answers.tipHashForkReason
    (h (voteIteration peers e) (voteIteration peers e'))
  change tipHashForkReason q.now q.config peers (lastVote e) q.ourHeight q.ourHash =
    tipHashForkReason q.now q.config peers (lastVote e') q.ourHeight q.ourHash at hanswers
  rw [← hanswers, hnone] at hsome
  cases hsome

/-- With a tie of peers, the best one is the one that comes last. -/
theorem noTies_of_answers (h : ∀ it it' : Iteration peers, answers q it = answers q it') :
    NoTies q peers := by
  have hbest : ∀ {a} (hmem : a ∈ peers), IsMax heavyChain (activePeers q.now peers) a →
      (answers q (peerIteration hmem)).bestActivePeer = some a :=
    fun _ hmax => lastMax_filter_erase_append hmax
  have hrecovery : ∀ {a} (hmem : a ∈ peers), IsMax heavyChain
      (recoveryPeers q.now peers q.localWork q.ourHeight q.ourHash) a →
      (answers q (peerIteration hmem)).bestPeerForForkRecovery = some a := by
    intro a hmem hmax
    change lastMax heavyChain (recoveryPeers q.now (peers.erase a ++ [a]) _ _ _) = _
    rw [recoveryPeers, activePeers, List.filter_filter] at hmax ⊢
    exact lastMax_filter_erase_append hmax
  refine ⟨fun a b ha hb => ?_, fun a b ha hb => ?_, not_tipTie h⟩
  · have hmem := (List.mem_filter.mp ha.1).1
    have hmem' := (List.mem_filter.mp hb.1).1
    have heq := congrArg Answers.bestActivePeer (h (peerIteration hmem) (peerIteration hmem'))
    rw [hbest hmem ha, hbest hmem' hb] at heq
    exact Option.some.inj heq
  · have hmem := (List.mem_filter.mp (List.mem_filter.mp ha.1).1).1
    have hmem' := (List.mem_filter.mp (List.mem_filter.mp hb.1).1).1
    have heq := congrArg Answers.bestPeerForForkRecovery
      (h (peerIteration hmem) (peerIteration hmem'))
    rw [hrecovery hmem ha, hrecovery hmem' hb] at heq
    exact Option.some.inj heq

end Ties

/-- The answers do not depend on the order of iteration exactly if there are no ties. -/
theorem order_free_iff (q : Question) (peers : Peers) :
    (∀ it it' : Iteration peers, answers q it = answers q it') ↔ NoTies q peers :=
  ⟨noTies_of_answers, answers_eq⟩

/-- A peer with a tip of height 1 and work 5. -/
def reportOf (hash : Bytes32) : PeerState := { PeerState.new 0 1 hash with cumulativeWork := 5 }

def twoPeers : Peers := [("peer-a", reportOf 1), ("peer-b", reportOf 2)]

/-- Our tip is that of the first peer. -/
def twoTips : Question := ⟨0, .default, fun _ _ => "", 0, 1, 1⟩

/-- The peers in their order, with the vote for our tip last. -/
def oursLast : Iteration twoPeers := voteIteration twoPeers (1, 1)

/-- The peers in the other order, with the vote for the other tip last. -/
def othersLast : Iteration twoPeers :=
  ⟨twoPeers.reverse, (List.reverse_perm twoPeers).symm, lastVote (2, 1)⟩

set_option maxRecDepth 20000 in
/-- In one order the node mines and syncs from the second peer; in the other it does not mine, and the
best peer is the first. -/
theorem order_decides :
    ((answers twoTips oursLast).shouldMine.1 = true ∧
      (answers twoTips othersLast).shouldMine.1 = false) ∧
    ((answers twoTips oursLast).bestActivePeer = some ("peer-b", reportOf 2) ∧
      (answers twoTips othersLast).bestActivePeer = some ("peer-a", reportOf 1)) ∧
    ¬ ∀ q peers (it it' : Iteration peers), answers q it = answers q it' := by
  have hmine : (answers twoTips oursLast).shouldMine.1 = true ∧
      (answers twoTips othersLast).shouldMine.1 = false := by decide +kernel
  refine ⟨hmine, ⟨by decide, by decide⟩, fun h => ?_⟩
  obtain ⟨hours, hothers⟩ := hmine
  rw [h twoTips twoPeers oursLast othersLast, hothers] at hours
  cases hours

end Coinjecture.Node.MapOrder
