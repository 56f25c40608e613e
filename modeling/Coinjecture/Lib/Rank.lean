import Coinjecture.Lib.Trace
import Mathlib.Algebra.BigOperators.Group.List.Basic
import Mathlib.Algebra.Order.BigOperators.Group.List
import Mathlib.Data.Prod.Lex
import Mathlib.Tactic.Linarith

/-! # Heads that gain weight

Records under keys name their parent. `Trail` follows the parents from one key to another; a key whose
parent has no record is a source, and there is at most one path to it (`Trail.unique`). The rank of a key
is the weight of its path to the source, and among equal weights the length. A head that only moves to
a descendant, or to a branch that is heavier from a common ancestor on, rises in rank (`Advances.lt`),
so it never comes back to a key it has left (`never_returns`). -/

namespace Coinjecture.Lib.Rank

open Lib.Trace

variable {K V : Type} (parent : V → K) (get : K → Option V)

/-- From `k` over the records `vs` along the parents to the second key. -/
inductive Trail : K → List V → K → Prop where
  | nil (k : K) : Trail k [] k
  | cons {k k' : K} {v : V} {vs : List V} (hget : get k = some v) (hrest : Trail (parent v) vs k') :
      Trail k (v :: vs) k'

/-- Nothing is found under the parent of the root. -/
def Source (root : K) : Prop := ∃ v, get root = some v ∧ get (parent v) = none

variable {parent get} {k a b root : K} {v : V} {vs ws us : List V}

theorem Trail.append (h : Trail parent get k vs a) (h' : Trail parent get a ws b) :
    Trail parent get k (vs ++ ws) b := by
  induction h with
  | nil => exact h'
  | cons hget _ ih => exact .cons hget (ih h')

theorem Trail.single (hget : get k = some v) : Trail parent get k [v] (parent v) :=
  .cons hget (.nil _)

theorem Trail.eq_of_nil (h : Trail parent get k [] a) : k = a := by
  cases h
  rfl

/-- Of two paths from one key the longer goes on where the shorter ends. -/
theorem Trail.prolongs (h : Trail parent get k vs a) (h' : Trail parent get k ws b)
    (hlength : vs.length ≤ ws.length) : ∃ us, ws = vs ++ us ∧ Trail parent get a us b := by
  induction h generalizing ws with
  | nil => exact ⟨ws, rfl, h'⟩
  | cons hget _ ih =>
    cases h' with
    | nil => exact absurd hlength (by simp)
    | cons hget' hrest' =>
      rw [hget] at hget'
      cases hget'
      obtain ⟨us, rfl, hus⟩ := ih hrest' (by simpa using hlength)
      exact ⟨us, rfl, hus⟩

/-- A path from the source back to it is empty. -/
theorem Source.nil (hroot : Source parent get root) (h : Trail parent get root us root) : us = [] := by
  obtain ⟨v, hget, hnone⟩ := hroot
  cases h with
  | nil => rfl
  | cons hget' hrest =>
    rw [hget] at hget'
    cases hget'
    generalize hk : parent v = k at hrest
    cases hrest with
    | nil =>
      rw [hk, hget] at hnone
      cases hnone
    | cons hget' _ =>
      rw [← hk, hnone] at hget'
      cases hget'

theorem Trail.unique (hroot : Source parent get root) (h : Trail parent get k vs root)
    (h' : Trail parent get k ws root) : vs = ws := by
  rcases Nat.le_total vs.length ws.length with hle | hle
  · obtain ⟨us, rfl, hus⟩ := h.prolongs h' hle
    rw [hroot.nil hus, List.append_nil]
  · obtain ⟨us, rfl, hus⟩ := h'.prolongs h hle
    rw [hroot.nil hus, List.append_nil]

/-- A path to a key with a record does not lead beyond the source. -/
theorem Trail.through (hroot : Source parent get root) (h : Trail parent get k vs root)
    (h' : Trail parent get k ws a) (hget : get a = some v) :
    ∃ us, vs = ws ++ us ∧ Trail parent get a us root := by
  rcases Nat.le_total ws.length vs.length with hle | hle
  · exact h'.prolongs h hle
  · obtain ⟨us, rfl, hus⟩ := h.prolongs h' hle
    obtain ⟨w, hw, hnone⟩ := hroot
    cases hus with
    | nil => exact ⟨[], by simp, .nil _⟩
    | cons hget' hrest =>
      rw [hw] at hget'
      cases hget'
      generalize hk : parent w = k' at hrest
      cases hrest with
      | nil =>
        rw [hk, hget] at hnone
        cases hnone
      | cons hget' _ =>
        rw [← hk, hnone] at hget'
        cases hget'

/-! ### The rank -/

section Weights

variable (weight : V → ℚ)

def weigh (vs : List V) : ℚ := (vs.map weight).sum

/-- Weight first, then length. -/
def rank (vs : List V) : ℚ ×ₗ ℕ := toLex (weigh weight vs, vs.length)

/-- How the head moves from `k` to `k'`. -/
inductive Advances (parent : V → K) (get : K → Option V) (k k' : K) : Prop where
  | stays (h : k' = k)
  | descends {us : List V} (hne : us ≠ []) (hpath : Trail parent get k' us k)
  | switches {old new : List V} {a : K} {v : V} (hold : Trail parent get k old a)
      (hnew : Trail parent get k' new a) (hget : get a = some v)
      (hheavier : weigh weight old < weigh weight new)

variable {weight}

theorem weigh_append : weigh weight (vs ++ ws) = weigh weight vs + weigh weight ws := by
  rw [weigh, List.map_append, List.sum_append]
  rfl

theorem weigh_nonneg (hweight : ∀ v ∈ vs, 0 ≤ weight v) : 0 ≤ weigh weight vs :=
  List.sum_nonneg fun q hq => by
    obtain ⟨v, hv, rfl⟩ := List.mem_map.mp hq
    exact hweight v hv

theorem Trail.mem (h : Trail parent get k vs a) (hv : v ∈ vs) : ∃ k, get k = some v := by
  induction h with
  | nil => cases hv
  | cons hget _ ih =>
    rcases List.mem_cons.mp hv with rfl | hv
    · exact ⟨_, hget⟩
    · exact ih hv

theorem rank_lt_of_weigh (h : weigh weight vs < weigh weight ws) : rank weight vs < rank weight ws :=
  Prod.Lex.toLex_lt_toLex.mpr (.inl h)

theorem rank_lt_append (hne : us ≠ []) (hweight : ∀ v ∈ us, 0 ≤ weight v) :
    rank weight vs < rank weight (us ++ vs) := by
  refine Prod.Lex.toLex_lt_toLex.mpr ?_
  have hnonneg := weigh_nonneg hweight
  have hlength : 0 < us.length := List.length_pos_iff.mpr hne
  simp only [weigh_append, List.length_append]
  rcases hnonneg.eq_or_lt with hzero | hpositive
  · exact .inr ⟨by linarith, by omega⟩
  · exact .inl (by linarith)

/-- A head that moves rises in rank. -/
theorem Advances.lt {k' : K} (h : Advances weight parent get k k') (hroot : Source parent get root)
    (hweight : ∀ k v, get k = some v → 0 ≤ weight v) (hne : k' ≠ k)
    (hvs : Trail parent get k vs root) (hws : Trail parent get k' ws root) :
    rank weight vs < rank weight ws := by
  cases h with
  | stays h => exact absurd h hne
  | descends hus hpath =>
    rw [hws.unique hroot (hpath.append hvs)]
    exact rank_lt_append hus fun v hv => by
      obtain ⟨k, hget⟩ := hpath.mem hv
      exact hweight k v hget
  | switches hold hnew hget hheavier =>
    obtain ⟨us, rfl, hus⟩ := hvs.through hroot hold hget
    rw [hws.unique hroot (hnew.append hus)]
    refine rank_lt_of_weigh ?_
    rw [weigh_append, weigh_append]
    linarith

/-! ### Runs -/

section Runs

variable {ι σ : Type} {M : Machine ι σ} {head : σ → K} {P : σ → Prop}

theorem halted_eq_false (hhalts : ∀ i s, M.halts i s = false) (is : List ι) (s : σ) :
    M.halted is s = false := by
  induction is generalizing s with
  | nil => rfl
  | cons i is ih =>
    rw [Machine.halted_cons (hhalts i s)]
    exact ih _

/-- After a run the head is where it was or of a higher rank. -/
theorem head_or_rank_lt (hroot : Source parent get root)
    (hweight : ∀ k v, get k = some v → 0 ≤ weight v) (hhalts : ∀ i s, M.halts i s = false)
    (hpath : ∀ s, P s → ∃ vs, Trail parent get (head s) vs root) {is : List ι} {s : σ} (hs : P s)
    (hstep : ∀ p ∈ M.trace is s, P p.2 →
      P (M.next p.1 p.2) ∧ Advances weight parent get (head p.2) (head (M.next p.1 p.2))) :
    P (M.final is s) ∧ (head (M.final is s) = head s ∨
      ∀ vs ws, Trail parent get (head s) vs root → Trail parent get (head (M.final is s)) ws root →
        rank weight vs < rank weight ws) := by
  induction is generalizing s with
  | nil => exact ⟨hs, .inl rfl⟩
  | cons i is ih =>
    rw [Machine.trace_cons (hhalts i s)] at hstep
    obtain ⟨hnext, hadvances⟩ := hstep (i, s) List.mem_cons_self hs
    obtain ⟨hfinal, hrest⟩ := ih hnext fun p hp => hstep p (List.mem_cons_of_mem _ hp)
    rw [Machine.final_cons (hhalts i s)]
    refine ⟨hfinal, ?_⟩
    by_cases hmoves : head (M.next i s) = head s
    · rwa [hmoves] at hrest
    · right
      intro vs ws hvs hws
      obtain ⟨us, hus⟩ := hpath _ hnext
      have hfirst := hadvances.lt hroot hweight hmoves hvs hus
      rcases hrest with hsame | hlt
      · rw [hsame] at hws
        rwa [hws.unique hroot hus]
      · exact hfirst.trans (hlt us ws hus hws)

/-- A head that is back at a key has not left it. -/
theorem never_returns (hroot : Source parent get root)
    (hweight : ∀ k v, get k = some v → 0 ≤ weight v) (hhalts : ∀ i s, M.halts i s = false)
    (hpath : ∀ s, P s → ∃ vs, Trail parent get (head s) vs root) {is js ks : List ι} {s : σ} (hs : P s)
    (hstep : ∀ p ∈ M.trace (is ++ js ++ ks) s, P p.2 →
      P (M.next p.1 p.2) ∧ Advances weight parent get (head p.2) (head (M.next p.1 p.2)))
    (hback : head (M.final (is ++ js ++ ks) s) = head (M.final is s)) :
    head (M.final (is ++ js) s) = head (M.final is s) := by
  simp only [Machine.trace_append, Machine.final_append, halted_eq_false hhalts, Bool.false_eq_true,
    if_false, List.mem_append] at hstep hback ⊢
  obtain ⟨hfirst, -⟩ := head_or_rank_lt hroot hweight hhalts hpath hs
    fun p hp => hstep p (.inl (.inl hp))
  obtain ⟨hsecond, hmid⟩ := head_or_rank_lt hroot hweight hhalts hpath hfirst
    fun p hp => hstep p (.inl (.inr hp))
  obtain ⟨-, hlast⟩ := head_or_rank_lt hroot hweight hhalts hpath hsecond
    fun p hp => hstep p (.inr hp)
  rcases hmid with hsame | hlt
  · exact hsame
  rcases hlast with hsame | hlt'
  · exact hsame.symm.trans hback
  · obtain ⟨vs, hvs⟩ := hpath _ hfirst
    obtain ⟨ws, hws⟩ := hpath _ hsecond
    have hvs' := hvs
    rw [← hback] at hvs'
    exact absurd ((hlt vs ws hvs hws).trans (hlt' ws vs hws hvs')) (lt_irrefl _)

end Runs

end Weights

end Coinjecture.Lib.Rank
