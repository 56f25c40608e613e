import Mathlib.Algebra.GroupWithZero.Nat
import Mathlib.Algebra.Order.BigOperators.Group.List
import Mathlib.Tactic.Common

/-! # Runs of a machine

A machine takes inputs one after the other; an input changes the state and may halt the machine, and
then the inputs after it are not taken. `trace` lists the inputs taken, each with the state it was
taken in, and `final` is the state at the end. What every step preserves, a run preserves
(`invariant`), and what steps preserve exactly under a condition, a run does if they all meet it
(`safe_iff`); what a step may add to a measure, a run may add up (`measure_final_le`); and inputs that do
nothing where they are taken may be left out (`final_filter`). -/

namespace Coinjecture.Lib.Trace

structure Machine (ι σ : Type) where
  next : ι → σ → σ
  halts : ι → σ → Bool

namespace Machine

variable {ι σ : Type} (M : Machine ι σ)

/-- The inputs taken from `s` on, each with the state it is taken in. -/
def trace : List ι → σ → List (ι × σ)
  | [], _ => []
  | i :: is, s => (i, s) :: if M.halts i s then [] else trace is (M.next i s)

/-- The state after the run. -/
def final : List ι → σ → σ
  | [], s => s
  | i :: is, s => if M.halts i s then M.next i s else final is (M.next i s)

/-- An input of the run halts the machine. -/
def halted : List ι → σ → Bool
  | [], _ => false
  | i :: is, s => M.halts i s || halted is (M.next i s)

@[simp] theorem trace_nil (s : σ) : M.trace [] s = [] := rfl

@[simp] theorem final_nil (s : σ) : M.final [] s = s := rfl

@[simp] theorem halted_nil (s : σ) : M.halted [] s = false := rfl

variable {M} {i : ι} {is js : List ι} {s : σ}

theorem trace_cons (h : M.halts i s = false) :
    M.trace (i :: is) s = (i, s) :: M.trace is (M.next i s) := by
  rw [trace, h]
  rfl

theorem trace_cons_halt (h : M.halts i s = true) : M.trace (i :: is) s = [(i, s)] := by
  rw [trace, h]
  rfl

theorem final_cons (h : M.halts i s = false) :
    M.final (i :: is) s = M.final is (M.next i s) := by
  rw [final, h]
  rfl

theorem final_cons_halt (h : M.halts i s = true) : M.final (i :: is) s = M.next i s := by
  rw [final, h]
  rfl

theorem halted_cons (h : M.halts i s = false) :
    M.halted (i :: is) s = M.halted is (M.next i s) := by
  rw [halted, h, Bool.false_or]

theorem halted_cons_halt (h : M.halts i s = true) : M.halted (i :: is) s = true := by
  rw [halted, h, Bool.true_or]

/-- Two runs one after the other. -/
theorem final_append : M.final (is ++ js) s =
    if M.halted is s then M.final is s else M.final js (M.final is s) := by
  induction is generalizing s with
  | nil => simp
  | cons i is ih =>
    rw [List.cons_append]
    cases h : M.halts i s with
    | false => rw [final_cons h, final_cons h, halted_cons h, ih]
    | true => rw [final_cons_halt h, final_cons_halt h, halted_cons_halt h, if_pos rfl]

theorem trace_append : M.trace (is ++ js) s =
    M.trace is s ++ if M.halted is s then [] else M.trace js (M.final is s) := by
  induction is generalizing s with
  | nil => simp
  | cons i is ih =>
    rw [List.cons_append]
    cases h : M.halts i s with
    | false => rw [trace_cons h, trace_cons h, halted_cons h, final_cons h, ih, List.cons_append]
    | true => rw [trace_cons_halt h, trace_cons_halt h, halted_cons_halt h, if_pos rfl,
        List.append_nil]

theorem halted_append : M.halted (is ++ js) s =
    (M.halted is s || M.halted js (M.final is s)) := by
  induction is generalizing s with
  | nil => simp
  | cons i is ih =>
    rw [List.cons_append]
    cases h : M.halts i s with
    | false => rw [halted_cons h, halted_cons h, final_cons h, ih]
    | true => rw [halted_cons_halt h, halted_cons_halt h, Bool.true_or]

/-- The inputs taken are the first ones. -/
theorem inputs_isPrefix (M : Machine ι σ) (is : List ι) (s : σ) :
    (M.trace is s).map Prod.fst <+: is := by
  induction is generalizing s with
  | nil => exact List.prefix_rfl
  | cons i is ih =>
    cases h : M.halts i s with
    | false =>
      rw [trace_cons h, List.map_cons]
      exact (List.prefix_cons_inj i).mpr (ih _)
    | true =>
      rw [trace_cons_halt h]
      exact (List.prefix_cons_inj i).mpr (List.nil_prefix)

theorem mem_of_mem_trace {p : ι × σ} (h : p ∈ M.trace is s) : p.1 ∈ is :=
  (inputs_isPrefix M is s).subset (List.mem_map_of_mem h)

/-- An input is taken in the state that the one before it left. -/
theorem isChain_trace (M : Machine ι σ) (is : List ι) (s : σ) :
    (M.trace is s).IsChain fun p q => q.2 = M.next p.1 p.2 := by
  induction is generalizing s with
  | nil => exact List.IsChain.nil
  | cons i is ih =>
    cases h : M.halts i s with
    | false =>
      rw [trace_cons h]
      cases is with
      | nil => exact List.IsChain.singleton _
      | cons j js =>
        have htail := ih (M.next i s)
        cases hj : M.halts j (M.next i s) with
        | false =>
          rw [trace_cons hj] at htail ⊢
          exact List.IsChain.cons_cons rfl htail
        | true =>
          rw [trace_cons_halt hj]
          exact List.IsChain.cons_cons rfl (List.IsChain.singleton _)
    | true =>
      rw [trace_cons_halt h]
      exact List.IsChain.singleton _

/-- What every step of the run preserves holds at the end. -/
theorem invariant {P : σ → Prop} (hstep : ∀ p ∈ M.trace is s, P p.2 → P (M.next p.1 p.2))
    (hs : P s) : P (M.final is s) := by
  induction is generalizing s with
  | nil => exact hs
  | cons i is ih =>
    cases h : M.halts i s with
    | false =>
      rw [final_cons h]
      rw [trace_cons h] at hstep
      exact ih (fun p hp => hstep p (List.mem_cons_of_mem _ hp)) (hstep _ List.mem_cons_self hs)
    | true =>
      rw [final_cons_halt h]
      rw [trace_cons_halt h] at hstep
      exact hstep _ List.mem_cons_self hs

/-- … and in every state of the run. -/
theorem invariant_trace {P : σ → Prop} (hstep : ∀ p ∈ M.trace is s, P p.2 → P (M.next p.1 p.2))
    (hs : P s) : ∀ p ∈ M.trace is s, P p.2 := by
  induction is generalizing s with
  | nil => intro p hp; cases hp
  | cons i is ih =>
    cases h : M.halts i s with
    | false =>
      rw [trace_cons h] at hstep ⊢
      intro p hp
      rcases List.mem_cons.mp hp with rfl | hp
      · exact hs
      · exact ih (fun p hp => hstep p (List.mem_cons_of_mem _ hp)) (hstep _ List.mem_cons_self hs) p hp
    | true =>
      rw [trace_cons_halt h]
      intro p hp
      rw [List.mem_singleton.mp hp]
      exact hs

/-- Measures that no step lowers are, at a later step, at least what an earlier step left. -/
theorem pairwise_of_monotone {κ : Type} (m : κ → σ → ℕ)
    (hstep : ∀ p ∈ M.trace is s, ∀ k, m k p.2 ≤ m k (M.next p.1 p.2)) :
    (M.trace is s).Pairwise fun p q => ∀ k, m k (M.next p.1 p.2) ≤ m k q.2 := by
  induction is generalizing s with
  | nil => exact List.Pairwise.nil
  | cons i is ih =>
    cases h : M.halts i s with
    | false =>
      rw [trace_cons h] at hstep ⊢
      have htail := fun p hp => hstep p (List.mem_cons_of_mem _ hp)
      refine List.pairwise_cons.mpr ⟨fun q hq k => ?_, ih htail⟩
      exact invariant_trace (P := fun t => m k (M.next i s) ≤ m k t)
        (fun p hp hle => hle.trans (htail p hp k)) le_rfl q hq
    | true =>
      rw [trace_cons_halt h]
      exact List.pairwise_singleton _ _

/-- A preorder that every step follows relates what a step leaves to every later state. -/
theorem pairwise_of_preorder {R : σ → σ → Prop} (hrefl : ∀ s, R s s)
    (htrans : ∀ {s t u}, R s t → R t u → R s u)
    (hstep : ∀ p ∈ M.trace is s, R p.2 (M.next p.1 p.2)) :
    (M.trace is s).Pairwise fun p q => R (M.next p.1 p.2) q.2 := by
  induction is generalizing s with
  | nil => exact List.Pairwise.nil
  | cons i is ih =>
    cases h : M.halts i s with
    | false =>
      rw [trace_cons h] at hstep ⊢
      have htail := fun p hp => hstep p (List.mem_cons_of_mem _ hp)
      refine List.pairwise_cons.mpr ⟨fun q hq => ?_, ih htail⟩
      exact invariant_trace (P := fun t => R (M.next i s) t)
        (fun p hp hR => htrans hR (htail p hp)) (hrefl _) q hq
    | true =>
      rw [trace_cons_halt h]
      exact List.pairwise_singleton _ _

/-- If a step keeps `P` exactly where it meets `C`, then all states of a run have `P` exactly if all its
steps meet `C`. `Q` is what every step keeps anyhow. -/
theorem safe_iff {P Q : σ → Prop} {C : ι × σ → Prop}
    (hQ : ∀ p ∈ M.trace is s, Q p.2 → Q (M.next p.1 p.2))
    (hiff : ∀ p ∈ M.trace is s, Q p.2 → P p.2 → (P (M.next p.1 p.2) ↔ C p)) (hq : Q s) (hp : P s) :
    ((∀ p ∈ M.trace is s, P p.2) ∧ P (M.final is s)) ↔ ∀ p ∈ M.trace is s, C p := by
  induction is generalizing s with
  | nil =>
    exact ⟨fun _ p hmem => absurd hmem List.not_mem_nil,
      fun _ => ⟨fun p hmem => absurd hmem List.not_mem_nil, hp⟩⟩
  | cons i is ih =>
    cases h : M.halts i s with
    | false =>
      rw [trace_cons h] at hQ hiff ⊢
      rw [final_cons h, List.forall_mem_cons, List.forall_mem_cons]
      have hfirst := hiff _ List.mem_cons_self hq hp
      have hnext := hQ _ List.mem_cons_self hq
      have hrest := fun hp' => ih (fun p hp => hQ p (List.mem_cons_of_mem _ hp))
        (fun p hp => hiff p (List.mem_cons_of_mem _ hp)) hnext hp'
      constructor
      · rintro ⟨⟨-, hall⟩, hfinal⟩
        have hp' : P (M.next i s) := by
          cases is with
          | nil => exact hfinal
          | cons j js =>
            cases hj : M.halts j (M.next i s) with
            | false =>
              rw [trace_cons hj] at hall
              exact hall _ List.mem_cons_self
            | true =>
              rw [trace_cons_halt hj] at hall
              exact hall _ List.mem_cons_self
        exact ⟨hfirst.mp hp', (hrest hp').mp ⟨hall, hfinal⟩⟩
      · rintro ⟨hc, hall⟩
        obtain ⟨hstates, hfinal⟩ := (hrest (hfirst.mpr hc)).mpr hall
        exact ⟨⟨hp, hstates⟩, hfinal⟩
    | true =>
      rw [trace_cons_halt h] at hQ hiff ⊢
      have hfirst := hiff _ List.mem_cons_self hq hp
      rw [final_cons_halt h]
      simp only [List.mem_singleton, forall_eq]
      exact ⟨fun hstates => hfirst.mp hstates.2, fun hc => ⟨hp, hfirst.mpr hc⟩⟩

/-- Two conditions on steps hold throughout a run together if they agree as long as `Q` holds, which also
looks at the inputs to come. -/
theorem forall_trace_iff {Q : List ι → σ → Prop} {A C : ι × σ → Prop}
    (hiff : ∀ i is s, Q (i :: is) s → (A (i, s) ↔ C (i, s)))
    (hnext : ∀ i is s, Q (i :: is) s → C (i, s) → Q is (M.next i s)) (h : Q is s) :
    (∀ p ∈ M.trace is s, A p) ↔ ∀ p ∈ M.trace is s, C p := by
  induction is generalizing s with
  | nil => exact iff_of_true (fun p hp => absurd hp List.not_mem_nil) fun p hp => absurd hp List.not_mem_nil
  | cons i is ih =>
    rw [trace, List.forall_mem_cons, List.forall_mem_cons, hiff i is s h]
    refine and_congr_right fun hc => ?_
    split_ifs
    · exact iff_of_true (fun p hp => absurd hp List.not_mem_nil) fun p hp => absurd hp List.not_mem_nil
    · exact ih (hnext i is s h hc)

/-- What steps preserve that also looks at the inputs to come holds in every state of a run. -/
theorem invariant_inputs {Q : List ι → σ → Prop} {P : σ → Prop} (hP : ∀ is s, Q is s → P s)
    (hnext : ∀ i is s, Q (i :: is) s → Q is (M.next i s)) (h : Q is s) :
    (∀ p ∈ M.trace is s, P p.2) ∧ P (M.final is s) := by
  induction is generalizing s with
  | nil => exact ⟨fun p hp => absurd hp List.not_mem_nil, hP _ _ h⟩
  | cons i is ih =>
    obtain ⟨htrace, hfinal⟩ := ih (hnext i is s h)
    cases hhalt : M.halts i s with
    | false =>
      rw [trace_cons hhalt, final_cons hhalt, List.forall_mem_cons]
      exact ⟨⟨hP _ _ h, htrace⟩, hfinal⟩
    | true =>
      rw [trace_cons_halt hhalt, final_cons_halt hhalt]
      refine ⟨fun p hp => ?_, hP _ _ (hnext i is s h)⟩
      rw [List.mem_singleton.mp hp]
      exact hP _ _ h

/-- A measure grows in a run by at most what its steps may add. -/
theorem measure_final_le (m : σ → ℕ) (c : ι → ℕ)
    (hstep : ∀ p ∈ M.trace is s, m (M.next p.1 p.2) ≤ m p.2 + c p.1) :
    m (M.final is s) ≤ m s + (is.map c).sum := by
  induction is generalizing s with
  | nil => simp
  | cons i is ih =>
    rw [List.map_cons, List.sum_cons]
    cases h : M.halts i s with
    | false =>
      rw [final_cons h]
      rw [trace_cons h] at hstep
      have h1 := ih fun p hp => hstep p (List.mem_cons_of_mem _ hp)
      have h2 := hstep _ List.mem_cons_self
      simp only at h2
      omega
    | true =>
      rw [final_cons_halt h]
      rw [trace_cons_halt h] at hstep
      have h2 := hstep _ List.mem_cons_self
      simp only at h2
      omega

/-- Inputs that change nothing where they are taken, and do not halt there, may be left out. -/
theorem final_filter (keep : ι × σ → Bool)
    (hidle : ∀ p ∈ M.trace is s, keep p = false → M.next p.1 p.2 = p.2 ∧ M.halts p.1 p.2 = false) :
    M.final (((M.trace is s).filter keep).map Prod.fst) s = M.final is s := by
  induction is generalizing s with
  | nil => rfl
  | cons i is ih =>
    cases h : M.halts i s with
    | false =>
      rw [trace_cons h] at hidle ⊢
      have htail := ih fun p hp => hidle p (List.mem_cons_of_mem _ hp)
      cases hk : keep (i, s) with
      | true =>
        rw [List.filter_cons_of_pos hk, List.map_cons, final_cons h, final_cons h, htail]
      | false =>
        have hnext := (hidle _ List.mem_cons_self hk).1
        simp only at hnext
        rw [List.filter_cons_of_neg (by simp [hk]), final_cons h]
        rw [hnext] at htail ⊢
        exact htail
    | true =>
      rw [trace_cons_halt h] at hidle ⊢
      cases hk : keep (i, s) with
      | true => rw [List.filter_cons_of_pos hk, List.filter_nil, List.map_cons, List.map_nil,
          final_cons_halt h, final_cons_halt h]
      | false =>
        have hhalt := (hidle _ List.mem_cons_self hk).2
        simp only at hhalt
        rw [h] at hhalt
        cases hhalt

end Machine

end Coinjecture.Lib.Trace
