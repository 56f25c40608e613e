import Mathlib.Data.List.Induction
import Mathlib.Data.List.TakeWhile

/-! # A queue of recent keys

A queue remembers keys for some time, the oldest first: what has expired is dropped from its front, a key that
it does not hold is put at its end, and it never grows over its capacity. The clock may be read a little before
the queue is taken, so the times need not be in order: one that comes later is smaller by at most a skew.

* `passed_before` : of every arrival there is one with its key that was new, and not longer ago than the
  lifetime and the skew.
* `passed_again` : a key that is new once more comes after the lifetime, up to the skew, or after as many other
  keys as the queue can hold. -/

namespace Coinjecture.Lib.RecentKeys

variable {α κ : Type} [DecidableEq κ]

/-- Whether the queue holds the key, and the queue after that. -/
def see (capacity lifetime now : ℕ) (key : κ) (queue : List (κ × ℕ)) : Bool × List (κ × ℕ) :=
  let recent := queue.dropWhile fun e => lifetime < now - e.2
  if recent.any fun e => e.1 = key then (true, recent)
  else (false, (if capacity ≤ recent.length then recent.tail else recent) ++ [(key, now)])

/-- The queue, and the arrivals that were new. -/
structure Seen (α κ : Type) where
  queue : List (κ × ℕ)
  passed : List α

variable (capacity lifetime : ℕ) (key : α → κ) (time : α → ℕ)

def Seen.next (s : Seen α κ) (a : α) : Seen α κ :=
  let (held, queue) := see capacity lifetime (time a) (key a) s.queue
  ⟨queue, if held then s.passed else s.passed ++ [a]⟩

def seen (arrivals : List α) : Seen α κ := arrivals.foldl (Seen.next capacity lifetime key time) ⟨[], []⟩

/-- A time that comes later is smaller by at most the skew. -/
def Skewed (skew : ℕ) (arrivals : List α) : Prop := arrivals.Pairwise fun a b => time a ≤ time b + skew

/-- The entries of the queue. -/
def entries (kept : List α) : List (κ × ℕ) := kept.map fun a => (key a, time a)

/-- What is left at a time. -/
def unexpired (now : ℕ) (kept : List α) : List α := kept.dropWhile fun a => lifetime < now - time a

/-- What has expired at a time. -/
def expired (now : ℕ) (kept : List α) : List α := kept.takeWhile fun a => lifetime < now - time a

/-- What is gone has expired at some arrival, or is followed by too many. -/
structure GoneRightly (arrivals gone kept : List α) : Prop where
  length_le : kept.length ≤ capacity
  rightly : ∀ xs b ys, gone = xs ++ b :: ys →
    (∃ c ∈ arrivals, time b + lifetime < time c) ∨ capacity ≤ ys.length + kept.length

/-- The queue holds the end of what was new. -/
structure Inv (arrivals : List α) (s : Seen α κ) (gone kept : List α) : Prop where
  passed : s.passed = gone ++ kept
  queue : s.queue = entries key time kept
  gone : GoneRightly capacity lifetime time arrivals gone kept

variable {capacity lifetime key time} {arrivals gone kept : List α} {a b : α} {now : ℕ}

/-! ### Dropping and putting -/

variable (lifetime time) in
theorem expired_append_unexpired (now : ℕ) (kept : List α) :
    expired lifetime time now kept ++ unexpired lifetime time now kept = kept :=
  List.takeWhile_append_dropWhile

theorem lt_of_mem_expired (h : b ∈ expired lifetime time now kept) : time b + lifetime < now := by
  unfold expired at h
  have hexpired := List.mem_takeWhile_imp h
  have hlt : lifetime < now - time b := of_decide_eq_true hexpired
  omega

/-- The first that is left has not expired. -/
theorem le_of_unexpired {rest : List α} (h : unexpired lifetime time now kept = a :: rest) :
    now ≤ time a + lifetime := by
  have hfirst := List.head?_dropWhile_not (fun a => decide (lifetime < now - time a)) kept
  unfold unexpired at h
  rw [h, List.head?_cons] at hfirst
  have hnot : ¬ lifetime < now - time a := of_decide_eq_false hfirst
  omega

theorem GoneRightly.drop (h : GoneRightly capacity lifetime time arrivals gone kept) (a : α) :
    GoneRightly capacity lifetime time (arrivals ++ [a]) (gone ++ expired lifetime time (time a) kept)
      (unexpired lifetime time (time a) kept) := by
  have hkept := expired_append_unexpired lifetime time (time a) kept
  have hlength := congrArg List.length hkept
  rw [List.length_append] at hlength
  refine ⟨by have := h.length_le; omega, fun xs b ys hgone => ?_⟩
  obtain ⟨ms, hms, hrest⟩ | ⟨ms, hms, hrest⟩ := List.append_eq_append_iff.mp hgone
  · -- the entry has just expired
    have hmem : b ∈ expired lifetime time (time a) kept := by
      rw [hrest]
      exact List.mem_append_right _ List.mem_cons_self
    exact .inl ⟨a, by simp, lt_of_mem_expired hmem⟩
  · cases ms with
    | nil =>
      have hmem : b ∈ expired lifetime time (time a) kept := by
        rw [List.nil_append] at hrest
        rw [← hrest]
        exact List.mem_cons_self
      exact .inl ⟨a, by simp, lt_of_mem_expired hmem⟩
    | cons m ms =>
      rw [List.cons_append] at hrest
      obtain ⟨rfl, rfl⟩ := List.cons.inj hrest
      obtain ⟨c, hc, hlt⟩ | hmany := h.rightly xs b ms hms
      · exact .inl ⟨c, List.mem_append_left _ hc, hlt⟩
      · right
        rw [List.length_append]
        omega

/-- One more in the queue, with the first dropped if it is full. -/
def pushed (capacity : ℕ) (kept : List α) (a : α) : List α :=
  (if capacity ≤ kept.length then kept.tail else kept) ++ [a]

theorem GoneRightly.push (h : GoneRightly capacity lifetime time arrivals gone kept) (hcapacity : 0 < capacity)
    (a : α) : ∃ gone', gone ++ kept ++ [a] = gone' ++ pushed capacity kept a ∧
      GoneRightly capacity lifetime time arrivals gone' (pushed capacity kept a) := by
  have hle := h.length_le
  unfold pushed
  by_cases hfull : capacity ≤ kept.length
  · rw [if_pos hfull]
    cases kept with
    | nil => exact absurd hfull (by simp; omega)
    | cons first rest =>
      rw [List.length_cons] at hle hfull
      refine ⟨gone ++ [first], by simp, ⟨by simp; omega, fun xs b ys hgone => ?_⟩⟩
      simp only [List.tail_cons, List.length_append, List.length_singleton]
      obtain ⟨ms, hms, hrest⟩ | ⟨ms, hms, hrest⟩ := List.append_eq_append_iff.mp hgone
      · right
        omega
      · cases ms with
        | nil =>
          right
          omega
        | cons m ms =>
          rw [List.cons_append] at hrest
          obtain ⟨rfl, rfl⟩ := List.cons.inj hrest
          obtain hexpired | hmany := h.rightly xs b ms hms
          · exact .inl hexpired
          · right
            rw [List.length_cons] at hmany
            simp only [List.length_append, List.length_singleton]
            omega
  · rw [if_neg hfull]
    refine ⟨gone, by simp, ⟨by simp; omega, fun xs b ys hgone => ?_⟩⟩
    obtain hexpired | hmany := h.rightly xs b ys hgone
    · exact .inl hexpired
    · right
      simp only [List.length_append, List.length_singleton]
      omega

/-! ### One arrival -/

omit [DecidableEq κ] in
theorem length_entries (kept : List α) : (entries key time kept).length = kept.length := List.length_map ..

theorem see_entries (now : ℕ) (k : κ) (kept : List α) :
    see capacity lifetime now k (entries key time kept) =
      if ∃ b ∈ unexpired lifetime time now kept, key b = k then
        (true, entries key time (unexpired lifetime time now kept))
      else (false, entries key time (if capacity ≤ (unexpired lifetime time now kept).length
        then (unexpired lifetime time now kept).tail else unexpired lifetime time now kept) ++ [(k, now)]) := by
  have hrecent : ((entries key time kept).dropWhile fun e => lifetime < now - e.2) =
      entries key time (unexpired lifetime time now kept) := by
    unfold entries
    rw [List.dropWhile_map]
    rfl
  have hany : ((entries key time (unexpired lifetime time now kept)).any fun e => e.1 = k) = true ↔
      ∃ b ∈ unexpired lifetime time now kept, key b = k := by
    simp [entries]
  have htail : (entries key time (unexpired lifetime time now kept)).tail =
      entries key time (unexpired lifetime time now kept).tail := by
    unfold entries
    rw [List.map_tail]
  unfold see
  simp only [hrecent, hany, length_entries, htail]
  split_ifs
  · rfl
  · rfl
  · rfl

/-- What an arrival does. -/
theorem Inv.next (hcapacity : 0 < capacity) {s : Seen α κ}
    (h : Inv capacity lifetime key time arrivals s gone kept) (a : α) :
    ∃ gone' kept',
      Inv capacity lifetime key time (arrivals ++ [a]) (s.next capacity lifetime key time a) gone' kept' ∧
      ((∃ b ∈ unexpired lifetime time (time a) kept, key b = key a) ∧
          kept' = unexpired lifetime time (time a) kept ∧
            (s.next capacity lifetime key time a).passed = s.passed ∨
        (∀ b ∈ unexpired lifetime time (time a) kept, key b ≠ key a) ∧
            (s.next capacity lifetime key time a).passed = s.passed ++ [a]) := by
  have hdropped := h.gone.drop a
  have hpassed : s.passed = gone ++ expired lifetime time (time a) kept ++
      unexpired lifetime time (time a) kept := by
    rw [List.append_assoc, expired_append_unexpired, h.passed]
  unfold Seen.next
  rw [h.queue, see_entries]
  by_cases hheld : ∃ b ∈ unexpired lifetime time (time a) kept, key b = key a
  · rw [if_pos hheld]
    exact ⟨_, _, ⟨hpassed, rfl, hdropped⟩, .inl ⟨hheld, rfl, rfl⟩⟩
  · rw [if_neg hheld]
    obtain ⟨gone', hgone', hpushed⟩ := hdropped.push hcapacity a
    refine ⟨gone', _, ⟨?_, ?_, hpushed⟩, .inr ⟨fun b hb hkey => hheld ⟨b, hb, hkey⟩, rfl⟩⟩
    · rw [← hgone', ← hpassed]
      rfl
    · unfold pushed entries
      rw [List.map_append]
      rfl

/-! ### Runs -/

theorem seen_concat (arrivals : List α) (a : α) : seen capacity lifetime key time (arrivals ++ [a]) =
    (seen capacity lifetime key time arrivals).next capacity lifetime key time a := by
  unfold seen
  rw [List.foldl_append]
  rfl

variable (capacity lifetime key time) in
theorem exists_inv (hcapacity : 0 < capacity) (arrivals : List α) :
    ∃ gone kept, Inv capacity lifetime key time arrivals (seen capacity lifetime key time arrivals) gone kept := by
  induction arrivals using List.reverseRecOn with
  | nil => exact ⟨[], [], rfl, rfl, ⟨Nat.zero_le _, fun xs b ys h => by simp at h⟩⟩
  | append_singleton arrivals a ih =>
    obtain ⟨gone, kept, hinv⟩ := ih
    obtain ⟨gone', kept', hinv', -⟩ := hinv.next hcapacity a
    rw [seen_concat]
    exact ⟨gone', kept', hinv'⟩

variable (capacity lifetime key time) in
theorem passed_sublist (arrivals : List α) : (seen capacity lifetime key time arrivals).passed.Sublist arrivals := by
  induction arrivals using List.reverseRecOn with
  | nil => exact List.Sublist.refl _
  | append_singleton arrivals a ih =>
    rw [seen_concat]
    unfold Seen.next
    simp only
    split_ifs
    · exact ih.trans (List.sublist_append_left _ _)
    · exact ih.append_right _

variable {skew : ℕ}

theorem Skewed.before (h : Skewed time skew (arrivals ++ [a])) (hb : b ∈ arrivals ++ [a]) :
    time b ≤ time a + skew := by
  obtain hb | hb := List.mem_append.mp hb
  · exact (List.pairwise_append.mp h).2.2 b hb a (List.mem_singleton_self a)
  · rw [List.mem_singleton.mp hb]
    exact Nat.le_add_right _ _

variable (capacity lifetime key time) in
/-- Of every arrival there is one with its key that was new, within the lifetime and the skew, and followed by
fewer than the queue can hold. -/
theorem passed_before (hcapacity : 0 < capacity) (hskew : Skewed time skew (arrivals ++ [a])) :
    ∃ xs b ys, (seen capacity lifetime key time (arrivals ++ [a])).passed = xs ++ b :: ys ∧ key b = key a ∧
      time a ≤ time b + lifetime + skew ∧ ys.length < capacity := by
  obtain ⟨gone, kept, hinv⟩ := exists_inv capacity lifetime key time hcapacity arrivals
  obtain ⟨gone', kept', hinv', ⟨⟨b, hb, hkey⟩, rfl, hpassed⟩ | ⟨-, hpassed⟩⟩ := hinv.next hcapacity a
  · rw [seen_concat]
    obtain ⟨xs, ys, hrest⟩ := List.append_of_mem hb
    refine ⟨gone' ++ xs, b, ys, by rw [hinv'.passed, hrest, List.append_assoc], hkey, ?_, ?_⟩
    · -- the first in the queue has not expired, and those after it are older by at most the skew
      cases hfirst : unexpired lifetime time (time a) kept with
      | nil =>
        rw [hfirst] at hb
        cases hb
      | cons first rest =>
        have hle := le_of_unexpired hfirst
        have hsub : (first :: rest).Sublist arrivals := by
          rw [← hfirst]
          refine (List.dropWhile_sublist _).trans ?_
          refine List.Sublist.trans ?_ (passed_sublist capacity lifetime key time arrivals)
          rw [hinv.passed]
          exact List.sublist_append_right _ _
        have hordered := (List.pairwise_append.mp hskew).1.sublist hsub
        rw [hfirst] at hb
        obtain rfl | hb := List.mem_cons.mp hb
        · omega
        · have := (List.pairwise_cons.mp hordered).1 b hb
          omega
    · have hle := hinv'.gone.length_le
      rw [hrest, List.length_append, List.length_cons] at hle
      omega
  · rw [seen_concat]
    exact ⟨_, a, [], hpassed, rfl, by omega, hcapacity⟩

/-- A key that is new once more comes after the lifetime, up to the skew, or after as many other keys as the
queue can hold. -/
theorem passed_again (hcapacity : 0 < capacity) (hskew : Skewed time skew arrivals) {xs ys zs : List α}
    (hpassed : (seen capacity lifetime key time arrivals).passed = xs ++ b :: ys ++ a :: zs)
    (hkey : key b = key a) : time b + lifetime < time a + skew ∨ capacity ≤ ys.length := by
  induction arrivals using List.reverseRecOn generalizing zs with
  | nil => simp [seen] at hpassed
  | append_singleton arrivals c ih =>
    have hbefore : Skewed time skew arrivals := (List.pairwise_append.mp hskew).1
    obtain ⟨gone, kept, hinv⟩ := exists_inv capacity lifetime key time hcapacity arrivals
    rw [seen_concat] at hpassed
    obtain ⟨gone', kept', hinv', ⟨-, -, hnext⟩ | ⟨hfresh, hnext⟩⟩ := hinv.next hcapacity c
    · exact ih hbefore (hnext.symm.trans hpassed)
    · rw [hnext] at hpassed
      obtain rfl | ⟨zs, last, rfl⟩ := List.eq_nil_or_concat zs
      · -- the last one is the one that has just come
        obtain ⟨hinit, hlast⟩ := List.append_inj' hpassed rfl
        obtain rfl : c = a := List.singleton_inj.mp hlast
        have hdropped := hinv.gone.drop c
        have hsplit : gone ++ expired lifetime time (time c) kept ++ unexpired lifetime time (time c) kept =
            xs ++ b :: ys := by
          rw [List.append_assoc, expired_append_unexpired, ← hinv.passed, hinit]
        obtain ⟨ms, hms, hrest⟩ | ⟨ms, hms, hrest⟩ := List.append_eq_append_iff.mp hsplit
        · have hmem : b ∈ unexpired lifetime time (time c) kept := by
            rw [hrest]
            exact List.mem_append_right _ List.mem_cons_self
          exact absurd hkey (hfresh b hmem)
        · cases ms with
          | nil =>
            have hmem : b ∈ unexpired lifetime time (time c) kept := by
              rw [List.nil_append] at hrest
              rw [← hrest]
              exact List.mem_cons_self
            exact absurd hkey (hfresh b hmem)
          | cons m ms =>
            rw [List.cons_append] at hrest
            obtain ⟨rfl, rfl⟩ := List.cons.inj hrest
            obtain ⟨d, hd, hlt⟩ | hmany := hdropped.rightly xs b ms hms
            · left
              have := hskew.before hd
              omega
            · right
              rw [List.length_append]
              omega
      · have hassoc : xs ++ b :: ys ++ a :: (zs ++ [last]) = (xs ++ b :: ys ++ a :: zs) ++ [last] := by simp
        rw [List.concat_eq_append, hassoc] at hpassed
        exact ih hbefore (List.append_inj' hpassed rfl).1

end Coinjecture.Lib.RecentKeys
