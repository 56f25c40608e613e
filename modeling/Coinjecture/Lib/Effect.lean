import Mathlib.Tactic

/-! # Computations that write as they go and may fail half way

`Exec ε σ α` is a computation on a store `σ` that returns an `α` or fails with an `ε`. The writes made
before a failure stay: nothing is rolled back, so `run` always returns a store. The simp set turns
`run` of a `do` block into a case distinction on its guards; `zoom` runs a computation on a part of
the store. `Failure` is the usual `ε`: an error text, or a panic; `Guarded` and
`EndsAs` specify a computation that reports an error only before its first write. -/

namespace Coinjecture.Lib.Effect

/-- A computation on the store `σ`; the store survives a failure. -/
abbrev Exec (ε σ α : Type) := ExceptT ε (StateM σ) α

variable {ε ε' σ τ α β : Type}

/-- The result of a computation, and the store it leaves. -/
def run (x : Exec ε σ α) (s : σ) : Except ε α × σ := StateT.run (ExceptT.run x) s

/-- The computation that reads `f` off the store. -/
def gets (f : σ → α) : Exec ε σ α := f <$> get

/-- `ok_or(e)?`. -/
def okOr (e : ε) : Option α → Exec ε σ α
  | some a => pure a
  | none => throw e

/-- `map_err(f)?`. -/
def mapErr (f : ε → ε') (x : Exec ε σ α) : Exec ε' σ α := fun s =>
  match run x s with
  | (.ok a, s') => (.ok a, s')
  | (.error e, s') => (.error (f e), s')

/-- `if c { return Err(e) }`. -/
def throwIf (c : Prop) [Decidable c] (e : ε) : Exec ε σ Unit :=
  if c then throw e else pure ()

/-- Run a computation on a part of the store. -/
def zoom (part : σ → τ) (put : τ → σ → σ) (x : Exec ε τ α) : Exec ε σ α := fun s =>
  match run x (part s) with
  | (r, t) => (r, put t s)

@[simp] theorem run_pure (a : α) (s : σ) : run (pure a : Exec ε σ α) s = (.ok a, s) := rfl

@[simp] theorem run_throw (e : ε) (s : σ) : run (throw e : Exec ε σ α) s = (.error e, s) := rfl

@[simp] theorem run_gets (f : σ → α) (s : σ) : run (gets f : Exec ε σ α) s = (.ok (f s), s) := rfl

@[simp] theorem run_modify (f : σ → σ) (s : σ) :
    run (modify f : Exec ε σ PUnit) s = (.ok ⟨⟩, f s) := rfl

@[simp] theorem run_okOr_some (e : ε) (a : α) (s : σ) :
    run (okOr e (some a) : Exec ε σ α) s = (.ok a, s) := rfl

@[simp] theorem run_okOr_none (e : ε) (s : σ) :
    run (okOr e none : Exec ε σ α) s = (.error e, s) := rfl

theorem run_bind (x : Exec ε σ α) (f : α → Exec ε σ β) (s : σ) :
    run (x >>= f) s = match run x s with
      | (.ok a, s') => run (f a) s'
      | (.error e, s') => (.error e, s') := by
  simp only [run, ExceptT.run_bind, StateT.run_bind]
  rcases StateT.run (ExceptT.run x) s with ⟨_ | _, _⟩ <;> rfl

@[simp] theorem run_map_modify (g : σ → σ) (f : PUnit → α) (s : σ) :
    run (f <$> (modify g : Exec ε σ PUnit)) s = (.ok (f ⟨⟩), g s) := rfl

@[simp] theorem run_throw_bind (e : ε) (f : α → Exec ε σ β) (s : σ) :
    run ((throw e : Exec ε σ α) >>= f) s = (.error e, s) := by
  rw [run_bind, run_throw]

@[simp] theorem run_gets_bind (g : σ → α) (f : α → Exec ε σ β) (s : σ) :
    run (gets g >>= f) s = run (f (g s)) s := by
  rw [run_bind, run_gets]

@[simp] theorem run_modify_bind (g : σ → σ) (f : PUnit → Exec ε σ β) (s : σ) :
    run ((modify g : Exec ε σ PUnit) >>= f) s = run (f ⟨⟩) (g s) := by
  rw [run_bind, run_modify]

@[simp] theorem run_okOr_some_bind (e : ε) (a : α) (f : α → Exec ε σ β) (s : σ) :
    run (okOr e (some a) >>= f) s = run (f a) s := by
  rw [run_bind, run_okOr_some]

@[simp] theorem run_okOr_none_bind (e : ε) (f : α → Exec ε σ β) (s : σ) :
    run (okOr e none >>= f) s = (.error e, s) := by
  rw [run_bind, run_okOr_none]

@[simp] theorem run_throwIf_bind (c : Prop) [Decidable c] (e : ε) (f : Unit → Exec ε σ α) (s : σ) :
    run (throwIf c e >>= f) s = if c then (.error e, s) else run (f ()) s := by
  unfold throwIf
  split_ifs <;> rfl

theorem run_ite (c : Prop) [Decidable c] (x y : Exec ε σ α) (s : σ) :
    run (if c then x else y) s = if c then run x s else run y s := by
  split_ifs <;> rfl

theorem run_mapErr (f : ε → ε') (x : Exec ε σ α) (s : σ) :
    run (mapErr f x) s = match run x s with
      | (.ok a, s') => (.ok a, s')
      | (.error e, s') => (.error (f e), s') := rfl

theorem run_zoom (part : σ → τ) (put : τ → σ → σ) (x : Exec ε τ α) (s : σ) :
    run (zoom part put x) s = ((run x (part s)).1, put (run x (part s)).2 s) := rfl

/-! Rules for a computation whose run is known. -/

theorem run_bind_ok {x : Exec ε σ α} {s s' : σ} {a : α} (h : run x s = (.ok a, s'))
    (f : α → Exec ε σ β) : run (x >>= f) s = run (f a) s' := by
  rw [run_bind, h]

theorem run_bind_error {x : Exec ε σ α} {s s' : σ} {e : ε} (h : run x s = (.error e, s'))
    (f : α → Exec ε σ β) : run (x >>= f) s = (.error e, s') := by
  rw [run_bind, h]

/-- A computation in two parts succeeds if both do. -/
theorem run_bind_eq_ok {x : Exec ε σ α} {f : α → Exec ε σ β} {s : σ} {b : β}
    (h : (run (x >>= f) s).1 = .ok b) :
    ∃ a s', run x s = (.ok a, s') ∧ (run (f a) s').1 = .ok b := by
  rw [run_bind] at h
  rcases hx : run x s with ⟨e | a, s'⟩
  · rw [hx] at h
    cases h
  · rw [hx] at h
    exact ⟨a, s', rfl, h⟩

theorem run_mapErr_ok {x : Exec ε σ α} {s s' : σ} {a : α} (h : run x s = (.ok a, s'))
    (f : ε → ε') : run (mapErr f x) s = (.ok a, s') := by
  rw [run_mapErr, h]

theorem run_mapErr_error {x : Exec ε σ α} {s s' : σ} {e : ε} (h : run x s = (.error e, s'))
    (f : ε → ε') : run (mapErr f x) s = (.error (f e), s') := by
  rw [run_mapErr, h]

theorem run_zoom_of {part : σ → τ} {put : τ → σ → σ} {x : Exec ε τ α} {s : σ} {t : τ}
    {r : Except ε α} (h : run x (part s) = (r, t)) : run (zoom part put x) s = (r, put t s) := by
  rw [run_zoom, h]

/-! ### Errors that are texts -/

/-- How a call that returns an error text may fail. -/
inductive Failure where
  | err (message : String)
  | panic
  deriving DecidableEq

/-- Put words before an error text. A panic is not an error and is passed on. -/
def Failure.context (words : String) : Failure → Failure
  | err message => err (words ++ message)
  | panic => panic

/-- `Err(m)?`. -/
def bail (m : String) : Exec Failure σ α := throw (.err m)

/-- `if c { return Err(m) }`. -/
def rejectIf (c : Prop) [Decidable c] (m : String) : Exec Failure σ Unit := throwIf c (.err m)

@[simp] theorem run_bail (m : String) (s : σ) :
    run (bail m : Exec Failure σ α) s = (.error (.err m), s) := rfl

@[simp] theorem run_rejectIf_bind (c : Prop) [Decidable c] (m : String)
    (f : Unit → Exec Failure σ α) (s : σ) : run (rejectIf c m >>= f) s =
      if c then (.error (.err m), s) else run (f ()) s :=
  run_throwIf_bind c _ f s

/-- Run `x` and return its error as a value. A panic is not caught. -/
def attempt (x : Exec Failure σ α) : Exec Failure σ (Except String α) := fun s =>
  match run x s with
  | (.ok a, s') => (.ok (.ok a), s')
  | (.error (.err m), s') => (.ok (.error m), s')
  | (.error .panic, s') => (.error .panic, s')

theorem run_attempt (x : Exec Failure σ α) (s : σ) :
    run (attempt x) s = match run x s with
      | (.ok a, s') => (.ok (.ok a), s')
      | (.error (.err m), s') => (.ok (.error m), s')
      | (.error .panic, s') => (.error .panic, s') := rfl

/-- `x` succeeds at `s` exactly if `guard` holds, and then ends as `r`; otherwise it reports an error
and leaves the store alone. -/
structure Guarded (x : Exec Failure σ α) (s : σ) (guard : Prop) (r : α × σ) : Prop where
  ok : guard → run x s = (.ok r.1, r.2)
  refused : ¬ guard → ∃ m, run x s = (.error (.err m), s)

/-- `x` ends at `s` as `o` says: with the store `o`, or with an error and nothing written. -/
def EndsAs (x : Exec Failure σ α) (s : σ) : Option (α × σ) → Prop
  | some (a, s') => run x s = (.ok a, s')
  | none => ∃ m, run x s = (.error (.err m), s)

theorem EndsAs.of_ok {x : Exec Failure σ α} {s s' : σ} {a : α} (h : run x s = (.ok a, s')) :
    EndsAs x s (some (a, s')) := h

theorem EndsAs.of_err {x : Exec Failure σ α} {s : σ} (h : ∃ m, run x s = (.error (.err m), s)) :
    EndsAs x s none := h

theorem EndsAs.of_guarded {x : Exec Failure σ α} {s : σ} {guard : Prop}
    [Decidable guard] {r : α × σ} (h : Guarded x s guard r) :
    EndsAs x s (if guard then some r else none) := by
  split_ifs with hg
  · exact h.ok hg
  · exact h.refused hg

theorem EndsAs.mapErr {x : Exec Failure σ α} {s : σ} {o : Option (α × σ)} (w : String)
    (h : EndsAs x s o) : EndsAs (mapErr (Failure.context w) x) s o := by
  rcases o with _ | ⟨a, s'⟩
  · obtain ⟨m, hm⟩ := h
    exact ⟨w ++ m, by rw [run_mapErr, hm]; rfl⟩
  · change run _ _ = _
    rw [run_mapErr, show run x s = _ from h]

theorem EndsAs.zoom {part : σ → τ} {put : τ → σ → σ} (hput : ∀ s, put (part s) s = s)
    {x : Exec Failure τ α} {s : σ} {o : Option (α × τ)} (h : EndsAs x (part s) o) :
    EndsAs (zoom part put x) s (o.map fun r => (r.1, put r.2 s)) := by
  rcases o with _ | ⟨a, t⟩
  · obtain ⟨m, hm⟩ := h
    exact ⟨m, by rw [run_zoom, hm, hput]⟩
  · change run _ _ = _
    rw [run_zoom, show run x (part s) = _ from h]

/-- The continuation of a computation that ends as `some` or `none` says. -/
theorem EndsAs.bind_some {x : Exec Failure σ α} {s s' : σ} {a : α} (h : EndsAs x s (some (a, s')))
    (f : α → Exec Failure σ β) : run (x >>= f) s = run (f a) s' :=
  run_bind_ok h f

theorem EndsAs.bind_none {x : Exec Failure σ α} {s : σ} (h : EndsAs x s none)
    (f : α → Exec Failure σ β) : ∃ m, run (x >>= f) s = (.error (.err m), s) := by
  obtain ⟨m, hm⟩ := h
  exact ⟨m, run_bind_error hm f⟩

end Coinjecture.Lib.Effect
