import Mathlib

/-!
# Runs of a step function

A component with a total step function `step : σ → ω → σ` is driven by a finite list of
operations, and `run step s ops` applies them from left to right.  Whole runs are reasoned
about in two ways only: an invariant that every step preserves holds after every run
(`run_invariant`, or `run_invariant_of_admissible` where the callers promise something about
the operations they issue), and a state that every step maps along an abstract step stays related to
the abstract run (`run_simulation`).  A component whose steps may fail is run up to its first
failure (`runExcept`), and an invariant of the steps that succeed holds after the runs that
succeed (`runExcept_invariant`); a run whose every step succeeds from where an invariant of
the operations done so far holds succeeds (`runExcept_spec`), and one that a total abstract
component simulates along the runs its callers admit succeeds and stays related to the
abstract run (`runExcept_simulation`).  The reachable states of a component are the ends of
its runs from the initial state.

A loop that rewrites the elements of a list in place while it updates a variable is `mapM` in
the state monad; when the new elements do not read the variable, it maps the list and folds
the variable (`mapM_run_of_run_eq`).
-/

namespace Run

variable {σ ω α : Type*}

/-- Apply a list of operations from left to right. -/
def run (step : σ → ω → σ) (s : σ) (ops : List ω) : σ :=
  ops.foldl step s

@[simp] lemma run_nil (step : σ → ω → σ) (s : σ) : run step s [] = s := rfl

@[simp] lemma run_cons (step : σ → ω → σ) (s : σ) (o : ω) (ops : List ω) :
    run step s (o :: ops) = run step (step s o) ops := rfl

lemma run_append (step : σ → ω → σ) (s : σ) (ops ops' : List ω) :
    run step s (ops ++ ops') = run step (run step s ops) ops' :=
  List.foldl_append

/-- The states at the end of some run from `s₀`. -/
def Reachable (step : σ → ω → σ) (s₀ s : σ) : Prop :=
  ∃ ops, run step s₀ ops = s

lemma Reachable.refl (step : σ → ω → σ) (s₀ : σ) : Reachable step s₀ s₀ :=
  ⟨[], rfl⟩

/-- One more step from a reachable state is reachable. -/
lemma Reachable.step {step : σ → ω → σ} {s₀ s : σ} (h : Reachable step s₀ s) (o : ω) :
    Reachable step s₀ (step s o) := by
  obtain ⟨ops, rfl⟩ := h
  exact ⟨ops ++ [o], by simp [run_append]⟩

section Invariant

variable {step : σ → ω → σ} {Inv : σ → Prop}

/-- An invariant of every step is an invariant of every run. -/
theorem run_invariant (hstep : ∀ s o, Inv s → Inv (step s o)) :
    ∀ (ops : List ω) (s : σ), Inv s → Inv (run step s ops) := by
  intro ops
  induction ops with
  | nil => exact fun _ h => h
  | cons o ops ih => exact fun s h => ih (step s o) (hstep s o h)

/-- An invariant of the initial state and of every step holds in every reachable state. -/
theorem Reachable.invariant {s₀ s : σ} (h0 : Inv s₀) (hstep : ∀ s o, Inv s → Inv (step s o))
    (h : Reachable step s₀ s) : Inv s := by
  obtain ⟨ops, rfl⟩ := h
  exact run_invariant hstep ops s₀ h0

/-- Every operation of a run is admissible in the state it is applied to: what the callers of
a component promise about the operations they issue. -/
def Admissible (step : σ → ω → σ) (ok : σ → ω → Prop) : σ → List ω → Prop
  | _, [] => True
  | s, o :: ops => ok s o ∧ Admissible step ok (step s o) ops

/-- Admissibility of a concrete run can be decided when that of a step can. -/
instance Admissible.decidable {ok : σ → ω → Prop} [∀ s o, Decidable (ok s o)] :
    ∀ (s : σ) (ops : List ω), Decidable (Admissible step ok s ops)
  | _, [] => isTrue trivial
  | s, o :: ops => @instDecidableAnd _ _ _ (Admissible.decidable (step s o) ops)

/-- An invariant of every admissible step is an invariant of every admissible run. -/
theorem run_invariant_of_admissible {ok : σ → ω → Prop}
    (hstep : ∀ s o, Inv s → ok s o → Inv (step s o)) :
    ∀ (ops : List ω) (s : σ), Inv s → Admissible step ok s ops → Inv (run step s ops) := by
  intro ops
  induction ops with
  | nil => exact fun _ h _ => h
  | cons o ops ih =>
    rintro s h ⟨hok, hadm⟩
    exact ih (step s o) (hstep s o h hok) hadm

end Invariant

section Simulation

variable {step : σ → ω → σ} {astep : α → ω → α} {abs : σ → α} {Inv : σ → Prop}

/-- A step that commutes with the abstraction on invariant states makes every run commute
with it. -/
theorem run_simulation (hinv : ∀ s o, Inv s → Inv (step s o))
    (hsim : ∀ s o, Inv s → abs (step s o) = astep (abs s) o) :
    ∀ (ops : List ω) (s : σ), Inv s → abs (run step s ops) = run astep (abs s) ops := by
  intro ops
  induction ops with
  | nil => exact fun _ _ => rfl
  | cons o ops ih =>
    intro s h
    rw [run_cons, run_cons, ih (step s o) (hinv s o h), hsim s o h]

end Simulation

section Fallible

variable {ε : Type*} {step : σ → ω → Except ε σ} {Inv : σ → Prop}

/-- Apply operations that may fail from left to right, up to the first failure. -/
def runExcept (step : σ → ω → Except ε σ) (s : σ) (ops : List ω) : Except ε σ :=
  ops.foldlM step s

/-- An invariant of every step that succeeds holds at the end of every run that succeeds. -/
theorem runExcept_invariant (hstep : ∀ s o s', Inv s → step s o = .ok s' → Inv s') :
    ∀ (ops : List ω) (s s' : σ), Inv s → runExcept step s ops = .ok s' → Inv s' := by
  intro ops
  induction ops with
  | nil =>
    intro s s' h hrun
    injection hrun with hrun
    exact hrun ▸ h
  | cons o ops ih =>
    intro s s' h hrun
    cases hs : step s o with
    | error e =>
      simp only [runExcept, List.foldlM_cons, hs] at hrun
      cases hrun
    | ok s₁ =>
      simp only [runExcept, List.foldlM_cons, hs] at hrun
      exact ih s₁ s' (hstep s o s₁ h hs) hrun

/-- The rule of a loop over `ops` that does not fail: if every step, from a state where the
invariant holds of the operations done so far, succeeds and keeps it for one operation more,
the run succeeds and the invariant holds of all the operations. -/
theorem runExcept_spec {I : List ω → σ → Prop} : ∀ (ops : List ω) {s : σ}, I [] s →
    (∀ done o s, done ++ [o] <+: ops → I done s → ∃ s', step s o = .ok s' ∧ I (done ++ [o]) s') →
    ∃ s', runExcept step s ops = .ok s' ∧ I ops s'
  | [], s, h0, _ => ⟨s, rfl, h0⟩
  | o :: ops, s, h0, hstep => by
    obtain ⟨s₁, hs, hI⟩ := hstep [] o s (by simp) h0
    -- the rest of the run, with the invariant shifted by the first operation
    obtain ⟨s', hrun, hI'⟩ := runExcept_spec (I := fun done => I (o :: done)) ops hI
      fun done o' s hp hI => hstep (o :: done) o' s (by simpa using hp) hI
    refine ⟨s', ?_, hI'⟩
    simp only [runExcept, List.foldlM_cons, hs] at hrun ⊢
    exact hrun

/-- A component whose steps may fail, next to an abstract one whose steps cannot: if from
related states every admissible step succeeds and stays related to the abstract step, every
admissible run succeeds and ends related to the abstract run. -/
theorem runExcept_simulation {astep : α → ω → α} {R : σ → α → Prop} {ok : α → ω → Prop}
    (hstep : ∀ s x o, R s x → ok x o → ∃ s', step s o = .ok s' ∧ R s' (astep x o)) :
    ∀ (ops : List ω) (s : σ) (x : α), R s x → Admissible astep ok x ops →
      ∃ s', runExcept step s ops = .ok s' ∧ R s' (run astep x ops)
  | [], s, _, h, _ => ⟨s, rfl, h⟩
  | o :: ops, s, x, h, ⟨hok, hadm⟩ => by
    obtain ⟨s₁, hs, h₁⟩ := hstep s x o h hok
    obtain ⟨s', hrun, h'⟩ := runExcept_simulation hstep ops s₁ (astep x o) h₁ hadm
    refine ⟨s', ?_, h'⟩
    simp only [runExcept, List.foldlM_cons, hs] at hrun ⊢
    exact hrun

/-- A run that succeeds ends at the state it yields. -/
lemma runExcept_eq_ok_of_isOk {s : σ} {ops : List ω} (d : σ)
    (h : (runExcept step s ops).isOk = true) :
    runExcept step s ops = .ok ((runExcept step s ops).toOption.getD d) := by
  cases hrun : runExcept step s ops with
  | error e =>
    rw [hrun] at h
    cases h
  | ok s' => rfl

end Fallible

/-! ## Loops in the state monad -/

section State

variable {σ α β : Type}

/-- A loop over `xs` in the state monad whose answers do not read the state maps the list and
folds the state. -/
theorem mapM_run_of_run_eq {g : α → StateM σ β} (f : α → β) (next : σ → α → σ)
    (hg : ∀ a s, (g a).run s = (f a, next s a)) :
    ∀ (xs : List α) (s : σ), (xs.mapM g).run s = (xs.map f, xs.foldl next s)
  | [], _ => rfl
  | x :: xs, s => by
    rw [List.mapM_cons, StateT.run_bind, hg]
    simp only [StateT.run_bind, mapM_run_of_run_eq f next hg xs]
    rfl

/-- A flag that each element assigns its own values to, one after the other, ends with the
last value assigned, or as it started if none is. -/
lemma foldl_getLast?_getD {α β : Type*} (g : α → List β) : ∀ (xs : List α) (b : β),
    xs.foldl (fun b x => (g x).getLast?.getD b) b = (xs.flatMap g).getLast?.getD b
  | [], _ => rfl
  | x :: xs, b => by
    rw [List.foldl_cons, foldl_getLast?_getD g xs, List.flatMap_cons, List.getLast?_append]
    cases (xs.flatMap g).getLast? <;> simp

end State

end Run
