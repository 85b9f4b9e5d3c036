import Mathlib.Logic.Relation

/-!
# Runs of a state machine whose transitions may fail

A pallet is modelled as a state record and one function per entry point that returns
`Option` of the new state: `none` is a panic (a failed `expect`, `assert!`, or an arithmetic
overflow), after which the block is invalid and no state is committed. This file packages the
two facts every invariant proof of the development needs once:

* `runSteps step s ls` — the run of the labels `ls` from `s`, failing at the first panic;
* `Reachable step init s` — `s` is reached from `init` by successful transitions, and the
  induction rule `Reachable.invariant`: an invariant that holds initially and is kept by every
  successful transition holds in every reachable state;
* `foldl_invariant` — the same rule for a step function that never fails, a failed call leaving
  the state as it was;
* `reflTransGen_invariant` — the same rule for a nondeterministic step relation (used where the
  environment chooses among many inputs, such as stale proofs of another chain's state).
-/

namespace Cumulus.Found

variable {σ ι : Type*}

/-! ## Runs of a partial step function -/

/-- The run of the labels `ls` from `s`: each label is one call of an entry point, and the run
stops with `none` at the first call that panics. -/
def runSteps (step : σ → ι → Option σ) : σ → List ι → Option σ
  | s, [] => some s
  | s, l :: ls => (step s l).bind fun s' => runSteps step s' ls

@[simp] theorem runSteps_cons (step : σ → ι → Option σ) (s : σ) (l : ι) (ls : List ι) :
    runSteps step s (l :: ls) = (step s l).bind fun s' => runSteps step s' ls := rfl

/-- A fold of a partial step function in the `Option` monad is a run. -/
theorem foldlM_eq_runSteps (step : σ → ι → Option σ) (s : σ) (ls : List ι) :
    ls.foldlM step s = runSteps step s ls := by
  induction ls generalizing s with
  | nil => rfl
  | cons l ls ih =>
    rw [List.foldlM_cons, runSteps_cons]
    cases step s l with
    | none => rfl
    | some s' => exact ih s'

/-- One successful transition, by some label. -/
def Steps (step : σ → ι → Option σ) (s s' : σ) : Prop := ∃ l, step s l = some s'

/-- `s` is reached from `init` by a run of successful transitions. -/
def Reachable (step : σ → ι → Option σ) (init s : σ) : Prop :=
  Relation.ReflTransGen (Steps step) init s

/-- The initial state is reachable. -/
theorem Reachable.refl (step : σ → ι → Option σ) (init : σ) : Reachable step init init :=
  Relation.ReflTransGen.refl

/-- A state one successful step after a reachable state is reachable. -/
theorem Reachable.tail {step : σ → ι → Option σ} {init s s' : σ} {l : ι}
    (h : Reachable step init s) (hs : step s l = some s') : Reachable step init s' :=
  Relation.ReflTransGen.tail h ⟨l, hs⟩

/-- A run that does not panic ends in a reachable state. -/
theorem Reachable.of_runSteps {step : σ → ι → Option σ} {init s : σ} {ls : List ι}
    (h : runSteps step init ls = some s) : Reachable step init s := by
  induction ls generalizing init with
  | nil =>
    cases h
    exact Reachable.refl step _
  | cons l ls ih =>
    simp only [runSteps_cons, Option.bind_eq_some_iff] at h
    obtain ⟨s', hs', hrun⟩ := h
    exact Relation.ReflTransGen.head ⟨l, hs'⟩ (ih hrun)

/-- **The invariant rule.** An invariant that holds in `init` and is kept by every successful
transition holds in every reachable state. -/
theorem Reachable.invariant {step : σ → ι → Option σ} {init s : σ} {Inv : σ → Prop}
    (h0 : Inv init) (hstep : ∀ s l s', Inv s → step s l = some s' → Inv s')
    (h : Reachable step init s) : Inv s := by
  induction h with
  | refl => exact h0
  | tail _ hst ih =>
    obtain ⟨l, hl⟩ := hst
    exact hstep _ l _ ih hl

/-- The invariant rule along a run that does not panic. -/
theorem runSteps_invariant {step : σ → ι → Option σ} {init s : σ} {ls : List ι}
    {Inv : σ → Prop} (h0 : Inv init) (hstep : ∀ s l s', Inv s → step s l = some s' → Inv s')
    (h : runSteps step init ls = some s) : Inv s :=
  (Reachable.of_runSteps h).invariant h0 hstep

/-- The invariant rule along a run whose labels all satisfy `P`, for an invariant that the
transitions by such labels keep. -/
theorem runSteps_invariant_of_forall {step : σ → ι → Option σ} {init s : σ} {ls : List ι}
    {P : ι → Prop} {Inv : σ → Prop} (h0 : Inv init)
    (hstep : ∀ s l s', P l → Inv s → step s l = some s' → Inv s') (hls : ∀ l ∈ ls, P l)
    (h : runSteps step init ls = some s) : Inv s := by
  induction ls generalizing init with
  | nil =>
    cases h
    exact h0
  | cons l ls ih =>
    simp only [runSteps_cons, Option.bind_eq_some_iff] at h
    obtain ⟨s', hs', hrun⟩ := h
    have hl : P l := hls l List.mem_cons_self
    exact ih (hstep _ l _ hl h0 hs') (fun l' hl' => hls l' (List.mem_cons_of_mem _ hl')) hrun

/-! ## Step functions that never fail -/

/-- The invariant rule along a run of a step function without failures, whose labels all satisfy
`P`. -/
theorem foldl_invariant {step : σ → ι → σ} {init : σ} {ls : List ι} {P : ι → Prop}
    {Inv : σ → Prop} (h0 : Inv init) (hstep : ∀ s l, P l → Inv s → Inv (step s l))
    (hls : ∀ l ∈ ls, P l) : Inv (ls.foldl step init) := by
  induction ls generalizing init with
  | nil => exact h0
  | cons l ls ih =>
    rw [List.foldl_cons]
    exact ih (hstep init l (hls l List.mem_cons_self) h0)
      fun l' hl' => hls l' (List.mem_cons_of_mem _ hl')

/-! ## Fallible calls -/

/-- A mapped fallible call succeeds with the image of a result of the call. -/
theorem except_map_eq_ok {ε α β : Type*} {f : α → β} {x : Except ε α} {b : β}
    (h : x.map f = .ok b) : ∃ a, x = .ok a ∧ f a = b := by
  cases x with
  | error e => cases h
  | ok a =>
    cases h
    exact ⟨a, rfl, rfl⟩

/-- A mapped fallible call fails with the error of the call. -/
theorem except_map_eq_error {ε α β : Type*} {f : α → β} {x : Except ε α} {e : ε}
    (h : x.map f = .error e) : x = .error e := by
  cases x with
  | error e' =>
    cases h
    rfl
  | ok a => cases h

/-! ## Nondeterministic step relations -/

/-- The invariant rule for a step relation. -/
theorem reflTransGen_invariant {R : σ → σ → Prop} {a b : σ} {Inv : σ → Prop}
    (h0 : Inv a) (hstep : ∀ s s', Inv s → R s s' → Inv s') (h : Relation.ReflTransGen R a b) :
    Inv b := by
  induction h with
  | refl => exact h0
  | tail _ hst ih => exact hstep _ _ ih hst

end Cumulus.Found
