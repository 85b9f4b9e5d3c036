import Mathlib.Algebra.GroupWithZero.Nat
import Cumulus.Found.Run

/-!
# Runs that deposit events, and conservation laws over them

A pallet's entry point that never panics is modelled as a function from a state and a call to
the new state and the events the call deposited; a call that fails is rolled back with its
events. This file packages the run of such a step function and the two rules the development
needs about it:

* `runLog step s ls` — the state after the calls `ls` and the events they deposited, in order;
* `runLog_invariant` — an invariant kept by every step holds after every run;
* `runLog_conservation`, `runLog_conservation_of_lt` — a conservation law with saturation: when
  each step at most moves `added l` into a pending quantity and out of it what its events pay,
  then over a run the pending quantity and the payments are at most the start and everything
  added; and equal to it when no step saturates, which holds as long as the start and
  everything added stay below the bound at which a step may saturate.
-/

namespace Cumulus.Found

variable {σ ι ε : Type*}

/-- The run of the calls `ls` from `s`: the last state, and the events of every call in order. -/
def runLog (step : σ → ι → σ × List ε) : σ → List ι → σ × List ε
  | s, [] => (s, [])
  | s, l :: ls => Prod.map id ((step s l).2 ++ ·) (runLog step (step s l).1 ls)

@[simp] theorem runLog_nil (step : σ → ι → σ × List ε) (s : σ) :
    runLog step s [] = (s, []) := rfl

@[simp] theorem runLog_cons_fst (step : σ → ι → σ × List ε) (s : σ) (l : ι)
    (ls : List ι) : (runLog step s (l :: ls)).1 = (runLog step (step s l).1 ls).1 := rfl

@[simp] theorem runLog_cons_snd (step : σ → ι → σ × List ε) (s : σ) (l : ι)
    (ls : List ι) :
    (runLog step s (l :: ls)).2 = (step s l).2 ++ (runLog step (step s l).1 ls).2 := rfl

/-- The invariant rule along a run whose calls all satisfy `P`. -/
theorem runLog_invariant {step : σ → ι → σ × List ε} {P : ι → Prop} (Inv : σ → Prop)
    (hstep : ∀ s l, P l → Inv s → Inv (step s l).1) {s : σ} {ls : List ι} (h0 : Inv s)
    (hls : ∀ l ∈ ls, P l) : Inv (runLog step s ls).1 := by
  induction ls generalizing s with
  | nil => exact h0
  | cons l ls ih =>
    rw [runLog_cons_fst]
    exact ih (hstep s l (hls l List.mem_cons_self) h0)
      fun l' hl' => hls l' (List.mem_cons_of_mem _ hl')

/-! ## Conservation -/

section conservation

variable (pending : σ → ℕ) (paid : ε → ℕ) (added : ι → ℕ)

/-- What a step pays with its events, plus what stays pending after it. -/
def stepBalance (step : σ → ι → σ × List ε) (s : σ) (l : ι) : ℕ :=
  pending (step s l).1 + ((step s l).2.map paid).sum

/-- **Conservation over a run**: when no step pays out and leaves pending more than was pending
and it added, neither does the run. -/
theorem runLog_conservation {step : σ → ι → σ × List ε}
    (hstep : ∀ s l, stepBalance pending paid step s l ≤ pending s + added l)
    (s : σ) (ls : List ι) :
    pending (runLog step s ls).1 + ((runLog step s ls).2.map paid).sum ≤
      pending s + (ls.map added).sum := by
  induction ls generalizing s with
  | nil => simp
  | cons l ls ih =>
    have hl := hstep s l
    have hrest := ih (step s l).1
    simp only [stepBalance] at hl
    simp only [runLog_cons_fst, runLog_cons_snd, List.map_append, List.sum_append,
      List.map_cons, List.sum_cons]
    omega

/-- **Exact conservation over a run**: when every step that starts below `bound` (it does not
saturate) pays out and leaves pending exactly what was pending and it added, a run whose
start and additions stay below `bound` pays out and leaves pending exactly that. -/
theorem runLog_conservation_of_lt {step : σ → ι → σ × List ε} (bound : ℕ)
    (hexact : ∀ s l, pending s + added l < bound →
      stepBalance pending paid step s l = pending s + added l)
    {s : σ} {ls : List ι} (h : pending s + (ls.map added).sum < bound) :
    pending (runLog step s ls).1 + ((runLog step s ls).2.map paid).sum =
      pending s + (ls.map added).sum := by
  induction ls generalizing s with
  | nil => simp
  | cons l ls ih =>
    simp only [List.map_cons, List.sum_cons] at h
    -- the step does not saturate, and the state it leaves is below the bound with the rest
    have hl := hexact s l (by omega)
    simp only [stepBalance] at hl
    have hrest := ih (s := (step s l).1) (by omega)
    simp only [runLog_cons_fst, runLog_cons_snd, List.map_append, List.sum_append,
      List.map_cons, List.sum_cons]
    omega

end conservation

end Cumulus.Found
