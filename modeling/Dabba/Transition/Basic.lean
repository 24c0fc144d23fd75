import Mathlib.Logic.Relation

/-!
# Runs, invariants and simulations

A run of a system with the step relation `step` is a chain of steps. A property
that every step preserves holds at the end of a run when it holds at its start.
A simulation along a map `f` matches every step of one system by a step, or by
no step at all, of another one, so that runs are carried along.
-/

namespace Transition

variable {σ τ : Type*} {step : σ → σ → Prop} {inv : σ → Prop}

abbrev Reaches (step : σ → σ → Prop) : σ → σ → Prop := Relation.ReflTransGen step

/-- A property preserved by every step holds along every run. -/
theorem inv_of_reaches (hstep : ∀ s s', inv s → step s s' → inv s') {s s' : σ}
    (h : Reaches step s s') (hs : inv s) : inv s' := by
  induction h with
  | refl => exact hs
  | tail _ hlast ih => exact hstep _ _ ih hlast

/-- Every step from a state with the invariant is matched by at most one step
of the other system. -/
def Simulates (step : σ → σ → Prop) (step' : τ → τ → Prop) (inv : σ → Prop)
    (f : σ → τ) : Prop :=
  ∀ s s', inv s → step s s' → Relation.ReflGen step' (f s) (f s')

/-- A simulation carries runs to runs. -/
theorem Simulates.reaches {step' : τ → τ → Prop} {f : σ → τ}
    (hsim : Simulates step step' inv f)
    (hstep : ∀ s s', inv s → step s s' → inv s') {s s' : σ}
    (h : Reaches step s s') (hs : inv s) : Reaches step' (f s) (f s') := by
  induction h with
  | refl => exact .refl
  | tail hrun hlast ih =>
      have hinv := inv_of_reaches hstep hrun hs
      exact ih.trans (hsim _ _ hinv hlast).to_reflTransGen

/-- An invariant of the simulating system holds, through the map, along every
run of the simulated one. -/
theorem Simulates.inv_of_reaches {step' : τ → τ → Prop} {f : σ → τ}
    {inv' : τ → Prop} (hsim : Simulates step step' inv f)
    (hstep : ∀ s s', inv s → step s s' → inv s')
    (hstep' : ∀ t t', inv' t → step' t t' → inv' t') {s s' : σ}
    (h : Reaches step s s') (hs : inv s) (hs' : inv' (f s)) : inv' (f s') :=
  Transition.inv_of_reaches hstep' (hsim.reaches hstep h hs) hs'

end Transition
