import Dabba.Last.Basic
import Dabba.Transition.Basic
import Mathlib.Data.Nat.Notation
import Mathlib.Order.Basic

/-!
# Runs with events

Every step of a system may be an event that can be seen from the outside. A run then
has a history, and a simulation along a map that keeps the events carries a run to a
run with the same history.
-/

namespace Transition

variable {σ τ ε : Type*} {step : ε → σ → σ → Prop} {step' : ε → τ → τ → Prop}
variable {inv : σ → Prop} {f : σ → τ} {history : List ε} {s s' : σ}

/-- A run with the events of its steps, the oldest first. -/
inductive Runs (step : ε → σ → σ → Prop) : List ε → σ → σ → Prop
  | nil (s : σ) : Runs step [] s s
  | snoc {history : List ε} {e : ε} {s s₁ s' : σ} (hrun : Runs step history s s₁)
      (hlast : step e s₁ s') : Runs step (history ++ [e]) s s'

namespace Runs

theorem single {e : ε} (h : step e s s') : Runs step [e] s s' := .snoc (.nil s) h

theorem cons {e : ε} {s₁ : σ} (h : Runs step history s₁ s') (hfirst : step e s s₁) :
    Runs step (e :: history) s s' := by
  induction h with
  | nil => exact .single hfirst
  | snoc _ hlast ih => exact (ih hfirst).snoc hlast

theorem mono {step' : ε → σ → σ → Prop} (h : Runs step history s s')
    (hstep : ∀ e s s', step e s s' → step' e s s') : Runs step' history s s' := by
  induction h with
  | nil => exact .nil _
  | snoc _ hlast ih => exact ih.snoc (hstep _ _ _ hlast)

theorem reaches (h : Runs step history s s') : Reaches (fun s s' => ∃ e, step e s s') s s' := by
  induction h with
  | nil s => exact .refl
  | snoc _ hlast ih => exact ih.tail ⟨_, hlast⟩

/-- A property preserved by every step holds at the end of the run. -/
theorem inv_of_runs (hstep : ∀ e s s', inv s → step e s s' → inv s')
    (h : Runs step history s s') (hs : inv s) : inv s' := by
  induction h with
  | nil s => exact hs
  | snoc _ hlast ih => exact hstep _ _ _ (ih hs) hlast

/-- If every step is matched by one with the same event, so is every run. -/
theorem map (hstep : ∀ e s s', inv s → step e s s' → inv s')
    (hsim : ∀ e s s', inv s → step e s s' → step' e (f s) (f s'))
    (h : Runs step history s s') (hs : inv s) : Runs step' history (f s) (f s') := by
  induction h with
  | nil s => exact .nil (f s)
  | snoc hrun hlast ih =>
      exact .snoc (ih hs) (hsim _ _ _ (hrun.inv_of_runs hstep hs) hlast)

/-- What steps overwrite is in the end what the last of the events that write it has written,
and where there is none what it was. -/
theorem lastOf_of_runs {β : Type*} {part : σ → β} {written : ε → Option β}
    (h : Runs step history s s')
    (hstep : ∀ e ∈ history, ∀ s s', inv s → step e s s' →
      inv s' ∧ part s' = (written e).getD (part s)) (hs : inv s) :
    inv s' ∧ part s' = (Last.lastOf written history).getD (part s) := by
  induction h with
  | nil s => exact ⟨hs, rfl⟩
  | @snoc history e s s₁ s' hrun hlast ih =>
      obtain ⟨hs₁, hpart⟩ := ih (fun e he => hstep e (List.mem_append_left _ he)) hs
      obtain ⟨hs', hwritten⟩ :=
        hstep e (List.mem_append_right _ List.mem_cons_self) s₁ s' hs₁ hlast
      refine ⟨hs', ?_⟩
      rw [hwritten, hpart, Last.lastOf_concat]
      cases written e <;> rfl

/-- Something that no step puts off, and that every step with the event `e₀` brings closer,
is done once there were enough such steps. -/
theorem done_of_le_count [DecidableEq ε] {e₀ : ε} {done : σ → Prop} (due : ℕ → σ → Prop)
    (hinv : ∀ e s s', inv s → step e s s' → inv s')
    (hdone : ∀ e s s', done s → step e s s' → done s')
    (hother : ∀ e k s s', e ≠ e₀ → inv s → due k s → step e s s' → done s' ∨ due k s')
    (hcloser : ∀ k s s', inv s → due (k + 1) s → step e₀ s s' →
      done s' ∨ ∃ k' ≤ k, due k' s')
    (hzero : ∀ s, ¬ due 0 s) {k : ℕ} (h : Runs step history s s') (hs : inv s)
    (hdue : due k s) (hcount : k ≤ history.count e₀) : done s' := by
  have hrun : done s' ∨ ∃ k', k' + history.count e₀ ≤ k ∧ due k' s' := by
    clear hcount
    induction h with
    | nil s => exact .inr ⟨k, Nat.le_refl k, hdue⟩
    | @snoc history e s s₁ s' hrun hlast ih =>
        rcases ih hs hdue with hd | ⟨k', hk', hd⟩
        · exact .inl (hdone _ _ _ hd hlast)
        have hs₁ := hrun.inv_of_runs hinv hs
        by_cases he : e = e₀
        · subst he
          rw [List.count_append, List.count_singleton_self]
          cases k' with
          | zero => exact absurd hd (hzero s₁)
          | succ k' =>
              rcases hcloser k' s₁ s' hs₁ hd hlast with hd' | ⟨k'', hle, hd'⟩
              · exact .inl hd'
              · exact .inr ⟨k'', by omega, hd'⟩
        · have hnone : (history ++ [e]).count e₀ = history.count e₀ := by
            rw [List.count_append, List.count_singleton, if_neg (by simpa using he), Nat.add_zero]
          rw [hnone]
          exact (hother e k' s₁ s' he hs₁ hd hlast).imp_right fun hd' => ⟨k', hk', hd'⟩
  rcases hrun with hd | ⟨k', hk', hd⟩
  · exact hd
  · obtain rfl : k' = 0 := by omega
    exact absurd hd (hzero s')

end Runs

end Transition
