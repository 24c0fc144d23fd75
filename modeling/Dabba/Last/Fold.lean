import Dabba.Last.Basic

/-!
# Entries that can be refused

A list is read entry by entry, and an entry that is refused ends the reading. Whether one
is refused may depend on a part of what was read so far. If none is, each part of the
result is what the entries do to it in order.
-/

namespace Last

variable {α β σ γ ε : Type*} {step : σ → α → Except ε σ} {options : List α} {s s' : σ}

/-- Why the first of the entries that is refused is refused, if one is. `refusal` and `next`
are about the part of the state that this depends on. -/
def firstRefusal (refusal : γ → α → Option ε) (next : γ → α → γ) : γ → List α → Option ε
  | _, [] => none
  | c, o :: options => (refusal c o).or (firstRefusal refusal next (next c o) options)

theorem firstRefusal_unit (f : α → Option ε) (options : List α) :
    firstRefusal (fun _ => f) (fun _ _ => ()) () options = options.findSome? f := by
  induction options with
  | nil => rfl
  | cons o options ih =>
      rw [firstRefusal, ih, List.findSome?_cons]
      cases f o <;> rfl

/-- What every entry that is taken does to a part of the state, all of them do in order. -/
theorem of_foldlM_ok {part : σ → γ} {next : γ → α → γ}
    (hstep : ∀ s o s', step s o = .ok s' → part s' = next (part s) o)
    (h : options.foldlM step s = .ok s') : part s' = options.foldl next (part s) := by
  induction options generalizing s with
  | nil =>
      obtain rfl := Except.ok.inj h
      rfl
  | cons o options ih =>
      rw [List.foldlM_cons] at h
      cases hfirst : step s o with
      | error e =>
          rw [hfirst] at h
          cases h
      | ok s₁ =>
          rw [hfirst] at h
          rw [ih h, hstep s o s₁ hfirst, List.foldl_cons]

theorem lastOf_of_foldlM_ok {part : σ → β} {f : α → Option β}
    (hstep : ∀ s o s', step s o = .ok s' → part s' = (f o).getD (part s))
    (h : options.foldlM step s = .ok s') : part s' = (lastOf f options).getD (part s) := by
  have hfold : part s' = options.foldl (fun b o => (f o).getD b) (part s) :=
    of_foldlM_ok hstep h
  rw [hfold, foldl_getD]

/-- An entry is refused or taken, by a part of the state and the entry. -/
structure Decides (step : σ → α → Except ε σ) (part : σ → γ) (refusal : γ → α → Option ε)
    (next : γ → α → γ) : Prop where
  error : ∀ {s o e}, refusal (part s) o = some e → step s o = .error e
  ok : ∀ {s o}, refusal (part s) o = none → ∃ s', step s o = .ok s'
  next : ∀ s o s', step s o = .ok s' → part s' = next (part s) o

namespace Decides

variable {part : σ → γ} {refusal : γ → α → Option ε} {next : γ → α → γ}

/-- The first entry that is refused ends the reading. -/
theorem foldlM_error (h : Decides step part refusal next) {e : ε}
    (hrefused : firstRefusal refusal next (part s) options = some e) :
    options.foldlM step s = .error e := by
  induction options generalizing s with
  | nil => cases hrefused
  | cons o options ih =>
      rw [List.foldlM_cons]
      rw [firstRefusal] at hrefused
      cases hfirst : refusal (part s) o with
      | some e' =>
          rw [hfirst] at hrefused
          obtain rfl := Option.some.inj hrefused
          rw [h.error hfirst]
          rfl
      | none =>
          rw [hfirst, Option.none_or] at hrefused
          obtain ⟨s₁, hs₁⟩ := h.ok hfirst
          rw [← h.next s o s₁ hs₁] at hrefused
          rw [hs₁]
          exact ih hrefused

theorem foldlM_ok (h : Decides step part refusal next)
    (hrefused : firstRefusal refusal next (part s) options = none) :
    ∃ s', options.foldlM step s = .ok s' := by
  induction options generalizing s with
  | nil => exact ⟨s, rfl⟩
  | cons o options ih =>
      obtain ⟨hfirst, hrest⟩ := Option.or_eq_none_iff.1 hrefused
      obtain ⟨s₁, hs₁⟩ := h.ok hfirst
      rw [← h.next s o s₁ hs₁] at hrest
      rw [List.foldlM_cons, hs₁]
      exact ih hrest

end Decides

end Last
