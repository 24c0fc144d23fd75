import Dabba.Last.Basic
import Dabba.Program.Basic

/-!
# Requests that keep apart

A server answers requests one after another. Some of them concern an observer, who sees
only a part of the state. Where the others leave that part as it is, and the ones that
concern him depend on that part only, the others can be taken out of any history: he gets
the same answers, and sees the same in the end.
-/

namespace Program

universe u

variable {F : Type → Type u} {α β : Type} {Ω σ : Type*}

namespace Prog

/-- The program does not abort, and every call it may make satisfies the predicate. -/
def Within (P : ∀ β : Type, F β → Prop) : Prog F α → Prop
  | .ret _ => True
  | .abort => False
  | .call op k => P _ op ∧ ∀ r, (k r).Within P

section Within

variable {P : ∀ β : Type, F β → Prop}

@[simp] theorem within_ret (a : α) : (Prog.ret a : Prog F α).Within P := trivial

@[simp] theorem within_call {δ : Type} (op : F δ) (k : δ → Prog F α) :
    (Prog.call op k).Within P ↔ P δ op ∧ ∀ r, (k r).Within P := Iff.rfl

@[simp] theorem within_perform (op : F α) : (perform op).Within P ↔ P α op :=
  ⟨fun h => h.1, fun h => ⟨h, fun _ => trivial⟩⟩

@[simp] theorem within_ite {c : Prop} [Decidable c] {p q : Prog F α} :
    (if c then p else q).Within P ↔ (c → p.Within P) ∧ (¬ c → q.Within P) := by
  by_cases hc : c <;> simp [hc]

theorem Within.bind {p : Prog F α} {f : α → Prog F β} (hp : p.Within P)
    (hf : ∀ a, (f a).Within P) : (p.bind f).Within P := by
  induction p with
  | ret a => exact hf a
  | abort => exact hp
  | call op k ih => exact ⟨hp.1, fun r => ih r (hp.2 r)⟩

theorem Within.map {p : Prog F α} {f : α → β} (hp : p.Within P) : (f <$> p).Within P :=
  hp.bind fun _ => trivial

theorem Within.hoist {G : Type → Type*} {f : ∀ β : Type, G β → F β} {p : Prog G α}
    (hp : p.Within fun β op => P β (f β op)) : (p.hoist f).Within P := by
  induction p with
  | ret a => trivial
  | abort => exact hp
  | call op k ih => exact ⟨hp.1, fun r => ih r (hp.2 r)⟩

variable {H : Handler F Ω σ} {E : σ → σ → Prop}

theorem Within.run_keeps (hrefl : ∀ s, E s s)
    (htrans : ∀ s₁ s₂ s₃, E s₁ s₂ → E s₂ s₃ → E s₁ s₃)
    (hP : ∀ {δ : Type} (op : F δ) o s, P δ op → E s (H op o s).2)
    {p : Prog F α} (hp : p.Within P) (script : ℕ → Ω) (s : σ) :
    ∃ a s', p.run H script s = some (a, s') ∧ E s s' := by
  induction p generalizing script s with
  | ret a => exact ⟨a, s, rfl, hrefl s⟩
  | abort => exact hp.elim
  | call op k ih =>
      obtain ⟨a, s', hrun, hsame⟩ :=
        ih (H op (script 0) s).1 (hp.2 _) (fun n => script (n + 1)) (H op (script 0) s).2
      exact ⟨a, s', hrun, htrans _ _ _ (hP op (script 0) s hp.1) hsame⟩

theorem Within.run_agrees
    (hP : ∀ {δ : Type} (op : F δ) o s t, P δ op → E s t →
      (H op o s).1 = (H op o t).1 ∧ E (H op o s).2 (H op o t).2)
    {p : Prog F α} (hp : p.Within P) (script : ℕ → Ω) {s t : σ} (hsame : E s t) :
    ∃ a s' t', p.run H script s = some (a, s') ∧ p.run H script t = some (a, t') ∧
      E s' t' := by
  induction p generalizing script s t with
  | ret a => exact ⟨a, s, t, rfl, rfl, hsame⟩
  | abort => exact hp.elim
  | call op k ih =>
      obtain ⟨hanswer, hsame'⟩ := hP op (script 0) s t hp.1 hsame
      obtain ⟨a, s', t', hs, ht, hsame'⟩ :=
        ih (H op (script 0) s).1 (hp.2 _) (fun n => script (n + 1)) hsame'
      refine ⟨a, s', t', hs, ?_, hsame'⟩
      rw [hanswer] at ht
      exact ht

end Within

theorem run_map {H : Handler F Ω σ} (p : Prog F α) (f : α → β) (script : ℕ → Ω) (s : σ) :
    (f <$> p).run H script s = (p.run H script s).map fun x => (f x.1, x.2) := by
  induction p generalizing script s with
  | ret a => rfl
  | abort => rfl
  | call op k ih => exact ih _ _ _

end Prog

variable {R A : Type}

/-- Serves requests one after another, each under a script of its own. The result is the
answer to each, and the state after them. -/
def serveAll (H : Handler F Ω σ) (serve : R → Prog F A) :
    List (R × (ℕ → Ω)) → σ → Option (List (R × A) × σ)
  | [], s => some ([], s)
  | (r, script) :: requests, s => do
      let (a, s) ← (serve r).run H script s
      let (answered, s) ← serveAll H serve requests s
      return ((r, a) :: answered, s)

/-- The requests that concern an observer depend on what he sees only, and the others leave
it as it is. -/
structure KeepsApart (H : Handler F Ω σ) (serve : R → Prog F A) (concerns : R → Prop)
    (E : σ → σ → Prop) : Prop where
  symm : ∀ s t, E s t → E t s
  trans : ∀ s₁ s₂ s₃, E s₁ s₂ → E s₂ s₃ → E s₁ s₃
  keeps : ∀ r script s, ¬ concerns r →
    ∃ a s', (serve r).run H script s = some (a, s') ∧ E s s'
  agrees : ∀ r script s t, concerns r → E s t →
    ∃ a s' t', (serve r).run H script s = some (a, s') ∧
      (serve r).run H script t = some (a, t') ∧ E s' t'

section serveAll

variable {H : Handler F Ω σ} {serve : R → Prog F A} {s s₁ s' : σ} {r : R} {a : A}
variable {script : ℕ → Ω} {requests : List (R × (ℕ → Ω))} {answered : List (R × A)}

theorem serveAll_cons (hfirst : (serve r).run H script s = some (a, s₁))
    (hrest : serveAll H serve requests s₁ = some (answered, s')) :
    serveAll H serve ((r, script) :: requests) s = some ((r, a) :: answered, s') := by
  rw [serveAll, hfirst]
  simp only [Option.bind_eq_bind, Option.bind_some, hrest]
  rfl

theorem exists_of_serveAll_cons {x : List (R × A) × σ}
    (h : serveAll H serve ((r, script) :: requests) s = some x) :
    ∃ a s₁ answered, (serve r).run H script s = some (a, s₁) ∧
      serveAll H serve requests s₁ = some (answered, x.2) ∧ x.1 = (r, a) :: answered := by
  rw [serveAll] at h
  obtain ⟨⟨a, s₁⟩, hfirst, h⟩ := Option.bind_eq_some_iff.1 h
  obtain ⟨⟨answered, s'⟩, hrest, h⟩ := Option.bind_eq_some_iff.1 h
  obtain rfl := Option.some.inj h
  exact ⟨a, s₁, answered, hfirst, hrest, rfl⟩

/-- Where every request is served and keeps a part of the state, so does a history. -/
theorem serveAll_keeps {E : σ → σ → Prop} (hrefl : ∀ s, E s s)
    (htrans : ∀ s₁ s₂ s₃, E s₁ s₂ → E s₂ s₃ → E s₁ s₃)
    (hkeeps : ∀ r script s, ∃ a s₁, (serve r).run H script s = some (a, s₁) ∧ E s s₁)
    (requests : List (R × (ℕ → Ω))) (s : σ) :
    ∃ answered s', serveAll H serve requests s = some (answered, s') ∧ E s s' := by
  induction requests generalizing s with
  | nil => exact ⟨[], s, rfl, hrefl s⟩
  | cons x requests ih =>
      obtain ⟨r, script⟩ := x
      obtain ⟨a, s₁, hfirst, h₁⟩ := hkeeps r script s
      obtain ⟨answered, s', hrest, h'⟩ := ih s₁
      exact ⟨_, s', serveAll_cons hfirst hrest, htrans _ _ _ h₁ h'⟩

/-- Where each answer says what a part of the state has become, or else the part is as it
was, the part has the last value that was said. -/
theorem read_serveAll {V : Type*} {read : σ → V} {said : R × A → Option V}
    (hstep : ∀ r a script s s₁, (serve r).run H script s = some (a, s₁) →
      read s₁ = (said (r, a)).getD (read s))
    (h : serveAll H serve requests s = some (answered, s')) :
    read s' = (Last.lastOf said answered).getD (read s) := by
  induction requests generalizing s answered with
  | nil =>
      obtain ⟨rfl, rfl⟩ := Prod.mk.inj (Option.some.inj h)
      rfl
  | cons x requests ih =>
      obtain ⟨r, script⟩ := x
      obtain ⟨a, s₁, answered, hfirst, hrest, rfl⟩ := exists_of_serveAll_cons h
      rw [ih hrest, hstep _ _ _ _ _ hfirst, Last.lastOf_cons]
      cases Last.lastOf said answered <;> rfl

/-- Without the requests that do not concern him, the observer gets the same answers, and
sees the same in the end. -/
theorem KeepsApart.purge {concerns : R → Prop} [DecidablePred concerns] {E : σ → σ → Prop}
    (h : KeepsApart H serve concerns E) (requests : List (R × (ℕ → Ω))) {s t : σ}
    (hsame : E s t) :
    ∃ answered s' t', serveAll H serve requests s = some (answered, s') ∧
      serveAll H serve (requests.filter fun x => concerns x.1) t =
        some (answered.filter fun x => concerns x.1, t') ∧ E s' t' := by
  induction requests generalizing s t with
  | nil => exact ⟨[], s, t, rfl, rfl, hsame⟩
  | cons x requests ih =>
      obtain ⟨r, script⟩ := x
      by_cases hr : concerns r
      · obtain ⟨a, s₁, t₁, hs₁, ht₁, hsame₁⟩ := h.agrees r script s t hr hsame
        obtain ⟨answered, s', t', hs', ht', hsame'⟩ := ih hsame₁
        refine ⟨(r, a) :: answered, s', t', serveAll_cons hs₁ hs', ?_, hsame'⟩
        rw [List.filter_cons_of_pos (by simpa using hr),
          List.filter_cons_of_pos (by simpa using hr)]
        exact serveAll_cons ht₁ ht'
      · obtain ⟨a, s₁, hs₁, hsame₁⟩ := h.keeps r script s hr
        have hsame₁ := h.trans _ _ _ (h.symm _ _ hsame₁) hsame
        obtain ⟨answered, s', t', hs', ht', hsame'⟩ := ih hsame₁
        refine ⟨(r, a) :: answered, s', t', serveAll_cons hs₁ hs', ?_, hsame'⟩
        rw [List.filter_cons_of_neg (by simpa using hr),
          List.filter_cons_of_neg (by simpa using hr)]
        exact ht'

end serveAll

end Program
