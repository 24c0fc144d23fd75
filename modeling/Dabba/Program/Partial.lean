import Dabba.Program.Basic

/-!
# Completed runs

`Prog.Exec S p s a s'` says that some run of `p` from `s` ends with the result
`a` in the state `s'`, and `Prog.wlp S p Q s` that every run that ends satisfies
`Q`; a run that aborts does not end. What holds of every single call of a program
and is passed on from state to state holds of its runs.
-/

namespace Program

namespace Prog

universe u

variable {F : Type → Type u} {α β : Type} {σ : Type*} (S : Sem F σ)

/-- Some run of the program ends with this result in this state. -/
def Exec : Prog F α → σ → α → σ → Prop
  | .ret a, s, b, s' => a = b ∧ s = s'
  | .abort, _, _, _ => False
  | .call op k, s, b, s' => ∃ r s₁, S op s r s₁ ∧ (k r).Exec s₁ b s'

def wlp : Prog F α → (α → σ → Prop) → σ → Prop
  | .ret a, Q, s => Q a s
  | .abort, _, _ => True
  | .call op k, Q, s => ∀ r s', S op s r s' → (k r).wlp Q s'

theorem wlp_iff_exec {p : Prog F α} {Q : α → σ → Prop} {s : σ} :
    p.wlp S Q s ↔ ∀ a s', p.Exec S s a s' → Q a s' := by
  induction p generalizing s with
  | ret a =>
      constructor
      · rintro h _ _ ⟨rfl, rfl⟩
        exact h
      · exact fun h => h a s ⟨rfl, rfl⟩
  | abort => exact ⟨fun _ _ _ h => h.elim, fun _ => trivial⟩
  | call op k ih =>
      constructor
      · rintro h a s' ⟨r, s₁, hs, hrun⟩
        exact (ih r).1 (h r s₁ hs) a s' hrun
      · intro h r s₁ hs
        exact (ih r).2 fun a s' hrun => h a s' ⟨r, s₁, hs, hrun⟩

theorem wlp_true (p : Prog F α) (s : σ) : p.wlp S (fun _ _ => True) s :=
  (wlp_iff_exec S).2 fun _ _ _ => trivial

theorem Exec.of_wlp {p : Prog F α} {Q : α → σ → Prop} {s s' : σ} {a : α}
    (h : p.Exec S s a s') (hp : p.wlp S Q s) : Q a s' :=
  (wlp_iff_exec S).1 hp a s' h

theorem Exec.mono {S' : Sem F σ}
    (hS : ∀ {δ : Type} (op : F δ) s r s', S op s r s' → S' op s r s') {p : Prog F α}
    {s s' : σ} {a : α} (h : p.Exec S s a s') : p.Exec S' s a s' := by
  induction p generalizing s with
  | ret b => exact h
  | abort => exact h
  | call op k ih =>
      obtain ⟨r, s₁, hs, hrun⟩ := h
      exact ⟨r, s₁, hS op s r s₁ hs, ih r hrun⟩

theorem wlp_of_le {S' : Sem F σ}
    (hS : ∀ {δ : Type} (op : F δ) s r s', S op s r s' → S' op s r s') {p : Prog F α}
    {Q : α → σ → Prop} {s : σ} (h : p.wlp S' Q s) : p.wlp S Q s :=
  (wlp_iff_exec S).2 fun _ _ hrun => (hrun.mono S hS).of_wlp S' h

theorem Exec.of_wp {p : Prog F α} {Q : α → σ → Prop} {s s' : σ} {a : α}
    (h : p.Exec S s a s') (hp : p.wp S Q s) : Q a s' := by
  induction p generalizing s with
  | ret b =>
      obtain ⟨rfl, rfl⟩ := h
      exact hp
  | abort => exact hp.elim
  | call op k ih =>
      obtain ⟨r, s₁, hs, hrun⟩ := h
      exact ih r hrun (hp r s₁ hs)

theorem wlp_and {p : Prog F α} {Q R : α → σ → Prop} {s : σ} (hQ : p.wlp S Q s)
    (hR : p.wlp S R s) : p.wlp S (fun a s' => Q a s' ∧ R a s') s :=
  (wlp_iff_exec S).2 fun _ _ h => ⟨h.of_wlp S hQ, h.of_wlp S hR⟩

theorem wlp_keep {I : σ → Prop}
    (hS : ∀ {δ : Type} (op : F δ) s r s', I s → S op s r s' → I s') (p : Prog F α)
    {s : σ} (hI : I s) : p.wlp S (fun _ s' => I s') s := by
  induction p generalizing s with
  | ret a => exact hI
  | abort => trivial
  | call op k ih => exact fun r s' hs => ih r (hS op s r s' hI hs)

/-- A run that ends follows some script. -/
theorem exists_run_of_exec {Ω : Type*} (o₀ : Ω) {H : Handler F Ω σ}
    {allowed : ∀ {β : Type}, F β → Ω → σ → Prop} {p : Prog F α} {s s' : σ} {a : α}
    (h : p.Exec (H.sem allowed) s a s') :
    ∃ script, p.run H script s = some (a, s') := by
  induction p generalizing s with
  | ret b =>
      obtain ⟨rfl, rfl⟩ := h
      exact ⟨fun _ => o₀, rfl⟩
  | abort => exact h.elim
  | call op k ih =>
      obtain ⟨r, s₁, ⟨o, -, heq⟩, hrun⟩ := h
      obtain ⟨script, hscript⟩ := ih r hrun
      refine ⟨fun n => n.casesOn o script, ?_⟩
      have hcall : (Prog.call op k).run H (fun n => n.casesOn o script) s =
          (k (H op o s).1).run H script (H op o s).2 := rfl
      rw [hcall, heq]
      exact hscript

theorem exec_of_run {Ω : Type*} {H : Handler F Ω σ}
    {allowed : ∀ {β : Type}, F β → Ω → σ → Prop} {p : Prog F α} {s s' : σ} {a : α}
    {script : ℕ → Ω}
    (hscript : ∀ n {δ : Type} (op : F δ) s, allowed op (script n) s)
    (h : p.run H script s = some (a, s')) : p.Exec (H.sem allowed) s a s' := by
  induction p generalizing s script with
  | ret b =>
      obtain ⟨rfl, rfl⟩ := Prod.mk.inj (Option.some.inj h)
      exact ⟨rfl, rfl⟩
  | abort => cases h
  | call op k ih =>
      exact ⟨_, _, ⟨script 0, hscript 0 op s, rfl⟩,
        ih _ (fun n => hscript (n + 1)) h⟩

@[simp] theorem wlp_ret (a : α) (Q : α → σ → Prop) (s : σ) :
    (Prog.ret a : Prog F α).wlp S Q s ↔ Q a s := Iff.rfl

@[simp] theorem wlp_abort (Q : α → σ → Prop) (s : σ) :
    (Prog.abort : Prog F α).wlp S Q s ↔ True := Iff.rfl

theorem wlp_call {δ : Type} (op : F δ) (k : δ → Prog F α) (Q : α → σ → Prop)
    (s : σ) :
    (Prog.call op k).wlp S Q s ↔ ∀ r s', S op s r s' → (k r).wlp S Q s' :=
  Iff.rfl

@[simp] theorem wlp_assert (c : Prop) [Decidable c] (Q : Unit → σ → Prop)
    (s : σ) : (assert c : Prog F Unit).wlp S Q s ↔ (c → Q () s) := by
  by_cases hc : c <;> simp [assert, hc]

@[simp] theorem wlp_bind (p : Prog F α) (f : α → Prog F β) (Q : β → σ → Prop)
    (s : σ) :
    (p.bind f).wlp S Q s ↔ p.wlp S (fun a s' => (f a).wlp S Q s') s := by
  induction p generalizing s with
  | ret a => rfl
  | abort => rfl
  | call op k ih => simp only [call_bind, wlp_call, ih]

theorem wlp_mono {p : Prog F α} {Q R : α → σ → Prop} {s : σ}
    (h : p.wlp S Q s) (hQR : ∀ a s', Q a s' → R a s') : p.wlp S R s :=
  (wlp_iff_exec S).2 fun a s' hrun => hQR a s' (hrun.of_wlp S h)

theorem wlp_bind_of {p : Prog F α} {f : α → Prog F β} {Q : α → σ → Prop}
    {R : β → σ → Prop} {s : σ} (hp : p.wlp S Q s)
    (hf : ∀ a s', Q a s' → (f a).wlp S R s') : (p.bind f).wlp S R s :=
  (wlp_bind S p f R s).2 (wlp_mono S hp hf)

def Uses (P : ∀ β : Type, F β → Prop) : Prog F α → Prop
  | .ret _ => True
  | .abort => True
  | .call op k => P _ op ∧ ∀ r, (k r).Uses P

section Uses

variable {P : ∀ β : Type, F β → Prop}

theorem Uses.mono {P' : ∀ β : Type, F β → Prop} {p : Prog F α} (hp : p.Uses P)
    (h : ∀ β op, P β op → P' β op) : p.Uses P' := by
  induction p with
  | ret a => trivial
  | abort => trivial
  | call op k ih => exact ⟨h _ op hp.1, fun r => ih r (hp.2 r)⟩

@[simp] theorem uses_ret (a : α) : (Prog.ret a : Prog F α).Uses P := trivial

@[simp] theorem uses_call {δ : Type} (op : F δ) (k : δ → Prog F α) :
    (Prog.call op k).Uses P ↔ P δ op ∧ ∀ r, (k r).Uses P := Iff.rfl

@[simp] theorem uses_perform (op : F α) : (perform op).Uses P ↔ P α op :=
  ⟨fun h => h.1, fun h => ⟨h, fun _ => trivial⟩⟩

@[simp] theorem uses_ite {c : Prop} [Decidable c] {p q : Prog F α} :
    (if c then p else q).Uses P ↔ (c → p.Uses P) ∧ (¬ c → q.Uses P) := by
  by_cases hc : c <;> simp [hc]

@[simp] theorem uses_assert (c : Prop) [Decidable c] :
    (assert c : Prog F Unit).Uses P := by
  by_cases hc : c <;> simp [assert, hc, Uses]

theorem uses_bind {p : Prog F α} {f : α → Prog F β} (hp : p.Uses P)
    (hf : ∀ a, (f a).Uses P) : (p.bind f).Uses P := by
  induction p with
  | ret a => exact hf a
  | abort => trivial
  | call op k ih => exact ⟨hp.1, fun r => ih r (hp.2 r)⟩

theorem uses_hoist {E : Type → Type*} {f : ∀ β : Type, E β → F β}
    (hf : ∀ β op, P β (f β op)) (p : Prog E α) : (p.hoist f).Uses P := by
  induction p with
  | ret a => trivial
  | abort => trivial
  | call op k ih => exact ⟨hf _ op, ih⟩

theorem exec_of_run_of_uses {Ω : Type*} {H : Handler F Ω σ}
    {allowed : ∀ {β : Type}, F β → Ω → σ → Prop} {p : Prog F α} {s s' : σ} {a : α}
    {script : ℕ → Ω} (hp : p.Uses P)
    (hscript : ∀ n {δ : Type} (op : F δ) s, P δ op → allowed op (script n) s)
    (h : p.run H script s = some (a, s')) : p.Exec (H.sem allowed) s a s' := by
  induction p generalizing s script with
  | ret b =>
      obtain ⟨rfl, rfl⟩ := Prod.mk.inj (Option.some.inj h)
      exact ⟨rfl, rfl⟩
  | abort => cases h
  | call op k ih =>
      exact ⟨_, _, ⟨script 0, hscript 0 op s hp.1, rfl⟩,
        ih _ (hp.2 _) (fun n => hscript (n + 1)) h⟩

/-- A relation between states that the calls of a program satisfy, and that is
reflexive and transitive, holds between the ends of its runs. -/
theorem wlp_of_uses {R : σ → σ → Prop} (hrefl : ∀ s, R s s)
    (htrans : ∀ s₁ s₂ s₃, R s₁ s₂ → R s₂ s₃ → R s₁ s₃)
    (hP : ∀ {δ : Type} (op : F δ) s r s', P δ op → S op s r s' → R s s')
    {p : Prog F α} (hp : p.Uses P) (s : σ) : p.wlp S (fun _ s' => R s s') s := by
  induction p generalizing s with
  | ret a => exact hrefl s
  | abort => trivial
  | call op k ih =>
      intro r s₁ hs
      have hR := hP op s r s₁ hp.1 hs
      exact wlp_mono S (ih r (hp.2 r) s₁) fun a s' => htrans s s₁ s' hR

end Uses

end Prog

end Program
