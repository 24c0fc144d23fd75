import Dabba.Program.Partial

/-!
# Calls that are guarded

A guard says in which states a call may be made. `Prog.guarded S G p Q s` says that every
call of every run of `p` from `s` is made where its guard holds, whether or not the run comes
to its end, and that every run that ends satisfies `Q`. A call without a guard is one that
may be made anywhere; programs of such calls need nothing but their postcondition.
-/

namespace Program

universe u

abbrev Guard (F : Type → Type u) (σ : Type*) := ∀ {β : Type}, F β → σ → Prop

namespace Prog

variable {F : Type → Type u} {α β : Type} {σ : Type*} (S : Sem F σ) (G : Guard F σ)

/-- Every call is made where it may be, and every run that ends satisfies the
postcondition. -/
def guarded : Prog F α → (α → σ → Prop) → σ → Prop
  | .ret a, Q, s => Q a s
  | .abort, _, _ => True
  | .call op k, Q, s => G op s ∧ ∀ r s', S op s r s' → (k r).guarded Q s'

variable {S G} {Q R : α → σ → Prop} {s : σ}

@[simp] theorem guarded_ret (a : α) : (Prog.ret a : Prog F α).guarded S G Q s ↔ Q a s := Iff.rfl

@[simp] theorem guarded_bind (p : Prog F α) (f : α → Prog F β) (Q : β → σ → Prop) :
    (p.bind f).guarded S G Q s ↔ p.guarded S G (fun a s' => (f a).guarded S G Q s') s := by
  induction p generalizing s with
  | ret a => rfl
  | abort => rfl
  | call op k ih => simp only [call_bind, guarded, ih]

theorem guarded.mono {p : Prog F α} (h : p.guarded S G Q s) (hQR : ∀ a s', Q a s' → R a s') :
    p.guarded S G R s := by
  induction p generalizing s with
  | ret a => exact hQR a s h
  | abort => trivial
  | call op k ih => exact ⟨h.1, fun r s' hs => ih r (h.2 r s' hs)⟩

theorem guarded_bind_of {p : Prog F α} {f : α → Prog F β} {R : β → σ → Prop}
    (hp : p.guarded S G Q s) (hf : ∀ a s', Q a s' → (f a).guarded S G R s') :
    (p.bind f).guarded S G R s :=
  (guarded_bind p f R).2 (hp.mono hf)

theorem guarded.wlp {p : Prog F α} (h : p.guarded S G Q s) : p.wlp S Q s := by
  induction p generalizing s with
  | ret a => exact h
  | abort => trivial
  | call op k ih => exact fun r s' hs => ih r (h.2 r s' hs)

theorem guarded.and {p : Prog F α} (h : p.guarded S G Q s) (hR : p.wlp S R s) :
    p.guarded S G (fun a s' => Q a s' ∧ R a s') s := by
  induction p generalizing s with
  | ret a => exact ⟨h, hR⟩
  | abort => trivial
  | call op k ih => exact ⟨h.1, fun r s' hs => ih r (h.2 r s' hs) (hR r s' hs)⟩

theorem guarded_of_uses {P : ∀ β : Type, F β → Prop} {p : Prog F α} (hp : p.Uses P)
    (hG : ∀ {δ : Type} (op : F δ) s, P δ op → G op s) (h : p.wlp S Q s) :
    p.guarded S G Q s := by
  induction p generalizing s with
  | ret a => exact h
  | abort => trivial
  | call op k ih =>
      exact ⟨hG op s hp.1, fun r s' hs => ih r (hp.2 r) (h r s' hs)⟩

theorem guarded_of_wlp {p : Prog F α} (hG : ∀ {δ : Type} (op : F δ) s, G op s)
    (h : p.wlp S Q s) : p.guarded S G Q s := by
  induction p generalizing s with
  | ret a => exact h
  | abort => trivial
  | call op k ih => exact ⟨hG op s, fun r s' hs => ih r (h r s' hs)⟩

end Prog

end Program
