import Mathlib.Data.Int.Notation
import Mathlib.Data.Nat.Notation
import Mathlib.Logic.Basic
import Mathlib.Tactic.TypeStar

/-!
# Programs over a signature of calls

A program is a tree: it returns a value, aborts, or makes a call and goes on
with the answer. The meaning of the calls is kept apart. It is a relation
`Sem F σ` between a state, a call, its answer and the state after it, so that
one program can be read under all outcomes of its calls, or under the successful
ones only.

`Prog.wp S p Q s` says that every run of `p` from `s` ends without aborting, in
a result and a state that satisfy `Q`. A single run is followed by `Prog.run`,
which takes the outcomes of the calls from a script.
-/

namespace Program

/-- A program with calls from the signature `F` and results in `α`. -/
inductive Prog (F : Type → Type*) (α : Type) : Type _
  | ret (a : α)
  | abort
  | call {β : Type} (op : F β) (k : β → Prog F α)

/-- The meaning of a signature: which answers a call can give in a state, and
what the state is then. -/
abbrev Sem (F : Type → Type*) (σ : Type*) :=
  ∀ {β : Type}, F β → σ → β → σ → Prop

abbrev Handler (F : Type → Type*) (Ω : Type*) (σ : Type*) :=
  ∀ {β : Type}, F β → Ω → σ → β × σ

/-- The meaning a handler gives when the environment may choose the outcomes
that `allowed` admits. -/
def Handler.sem {F : Type → Type*} {Ω σ : Type*} (H : Handler F Ω σ)
    (allowed : ∀ {β : Type}, F β → Ω → σ → Prop) : Sem F σ :=
  fun op s r s' => ∃ o, allowed op o s ∧ H op o s = (r, s')

namespace Prog

variable {F G : Type → Type*} {α β γ : Type}

def perform (op : F α) : Prog F α := .call op .ret

def assert (c : Prop) [Decidable c] : Prog F Unit :=
  if c then .ret () else .abort

protected def bind : Prog F α → (α → Prog F β) → Prog F β
  | .ret a, f => f a
  | .abort, _ => .abort
  | .call op k, f => .call op fun r => (k r).bind f

instance : Monad (Prog F) where
  pure := .ret
  bind := Prog.bind

instance : MonadLift F (Prog F) where
  monadLift := perform

@[simp] theorem liftM_eq (op : F α) : (liftM op : Prog F α) = perform op := rfl

@[simp] theorem pure_eq (a : α) : (pure a : Prog F α) = .ret a := rfl

@[simp] theorem bind_eq (p : Prog F α) (f : α → Prog F β) :
    p >>= f = p.bind f := rfl

@[simp] theorem ret_bind (a : α) (f : α → Prog F β) :
    (Prog.ret a).bind f = f a := rfl

@[simp] theorem abort_bind (f : α → Prog F β) :
    (Prog.abort : Prog F α).bind f = .abort := rfl

@[simp] theorem call_bind {δ : Type} (op : F δ) (k : δ → Prog F α)
    (f : α → Prog F β) :
    (Prog.call op k).bind f = .call op fun r => (k r).bind f := rfl

@[simp] theorem perform_bind (op : F α) (f : α → Prog F β) :
    (perform op).bind f = .call op f := rfl

theorem assert_bind {c : Prop} [Decidable c] (hc : c) (f : Unit → Prog F β) :
    (assert c : Prog F Unit).bind f = f () := by
  rw [assert, if_pos hc, ret_bind]

theorem bind_ret (p : Prog F α) : p.bind .ret = p := by
  induction p with
  | ret a => rfl
  | abort => rfl
  | call op k ih => simp only [call_bind, ih]

theorem bind_assoc (p : Prog F α) (f : α → Prog F β) (g : β → Prog F γ) :
    (p.bind f).bind g = p.bind fun a => (f a).bind g := by
  induction p with
  | ret a => rfl
  | abort => rfl
  | call op k ih => simp only [call_bind, ih]

instance : LawfulMonad (Prog F) :=
  LawfulMonad.mk' (Prog F) bind_ret (fun _ _ => rfl) bind_assoc

/-- Every run of the program from the state ends without aborting and satisfies
the postcondition. -/
def wp {σ : Type*} (S : Sem F σ) : Prog F α → (α → σ → Prop) → σ → Prop
  | .ret a, Q, s => Q a s
  | .abort, _, _ => False
  | .call op k, Q, s => ∀ r s', S op s r s' → (k r).wp S Q s'

section Wp

variable {σ : Type*} (S : Sem F σ)

@[simp] theorem wp_ret (a : α) (Q : α → σ → Prop) (s : σ) :
    (Prog.ret a : Prog F α).wp S Q s ↔ Q a s := Iff.rfl

@[simp] theorem wp_abort (Q : α → σ → Prop) (s : σ) :
    (Prog.abort : Prog F α).wp S Q s ↔ False := Iff.rfl

theorem wp_call {δ : Type} (op : F δ) (k : δ → Prog F α) (Q : α → σ → Prop)
    (s : σ) :
    (Prog.call op k).wp S Q s ↔ ∀ r s', S op s r s' → (k r).wp S Q s' :=
  Iff.rfl

@[simp] theorem wp_perform (op : F α) (Q : α → σ → Prop) (s : σ) :
    (perform op).wp S Q s ↔ ∀ r s', S op s r s' → Q r s' := Iff.rfl

@[simp] theorem wp_assert (c : Prop) [Decidable c] (Q : Unit → σ → Prop)
    (s : σ) : (assert c : Prog F Unit).wp S Q s ↔ c ∧ Q () s := by
  by_cases hc : c <;> simp [assert, hc]

@[simp] theorem wp_bind (p : Prog F α) (f : α → Prog F β) (Q : β → σ → Prop)
    (s : σ) :
    (p.bind f).wp S Q s ↔ p.wp S (fun a s' => (f a).wp S Q s') s := by
  induction p generalizing s with
  | ret a => rfl
  | abort => rfl
  | call op k ih => simp only [call_bind, wp_call, ih]

theorem wp_mono {p : Prog F α} {Q R : α → σ → Prop} {s : σ}
    (h : p.wp S Q s) (hQR : ∀ a s', Q a s' → R a s') : p.wp S R s := by
  induction p generalizing s with
  | ret a => exact hQR a s h
  | abort => exact h
  | call op k ih => exact fun r s' hs => ih r (h r s' hs)

theorem wp_bind_of {p : Prog F α} {f : α → Prog F β} {Q : α → σ → Prop}
    {R : β → σ → Prop} {s : σ} (hp : p.wp S Q s)
    (hf : ∀ a s', Q a s' → (f a).wp S R s') : (p.bind f).wp S R s :=
  (wp_bind S p f R s).2 (wp_mono S hp hf)

theorem wp_and {p : Prog F α} {Q R : α → σ → Prop} {s : σ} :
    p.wp S (fun a s' => Q a s' ∧ R a s') s ↔ p.wp S Q s ∧ p.wp S R s := by
  induction p generalizing s with
  | ret a => rfl
  | abort => simp
  | call op k ih =>
      simp only [wp_call, ih]
      exact ⟨fun h => ⟨fun r s' hs => (h r s' hs).1, fun r s' hs => (h r s' hs).2⟩,
        fun h r s' hs => ⟨h.1 r s' hs, h.2 r s' hs⟩⟩

/-- Where every call has an answer, every program has a run, and it ends in what
every run ends in. -/
theorem exists_of_wp {I : σ → Prop}
    (hS : ∀ {δ : Type} (op : F δ) s, I s → ∃ r s', S op s r s' ∧ I s')
    {p : Prog F α} {Q : α → σ → Prop} {s : σ} (h : p.wp S Q s) (hI : I s) :
    ∃ a s', Q a s' ∧ I s' := by
  induction p generalizing s with
  | ret a => exact ⟨a, s, h, hI⟩
  | abort => exact h.elim
  | call op k ih =>
      obtain ⟨r, s', hs, hI'⟩ := hS op s hI
      exact ih r (h r s' hs) hI'

end Wp

/-- Follows one run, the outcomes of the calls taken from the script. The result
is `none` when the program aborts. -/
def run {Ω σ : Type*} (H : Handler F Ω σ) :
    Prog F α → (ℕ → Ω) → σ → Option (α × σ)
  | .ret a, _, s => some (a, s)
  | .abort, _, _ => none
  | .call op k, script, s =>
      (k (H op (script 0) s).1).run H (fun n => script (n + 1))
        (H op (script 0) s).2

theorem run_call {Ω σ : Type*} {H : Handler F Ω σ} (op : F β) (k : β → Prog F α)
    (script : ℕ → Ω) (s : σ) :
    (Prog.call op k).run H script s =
      (k (H op (script 0) s).1).run H (fun n => script (n + 1)) (H op (script 0) s).2 :=
  rfl

/-- The run of a sequence is a run of its first part, followed by a run of the
second part on the rest of the script. -/
theorem run_bind {Ω σ : Type*} {H : Handler F Ω σ} {p : Prog F α}
    {f : α → Prog F β} {script : ℕ → Ω} {s : σ} {x : β × σ}
    (h : (p.bind f).run H script s = some x) :
    ∃ a s' n, p.run H script s = some (a, s') ∧
      (f a).run H (fun m => script (m + n)) s' = some x := by
  induction p generalizing script s with
  | ret a => exact ⟨a, s, 0, rfl, h⟩
  | abort => cases h
  | call op k ih =>
      obtain ⟨a, s', n, hp, hf⟩ := ih _ h
      refine ⟨a, s', n + 1, hp, ?_⟩
      simpa only [Nat.add_assoc, Nat.add_comm n 1, Nat.add_left_comm] using hf

def hoist (f : ∀ β : Type, F β → G β) : Prog F α → Prog G α
  | .ret a => .ret a
  | .abort => .abort
  | .call op k => .call (f _ op) fun r => (k r).hoist f

theorem hoist_bind (f : ∀ β : Type, F β → G β) (p : Prog F α) (k : α → Prog F β) :
    (p.bind k).hoist f = (p.hoist f).bind fun a => (k a).hoist f := by
  induction p with
  | ret a => rfl
  | abort => rfl
  | call op k' ih => simp only [call_bind, hoist, ih]

end Prog

end Program
