import Dabba.Program.Partial
import Dabba.Transition.Basic

/-!
# Programs interleaved with an environment

A program runs call by call, and before every call, and after the last one, the
environment may take any number of steps of its own. `Prog.Safe S env inv p Q s`
says that the invariant `inv` holds at all points of all these interleavings that
start in `s`, and `Q` at their ends; a program that aborts takes its environment
with it. The rules work on assertions, which the environment keeps and which imply
the invariant. A machine that starts programs one after the other keeps the
invariant if each of them is safe from every state the machine can be idle in.
-/

namespace Program

open Transition

universe u

variable {F : Type → Type u} {α β : Type} {σ : Type*}
variable {S : Sem F σ} {env : σ → σ → Prop} {inv : σ → Prop}

/-- A property that the environment keeps and that implies the invariant. -/
structure Assertion (env : σ → σ → Prop) (inv : σ → Prop) (P : σ → Prop) : Prop where
  stable : ∀ s s', P s → env s s' → P s'
  inv_of : ∀ s, P s → inv s

theorem Assertion.of_reaches {P : σ → Prop} (hP : Assertion env inv P) {s s' : σ}
    (h : P s) (hrun : Reaches env s s') : P s' :=
  inv_of_reaches hP.stable hrun h

namespace Prog

/-- The invariant holds at every point of every interleaving of the program with
the environment, and the postcondition at its ends. -/
def Safe (S : Sem F σ) (env : σ → σ → Prop) (inv : σ → Prop) :
    Prog F α → (α → σ → Prop) → σ → Prop
  | .ret a, Q, s => ∀ s', Reaches env s s' → inv s' ∧ Q a s'
  | .abort, _, _ => True
  | .call op k, Q, s => ∀ s', Reaches env s s' →
      inv s' ∧ ∀ r s'', S op s' r s'' → (k r).Safe S env inv Q s''

namespace Safe

variable {P : σ → Prop} {s : σ}

theorem ret {Q : α → σ → Prop} {a : α} (hP : Assertion env inv P) (h : P s)
    (hQ : ∀ s, P s → Q a s) : (Prog.ret a).Safe S env inv Q s := by
  intro s' hrun
  have h' := hP.of_reaches h hrun
  exact ⟨hP.inv_of s' h', hQ s' h'⟩

theorem call {Q : α → σ → Prop} {op : F β} {k : β → Prog F α}
    (hP : Assertion env inv P) (h : P s)
    (hk : ∀ s r s', P s → S op s r s' → (k r).Safe S env inv Q s') :
    (Prog.call op k).Safe S env inv Q s := by
  intro s' hrun
  have h' := hP.of_reaches h hrun
  exact ⟨hP.inv_of s' h', fun r s'' hs => hk s' r s'' h' hs⟩

theorem bind {p : Prog F α} {f : α → Prog F β} {Q : α → σ → Prop}
    {R : β → σ → Prop} (hp : p.Safe S env inv Q s)
    (hf : ∀ a s, Q a s → (f a).Safe S env inv R s) :
    (p.bind f).Safe S env inv R s := by
  induction p generalizing s with
  | ret a => exact hf a s (hp s .refl).2
  | abort => trivial
  | call op k ih =>
      exact fun s' hrun => ⟨(hp s' hrun).1, fun r s'' hs => ih r ((hp s' hrun).2 r s'' hs)⟩

theorem assert_bind {c : Prop} [Decidable c] {f : Unit → Prog F α} {Q : α → σ → Prop}
    (hf : c → (f ()).Safe S env inv Q s) : ((assert c).bind f).Safe S env inv Q s := by
  by_cases hc : c
  · rw [assert, if_pos hc]
    exact hf hc
  · rw [assert, if_neg hc]
    trivial

theorem of_uses {C : ∀ β : Type, F β → Prop} (hP : Assertion env inv P)
    (hC : ∀ {β : Type} (op : F β) s r s', C β op → P s → S op s r s' → P s')
    {p : Prog F α} (hp : p.Uses C) (h : P s) :
    p.Safe S env inv (fun _ s => P s) s := by
  induction p generalizing s with
  | ret a => exact ret hP h fun _ h => h
  | abort => trivial
  | call op k ih =>
      exact call hP h fun s r s' h hs => ih r (hp.2 r) (hC op s r s' hp.1 h hs)

end Safe

end Prog

/-- A machine that runs programs interleaved with the environment: it starts one of
the given programs when it is idle, makes the next call, or is idle again. Nothing
happens after a program has aborted. -/
inductive Step (S : Sem F σ) (env : σ → σ → Prop) (start : Prog F α → Prop) :
    Option (Prog F α) × σ → Option (Prog F α) × σ → Prop
  | start {p : Prog F α} {s : σ} (hp : start p) : Step S env start (none, s) (some p, s)
  | call {β : Type} {op : F β} {k : β → Prog F α} {s s' : σ} {r : β}
      (hs : S op s r s') : Step S env start (some (.call op k), s) (some (k r), s')
  | finish {a : α} {s : σ} : Step S env start (some (.ret a), s) (none, s)
  | env {p : Option (Prog F α)} {s s' : σ} (hp : p ≠ some .abort)
      (hs : env s s') : Step S env start (p, s) (p, s')

variable {start : Prog F α → Prop} {J : σ → Prop}

/-- The rest of the current program is safe; between programs `J` holds. -/
def SafeConfig (S : Sem F σ) (env : σ → σ → Prop) (inv J : σ → Prop) :
    Option (Prog F α) × σ → Prop
  | (none, s) => J s
  | (some p, s) => p.Safe S env inv (fun _ => J) s

theorem SafeConfig.step {c c' : Option (Prog F α) × σ} (hJ : Assertion env inv J)
    (hstart : ∀ p, start p → ∀ s, J s → p.Safe S env inv (fun _ => J) s)
    (h : SafeConfig S env inv J c) (hstep : Step S env start c c') :
    SafeConfig S env inv J c' := by
  cases hstep with
  | start hp => exact hstart _ hp _ h
  | call hs => exact (h _ .refl).2 _ _ hs
  | finish => exact (h _ .refl).2
  | @env p s s' hp hs =>
      cases p with
      | none => exact hJ.stable s s' h hs
      | some p =>
          cases p with
          | ret a => exact fun s'' hrun => h s'' (.head hs hrun)
          | abort => trivial
          | call op k => exact fun s'' hrun => h s'' (.head hs hrun)

theorem SafeConfig.inv_of {p : Option (Prog F α)} {s : σ} (hJ : Assertion env inv J)
    (h : SafeConfig S env inv J (p, s)) (hp : p ≠ some .abort) : inv s := by
  cases p with
  | none => exact hJ.inv_of s h
  | some p =>
      cases p with
      | ret a => exact (h s .refl).1
      | abort => exact absurd rfl hp
      | call op k => exact (h s .refl).1

/-- Where every program is safe, the invariant holds along every run of the
machine. -/
theorem SafeConfig.inv_of_reaches {c : Option (Prog F α) × σ}
    {p : Option (Prog F α)} {s : σ} (hJ : Assertion env inv J)
    (hstart : ∀ p, start p → ∀ s, J s → p.Safe S env inv (fun _ => J) s)
    (h : SafeConfig S env inv J c) (hrun : Reaches (Step S env start) c (p, s))
    (hp : p ≠ some .abort) : inv s :=
  SafeConfig.inv_of hJ
    (Transition.inv_of_reaches (fun _ _ h hstep => h.step hJ hstart hstep) hrun h) hp

/-- Makes as many calls as there are outcomes in the list, each of them one that is
allowed. -/
def Prog.advance {Ω : Type*} (H : Handler F Ω σ)
    (allowed : ∀ {β : Type}, F β → Ω → σ → Bool) :
    List Ω → Prog F α → σ → Option (Prog F α × σ)
  | [], p, s => some (p, s)
  | _ :: _, .ret _, _ => none
  | _ :: _, .abort, _ => none
  | o :: outcomes, .call op k, s =>
      if allowed op o s then
        (k (H op o s).1).advance H allowed outcomes (H op o s).2
      else none

/-- Calls made one after the other are a run of the machine. -/
theorem reaches_of_advance {Ω : Type*} {H : Handler F Ω σ}
    {allowed : ∀ {β : Type}, F β → Ω → σ → Bool}
    (hS : ∀ {β : Type} (op : F β) o s, allowed op o s = true →
      S op s (H op o s).1 (H op o s).2)
    {outcomes : List Ω} {p p' : Prog F α} {s s' : σ}
    (h : p.advance H allowed outcomes s = some (p', s')) :
    Reaches (Step S env start) (some p, s) (some p', s') := by
  induction outcomes generalizing p s with
  | nil =>
      obtain ⟨rfl, rfl⟩ := Prod.mk.inj (Option.some.inj h)
      exact .refl
  | cons o outcomes ih =>
      cases p with
      | ret a => cases h
      | abort => cases h
      | call op k =>
          rw [Prog.advance] at h
          split at h
          · exact .head (.call (hS op o s ‹_›)) (ih h)
          · cases h

end Program
