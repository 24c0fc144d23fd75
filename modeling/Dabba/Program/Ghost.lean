import Dabba.Program.Interleave

/-!
# Programs beside a ghost state

What the environment has done so far may be kept in a ghost state, which the calls of the
program leave alone. A program that is safe stays safe when the environment or the program
takes a step, so that a machine which runs a part of it has an invariant for the rest.
-/

namespace Program

universe u

variable {F : Type → Type u} {α β : Type} {σ : Type*}

def Sem.ghost (γ : Type*) (S : Sem F σ) : Sem F (γ × σ) :=
  fun op s r s' => s'.1 = s.1 ∧ S op s.2 r s'.2

namespace Prog.Safe

variable {S : Sem F σ} {env : σ → σ → Prop} {inv : σ → Prop} {Q : α → σ → Prop} {s s' : σ}

theorem of_env {p : Prog F α} (h : p.Safe S env inv Q s) (hs : env s s') :
    p.Safe S env inv Q s' := by
  cases p with
  | ret a => exact fun s'' hrun => h s'' (.head hs hrun)
  | abort => trivial
  | call op k => exact fun s'' hrun => h s'' (.head hs hrun)

theorem of_call {op : F β} {k : β → Prog F α} {r : β} (h : (Prog.call op k).Safe S env inv Q s)
    (hs : S op s r s') : (k r).Safe S env inv Q s' :=
  (h s .refl).2 r s' hs

theorem post {a : α} (h : (Prog.ret a).Safe S env inv Q s) : Q a s := (h s .refl).2

end Prog.Safe

end Program
