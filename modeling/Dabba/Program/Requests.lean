import Dabba.Program.Basic

/-!
# Runs under one outcome, and a server of requests

When the script chooses the same outcome for every call, the run of a sequence is the run
of its first part followed by the run of its second part, with nothing said about
scripts. Where that outcome is the only one, a program has one run.

A server runs one program for each request that arrives, each under a script of its
own, and goes on in the state the last one left. `EveryStep` says of a sequence of
requests that a property of a single request holds at each of them, in the state it
finds.
-/

namespace Program

variable {F : Type → Type*} {Ω σ : Type*} {R A : Type}

theorem Prog.run_bind_const {α β : Type} {H : Handler F Ω σ} {o : Ω} {p : Prog F α}
    {s s' : σ} {a : α} (h : p.run H (fun _ => o) s = some (a, s')) (f : α → Prog F β) :
    (p.bind f).run H (fun _ => o) s = (f a).run H (fun _ => o) s' := by
  induction p generalizing s with
  | ret b =>
      obtain ⟨rfl, rfl⟩ := Prod.mk.inj (Option.some.inj h)
      rfl
  | abort => cases h
  | call op k ih => exact ih _ h

def Handler.const (H : Handler F Ω σ) (o : Ω) : Sem F σ := H.sem fun _ o' _ => o' = o

namespace Prog

variable {α β : Type} {H : Handler F Ω σ} {o : Ω} {s : σ}

theorem wp_call_const {op : F β} {k : β → Prog F α} {Q : α → σ → Prop} :
    (Prog.call op k).wp (H.const o) Q s ↔ (k (H op o s).1).wp (H.const o) Q (H op o s).2 := by
  constructor
  · exact fun h => h _ _ ⟨o, rfl, rfl⟩
  · rintro h r s' ⟨_, rfl, heq⟩
    rw [heq] at h
    exact h

theorem wp_const_iff {p : Prog F α} {Q : α → σ → Prop} :
    p.wp (H.const o) Q s ↔ ∃ a s', p.run H (fun _ => o) s = some (a, s') ∧ Q a s' := by
  induction p generalizing s with
  | ret a =>
      constructor
      · exact fun h => ⟨a, s, rfl, h⟩
      · rintro ⟨_, _, heq, h⟩
        cases heq
        exact h
  | abort => simp [run]
  | call op k ih => exact wp_call_const.trans (ih _)

theorem exists_bind_const {p : Prog F α} {P : α → σ → Prop} (hp : p.wp (H.const o) P s) :
    ∃ a s', P a s' ∧ ∀ {β : Type} (f : α → Prog F β) (Q : β → σ → Prop),
      (p.bind f).wp (H.const o) Q s ↔ (f a).wp (H.const o) Q s' := by
  obtain ⟨a, s', hrun, ha⟩ := wp_const_iff.1 hp
  refine ⟨a, s', ha, fun f Q => ?_⟩
  rw [wp_const_iff, wp_const_iff, run_bind_const hrun f]

end Prog

/-- The property holds of each of the requests, served one after another. -/
def EveryStep (H : Handler F Ω σ) (serve : R → Prog F A)
    (P : σ → R → (ℕ → Ω) → Prop) : σ → List (R × (ℕ → Ω)) → Prop
  | _, [] => True
  | s, (r, script) :: requests =>
      P s r script ∧
        ∀ a s', (serve r).run H script s = some (a, s') →
          EveryStep H serve P s' requests

section

variable {H : Handler F Ω σ} {serve : R → Prog F A} {P Q : σ → R → (ℕ → Ω) → Prop}

theorem EveryStep.of_forall (h : ∀ s r script, P s r script) (s : σ)
    (requests : List (R × (ℕ → Ω))) : EveryStep H serve P s requests := by
  induction requests generalizing s with
  | nil => trivial
  | cons request requests ih => exact ⟨h _ _ _, fun _ s' _ => ih s'⟩

/-- Two properties that agree on every request agree on sequences of them. -/
theorem everyStep_congr {s : σ} {requests : List (R × (ℕ → Ω))}
    (h : ∀ s r script, (r, script) ∈ requests → (P s r script ↔ Q s r script)) :
    EveryStep H serve P s requests ↔ EveryStep H serve Q s requests := by
  induction requests generalizing s with
  | nil => rfl
  | cons request requests ih =>
      have hrest := fun s => ih (s := s) fun s r script hmem =>
        h s r script (List.mem_cons_of_mem _ hmem)
      exact and_congr (h _ _ _ List.mem_cons_self)
        (forall_congr' fun a => forall_congr' fun s' => imp_congr_right fun _ => hrest s')

end

end Program
