import Dabba.Program.Basic

/-!
# Programs with a bounded number of calls

`Prog.CallsAtMost p n` says that no run of `p` makes more than `n` calls, whatever their
answers. It is the measure by which something that is waited for behind a program is
known to come.
-/

namespace Program.Prog

universe u

variable {F : Type → Type u} {α β : Type} {m n : ℕ}

/-- No run of the program makes more than `n` calls. -/
def CallsAtMost : Prog F α → ℕ → Prop
  | .ret _, _ => True
  | .abort, _ => True
  | .call _ _, 0 => False
  | .call _ k, n + 1 => ∀ r, (k r).CallsAtMost n

@[simp] theorem callsAtMost_ret (a : α) : (Prog.ret a : Prog F α).CallsAtMost n := trivial

@[simp] theorem callsAtMost_abort : (Prog.abort : Prog F α).CallsAtMost n := trivial

@[simp] theorem callsAtMost_call_succ {δ : Type} (op : F δ) (k : δ → Prog F α) :
    (Prog.call op k).CallsAtMost (n + 1) ↔ ∀ r, (k r).CallsAtMost n := Iff.rfl

@[simp] theorem callsAtMost_perform (op : F α) : (perform op).CallsAtMost (n + 1) :=
  fun _ => trivial

@[simp] theorem callsAtMost_assert (c : Prop) [Decidable c] :
    (assert c : Prog F Unit).CallsAtMost n := by
  by_cases hc : c <;> simp [assert, hc]

theorem CallsAtMost.mono {p : Prog F α} (h : p.CallsAtMost m) (hle : m ≤ n) : p.CallsAtMost n := by
  induction p generalizing m n with
  | ret a => trivial
  | abort => trivial
  | call op k ih =>
      cases m with
      | zero => exact h.elim
      | succ m =>
          obtain ⟨n, rfl⟩ := Nat.exists_eq_add_of_lt (Nat.lt_of_succ_le hle)
          exact fun r => ih r (h r) (Nat.le_add_right m n)

theorem CallsAtMost.assert_bind {c : Prop} [Decidable c] {f : Unit → Prog F β}
    (h : (f ()).CallsAtMost n) : ((assert c).bind f).CallsAtMost n := by
  by_cases hc : c
  · rwa [Prog.assert_bind hc]
  · simp [assert, hc]

end Program.Prog
