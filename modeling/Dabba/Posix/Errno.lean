import Dabba.Posix.OpenFds

/-!
# Error numbers

A file system call that fails leaves an error number, and no later call takes it away. Of
the calls that do less than they were asked for, only a short write leaves none, so here a
write is complete or it fails.
-/

namespace Posix

open Program

/-- The result by which a call reports that it failed. A write also fails that did less than
it was asked for. -/
def FileCall.Failed : {β : Type} → FileCall β → β → Prop
  | _, .openAt _ _, fd => fd < 0
  | _, .creat _, fd => fd < 0
  | _, .read _ _, got => got = none
  | _, .write _ bytes, written => written ≠ bytes.length
  | _, .lseek _ _ _, off => off < 0
  | _, .close _, rc => rc < 0
  | _, .unlink _, rc => rc < 0
  | _, .getErrno, _ => False
  | _, .setErrno _, _ => False

/-- The calls that do not set the error number to zero. -/
def FileCall.LeavesErrno : ∀ β : Type, FileCall β → Prop
  | _, .setErrno e => e ≠ 0
  | _, _ => True

namespace Os

variable {S : Type} {os os' : Os S} {α β : Type}

/-- The outcome of a call that fails with an error number, or else is complete if it is a
write. -/
def Tells : {β : Type} → FileCall β → Outcome → Prop
  | _, _, .fail e => e ≠ 0
  | _, .write _ _, .ok short => short = 0
  | _, _, .ok _ => True

instance (op : FileCall β) (o : Outcome) : Decidable (Tells op o) :=
  match op, o with
  | .write _ _, .ok short => inferInstanceAs (Decidable (short = 0))
  | .openAt _ _, .ok _ => isTrue trivial
  | .creat _, .ok _ => isTrue trivial
  | .read _ _, .ok _ => isTrue trivial
  | .lseek _ _ _, .ok _ => isTrue trivial
  | .close _, .ok _ => isTrue trivial
  | .unlink _, .ok _ => isTrue trivial
  | .getErrno, .ok _ => isTrue trivial
  | .setErrno _, .ok _ => isTrue trivial
  | op, .fail e => decidable_of_iff (e ≠ 0) (by cases op <;> rfl)

def tellingSem : Sem FileCall (Os S) := handle.sem fun op o _ => Tells op o

theorem Tells.ne_zero {op : FileCall β} {e : ℕ} (h : Tells op (.fail e)) : e ≠ 0 := by
  cases op <;> exact h

/-- An error number stays until the next one. -/
theorem errno_handle {op : FileCall β} {o : Outcome} (hop : op.LeavesErrno) (ho : Tells op o)
    (h : os.errno ≠ 0) : (handle op o os).2.errno ≠ 0 := by
  have hknown : ebadf ≠ 0 ∧ einval ≠ 0 ∧ enoent ≠ 0 ∧ emfile ≠ 0 ∧ espipe ≠ 0 := by decide
  cases op <;> cases o <;> simp only [handle] <;> repeat' split
  all_goals
    first
      | exact h
      | exact ho.ne_zero
      | exact hop
      | (simp only [failed]; tauto)
      | (rename_i heq; cases heq; exact ho.ne_zero)

/-- A call that reports a failure has left an error number. -/
theorem errno_of_failed {op : FileCall β} {o : Outcome} (ho : Tells op o)
    (h : op.Failed (handle op o os).1) : (handle op o os).2.errno ≠ 0 := by
  have hknown : ebadf ≠ 0 ∧ einval ≠ 0 ∧ enoent ≠ 0 ∧ emfile ≠ 0 ∧ espipe ≠ 0 := by decide
  have hfailed : ∀ e : ℕ, e ≠ 0 → (os.failed e).errno ≠ 0 := fun _ he => he
  cases o with
  | fail e =>
      cases op <;> simp only [handle] <;> try exact hfailed e ho.ne_zero
      case close fd =>
          split
          · exact hfailed _ hknown.1
          · cases ‹Outcome.fail e = _›
          · cases ‹Outcome.fail e = _›
            exact ho.ne_zero
      all_goals exact h.elim
  | ok n =>
      cases op with
      | write fd bytes =>
          obtain rfl : n = 0 := ho
          revert h
          simp only [handle, FileCall.Failed, Nat.sub_zero, List.take_length]
          repeat' split
          all_goals intro h
          · exact absurd rfl h
          all_goals simp only [failed]; tauto
      | getErrno => exact h.elim
      | setErrno e => exact h.elim
      | _ =>
          revert h
          simp only [handle, FileCall.Failed]
          repeat' split
          all_goals
            intro h
            first
              | (simp only [failed]; tauto)
              | omega

section Wlp

variable {Q : α → Os S → Prop}

theorem wlp_telling {op : FileCall β} {k : β → Prog FileCall α}
    (h : ∀ r os', (op.Failed r → os'.errno ≠ 0) → (k r).wlp tellingSem Q os') :
    ((Prog.perform op).bind k).wlp tellingSem Q os := by
  rintro r os' ⟨o, ho, heq⟩
  have hfailed : op.Failed (handle op o os).1 → (handle op o os).2.errno ≠ 0 :=
    errno_of_failed ho
  rw [heq] at hfailed
  exact h r os' hfailed

theorem wlp_leavesErrno {p : Prog FileCall α} (hp : p.Uses FileCall.LeavesErrno)
    (h : os.errno ≠ 0) : p.wlp tellingSem (fun _ os' => os'.errno ≠ 0) os := by
  refine Prog.wlp_mono _ (Prog.wlp_of_uses _
    (R := fun os os' : Os S => os.errno ≠ 0 → os'.errno ≠ 0) (fun _ => id)
    (fun _ _ _ h h' => h' ∘ h) ?_ hp os) fun _ _ hkept => hkept h
  rintro δ op os₁ r os₂ hop ⟨o, ho, heq⟩ herrno
  have hkept := errno_handle hop ho herrno
  rwa [heq] at hkept

end Wlp

end Os

end Posix
