import Dabba.Posix.Footprint

/-!
# Numbers of new files

A file that is created takes the next number, which no name and no open descriptor
refers to. Every call keeps it that way.
-/

namespace Posix

open Program

namespace Os

variable {S : Type} {os os' : Os S} {fd : ℤ}

/-- Numbers from `next` on are those of no file yet. -/
structure Numbered (os : Os S) : Prop where
  entry : ∀ name i, os.entry name = some i → i < os.next
  file : ∀ fd f, os.fds fd = some (.file f) → f.inode < os.next

namespace Numbered

theorem dir (h : os.Numbered) (path : Path) (i : ℕ) (hi : os.dir path = some i) : i < os.next :=
  h.entry _ i hi

theorem install_file (h : os.Numbered) {f : OpenFile} (hf : f.inode ≤ os.next) :
    (os.install fd (.file f)).Numbered where
  entry name i hi := Nat.lt_succ_of_lt (h.entry name i hi)
  file fd' f' hf' := by
    by_cases hne : fd' = fd
    · subst hne
      rw [install_fds_self] at hf'
      cases hf'
      exact Nat.lt_succ_of_le hf
    · rw [(within_install os fd _).fds fd' hne] at hf'
      exact Nat.lt_succ_of_lt (h.file fd' f' hf')

theorem install_socket (h : os.Numbered) (s : S) : (os.install fd (.socket s)).Numbered where
  entry name i hi := Nat.lt_succ_of_lt (h.entry name i hi)
  file fd' f' hf' := by
    by_cases hne : fd' = fd
    · subst hne
      rw [install_fds_self] at hf'
      cases hf'
    · rw [(within_install os fd _).fds fd' hne] at hf'
      exact Nat.lt_succ_of_lt (h.file fd' f' hf')

theorem update (h : os.Numbered) {d : Option (Descriptor S)}
    (hd : ∀ f, d = some (.file f) → f.inode < os.next) (hnext : os'.next = os.next)
    (hfds : os'.fds = Function.update os.fds fd d) (hentry : os'.entry = os.entry) :
    os'.Numbered where
  entry name i hi := by
    rw [hnext]
    exact h.entry name i (hentry ▸ hi)
  file fd' f' hf' := by
    rw [hfds] at hf'
    rw [hnext]
    by_cases hne : fd' = fd
    · subst hne
      rw [Function.update_self] at hf'
      exact hd f' hf'
    · rw [Function.update_of_ne hne] at hf'
      exact h.file fd' f' hf'

theorem failed (h : os.Numbered) (e : ℕ) : (os.failed e).Numbered := ⟨h.entry, h.file⟩

theorem seek (h : os.Numbered) {f : OpenFile} (hf : os.fds fd = some (.file f)) (off : ℕ) :
    (os.seek fd f off).Numbered := by
  refine h.update (fun f' heq => ?_) rfl rfl rfl
  cases heq
  exact h.file fd f hf

theorem closed (h : os.Numbered) : (os.closed fd).Numbered :=
  h.update (fun _ heq => by cases heq) rfl rfl rfl

theorem unlinked (h : os.Numbered) (path : Path) :
    ({ os with entry := Function.update os.entry (os.resolve path) none } : Os S).Numbered := by
  refine ⟨fun name i hi => ?_, h.file⟩
  dsimp only at hi
  by_cases hp : name = os.resolve path
  · rw [hp, Function.update_self] at hi
    cases hi
  · rw [Function.update_of_ne hp] at hi
    exact h.entry name i hi

theorem of_moves (h : os.Numbered)
    (hmoves : os' = os ∨ (∃ e, os' = os.failed e) ∨
      ∃ f off, os.fds fd = some (.file f) ∧ os' = os.seek fd f off) : os'.Numbered := by
  obtain rfl | ⟨e, rfl⟩ | ⟨f, off, hfd, rfl⟩ := hmoves
  · exact h
  · exact h.failed e
  · exact h.seek hfd off

theorem le_next (h : os.Numbered) (path : Path) : (os.truncated path).1 ≤ os.next := by
  unfold truncated
  cases hdir : os.dir path with
  | none => exact le_rfl
  | some i => exact (h.dir path i hdir).le

theorem creat (h : os.Numbered) (path : Path) {n : ℤ} {flags : BitVec 32} :
    ((os.truncated path).2.install n
      (.file ⟨os.next, (os.truncated path).1, 0, flags⟩)).Numbered where
  entry name i hi := by
    change (os.truncated path).2.entry name = some i at hi
    by_cases hp : name = os.resolve path
    · have hself : (os.truncated path).2.entry name = some (os.truncated path).1 := by
        rw [hp]
        exact Function.update_self _ _ _
      rw [hself] at hi
      cases hi
      exact Nat.lt_succ_of_le (h.le_next path)
    · rw [(within_truncated os path).entry name hp] at hi
      exact Nat.lt_succ_of_lt (h.entry name i hi)
  file fd' f' hf' := by
    by_cases hne : fd' = n
    · subst hne
      rw [install_fds_self] at hf'
      cases hf'
      exact Nat.lt_succ_of_le (h.le_next path)
    · rw [(within_install _ n _).fds fd' hne] at hf'
      exact Nat.lt_succ_of_lt (h.file fd' f' hf')

theorem handle (h : os.Numbered) {β : Type} (op : FileCall β) (o : Outcome) :
    (Os.handle op o os).2.Numbered := by
  cases op with
  | getErrno => exact h
  | setErrno e => exact h.failed e
  | openAt path flags =>
      cases o with
      | fail e => exact h.failed e
      | ok n =>
          cases hdir : os.dir path with
          | none =>
              simp only [Os.handle, hdir]
              exact h.failed _
          | some i =>
              simp only [Os.handle, hdir]
              split_ifs
              · exact h.install_file (h.dir path i hdir).le
              · exact h.failed _
  | creat path =>
      cases o with
      | fail e => exact h.failed e
      | ok n =>
          simp only [Os.handle]
          split_ifs
          · exact h.creat path
          · exact h.failed _
  | write fd bytes =>
      obtain ⟨e, heq⟩ | ⟨f, off, data, hfd, heq⟩ := write_cases os fd bytes o
      · rw [heq]
        exact h.failed e
      · rw [heq]
        refine h.update (fun f' hf' => ?_) rfl rfl rfl
        cases hf'
        exact h.file fd f hfd
  | close fd =>
      cases hfd : os.fds fd with
      | none =>
          simp only [Os.handle, hfd]
          exact h.failed _
      | some d =>
          cases o with
          | ok n =>
              simp only [Os.handle, hfd]
              exact h.closed
          | fail e =>
              simp only [Os.handle, hfd]
              exact h.closed.failed e
  | unlink path =>
      cases o with
      | fail e => exact h.failed e
      | ok n =>
          cases hdir : os.dir path with
          | none =>
              simp only [Os.handle, hdir]
              exact h.failed _
          | some i =>
              simp only [Os.handle, hdir]
              exact h.unlinked path
  | read fd n =>
      have hmoves := moves_cases (show FileCall.Moves fd _ (.read fd n) from rfl) os o
      exact h.of_moves hmoves
  | lseek fd off whence =>
      have hmoves := moves_cases (show FileCall.Moves fd _ (.lseek fd off whence) from rfl) os o
      exact h.of_moves hmoves

end Numbered

theorem wlp_numbered {α : Type} (p : Prog FileCall α) (h : os.Numbered) :
    p.wlp anySem (fun _ os' => os'.Numbered) os := by
  refine Prog.wlp_keep _ (I := Numbered) ?_ p h
  rintro δ op s r s' hs ⟨o, -, heq⟩
  have hnumbered : (Os.handle op o s).2.Numbered := hs.handle op o
  rwa [heq] at hnumbered

end Os

end Posix
