import Mathlib.Data.Set.Insert
import Dabba.Posix.File
import Dabba.Program.Partial

/-!
# The footprint of file system calls

Which descriptors, inodes and paths a call may change, whatever its outcome. A call
on a descriptor leaves all other descriptors alone, and opening a file concerns a
descriptor only that was free before.
-/

namespace Posix

open Program

def FileCall.WritesTo (fd : ℤ) : ∀ β : Type, FileCall β → Prop
  | _, .write fd' _ => fd' = fd
  | _, _ => False

def FileCall.Errno : ∀ β : Type, FileCall β → Prop
  | _, .getErrno => True
  | _, .setErrno _ => True
  | _, _ => False

/-- The calls that read or move the descriptor, or concern `errno` only. -/
def FileCall.Moves (fd : ℤ) : ∀ β : Type, FileCall β → Prop
  | _, .read fd' _ => fd' = fd
  | _, .lseek fd' _ _ => fd' = fd
  | _, .getErrno => True
  | _, .setErrno _ => True
  | _, _ => False

namespace Os

variable {S : Type} {os os' os'' : Os S} {fd : ℤ} {F F' : Set ℤ} {I I' : Set ℕ}
  {P P' : Set Path}

/-- Nothing but these descriptors, inodes and names has changed. -/
structure Within (F : Set ℤ) (I : Set ℕ) (P : Set Path) (os os' : Os S) : Prop where
  fds : ∀ fd ∉ F, os'.fds fd = os.fds fd
  data : ∀ i ∉ I, os'.data i = os.data i
  resolve : os'.resolve = os.resolve
  entry : ∀ p ∉ P, os'.entry p = os.entry p
  next : os.next ≤ os'.next

namespace Within

theorem refl (os : Os S) : Within F I P os os :=
  ⟨fun _ _ => rfl, fun _ _ => rfl, rfl, fun _ _ => rfl, le_rfl⟩

theorem trans (h : Within F I P os os') (h' : Within F I P os' os'') :
    Within F I P os os'' where
  fds := fun fd hfd => (h'.fds fd hfd).trans (h.fds fd hfd)
  data := fun i hi => (h'.data i hi).trans (h.data i hi)
  resolve := h'.resolve.trans h.resolve
  entry := fun p hp => (h'.entry p hp).trans (h.entry p hp)
  next := h.next.trans h'.next

theorem mono (h : Within F I P os os') (hF : F ⊆ F') (hI : I ⊆ I') (hP : P ⊆ P') :
    Within F' I' P' os os' where
  fds := fun fd hfd => h.fds fd fun hmem => hfd (hF hmem)
  data := fun i hi => h.data i fun hmem => hi (hI hmem)
  resolve := h.resolve
  entry := fun p hp => h.entry p fun hmem => hp (hP hmem)
  next := h.next

/-- What a state spares whose free descriptors alone may change: the descriptors that are
free later were free before. -/
theorem free_subset (h : Within {fd | os.fds fd = none} I P os os') :
    {fd | os'.fds fd = none} ⊆ {fd | os.fds fd = none} := by
  intro fd hfd
  by_contra hopen
  rw [Set.mem_ofPred_eq, h.fds fd hopen] at hfd
  exact hopen hfd

theorem trans_free (h : Within {fd | os.fds fd = none} I P os os')
    (h' : Within {fd | os'.fds fd = none} I' P' os' os'') (hI : I' ⊆ I) (hP : P' ⊆ P) :
    Within {fd | os.fds fd = none} I P os os'' :=
  h.trans (h'.mono h.free_subset hI hP)

theorem data_eq (h : Within F ∅ P os os') : os'.data = os.data :=
  funext fun i => h.data i (Set.notMem_empty i)

theorem dir (h : Within F I P os os') {path : Path} (hpath : os.resolve path ∉ P) :
    os'.dir path = os.dir path := by
  rw [Os.dir, Os.dir, h.resolve, h.entry _ hpath]

theorem dir_eq (h : Within F I ∅ os os') : os'.dir = os.dir :=
  funext fun _ => h.dir (Set.notMem_empty _)

end Within

theorem within_failed (e : ℕ) : Within F I P os (os.failed e) :=
  ⟨fun _ _ => rfl, fun _ _ => rfl, rfl, fun _ _ => rfl, le_rfl⟩

theorem within_seek (f : OpenFile) (off : ℕ) : Within {fd} ∅ ∅ os (os.seek fd f off) :=
  ⟨fun _ hfd' => Function.update_of_ne hfd' _ _, fun _ _ => rfl, rfl, fun _ _ => rfl,
    le_rfl⟩

theorem within_closed : Within {fd} ∅ ∅ os (os.closed fd) :=
  ⟨fun _ hfd' => Function.update_of_ne hfd' _ _, fun _ _ => rfl, rfl, fun _ _ => rfl,
    le_rfl⟩

theorem within_install (os : Os S) (fd : ℤ) (d : Descriptor S) :
    Within {fd} ∅ ∅ os (os.install fd d) :=
  ⟨fun _ hfd' => Function.update_of_ne hfd' _ _, fun _ _ => rfl, rfl, fun _ _ => rfl,
    Nat.le_succ _⟩

/-- What a call that reads or moves a descriptor does to the state. -/
theorem moves_cases {β : Type} {op : FileCall β} (h : FileCall.Moves fd β op) (os : Os S)
    (o : Outcome) : (handle op o os).2 = os ∨ (∃ e, (handle op o os).2 = os.failed e) ∨
      ∃ f off, os.fds fd = some (.file f) ∧ (handle op o os).2 = os.seek fd f off := by
  cases op with
  | openAt path flags => exact h.elim
  | creat path => exact h.elim
  | write fd' bytes => exact h.elim
  | unlink path => exact h.elim
  | close fd' => exact h.elim
  | getErrno => exact Or.inl rfl
  | setErrno e => exact Or.inr (Or.inl ⟨e, rfl⟩)
  | read fd' n =>
      cases h
      cases o with
      | fail e => exact Or.inr (Or.inl ⟨e, rfl⟩)
      | ok short =>
          cases hfd : os.fds fd with
          | none => exact Or.inr (Or.inl ⟨ebadf, by simp only [handle, hfd]⟩)
          | some d =>
              cases d with
              | socket s => exact Or.inr (Or.inl ⟨einval, by simp only [handle, hfd]⟩)
              | file f =>
                  simp only [handle, hfd]
                  split
                  · exact Or.inr (Or.inr ⟨f, _, rfl, rfl⟩)
                  · exact Or.inr (Or.inl ⟨_, rfl⟩)
  | lseek fd' off whence =>
      cases h
      cases o with
      | fail e => exact Or.inr (Or.inl ⟨e, rfl⟩)
      | ok n =>
          cases hfd : os.fds fd with
          | none => exact Or.inr (Or.inl ⟨ebadf, by simp only [handle, hfd]⟩)
          | some d =>
              cases d with
              | socket s => exact Or.inr (Or.inl ⟨espipe, by simp only [handle, hfd]⟩)
              | file f =>
                  cases whence
                  all_goals
                    simp only [handle, hfd]
                    split
                    · exact Or.inr (Or.inr ⟨f, _, rfl, rfl⟩)
                    · exact Or.inr (Or.inl ⟨_, rfl⟩)

theorem within_moves {β : Type} {op : FileCall β} (h : FileCall.Moves fd β op) (os : Os S)
    (o : Outcome) : Within {fd} ∅ ∅ os (handle op o os).2 := by
  obtain heq | ⟨e, heq⟩ | ⟨f, off, -, heq⟩ := moves_cases h os o
  · rw [heq]
    exact .refl os
  · rw [heq]
    exact within_failed e
  · rw [heq]
    exact within_seek f off

def Moved (fd : ℤ) (os os' : Os S) : Prop :=
  ∀ f, os.fds fd = some (.file f) →
    ∃ off, os'.fds fd = some (.file { f with offset := off })

theorem moved_moves {β : Type} {op : FileCall β} (h : FileCall.Moves fd β op) (os : Os S)
    (o : Outcome) : Moved fd os (handle op o os).2 := by
  intro f hfd
  obtain heq | ⟨e, heq⟩ | ⟨f', off, hfd', heq⟩ := moves_cases h os o
  · rw [heq]
    exact ⟨f.offset, hfd⟩
  · rw [heq]
    exact ⟨f.offset, hfd⟩
  · rw [hfd] at hfd'
    cases hfd'
    rw [heq]
    exact ⟨off, seek_fds_self _ _ _ _⟩

theorem within_close (os : Os S) (fd : ℤ) (o : Outcome) :
    Within {fd} ∅ ∅ os (handle (.close fd) o os).2 := by
  cases hfd : os.fds fd with
  | none =>
      simp only [handle, hfd]
      exact within_failed _
  | some d =>
      cases o with
      | ok n =>
          simp only [handle, hfd]
          exact within_closed
      | fail e =>
          simp only [handle, hfd]
          exact within_closed.trans (within_failed e)

theorem within_errno {β : Type} {op : FileCall β} (h : FileCall.Errno β op) (os : Os S)
    (o : Outcome) : Within F I P os (handle op o os).2 := by
  cases op with
  | getErrno => exact .refl os
  | setErrno e => exact within_failed e
  | _ => exact h.elim

theorem write_cases (os : Os S) (fd : ℤ) (bytes : List Byte) (o : Outcome) :
    (∃ e, (handle (.write fd bytes) o os).2 = os.failed e) ∨
      ∃ f off data, os.fds fd = some (.file f) ∧ (handle (.write fd bytes) o os).2 =
        os.putFile fd { f with offset := off } data := by
  cases o with
  | fail e => exact Or.inl ⟨e, rfl⟩
  | ok short =>
      cases hfd : os.fds fd with
      | none => exact Or.inl ⟨ebadf, by simp only [handle, hfd]⟩
      | some d =>
          cases d with
          | socket s => exact Or.inl ⟨einval, by simp only [handle, hfd]⟩
          | file f =>
              by_cases hw : f.writable
              · simp only [handle, hfd, hw, if_true]
                exact Or.inr ⟨f, _, _, rfl, rfl⟩
              · simp only [handle, hfd, hw, if_false]
                exact Or.inl ⟨_, rfl⟩

theorem within_write (os : Os S) (fd : ℤ) (bytes : List Byte) (o : Outcome) :
    Within {fd} {i | ∃ f, os.fds fd = some (.file f) ∧ f.inode = i} ∅ os
      (handle (.write fd bytes) o os).2 := by
  obtain ⟨e, heq⟩ | ⟨f, off, data, hfd, heq⟩ := write_cases os fd bytes o
  · rw [heq]
    exact within_failed e
  · rw [heq]
    refine ⟨fun fd' hne => Function.update_of_ne hne _ _, fun i hi => ?_,
      rfl, fun _ _ => rfl, le_rfl⟩
    exact Function.update_of_ne (fun h => hi ⟨f, hfd, h.symm⟩) _ _

def inode (os : Os S) (fd : ℤ) : Option ℕ :=
  match os.fds fd with
  | some (.file f) => some f.inode
  | _ => none

/-- What writing to a descriptor leaves alone. -/
structure WroteTo (fd : ℤ) (os os' : Os S) : Prop where
  within : Within {fd} {i | os.inode fd = some i} ∅ os os'
  inode : os'.inode fd = os.inode fd
  opened : os.fds fd ≠ none → os'.fds fd ≠ none

theorem WroteTo.trans (h : WroteTo fd os os') (h' : WroteTo fd os' os'') :
    WroteTo fd os os'' where
  within := h.within.trans (h'.within.mono le_rfl (fun _ hi => h.inode ▸ hi) le_rfl)
  inode := h'.inode.trans h.inode
  opened := fun hopen => h'.opened (h.opened hopen)

theorem wroteTo_write (os : Os S) (fd : ℤ) (bytes : List Byte) (o : Outcome) :
    WroteTo fd os (handle (.write fd bytes) o os).2 := by
  obtain ⟨e, heq⟩ | ⟨f, off, data, hfd, heq⟩ := write_cases os fd bytes o
  · rw [heq]
    exact ⟨within_failed e, rfl, id⟩
  · have hinode : os.inode fd = some f.inode := by simp only [Os.inode, hfd]
    have hwithin : Within {fd} {i | os.inode fd = some i} ∅ os
        (handle (.write fd bytes) o os).2 := by
      refine (within_write os fd bytes o).mono le_rfl ?_ le_rfl
      rintro i ⟨f', hf', rfl⟩
      rw [hfd] at hf'
      cases hf'
      exact hinode
    rw [heq] at hwithin ⊢
    refine ⟨hwithin, ?_, fun _ => ?_⟩
    · rw [hinode]
      simp only [Os.inode, putFile_fds_self]
    · rw [putFile_fds_self]
      exact Option.some_ne_none _

theorem within_unlink (os : Os S) (path : Path) (o : Outcome) :
    Within ∅ ∅ {os.resolve path} os (handle (.unlink path) o os).2 := by
  cases o with
  | fail e => exact within_failed e
  | ok n =>
      cases hdir : os.dir path with
      | none =>
          simp only [handle, hdir]
          exact within_failed _
      | some i =>
          simp only [handle, hdir]
          exact ⟨fun _ _ => rfl, fun _ _ => rfl, rfl,
            fun _ hp => Function.update_of_ne hp _ _, le_rfl⟩

theorem within_truncated (os : Os S) (path : Path) :
    Within ∅ {(os.truncated path).1} {os.resolve path} os (os.truncated path).2 :=
  ⟨fun _ _ => rfl, fun _ hi => Function.update_of_ne hi _ _, rfl,
    fun _ hp => Function.update_of_ne hp _ _, le_rfl⟩

section Wlp

variable {α : Type}

theorem exec_of_run {p : Prog FileCall α} {script : ℕ → Outcome} {a : α}
    (h : p.run handle script os = some (a, os')) : p.Exec anySem os a os' := by
  unfold anySem
  exact Prog.exec_of_run (fun _ _ _ _ => trivial) h

theorem wlp_close_within (fd : ℤ) (os : Os S) :
    (Prog.perform (.close fd)).wlp anySem (fun _ os' => Within {fd} ∅ ∅ os os') os := by
  rintro r os' ⟨o, -, heq⟩
  have hwithin := within_close os fd o
  rwa [heq] at hwithin

theorem wlp_writesTo {p : Prog FileCall α} (hp : p.Uses (FileCall.WritesTo fd)) (os : Os S) :
    p.wlp anySem (fun _ os' => WroteTo fd os os') os := by
  refine Prog.wlp_of_uses _ (R := fun s s' => WroteTo fd s s')
    (fun s => ⟨.refl s, rfl, id⟩) (fun _ _ _ h h' => h.trans h') ?_ hp os
  rintro δ op s r s' hop ⟨o, -, heq⟩
  cases op with
  | write fd' bytes =>
      cases hop
      have hwrote := wroteTo_write s fd bytes o
      rwa [heq] at hwrote
  | _ => exact hop.elim

theorem wlp_moves {p : Prog FileCall α} (hp : p.Uses (FileCall.Moves fd)) (os : Os S) :
    p.wlp anySem (fun _ os' => Within {fd} ∅ ∅ os os' ∧ Moved fd os os') os := by
  refine Prog.wlp_of_uses _ (R := fun s s' => Within {fd} ∅ ∅ s s' ∧ Moved fd s s')
    (fun s => ⟨.refl s, fun f hf => ⟨f.offset, hf⟩⟩) ?_ ?_ hp os
  · rintro s₁ s₂ s₃ ⟨h₁, hmoved₁⟩ ⟨h₂, hmoved₂⟩
    refine ⟨h₁.trans h₂, fun f hf => ?_⟩
    obtain ⟨off, hoff⟩ := hmoved₁ f hf
    exact hmoved₂ { f with offset := off } hoff
  · rintro δ op s r s' hop ⟨o, -, heq⟩
    have hwithin : Within {fd} ∅ ∅ s (handle op o s).2 := within_moves hop s o
    have hmoved : Moved fd s (handle op o s).2 := moved_moves hop s o
    rw [heq] at hwithin hmoved
    exact ⟨hwithin, hmoved⟩

/-- What opening an existing file does. -/
theorem openAt_cases {path : Path} {flags : BitVec 32} {r : ℤ}
    (h : anySem (.openAt path flags) os r os') :
    (r = -1 ∧ Within ∅ ∅ ∅ os os') ∨
      ∃ (n i : ℕ), r = n ∧ os.Fresh n ∧ os.dir path = some i ∧
        os' = os.install n (.file ⟨os.next, i, 0, flags⟩) := by
  obtain ⟨o, -, heq⟩ := h
  cases o with
  | fail e =>
      obtain ⟨rfl, rfl⟩ := Prod.mk.inj heq
      exact Or.inl ⟨rfl, within_failed e⟩
  | ok n =>
      cases hdir : os.dir path with
      | none =>
          simp only [handle, hdir] at heq
          obtain ⟨rfl, rfl⟩ := Prod.mk.inj heq
          exact Or.inl ⟨rfl, within_failed _⟩
      | some i =>
          simp only [handle, hdir] at heq
          split_ifs at heq with hfresh
          · obtain ⟨rfl, rfl⟩ := Prod.mk.inj heq
            exact Or.inr ⟨n, i, rfl, hfresh, rfl, rfl⟩
          · obtain ⟨rfl, rfl⟩ := Prod.mk.inj heq
            exact Or.inl ⟨rfl, within_failed _⟩

theorem creat_cases {path : Path} {r : ℤ} (h : anySem (.creat path) os r os') :
    (r = -1 ∧ Within ∅ ∅ ∅ os os') ∨
      ∃ n : ℕ, r = n ∧ os.Fresh n ∧ os' = (os.truncated path).2.install n
        (.file ⟨os.next, (os.truncated path).1, 0, oWronly⟩) := by
  obtain ⟨o, -, heq⟩ := h
  cases o with
  | fail e =>
      obtain ⟨rfl, rfl⟩ := Prod.mk.inj heq
      exact Or.inl ⟨rfl, within_failed e⟩
  | ok n =>
      simp only [handle] at heq
      split_ifs at heq with hfresh
      · obtain ⟨rfl, rfl⟩ := Prod.mk.inj heq
        exact Or.inr ⟨n, rfl, hfresh, rfl⟩
      · obtain ⟨rfl, rfl⟩ := Prod.mk.inj heq
        exact Or.inl ⟨rfl, within_failed _⟩

theorem lseek_last {f : OpenFile} {r : ℤ} (hfd : os.fds fd = some (.file f))
    (h : anySem (.lseek fd 0 .last) os r os') (hr : 0 ≤ r) :
    os' = os.seek fd f (os.data f.inode).length := by
  obtain ⟨o, -, heq⟩ := h
  cases o with
  | fail e =>
      obtain ⟨rfl, -⟩ := Prod.mk.inj heq
      omega
  | ok n =>
      simp only [handle, hfd, zero_add, Int.natCast_nonneg, if_true, Int.toNat_natCast] at heq
      exact (Prod.mk.inj heq).2.symm

end Wlp

end Os

end Posix
