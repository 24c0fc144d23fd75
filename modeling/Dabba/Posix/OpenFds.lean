import Mathlib.Data.Set.Insert
import Dabba.Posix.File
import Dabba.Program.Partial

/-!
# The set of open descriptors

Which descriptors a process has open, and what the file system calls do to that
set, whatever their outcome. Only opening, creating and closing change it, and a
close takes its descriptor out even when it reports an error.
-/

namespace Posix

open Program

/-- The calls that neither open nor close a descriptor. -/
def FileCall.KeepsFds : ∀ β : Type, FileCall β → Prop
  | _, .openAt _ _ => False
  | _, .creat _ => False
  | _, .close _ => False
  | _, _ => True

/-- What a descriptor stands for, without the state of the open file. -/
def Descriptor.ident {S : Type} : Descriptor S → ℕ ⊕ S
  | .file f => .inl f.id
  | .socket s => .inr s

namespace Os

variable {S : Type}

def openFds (os : Os S) : Set ℤ := {fd | os.fds fd ≠ none}

def ident (os : Os S) (fd : ℤ) : Option (ℕ ⊕ S) := (os.fds fd).map Descriptor.ident

/-- An attempt to open a descriptor: it failed and the set is the same, or the
descriptor was not open before and is the only new one. -/
def Opened (os : Os S) (fd : ℤ) (os' : Os S) : Prop :=
  if fd < 0 then os'.openFds = os.openFds
  else fd ∉ os.openFds ∧ os'.openFds = insert fd os.openFds

variable {os os' : Os S} {fd : ℤ}

theorem openFds_install (d : Descriptor S) :
    (os.install fd d).openFds = insert fd os.openFds := by
  ext fd'
  by_cases hfd : fd' = fd
  · simp [openFds, install, hfd]
  · simp [openFds, install, hfd]

theorem openFds_closed : (os.closed fd).openFds = os.openFds \ {fd} := by
  ext fd'
  by_cases hfd : fd' = fd
  · simp [openFds, closed, hfd]
  · simp [openFds, closed, hfd]

theorem mem_openFds_iff : fd ∈ os.openFds ↔ os.ident fd ≠ none := by
  simp [openFds, ident]

theorem openFds_of_ident (h : os'.ident = os.ident) : os'.openFds = os.openFds := by
  ext fd
  rw [mem_openFds_iff, mem_openFds_iff, h]

theorem ident_of_update {f : OpenFile} (hf : os.fds fd = some (.file f))
    (f' : OpenFile) (hid : f'.id = f.id)
    (h : os'.fds = Function.update os.fds fd (some (.file f'))) :
    os'.ident = os.ident := by
  funext fd'
  by_cases hfd : fd' = fd
  · simp [ident, h, hfd, hf, Descriptor.ident, hid]
  · simp [ident, h, hfd]

theorem ident_seek {f : OpenFile} (hf : os.fds fd = some (.file f)) (off : ℕ) :
    (os.seek fd f off).ident = os.ident :=
  ident_of_update hf { f with offset := off } rfl rfl

theorem ident_handle {β : Type} {op : FileCall β} (h : FileCall.KeepsFds β op)
    (o : Outcome) : (handle op o os).2.ident = os.ident := by
  cases op with
  | openAt path flags => exact h.elim
  | creat path => exact h.elim
  | close fd => exact h.elim
  | getErrno => rfl
  | setErrno e => rfl
  | _ =>
      cases o <;> simp only [handle] <;> repeat' split
      all_goals
        first
          | rfl
          | exact ident_seek ‹_› _

theorem openFds_handle {β : Type} {op : FileCall β} (h : FileCall.KeepsFds β op)
    (o : Outcome) : (handle op o os).2.openFds = os.openFds :=
  openFds_of_ident (ident_handle h o)

theorem ident_install (d : Descriptor S) :
    (os.install fd d).ident = Function.update os.ident fd (some d.ident) := by
  funext fd'
  by_cases hfd : fd' = fd
  · simp [ident, install, hfd]
  · simp [ident, install, hfd]

theorem ident_closed : (os.closed fd).ident = Function.update os.ident fd none := by
  funext fd'
  by_cases hfd : fd' = fd
  · simp [ident, closed, hfd]
  · simp [ident, closed, hfd]

theorem ident_close (o : Outcome) :
    (handle (.close fd) o os).2.ident = Function.update os.ident fd none := by
  cases hfd : os.fds fd with
  | none =>
      have hnone : os.ident fd = none := by rw [ident, hfd, Option.map_none]
      have hsame : (handle (.close fd) o os).2.ident = os.ident := by
        cases o <;> simp only [handle, hfd] <;> rfl
      rw [hsame, ← hnone, Function.update_eq_self]
  | some d =>
      rw [← ident_closed]
      cases o
      · simp only [handle, hfd]
      · simp only [handle, hfd]
        rfl

/-- An attempt to open a file: it failed, or a descriptor that was free stands for a
new open file. -/
def OpenedFile (os : Os S) (fd : ℤ) (os' : Os S) : Prop :=
  if fd < 0 then os'.ident = os.ident
  else os.ident fd = none ∧
    ∃ i, os'.ident = Function.update os.ident fd (some (.inl i))

theorem openedFile_of_fresh {n : ℕ} (hfresh : os.Fresh n) {i : ℕ}
    (h : os'.ident = Function.update os.ident n (some (.inl i))) :
    OpenedFile os n os' := by
  have hn : ¬ (n : ℤ) < 0 := by omega
  rw [OpenedFile, if_neg hn]
  exact ⟨by rw [ident, hfresh.2, Option.map_none], i, h⟩

theorem openedFile_of_failed (h : os'.ident = os.ident) : OpenedFile os (-1) os' := by
  rw [OpenedFile, if_pos (by decide)]
  exact h

theorem openedFile_openAt (path : Path) (flags : BitVec 32) (o : Outcome) :
    OpenedFile os (handle (.openAt path flags) o os).1
      (handle (.openAt path flags) o os).2 := by
  cases o with
  | fail e => exact openedFile_of_failed rfl
  | ok n =>
      cases hdir : os.dir path with
      | none =>
          simp only [handle, hdir]
          exact openedFile_of_failed rfl
      | some i =>
          simp only [handle, hdir]
          split_ifs with hfresh
          · exact openedFile_of_fresh hfresh (ident_install _)
          · exact openedFile_of_failed rfl

theorem openedFile_creat (path : Path) (o : Outcome) :
    OpenedFile os (handle (.creat path) o os).1 (handle (.creat path) o os).2 := by
  cases o with
  | fail e => exact openedFile_of_failed rfl
  | ok n =>
      simp only [handle]
      split_ifs with hfresh
      · exact openedFile_of_fresh hfresh (ident_install _)
      · exact openedFile_of_failed rfl

theorem openFds_close (o : Outcome) :
    (handle (.close fd) o os).2.openFds = os.openFds \ {fd} := by
  cases hfd : os.fds fd with
  | none =>
      have hnotin : fd ∉ os.openFds := fun h => h hfd
      have hsame : (handle (.close fd) o os).2.openFds = os.openFds := by
        cases o <;> simp [handle, hfd, failed, openFds]
      rw [hsame, Set.sdiff_singleton_eq_self hnotin]
  | some d =>
      rw [← openFds_closed]
      cases o <;> simp [handle, hfd, failed, openFds]

theorem opened_of_fresh {n : ℕ} (hfresh : os.Fresh n)
    (h : os'.openFds = insert (n : ℤ) os.openFds) : Opened os n os' := by
  have hn : ¬ (n : ℤ) < 0 := by omega
  rw [Opened, if_neg hn]
  exact ⟨fun hmem => hmem hfresh.2, h⟩

theorem opened_of_failed (h : os'.openFds = os.openFds) : Opened os (-1) os' := by
  rw [Opened, if_pos (by decide)]
  exact h

theorem OpenedFile.opened (h : OpenedFile os fd os') : Opened os fd os' := by
  rw [OpenedFile] at h
  rw [Opened]
  split_ifs at h ⊢ with hfd
  · exact openFds_of_ident h
  · obtain ⟨hnone, i, hident⟩ := h
    refine ⟨fun hmem => mem_openFds_iff.1 hmem hnone, ?_⟩
    ext fd'
    rw [mem_openFds_iff, hident, Set.mem_insert_iff, mem_openFds_iff]
    by_cases hne : fd' = fd
    · simp [hne]
    · simp [hne]

section Wlp

variable {α β : Type} {Q : α → Os S → Prop}

theorem wlp_keepsFds {p : Prog FileCall α} (hp : p.Uses FileCall.KeepsFds)
    (os : Os S) : p.wlp anySem (fun _ os' => os'.openFds = os.openFds) os := by
  refine Prog.wlp_of_uses _ (R := fun s s' : Os S => s'.openFds = s.openFds)
    (fun _ => rfl) (fun _ _ _ h h' => h'.trans h) ?_ hp os
  rintro δ op s r s' hop ⟨o, -, heq⟩
  have hset : (handle op o s).2.openFds = s.openFds := openFds_handle hop o
  rw [heq] at hset
  exact hset

theorem wlp_close {k : ℤ → Prog FileCall α}
    (h : ∀ rc os', os'.openFds = os.openFds \ {fd} → (k rc).wlp anySem Q os') :
    ((Prog.perform (.close fd)).bind k).wlp anySem Q os := by
  rintro r os' ⟨o, -, heq⟩
  have hset : (handle (.close fd) o os).2.openFds = os.openFds \ {fd} := openFds_close o
  rw [heq] at hset
  exact h r os' hset

theorem wlp_openAt {path : Path} {flags : BitVec 32} {k : ℤ → Prog FileCall α}
    (h : ∀ fd os', Opened os fd os' → (k fd).wlp anySem Q os') :
    ((Prog.perform (.openAt path flags)).bind k).wlp anySem Q os := by
  rintro r os' ⟨o, -, heq⟩
  have hopened : OpenedFile os (handle (.openAt path flags) o os).1
      (handle (.openAt path flags) o os).2 := openedFile_openAt path flags o
  rw [heq] at hopened
  exact h r os' hopened.opened

theorem wlp_creat {path : Path} {k : ℤ → Prog FileCall α}
    (h : ∀ fd os', Opened os fd os' → (k fd).wlp anySem Q os') :
    ((Prog.perform (.creat path)).bind k).wlp anySem Q os := by
  rintro r os' ⟨o, -, heq⟩
  have hopened : OpenedFile os (handle (.creat path) o os).1 (handle (.creat path) o os).2 :=
    openedFile_creat path o
  rw [heq] at hopened
  exact h r os' hopened.opened

end Wlp

end Os

end Posix
