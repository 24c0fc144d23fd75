import Mathlib.Logic.Function.Basic
import Dabba.Posix.Bytes
import Dabba.Program.Basic

/-!
# Files and descriptors

The part of a process and its kernel that file system calls act on: a table of
descriptors, a directory from names to inodes, and the bytes of every inode. A path
stands for the name it resolves to, and several paths may resolve to one name. An
open file description keeps its own offset and has an identity of its own, so
two descriptors of one file are told apart, and so is a descriptor number that
is used again. What a descriptor may stand for besides a file is left to the
parameter `S`.

The kernel's choices are outcomes: a call fails with an error number, or
succeeds with a number that says which descriptor is handed out or by how many
bytes a transfer falls short.
-/

namespace Posix

open Program

abbrev enoent : ℕ := 2
abbrev eintr : ℕ := 4
abbrev eio : ℕ := 5
abbrev ebadf : ℕ := 9
abbrev eagain : ℕ := 11
abbrev enomem : ℕ := 12
abbrev enodev : ℕ := 19
abbrev einval : ℕ := 22
abbrev emfile : ℕ := 24
abbrev espipe : ℕ := 29

abbrev oRdonly : BitVec 32 := 0x0
abbrev oWronly : BitVec 32 := 0x1
abbrev oRdwr : BitVec 32 := 0x2
abbrev oAccmode : BitVec 32 := 0x3
abbrev oAppend : BitVec 32 := 0x400

abbrev Path := List Byte

structure OpenFile where
  id : ℕ
  inode : ℕ
  offset : ℕ
  flags : BitVec 32
deriving DecidableEq

def OpenFile.readable (f : OpenFile) : Prop := f.flags &&& oAccmode ≠ oWronly
def OpenFile.writable (f : OpenFile) : Prop := f.flags &&& oAccmode ≠ oRdonly

instance (f : OpenFile) : Decidable f.readable :=
  inferInstanceAs (Decidable (_ ≠ _))

instance (f : OpenFile) : Decidable f.writable :=
  inferInstanceAs (Decidable (_ ≠ _))

inductive Descriptor (S : Type)
  | file (f : OpenFile)
  | socket (s : S)

/-- The state that file system calls read and write. A path is resolved to a name, the same
for all paths to one place, and the entries are under the names. -/
structure Os (S : Type) where
  errno : ℕ
  fds : ℤ → Option (Descriptor S)
  resolve : Path → Path
  entry : Path → Option ℕ
  data : ℕ → List Byte
  next : ℕ

/-- The kernel's choice in a call. -/
inductive Outcome
  | ok (n : ℕ)
  | fail (errno : ℕ)
deriving DecidableEq

inductive Whence
  | set
  | cur
  | last

inductive FileCall : Type → Type
  | openAt (path : Path) (flags : BitVec 32) : FileCall ℤ
  | creat (path : Path) : FileCall ℤ
  | read (fd : ℤ) (n : ℕ) : FileCall (Option (List Byte))
  | write (fd : ℤ) (bytes : List Byte) : FileCall ℤ
  | lseek (fd : ℤ) (off : ℤ) (whence : Whence) : FileCall ℤ
  | close (fd : ℤ) : FileCall ℤ
  | unlink (path : Path) : FileCall ℤ
  | getErrno : FileCall ℕ
  | setErrno (e : ℕ) : FileCall Unit

/-- `n` bytes from an offset on, fewer at the end of the file. -/
def readAt (data : List Byte) (off n : ℕ) : List Byte :=
  (data.drop off).take n

/-- The file after a write at an offset; a gap before it is filled with zeros. -/
def writeAt (data : List Byte) (off : ℕ) (bytes : List Byte) : List Byte :=
  data.take off ++ List.replicate (off - data.length) 0 ++ bytes ++
    data.drop (off + bytes.length)

@[simp] theorem writeAt_length (data bytes : List Byte) :
    writeAt data data.length bytes = data ++ bytes := by
  simp [writeAt]

namespace Os

variable {S : Type}

/-- The descriptor number may be handed out: it is free, and not the one of
standard input. -/
def Fresh (os : Os S) (fd : ℤ) : Prop := 0 < fd ∧ os.fds fd = none

instance (os : Os S) (fd : ℤ) : Decidable (os.Fresh fd) :=
  decidable_of_iff (0 < fd ∧ (os.fds fd).isNone) (by simp [Fresh])

def failed (os : Os S) (e : ℕ) : Os S := { os with errno := e }

def install (os : Os S) (fd : ℤ) (d : Descriptor S) : Os S :=
  { os with fds := Function.update os.fds fd (some d), next := os.next + 1 }

def closed (os : Os S) (fd : ℤ) : Os S :=
  { os with fds := Function.update os.fds fd none }

def putFile (os : Os S) (fd : ℤ) (f : OpenFile) (bytes : List Byte) : Os S :=
  { os with
    fds := Function.update os.fds fd (some (.file f))
    data := Function.update os.data f.inode bytes }

def seek (os : Os S) (fd : ℤ) (f : OpenFile) (off : ℕ) : Os S :=
  { os with fds := Function.update os.fds fd (some (.file { f with offset := off })) }

/-- The file that a path reaches. -/
def dir (os : Os S) (path : Path) : Option ℕ := os.entry (os.resolve path)

/-- The file system state when `path` names a new empty file. -/
def truncated (os : Os S) (path : Path) : ℕ × Os S :=
  let i := (os.dir path).getD os.next
  (i, { os with
    entry := Function.update os.entry (os.resolve path) (some i)
    data := Function.update os.data i [] })

section Fields

variable (os : Os S) (fd : ℤ) (f f' : OpenFile) (bytes bytes' : List Byte)

@[simp] theorem putFile_fds_self :
    (os.putFile fd f bytes).fds fd = some (.file f) := by
  simp [putFile]

@[simp] theorem putFile_data_self :
    (os.putFile fd f bytes).data f.inode = bytes := by
  simp [putFile]

theorem truncated_dir (path : Path) :
    (os.truncated path).2.dir path = some (os.truncated path).1 := by
  simp [truncated, dir]

@[simp] theorem putFile_putFile (h : f.inode = f'.inode) :
    (os.putFile fd f bytes).putFile fd f' bytes' = os.putFile fd f' bytes' := by
  simp [putFile, h]

theorem putFile_self (h : os.fds fd = some (.file f)) :
    os.putFile fd f (os.data f.inode) = os := by
  simp [putFile, ← h]

@[simp] theorem seek_fds_self (off : ℕ) :
    (os.seek fd f off).fds fd = some (.file { f with offset := off }) := by
  simp [seek]

@[simp] theorem seek_data (off : ℕ) : (os.seek fd f off).data = os.data := rfl

@[simp] theorem seek_seek (off off' : ℕ) :
    (os.seek fd f off).seek fd { f with offset := off } off' =
      os.seek fd f off' := by
  simp [seek]

theorem seek_self (h : os.fds fd = some (.file f)) :
    os.seek fd f f.offset = os := by
  simp [seek, ← h]

@[simp] theorem install_fds_self (d : Descriptor S) :
    (os.install fd d).fds fd = some d := by
  simp [install]

@[simp] theorem install_data (d : Descriptor S) :
    (os.install fd d).data = os.data := rfl

@[simp] theorem install_dir (d : Descriptor S) :
    (os.install fd d).dir = os.dir := rfl

@[simp] theorem seek_install (off : ℕ) :
    (os.install fd (.file f)).seek fd f off =
      os.install fd (.file { f with offset := off }) := by
  simp [seek, install]

@[simp] theorem closed_data : (os.closed fd).data = os.data := rfl

end Fields

/-- The effect of a file system call, given the kernel's choice. -/
def handle : Handler FileCall Outcome (Os S)
  | _, .openAt path flags, .ok n, os =>
      match os.dir path with
      | none => (-1, os.failed enoent)
      | some i =>
          if os.Fresh n then (n, os.install n (.file ⟨os.next, i, 0, flags⟩))
          else (-1, os.failed emfile)
  | _, .openAt _ _, .fail e, os => (-1, os.failed e)
  | _, .creat path, .ok n, os =>
      if os.Fresh n then
        (n, (os.truncated path).2.install n
          (.file ⟨os.next, (os.truncated path).1, 0, oWronly⟩))
      else (-1, os.failed emfile)
  | _, .creat _, .fail e, os => (-1, os.failed e)
  | _, .read fd n, .ok short, os =>
      match os.fds fd with
      | some (.file f) =>
          if f.readable then
            -- A regular file gives at least one byte unless it has none left.
            let bytes := readAt (os.data f.inode) f.offset (n - min short (n - 1))
            (some bytes, os.seek fd f (f.offset + bytes.length))
          else (none, os.failed ebadf)
      | some (.socket _) => (none, os.failed einval)
      | none => (none, os.failed ebadf)
  | _, .read _ _, .fail e, os => (none, os.failed e)
  | _, .write fd bytes, .ok short, os =>
      match os.fds fd with
      | some (.file f) =>
          if f.writable then
            let done := bytes.take (bytes.length - short)
            let off :=
              if f.flags &&& oAppend = oAppend then (os.data f.inode).length
              else f.offset
            (done.length, os.putFile fd { f with offset := off + done.length }
              (writeAt (os.data f.inode) off done))
          else (-1, os.failed ebadf)
      | some (.socket _) => (-1, os.failed einval)
      | none => (-1, os.failed ebadf)
  | _, .write _ _, .fail e, os => (-1, os.failed e)
  | _, .lseek fd off whence, .ok _, os =>
      match os.fds fd with
      | some (.file f) =>
          let target := off + match whence with
            | .set => (0 : ℤ)
            | .cur => f.offset
            | .last => (os.data f.inode).length
          if 0 ≤ target then (target, os.seek fd f target.toNat)
          else (-1, os.failed einval)
      | some (.socket _) => (-1, os.failed espipe)
      | none => (-1, os.failed ebadf)
  | _, .lseek _ _ _, .fail e, os => (-1, os.failed e)
  | _, .close fd, o, os =>
      match os.fds fd, o with
      | none, _ => (-1, os.failed ebadf)
      | some _, .ok _ => (0, os.closed fd)
      -- The descriptor is released even when close(2) reports an error.
      | some _, .fail e => (-1, (os.closed fd).failed e)
  | _, .unlink path, .ok _, os =>
      match os.dir path with
      | some _ => (0, { os with entry := Function.update os.entry (os.resolve path) none })
      | none => (-1, os.failed enoent)
  | _, .unlink _, .fail e, os => (-1, os.failed e)
  | _, .getErrno, _, os => (os.errno, os)
  | _, .setErrno e, _, os => ((), os.failed e)

def anySem : Sem FileCall (Os S) := handle.sem fun _ _ _ => True

def Complete : ∀ {β : Type}, FileCall β → Outcome → Os S → Prop
  | _, .openAt _ _, .ok n, os => os.Fresh n
  | _, .creat _, .ok n, os => os.Fresh n
  | _, .read _ _, .ok n, _ => n = 0
  | _, .write _ _, .ok n, _ => n = 0
  | _, _, .ok _, _ => True
  | _, _, .fail _, _ => False

instance {β : Type} (op : FileCall β) (o : Outcome) (os : Os S) :
    Decidable (Complete op o os) :=
  match op, o with
  | .openAt _ _, .ok n => inferInstanceAs (Decidable (os.Fresh n))
  | .creat _, .ok n => inferInstanceAs (Decidable (os.Fresh n))
  | .read _ _, .ok n => inferInstanceAs (Decidable (n = 0))
  | .write _ _, .ok n => inferInstanceAs (Decidable (n = 0))
  | .lseek _ _ _, .ok _ => isTrue trivial
  | .close _, .ok _ => isTrue trivial
  | .unlink _, .ok _ => isTrue trivial
  | .getErrno, .ok _ => isTrue trivial
  | .setErrno _, .ok _ => isTrue trivial
  | op, .fail _ => isFalse (by cases op <;> exact not_false)

def completeSem : Sem FileCall (Os S) := handle.sem Complete

theorem handle_fds {β : Type} (op : FileCall β) (o : Outcome) (os : Os S) :
    ∃ fd, ∀ fd', fd' ≠ fd → (handle op o os).2.fds fd' = os.fds fd' := by
  have hupdate : ∀ (fd : ℤ) (x : Option (Descriptor S)), ∀ fd', fd' ≠ fd →
      Function.update os.fds fd x fd' = os.fds fd' :=
    fun fd x fd' h => Function.update_of_ne h x os.fds
  cases op <;> cases o <;> simp only [handle] <;> repeat' split
  all_goals
    first
      | exact ⟨_, hupdate _ _⟩
      | exact ⟨0, fun _ _ => rfl⟩
      | exact ⟨0, fun _ _ => trivial⟩

/-- There are free descriptor numbers beyond any bound. -/
def Unexhausted (os : Os S) : Prop :=
  ∀ k : ℕ, ∃ n : ℕ, k ≤ n ∧ os.fds n = none

theorem Unexhausted.handle {os : Os S} (h : os.Unexhausted) {β : Type}
    (op : FileCall β) (o : Outcome) : (Os.handle op o os).2.Unexhausted := by
  intro k
  obtain ⟨fd, hfd⟩ := handle_fds op o os
  obtain ⟨n, hn, hnone⟩ := h (max k (fd.toNat + 1))
  refine ⟨n, le_trans (le_max_left _ _) hn, ?_⟩
  rw [hfd n (by omega), hnone]

theorem exists_complete {os : Os S} (h : os.Unexhausted) {β : Type}
    (op : FileCall β) : ∃ r os', completeSem op os r os' ∧ os'.Unexhausted := by
  obtain ⟨n, hn, hnone⟩ := h 1
  have hfresh : os.Fresh n := ⟨by omega, hnone⟩
  have hcomplete : ∃ o, Complete op o os := by
    cases op with
    | openAt path flags => exact ⟨.ok n, hfresh⟩
    | creat path => exact ⟨.ok n, hfresh⟩
    | _ => exact ⟨.ok 0, by simp [Complete]⟩
  obtain ⟨o, ho⟩ := hcomplete
  exact ⟨_, _, ⟨o, ho, rfl⟩, h.handle op o⟩

theorem exists_of_wp_complete {α : Type} {os : Os S} {p : Prog FileCall α}
    {Q : α → Os S → Prop} (h : p.wp completeSem Q os) (hfree : os.Unexhausted) :
    ∃ a os', Q a os' ∧ os'.Unexhausted :=
  Prog.exists_of_wp _ (fun op _ hos => exists_complete hos op) h hfree

section Complete

variable {os : Os S} {fd : ℤ} {f : OpenFile} {path : Path}

theorem wp_openAt_complete {flags : BitVec 32} {i : ℕ} {Q : ℤ → Os S → Prop}
    (hdir : os.dir path = some i)
    (h : ∀ n : ℕ, os.Fresh n →
      Q n (os.install n (.file ⟨os.next, i, 0, flags⟩))) :
    (Prog.perform (.openAt path flags)).wp completeSem Q os := by
  rintro r s' ⟨o, ho, heq⟩
  cases o with
  | ok n =>
      have hfresh : os.Fresh n := ho
      simp only [handle, hdir, hfresh, if_true, Prod.mk.injEq] at heq
      obtain ⟨rfl, rfl⟩ := heq
      exact h n hfresh
  | fail e => exact ho.elim

theorem wp_creat_complete {Q : ℤ → Os S → Prop}
    (h : ∀ n : ℕ, os.Fresh n →
      Q n ((os.truncated path).2.install n
        (.file ⟨os.next, (os.truncated path).1, 0, oWronly⟩))) :
    (Prog.perform (.creat path)).wp completeSem Q os := by
  rintro r s' ⟨o, ho, heq⟩
  cases o with
  | ok n =>
      have hfresh : os.Fresh n := ho
      simp only [handle, hfresh, if_true, Prod.mk.injEq] at heq
      obtain ⟨rfl, rfl⟩ := heq
      exact h n hfresh
  | fail e => exact ho.elim

theorem wp_read_complete {n : ℕ} {Q : Option (List Byte) → Os S → Prop}
    (hfd : os.fds fd = some (.file f)) (hr : f.readable)
    (h : Q (some (readAt (os.data f.inode) f.offset n))
      (os.seek fd f (f.offset + (readAt (os.data f.inode) f.offset n).length))) :
    (Prog.perform (.read fd n)).wp completeSem Q os := by
  rintro r s' ⟨o, ho, heq⟩
  cases o with
  | ok short =>
      have hshort : short = 0 := ho
      subst hshort
      simp only [handle, hfd, hr, if_true, Nat.zero_min, Nat.sub_zero,
        Prod.mk.injEq] at heq
      obtain ⟨rfl, rfl⟩ := heq
      exact h
  | fail e => exact ho.elim

theorem wp_write_complete {bytes : List Byte} {Q : ℤ → Os S → Prop}
    (hfd : os.fds fd = some (.file f)) (hw : f.writable)
    (happend : f.flags &&& oAppend ≠ oAppend)
    (h : Q bytes.length
      (os.putFile fd { f with offset := f.offset + bytes.length }
        (writeAt (os.data f.inode) f.offset bytes))) :
    (Prog.perform (.write fd bytes)).wp completeSem Q os := by
  rintro r s' ⟨o, ho, heq⟩
  cases o with
  | ok short =>
      have hshort : short = 0 := ho
      subst hshort
      simp only [handle, hfd, hw, happend, if_true, if_false, Nat.sub_zero,
        List.take_length, Prod.mk.injEq] at heq
      obtain ⟨rfl, rfl⟩ := heq
      exact h
  | fail e => exact ho.elim

theorem wp_lseek_complete {off : ℤ} {whence : Whence} {Q : ℤ → Os S → Prop}
    (hfd : os.fds fd = some (.file f)) (target : ℕ)
    (htarget : (target : ℤ) = off + match whence with
      | .set => (0 : ℤ)
      | .cur => f.offset
      | .last => (os.data f.inode).length)
    (h : Q target (os.seek fd f target)) :
    (Prog.perform (.lseek fd off whence)).wp completeSem Q os := by
  rintro r s' ⟨o, ho, heq⟩
  cases o with
  | ok n =>
      simp only [handle, hfd, ← htarget, Int.natCast_nonneg, if_true,
        Int.toNat_natCast, Prod.mk.injEq] at heq
      obtain ⟨rfl, rfl⟩ := heq
      exact h
  | fail e => exact ho.elim

theorem wp_close_complete {d : Descriptor S} {Q : ℤ → Os S → Prop}
    (hfd : os.fds fd = some d) (h : Q 0 (os.closed fd)) :
    (Prog.perform (.close fd)).wp completeSem Q os := by
  rintro r s' ⟨o, ho, heq⟩
  cases o with
  | ok n =>
      simp only [handle, hfd, Prod.mk.injEq] at heq
      obtain ⟨rfl, rfl⟩ := heq
      exact h
  | fail e => exact ho.elim

end Complete

end Os

end Posix
