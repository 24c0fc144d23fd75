import Mathlib.Algebra.Order.Group.Nat
import Dabba.Posix.File

/-!
# Writes that may be cut short

A write(2) fails, or transfers some of its bytes. In all cases the bytes it did
transfer lie in the file at the offset of the descriptor, and the offset has moved
behind them. Two writes that follow each other are one write of both.
-/

namespace Posix

open Program

def Outcome.taken (len : ℕ) : Outcome → ℕ
  | .ok short => len - short
  | .fail _ => 0

theorem Outcome.taken_le (len : ℕ) (o : Outcome) : o.taken len ≤ len := by
  cases o with
  | ok short => exact Nat.sub_le _ _
  | fail e => exact Nat.zero_le _

section WriteAt

variable {data a b : List Byte} {off : ℕ}

theorem writeAt_nil (h : off ≤ data.length) : writeAt data off [] = data := by
  simp [writeAt, Nat.sub_eq_zero_of_le h]

theorem writeAt_eq (h : off ≤ data.length) :
    writeAt data off a = data.take off ++ (a ++ data.drop (off + a.length)) := by
  rw [writeAt, Nat.sub_eq_zero_of_le h, List.replicate_zero, List.append_nil,
    List.append_assoc]

theorem length_writeAt (h : off ≤ data.length) :
    (writeAt data off a).length = max data.length (off + a.length) := by
  rw [writeAt_eq h, List.length_append, List.length_append, List.length_take,
    List.length_drop]
  omega

theorem writeAt_append (h : off ≤ data.length) :
    writeAt (writeAt data off a) (off + a.length) b = writeAt data off (a ++ b) := by
  have hlen : (data.take off ++ a).length = off + a.length := by
    rw [List.length_append, List.length_take_of_le h]
  have hle : off + a.length ≤ (writeAt data off a).length := by
    rw [length_writeAt h]
    exact le_max_right _ _
  have htake : (writeAt data off a).take (off + a.length) = data.take off ++ a := by
    rw [writeAt_eq h, ← List.append_assoc, ← hlen, List.take_left]
  have hdrop : (writeAt data off a).drop (off + a.length + b.length) =
      data.drop (off + (a ++ b).length) := by
    rw [writeAt_eq h, ← List.append_assoc, ← hlen, List.drop_length_add_append,
      List.drop_drop, List.length_append, List.length_append, List.length_take_of_le h,
      Nat.add_assoc]
  rw [writeAt_eq hle, htake, hdrop, writeAt_eq h, List.append_assoc, List.append_assoc]

end WriteAt

namespace Os

variable {S : Type} {os os' os'' : Os S} {fd : ℤ} {f : OpenFile} {bytes bytes' : List Byte}

/-- The bytes were written through a descriptor of the file, at its offset. -/
structure Wrote (os : Os S) (fd : ℤ) (f : OpenFile) (bytes : List Byte) (os' : Os S) :
    Prop where
  fds : os'.fds = Function.update os.fds fd
    (some (.file { f with offset := f.offset + bytes.length }))
  data : os'.data = Function.update os.data f.inode
    (writeAt (os.data f.inode) f.offset bytes)
  dir : os'.dir = os.dir

namespace Wrote

theorem fds_self (h : Wrote os fd f bytes os') :
    os'.fds fd = some (.file { f with offset := f.offset + bytes.length }) := by
  rw [h.fds, Function.update_self]

theorem fds_of_ne (h : Wrote os fd f bytes os') {fd' : ℤ} (hne : fd' ≠ fd) :
    os'.fds fd' = os.fds fd' := by
  rw [h.fds, Function.update_of_ne hne]

theorem data_self (h : Wrote os fd f bytes os') :
    os'.data f.inode = writeAt (os.data f.inode) f.offset bytes := by
  rw [h.data, Function.update_self]

theorem unexhausted (h : Wrote os fd f bytes os') (hfree : os.Unexhausted) :
    os'.Unexhausted := by
  intro k
  obtain ⟨n, hn, hnone⟩ := hfree (max k (fd.toNat + 1))
  refine ⟨n, le_trans (le_max_left _ _) hn, ?_⟩
  rw [h.fds_of_ne (by omega), hnone]

theorem nothing (hfd : os.fds fd = some (.file f))
    (hoff : f.offset ≤ (os.data f.inode).length) (e : ℕ) :
    Wrote os fd f [] (os.failed e) where
  fds := by
    rw [List.length_nil, Nat.add_zero, ← hfd, Function.update_eq_self]
    rfl
  data := by
    rw [writeAt_nil hoff, Function.update_eq_self]
    rfl
  dir := rfl

theorem trans (h : Wrote os fd f bytes os')
    (h' : Wrote os' fd { f with offset := f.offset + bytes.length } bytes' os'')
    (hoff : f.offset ≤ (os.data f.inode).length) :
    Wrote os fd f (bytes ++ bytes') os'' where
  fds := by
    rw [h'.fds, h.fds, Function.update_idem, List.length_append, Nat.add_assoc]
  data := by
    rw [h'.data, h.data_self, h.data, Function.update_idem, writeAt_append hoff]
  dir := h'.dir.trans h.dir

end Wrote

theorem wrote_handle (hfd : os.fds fd = some (.file f)) (hw : f.writable)
    (happend : f.flags &&& oAppend ≠ oAppend)
    (hoff : f.offset ≤ (os.data f.inode).length) (bytes : List Byte) (o : Outcome) :
    Wrote os fd f (bytes.take (o.taken bytes.length)) (handle (.write fd bytes) o os).2 := by
  cases o with
  | ok short =>
      simp only [handle, hfd, hw, happend, if_true, if_false]
      exact ⟨rfl, rfl, rfl⟩
  | fail e =>
      rw [Outcome.taken, List.take_zero]
      exact Wrote.nothing hfd hoff e

theorem handle_write_eq_iff (hfd : os.fds fd = some (.file f)) (hw : f.writable)
    (happend : f.flags &&& oAppend ≠ oAppend) (bytes : List Byte) (o : Outcome) {n : ℕ}
    (hn : 0 < n) :
    (handle (.write fd bytes) o os).1 = n ↔ o.taken bytes.length = n := by
  cases o with
  | ok short =>
      simp only [handle, hfd, hw, happend, if_true, if_false, Outcome.taken,
        List.length_take]
      omega
  | fail e =>
      have hneg : (handle (.write fd bytes) (.fail e) os).1 = -1 := rfl
      rw [hneg, Outcome.taken]
      omega

end Os

end Posix
