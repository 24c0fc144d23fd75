import Dabba.PacketMmap.Slot
import Dabba.Transition.Basic

/-!
# The capture loop

`ldab_packet_rx` walks over the slots of its ring for ever. At a slot of the
kernel it waits in `poll(2)`, goes on to the next slot when that fails, and looks
at the status again when it returns. The packet of a slot of the program is
written to the PCAP file, if there is one, and the slot is handed back.

The loop is a machine that takes one step for each access to the ring and for
each system call, so that the kernel may act between any two of them.
-/

namespace Rx

open Posix Program Pcap Tpacket

/-- The part of `struct packet_rx` the loop reads. -/
structure PacketRx where
  layout : TpacketReq
  pcapFd : ℤ

/-- What the loop is about to do: compare the status of the slot with
`TP_STATUS_KERNEL`, poll, test the `TP_STATUS_USER` bit, go on with
`ldab_pcap_write`, or hand the slot back. -/
inductive Pc : Type 1
  | status
  | poll
  | user
  | write (p : Prog FileCall ℤ)
  | release

/-- The capture thread with the memory and the files it works on. -/
structure State (S : Type) where
  slot : ℕ → Slot
  os : Os S
  index : ℕ
  pc : Pc

namespace State

variable {S : Type}

def writeFrame (rx : PacketRx) (f : Frame) : Prog FileCall ℤ :=
  ldabPcapWrite rx.pcapFd f.pkt (f.tpLen.setWidth 64)
    ((f.caplen rx.layout.tpFrameSize).setWidth 64) (f.tpSec.setWidth 64)
    (f.tpUsec.setWidth 64)

def next (s : State S) : State S := { s with index := s.index + 1, pc := .status }

def goto (s : State S) (pc : Pc) : State S := { s with pc := pc }

def fill (s : State S) (j : ℕ) (x : Slot) : State S :=
  { s with slot := Function.update s.slot j x }

@[simp] theorem fill_slot_self (s : State S) (j : ℕ) (x : Slot) :
    (s.fill j x).slot j = x := by
  simp [fill]

theorem fill_slot_of_ne (s : State S) {j k : ℕ} (x : Slot) (h : k ≠ j) :
    (s.fill j x).slot k = s.slot k := by
  simp [fill, h]

def release (s : State S) : State S :=
  s.fill s.index ⟨tpStatusKernel, (s.slot s.index).frame⟩

/-- One step of `ldab_packet_rx`; `o` is the outcome of its system call, if it
makes one. The thread is gone when an assertion fails. -/
def ldabPacketRx (rx : PacketRx) (o : Outcome) (s : State S) : Option (State S) :=
  match s.pc with
  | .status =>
      if s.index < rx.layout.tpFrameNr.toNat then
        if (s.slot s.index).tpStatus = tpStatusKernel then some (s.goto .poll)
        else some (s.goto .user)
      else some { s with index := 0 }
  | .poll =>
      match o with
      | .fail _ => some s.next
      | .ok _ => some (s.goto .user)
  | .user =>
      if (s.slot s.index).IsUser then
        if 0 < rx.pcapFd then
          some (s.goto (.write (writeFrame rx (s.slot s.index).frame)))
        else some (s.goto .release)
      else some s.next
  | .write (.ret _) => some (s.goto .release)
  | .write .abort => none
  | .write (.call op k) =>
      let (r, os') := Os.handle op o s.os
      some { s with os := os', pc := .write (k r) }
  | .release => some s.release.next

/-- The steps of the loop, one by one. -/
inductive Steps (rx : PacketRx) (o : Outcome) (s : State S) : State S → Prop
  | kernelSlot (hpc : s.pc = .status)
      (hlt : s.index < rx.layout.tpFrameNr.toNat)
      (hkernel : (s.slot s.index).tpStatus = tpStatusKernel) :
      Steps rx o s (s.goto .poll)
  | otherSlot (hpc : s.pc = .status)
      (hlt : s.index < rx.layout.tpFrameNr.toNat)
      (hkernel : (s.slot s.index).tpStatus ≠ tpStatusKernel) :
      Steps rx o s (s.goto .user)
  | wrap (hpc : s.pc = .status)
      (hge : ¬ s.index < rx.layout.tpFrameNr.toNat) :
      Steps rx o s { s with index := 0 }
  | pollFailed (hpc : s.pc = .poll) (e : ℕ) (ho : o = .fail e) :
      Steps rx o s s.next
  | polled (hpc : s.pc = .poll) (n : ℕ) (ho : o = .ok n) :
      Steps rx o s (s.goto .user)
  | capture (hpc : s.pc = .user) (huser : (s.slot s.index).IsUser)
      (hfd : 0 < rx.pcapFd) :
      Steps rx o s (s.goto (.write (writeFrame rx (s.slot s.index).frame)))
  | discard (hpc : s.pc = .user) (huser : (s.slot s.index).IsUser)
      (hfd : ¬ 0 < rx.pcapFd) : Steps rx o s (s.goto .release)
  | notReady (hpc : s.pc = .user) (huser : ¬ (s.slot s.index).IsUser) :
      Steps rx o s s.next
  | writeCall {β : Type} (op : FileCall β) (k : β → Prog FileCall ℤ)
      (hpc : s.pc = .write (.call op k)) :
      Steps rx o s
        { s with
          os := (Os.handle op o s.os).2
          pc := .write (k (Os.handle op o s.os).1) }
  | writeEnd (n : ℤ) (hpc : s.pc = .write (.ret n)) :
      Steps rx o s (s.goto .release)
  | handBack (hpc : s.pc = .release) : Steps rx o s s.release.next

theorem steps_of_ldabPacketRx {rx : PacketRx} {o : Outcome} {s s' : State S}
    (h : s.ldabPacketRx rx o = some s') : s.Steps rx o s' := by
  unfold ldabPacketRx at h
  cases hpc : s.pc with
  | status =>
      rw [hpc] at h
      dsimp only at h
      split_ifs at h with hlt hkernel <;> obtain rfl := Option.some.inj h
      · exact .kernelSlot hpc hlt hkernel
      · exact .otherSlot hpc hlt hkernel
      · rw [← hpc]
        exact .wrap hpc hlt
  | poll =>
      rw [hpc] at h
      cases ho : o with
      | ok n =>
          rw [ho] at h
          obtain rfl := Option.some.inj h
          exact .polled hpc n rfl
      | fail e =>
          rw [ho] at h
          obtain rfl := Option.some.inj h
          exact .pollFailed hpc e rfl
  | user =>
      rw [hpc] at h
      dsimp only at h
      split_ifs at h with huser hfd <;> obtain rfl := Option.some.inj h
      · exact .capture hpc huser hfd
      · exact .discard hpc huser hfd
      · exact .notReady hpc huser
  | write p =>
      rw [hpc] at h
      cases p with
      | ret n =>
          obtain rfl := Option.some.inj h
          exact .writeEnd n hpc
      | abort => cases h
      | call op k =>
          obtain rfl := Option.some.inj h
          exact .writeCall op k hpc
  | release =>
      rw [hpc] at h
      obtain rfl := Option.some.inj h
      exact .handBack hpc

def Complete (o : Outcome) (s : State S) : Prop :=
  match s.pc with
  | .write (.call op _) => Os.Complete op o s.os
  | _ => True

instance (o : Outcome) (t : State S) : Decidable (t.Complete o) :=
  match hpc : t.pc with
  | .write (.call op _) => decidable_of_iff (Os.Complete op o t.os) (by rw [Complete, hpc])
  | .write (.ret _) | .write .abort | .status | .poll | .user | .release =>
      .isTrue (by simp only [Complete, hpc])

/-- The packets whose write returns successfully in the next step, each with its
slot. -/
def written (s : State S) : List (ℕ × Frame) :=
  match s.pc with
  | .write (.ret n) => if n < 0 then [] else [(s.index, (s.slot s.index).frame)]
  | _ => []

theorem written_eq_nil_of_ne_ret {s : State S} (h : ∀ n, s.pc ≠ .write (.ret n)) :
    s.written = [] := by
  unfold written
  split
  · exact absurd ‹_› (h _)
  · rfl

theorem written_eq_nil {s : State S} (h : ∀ p, s.pc ≠ .write p) :
    s.written = [] :=
  written_eq_nil_of_ne_ret fun n => h (.ret n)

end State

/-- The capture thread, the kernel's cursor, and the history of the packets the
kernel delivered and of those the thread wrote, each with its slot. -/
structure Capture (S : Type) where
  thread : State S
  head : ℕ
  delivered : List (ℕ × Frame)
  written : List (ℕ × Frame)

namespace Capture

variable {S : Type}

/-- A capture whose ring is empty and whose thread has not yet run. -/
def init (slot : ℕ → Slot) (os : Os S) : Capture S where
  thread := { slot := slot, os := os, index := 0, pc := .status }
  head := 0
  delivered := []
  written := []

def deliver (rx : PacketRx) (c : Capture S) (tpStatus : BitVec 64) (f : Frame) :
    Capture S :=
  { c with
    thread := c.thread.fill c.head ⟨tpStatus, f⟩
    head := (c.head + 1) % rx.layout.tpFrameNr.toNat
    delivered := c.delivered ++ [(c.head, f)] }

/-- One step of the kernel or of the thread. The kernel fills the slot at its
cursor only if the slot is its own; the writes of the thread succeed and are
complete, and its polls end in any way at any time. -/
inductive Step (rx : PacketRx) : Capture S → Capture S → Prop
  | kernel {c : Capture S} (tpStatus : BitVec 64) (f : Frame)
      (hkernel : (c.thread.slot c.head).tpStatus = tpStatusKernel)
      (huser : tpStatus &&& tpStatusUser = tpStatusUser)
      (hframe : f.Deliverable rx.layout.tpFrameSize) :
      Step rx c (c.deliver rx tpStatus f)
  | thread {c : Capture S} (o : Outcome) (t : State S)
      (hcomplete : c.thread.Complete o)
      (hstep : c.thread.ldabPacketRx rx o = some t) :
      Step rx c
        { c with thread := t, written := c.written ++ c.thread.written }

end Capture

end Rx
