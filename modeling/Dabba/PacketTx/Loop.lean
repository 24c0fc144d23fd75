import Dabba.PacketMmap.Slot

/-!
# The replay loop

`ldab_packet_tx` walks over the slots of its ring and fills every available one
with the next packet of the PCAP file. After a walk it calls `send(2)`, which
makes the kernel take the filled slots. At the end of the file the walk ends
early, and the file is rewound.

As with the capture loop, the machine takes one step for each access to the ring
and for each system call.
-/

namespace Tx

open Posix Program Pcap Tpacket

/-- The part of `struct packet_tx` the loop reads. -/
structure PacketTx where
  layout : TpacketReq
  pcapFd : ℤ

abbrev tplen : ℕ := 32

/-- What the loop is about to do: compare the status of the slot with
`TP_STATUS_AVAILABLE`, go on with `ldab_pcap_read`, request the sending of the
packet just read, call `send(2)`, or go on with `ldab_pcap_rewind`. -/
inductive Pc : Type 1
  | status
  | read (p : Prog FileCall (ℤ × List Byte))
  | request (obytes : ℤ) (bytes : List Byte)
  | send
  | rewind (p : Prog FileCall ℤ)

/-- The replay thread with the memory and the files it works on. -/
structure State (S : Type) where
  slot : ℕ → Slot
  os : Os S
  a : ℕ
  eof : Bool
  pc : Pc

namespace State

variable {S : Type}

def next (s : State S) : State S := { s with a := s.a + 1, pc := .status }

def goto (s : State S) (pc : Pc) : State S := { s with pc := pc }

def requested (f : Frame) (obytes : ℤ) (bytes : List Byte) : Slot where
  tpStatus := tpStatusSendRequest
  frame := { f with
    tpLen := BitVec.ofInt 32 obytes
    tpSnaplen := BitVec.ofInt 32 obytes
    mem := writeAt f.mem tplen bytes }

/-- One step of `ldab_packet_tx`; `o` is the outcome of its system call, if it
makes one. The thread is gone when an assertion fails. -/
def ldabPacketTx (tx : PacketTx) (o : Outcome) (s : State S) : Option (State S) :=
  match s.pc with
  | .status =>
      if s.a < tx.layout.tpFrameNr.toNat then
        if (s.slot s.a).tpStatus = tpStatusAvailable then
          some (s.goto (.read (ldabPcapRead tx.pcapFd tx.layout.tpFrameSize)))
        else some s.next
      else some (s.goto .send)
  | .read (.ret (obytes, bytes)) =>
      if obytes ≤ 0 then some { s with eof := true, pc := .send }
      else some (s.goto (.request obytes bytes))
  | .read .abort => none
  | .read (.call op k) =>
      let (r, os') := Os.handle op o s.os
      some { s with os := os', pc := .read (k r) }
  | .request obytes bytes =>
      let slot := Function.update s.slot s.a
        (requested (s.slot s.a).frame obytes bytes)
      some (State.next { s with slot := slot })
  | .send =>
      if s.eof then some (s.goto (.rewind (ldabPcapRewind tx.pcapFd)))
      else some { s with a := 0, pc := .status }
  | .rewind (.ret _) => some { s with a := 0, eof := false, pc := .status }
  | .rewind .abort => none
  | .rewind (.call op k) =>
      let (r, os') := Os.handle op o s.os
      some { s with os := os', pc := .rewind (k r) }

/-- The steps of the loop, one by one. -/
inductive Steps (tx : PacketTx) (o : Outcome) (s : State S) : State S → Prop
  | available (hpc : s.pc = .status) (hlt : s.a < tx.layout.tpFrameNr.toNat)
      (havailable : (s.slot s.a).tpStatus = tpStatusAvailable) :
      Steps tx o s (s.goto (.read (ldabPcapRead tx.pcapFd tx.layout.tpFrameSize)))
  | busy (hpc : s.pc = .status) (hlt : s.a < tx.layout.tpFrameNr.toNat)
      (hbusy : (s.slot s.a).tpStatus ≠ tpStatusAvailable) : Steps tx o s s.next
  | walked (hpc : s.pc = .status) (hge : ¬ s.a < tx.layout.tpFrameNr.toNat) :
      Steps tx o s (s.goto .send)
  | readCall {β : Type} (op : FileCall β) (k : β → Prog FileCall (ℤ × List Byte))
      (hpc : s.pc = .read (.call op k)) :
      Steps tx o s
        { s with
          os := (Os.handle op o s.os).2
          pc := .read (k (Os.handle op o s.os).1) }
  | endOfFile (obytes : ℤ) (bytes : List Byte) (hpc : s.pc = .read (.ret (obytes, bytes)))
      (hend : obytes ≤ 0) : Steps tx o s { s with eof := true, pc := .send }
  | readEnd (obytes : ℤ) (bytes : List Byte) (hpc : s.pc = .read (.ret (obytes, bytes)))
      (hmore : ¬ obytes ≤ 0) : Steps tx o s (s.goto (.request obytes bytes))
  | fill (obytes : ℤ) (bytes : List Byte) (hpc : s.pc = .request obytes bytes) :
      Steps tx o s (State.next { s with
        slot := Function.update s.slot s.a
          (requested (s.slot s.a).frame obytes bytes) })
  | sentAtEnd (hpc : s.pc = .send) (heof : s.eof = true) :
      Steps tx o s (s.goto (.rewind (ldabPcapRewind tx.pcapFd)))
  | sent (hpc : s.pc = .send) (heof : s.eof = false) :
      Steps tx o s { s with a := 0, pc := .status }
  | rewindCall {β : Type} (op : FileCall β) (k : β → Prog FileCall ℤ)
      (hpc : s.pc = .rewind (.call op k)) :
      Steps tx o s
        { s with
          os := (Os.handle op o s.os).2
          pc := .rewind (k (Os.handle op o s.os).1) }
  | rewound (n : ℤ) (hpc : s.pc = .rewind (.ret n)) :
      Steps tx o s { s with a := 0, eof := false, pc := .status }

theorem steps_of_ldabPacketTx {tx : PacketTx} {o : Outcome} {s s' : State S}
    (h : s.ldabPacketTx tx o = some s') : s.Steps tx o s' := by
  unfold ldabPacketTx at h
  cases hpc : s.pc with
  | status =>
      rw [hpc] at h
      dsimp only at h
      split_ifs at h with hlt havailable <;> obtain rfl := Option.some.inj h
      · exact .available hpc hlt havailable
      · exact .busy hpc hlt havailable
      · exact .walked hpc hlt
  | read p =>
      rw [hpc] at h
      cases p with
      | ret x =>
          obtain ⟨obytes, bytes⟩ := x
          dsimp only at h
          split_ifs at h with hend <;> obtain rfl := Option.some.inj h
          · exact .endOfFile obytes bytes hpc hend
          · exact .readEnd obytes bytes hpc hend
      | abort => cases h
      | call op k =>
          obtain rfl := Option.some.inj h
          exact .readCall op k hpc
  | request obytes bytes =>
      rw [hpc] at h
      obtain rfl := Option.some.inj h
      exact .fill obytes bytes hpc
  | send =>
      rw [hpc] at h
      dsimp only at h
      split_ifs at h with heof <;> obtain rfl := Option.some.inj h
      · exact .sentAtEnd hpc heof
      · exact .sent hpc (Bool.eq_false_of_not_eq_true heof)
  | rewind p =>
      rw [hpc] at h
      cases p with
      | ret n =>
          obtain rfl := Option.some.inj h
          exact .rewound n hpc
      | abort => cases h
      | call op k =>
          obtain rfl := Option.some.inj h
          exact .rewindCall op k hpc

def Complete (o : Outcome) (s : State S) : Prop :=
  match s.pc with
  | .read (.call op _) => Os.Complete op o s.os
  | .rewind (.call op _) => Os.Complete op o s.os
  | _ => True

instance (o : Outcome) (s : State S) : Decidable (s.Complete o) := by
  unfold Complete
  split <;> infer_instance

def filled (s : State S) : List (List Byte) :=
  match s.pc with
  | .request _ bytes => [bytes]
  | _ => []

theorem filled_eq_nil {s : State S} (h : ∀ obytes bytes, s.pc ≠ .request obytes bytes) :
    s.filled = [] := by
  unfold filled
  split
  · exact absurd ‹_› (h _ _)
  · rfl

theorem exists_request_of_filled {s : State S} (h : s.filled ≠ []) :
    ∃ obytes bytes, s.pc = .request obytes bytes := by
  by_contra hnone
  push Not at hnone
  exact h (filled_eq_nil hnone)

theorem eq_of_request {tx : PacketTx} {o : Outcome} {s s' : State S} {obytes : ℤ}
    {bytes : List Byte} (hpc : s.pc = .request obytes bytes)
    (h : s.ldabPacketTx tx o = some s') :
    s' = State.next { s with
      slot := Function.update s.slot s.a (requested (s.slot s.a).frame obytes bytes) } := by
  unfold ldabPacketTx at h
  rw [hpc] at h
  exact (Option.some.inj h).symm

end State

end Tx
