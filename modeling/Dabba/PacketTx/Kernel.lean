import Dabba.PacketTx.Loop
import Dabba.Pcap.Reader
import Dabba.Transition.Basic

/-!
# A replay and the kernel that sends its packets

The kernel sends the packets of consecutive slots, from its own cursor on, while
`send(2)` runs and the slot at the cursor has a send request. It makes a slot
available again some time after it has taken the packet out. The reads of the
thread are complete.

Where the thread is in its file is followed by `State.At`: the offset of the packet
that is read next, or that was read and has not been put into its slot yet.
-/

namespace Tx

open Posix Program Pcap Tpacket Transition

def tpStatusSending : BitVec 64 := 2

def packet (f : Frame) : List Byte := (f.mem.drop tplen).take f.tpLen.toNat

/-- The kernel sends the bytes that were put into the slot. -/
theorem packet_requested (f : Frame) {bytes : List Byte} (hlt : bytes.length < 2 ^ 32) :
    packet (State.requested f bytes.length bytes).frame = bytes := by
  have hhead : (f.mem.take tplen ++ List.replicate (tplen - f.mem.length) 0).length =
      tplen := by
    rw [List.length_append, List.length_take, List.length_replicate]
    omega
  have hdrop : (writeAt f.mem tplen bytes).drop tplen =
      bytes ++ f.mem.drop (tplen + bytes.length) := by
    rw [writeAt, List.append_assoc]
    exact List.drop_left' hhead
  have hlen : (BitVec.ofInt 32 bytes.length).toNat = bytes.length := by
    rw [BitVec.ofInt_natCast, BitVec.toNat_ofNat, Nat.mod_eq_of_lt hlt]
  rw [packet, State.requested, hdrop, hlen, List.take_left]

def Pc.isSend : Pc → Bool
  | .send => true
  | _ => false

/-- The replay thread, the kernel's cursor, and the history of the packets the thread
put into slots and of those the kernel sent. -/
structure Replay (S : Type) where
  thread : State S
  head : ℕ
  filled : List (List Byte)
  transmitted : List (List Byte)

namespace Replay

variable {S : Type}

def init (slot : ℕ → Slot) (os : Os S) : Replay S where
  thread := { slot := slot, os := os, a := 0, eof := false, pc := .status }
  head := 0
  filled := []
  transmitted := []

/-- `send(2)` runs, and the slot at the kernel's cursor has a send request. -/
def Sending (c : Replay S) : Prop :=
  c.thread.pc.isSend = true ∧ (c.thread.slot c.head).tpStatus = tpStatusSendRequest

instance (c : Replay S) : Decidable c.Sending := inferInstanceAs (Decidable (_ ∧ _))

def setStatus (c : Replay S) (i : ℕ) (tpStatus : BitVec 64) : Replay S :=
  { c with
    thread :=
      { c.thread with
        slot := Function.update c.thread.slot i ⟨tpStatus, (c.thread.slot i).frame⟩ } }

section Fields

variable (c : Replay S) (i : ℕ) (tpStatus : BitVec 64)

@[simp] theorem setStatus_slot_self :
    (c.setStatus i tpStatus).thread.slot i = ⟨tpStatus, (c.thread.slot i).frame⟩ := by
  simp [setStatus]

theorem setStatus_slot_of_ne {j : ℕ} (h : j ≠ i) :
    (c.setStatus i tpStatus).thread.slot j = c.thread.slot j := by
  simp [setStatus, h]

@[simp] theorem setStatus_pc : (c.setStatus i tpStatus).thread.pc = c.thread.pc := rfl

end Fields

def transmit (tx : PacketTx) (c : Replay S) : Replay S :=
  { c.setStatus c.head tpStatusSending with
    head := (c.head + 1) % tx.layout.tpFrameNr.toNat
    transmitted := c.transmitted ++ [packet (c.thread.slot c.head).frame] }

/-- One step of the thread or of the kernel. While the kernel finds send requests,
`send(2)` does not return. -/
inductive Step (tx : PacketTx) : Replay S → Replay S → Prop
  | thread {c : Replay S} (o : Outcome) (t : State S) (hcomplete : c.thread.Complete o)
      (hsend : ¬ c.Sending) (hstep : c.thread.ldabPacketTx tx o = some t) :
      Step tx c { c with thread := t, filled := c.filled ++ c.thread.filled }
  | transmit {c : Replay S} (hsend : c.Sending) : Step tx c (c.transmit tx)
  | release {c : Replay S} (i : ℕ)
      (hsending : (c.thread.slot i).tpStatus = tpStatusSending) :
      Step tx c (c.setStatus i tpStatusAvailable)

end Replay

section Reader

variable {S : Type} {tx : PacketTx} {os : Os S} {data : List Byte} {off : ℕ}

/-- The file that is replayed holds the data, and is at the offset. -/
def ReadsFrom (tx : PacketTx) (data : List Byte) (off : ℕ) (os : Os S) : Prop :=
  ∃ f, os.fds tx.pcapFd = some (.file f) ∧ f.readable ∧ os.data f.inode = data ∧
    f.offset = off

/-- The packet at an offset of the file, read with a buffer of the frame size, and the
offset behind it. -/
def nextPacket (tx : PacketTx) (data : List Byte) (off : ℕ) : List Byte × ℕ :=
  readPacket tx.layout.tpFrameSize.toNat data off

theorem length_nextPacket_lt (tx : PacketTx) (data : List Byte) (off : ℕ) :
    (nextPacket tx data off).1.length < 2 ^ 32 := by
  have hsize := tx.layout.tpFrameSize.isLt
  have hread : (nextPacket tx data off).1.length ≤ tx.layout.tpFrameSize.toNat := by
    rw [nextPacket, readPacket]
    split
    · exact Nat.zero_le _
    · rw [readAt, List.length_take]
      exact (min_le_left _ _).trans (min_le_right _ _)
  omega

theorem ReadsFrom.wp_read (h : ReadsFrom tx data off os) (hfd : 0 < tx.pcapFd)
    (hsize : tx.layout.tpFrameSize ≠ 0) :
    (ldabPcapRead tx.pcapFd tx.layout.tpFrameSize).wp Os.completeSem
      (fun r os' => r = received (nextPacket tx data off).1 ∧
        ReadsFrom tx data (nextPacket tx data off).2 os') os := by
  obtain ⟨f, hf, hr, rfl, rfl⟩ := h
  apply wp_ldabPcapRead hfd hsize hf hr
  exact ⟨rfl, _, Os.seek_fds_self _ _ _ _, hr, rfl, rfl⟩

theorem ReadsFrom.wp_rewind (h : ReadsFrom tx data off os) :
    (ldabPcapRewind tx.pcapFd).wp Os.completeSem
      (fun _ os' => ReadsFrom tx data sizeofPcapFileHeader os') os := by
  obtain ⟨f, hf, hr, rfl, rfl⟩ := h
  apply wp_ldabPcapRewind hf
  exact ⟨_, Os.seek_fds_self _ _ _ _, hr, rfl, rfl⟩

/-- The thread is about to read, or has just read, the packet at the offset. -/
def State.At (tx : PacketTx) (data : List Byte) (off : ℕ) (t : State S) : Prop :=
  match t.pc with
  | .status => t.eof = false ∧ ReadsFrom tx data off t.os
  | .read p => t.eof = false ∧ p.wp Os.completeSem
      (fun r os' => r = received (nextPacket tx data off).1 ∧
        ReadsFrom tx data (nextPacket tx data off).2 os') t.os
  | .request obytes bytes => t.eof = false ∧
      (obytes, bytes) = received (nextPacket tx data off).1 ∧ bytes ≠ [] ∧
      ReadsFrom tx data (nextPacket tx data off).2 t.os
  | .send => if t.eof then (nextPacket tx data off).1 = [] ∧ ∃ off', ReadsFrom tx data off' t.os
      else ReadsFrom tx data off t.os
  | .rewind p => (nextPacket tx data off).1 = [] ∧ p.wp Os.completeSem
      (fun _ os' => ReadsFrom tx data sizeofPcapFileHeader os') t.os

/-- How a step of the thread moves it in its file: not at all, behind the packet it puts
into a slot, or back to the first packet. -/
inductive Moves (tx : PacketTx) (data : List Byte) (off : ℕ) (t : State S) : ℕ → Prop
  | stays (hfilled : t.filled = []) : Moves tx data off t off
  | fills (hne : (nextPacket tx data off).1 ≠ [])
      (hfilled : t.filled = [(nextPacket tx data off).1]) :
      Moves tx data off t (nextPacket tx data off).2
  | rewinds (hend : (nextPacket tx data off).1 = []) (hfilled : t.filled = []) :
      Moves tx data off t sizeofPcapFileHeader

theorem State.At.step {t t' : State S} {o : Outcome} (h : t.At tx data off)
    (hfd : 0 < tx.pcapFd) (hsize : tx.layout.tpFrameSize ≠ 0) (hcomplete : t.Complete o)
    (hstep : t.ldabPacketTx tx o = some t') :
    ∃ off', t'.At tx data off' ∧ Moves tx data off t off' := by
  unfold At at h
  unfold Complete at hcomplete
  cases steps_of_ldabPacketTx hstep with
  | available hpc hlt havailable =>
      rw [hpc] at h
      exact ⟨off, ⟨h.1, h.2.wp_read hfd hsize⟩, .stays (filled_eq_nil (by simp [hpc]))⟩
  | busy hpc hlt hbusy =>
      rw [hpc] at h
      exact ⟨off, h, .stays (filled_eq_nil (by simp [hpc]))⟩
  | walked hpc hge =>
      rw [hpc] at h
      refine ⟨off, ?_, .stays (filled_eq_nil (by simp [hpc]))⟩
      simpa [At, goto, h.1] using h.2
  | readCall op k hpc =>
      rw [hpc] at h hcomplete
      exact ⟨off, ⟨h.1, h.2 _ _ ⟨o, hcomplete, rfl⟩⟩, .stays (filled_eq_nil (by simp [hpc]))⟩
  | endOfFile obytes bytes hpc hend =>
      rw [hpc] at h
      obtain ⟨-, hread, hfrom⟩ := h
      refine ⟨off, ?_, .stays (filled_eq_nil (by simp [hpc]))⟩
      obtain ⟨rfl, rfl⟩ := Prod.mk.inj hread
      have hnil : (nextPacket tx data off).1 = [] :=
        List.eq_nil_of_length_eq_zero (by omega)
      simpa [At, hnil] using ⟨_, hfrom⟩
  | readEnd obytes bytes hpc hmore =>
      rw [hpc] at h
      obtain ⟨heof, hread, hfrom⟩ := h
      refine ⟨off, ⟨heof, hread, ?_, hfrom⟩, .stays (filled_eq_nil (by simp [hpc]))⟩
      obtain ⟨rfl, rfl⟩ := Prod.mk.inj hread
      exact List.ne_nil_of_length_pos (by omega)
  | fill obytes bytes hpc =>
      rw [hpc] at h
      obtain ⟨heof, hread, hne, hfrom⟩ := h
      obtain ⟨rfl, rfl⟩ := Prod.mk.inj hread
      refine ⟨_, ⟨heof, hfrom⟩, .fills hne ?_⟩
      simp [filled, hpc]
  | sentAtEnd hpc heof =>
      rw [hpc] at h
      simp only [heof, if_true] at h
      obtain ⟨hend, off', hfrom⟩ := h
      exact ⟨off, ⟨hend, hfrom.wp_rewind⟩, .stays (filled_eq_nil (by simp [hpc]))⟩
  | sent hpc heof =>
      rw [hpc] at h
      simp only [heof, Bool.false_eq_true, if_false] at h
      exact ⟨off, ⟨heof, h⟩, .stays (filled_eq_nil (by simp [hpc]))⟩
  | rewindCall op k hpc =>
      rw [hpc] at h hcomplete
      exact ⟨off, ⟨h.1, h.2 _ _ ⟨o, hcomplete, rfl⟩⟩, .stays (filled_eq_nil (by simp [hpc]))⟩
  | rewound n hpc =>
      rw [hpc] at h
      exact ⟨_, ⟨rfl, h.2⟩, .rewinds h.1 (filled_eq_nil (by simp [hpc]))⟩

theorem State.At.setStatus {c : Replay S} (h : c.thread.At tx data off) (i : ℕ)
    (tpStatus : BitVec 64) : (c.setStatus i tpStatus).thread.At tx data off := h

end Reader

section Owns

variable {S : Type} {tx : PacketTx}

/-- A slot that is about to be filled is one of the ring, and available. -/
def State.Owns (tx : PacketTx) (t : State S) : Prop :=
  match t.pc with
  | .read _ => t.a < tx.layout.tpFrameNr.toNat ∧ (t.slot t.a).tpStatus = tpStatusAvailable
  | .request _ _ =>
      t.a < tx.layout.tpFrameNr.toNat ∧ (t.slot t.a).tpStatus = tpStatusAvailable
  | _ => True

theorem State.Owns.step {t t' : State S} {o : Outcome} (h : t.Owns tx)
    (hstep : t.ldabPacketTx tx o = some t') : t'.Owns tx := by
  unfold Owns at h
  cases steps_of_ldabPacketTx hstep with
  | available hpc hlt havailable => exact ⟨hlt, havailable⟩
  | busy hpc hlt hbusy => trivial
  | walked hpc hge => trivial
  | readCall op k hpc =>
      rw [hpc] at h
      exact h
  | endOfFile obytes bytes hpc hend => trivial
  | readEnd obytes bytes hpc hmore =>
      rw [hpc] at h
      exact h
  | fill obytes bytes hpc => trivial
  | sentAtEnd hpc heof => trivial
  | sent hpc heof => trivial
  | rewindCall op k hpc => trivial
  | rewound n hpc => trivial

/-- The two statuses under which a slot is the kernel's. -/
theorem sendRequest_ne_available : tpStatusSendRequest ≠ tpStatusAvailable := by decide

theorem sending_ne_available : tpStatusSending ≠ tpStatusAvailable := by decide

/-- Changing the status of a slot that is not available leaves the slot alone that is about
to be filled. -/
theorem Replay.owns_setStatus {c : Replay S} (h : c.thread.Owns tx) {i : ℕ}
    (hbusy : (c.thread.slot i).tpStatus ≠ tpStatusAvailable) (tpStatus : BitVec 64) :
    (c.setStatus i tpStatus).thread.Owns tx := by
  have hkeeps : (c.thread.slot c.thread.a).tpStatus = tpStatusAvailable →
      ((c.setStatus i tpStatus).thread.slot c.thread.a).tpStatus = tpStatusAvailable := by
    intro havailable
    have hne : c.thread.a ≠ i := by
      rintro rfl
      exact hbusy havailable
    rw [setStatus_slot_of_ne c i tpStatus hne]
    exact havailable
  unfold State.Owns at h ⊢
  cases hpc : c.thread.pc with
  | read p =>
      rw [hpc] at h
      rw [setStatus_pc, hpc]
      exact ⟨h.1, hkeeps h.2⟩
  | request obytes bytes =>
      rw [hpc] at h
      rw [setStatus_pc, hpc]
      exact ⟨h.1, hkeeps h.2⟩
  | _ =>
      rw [setStatus_pc, hpc]
      trivial

end Owns

/-- A ring of eight slots of 2048 bytes, filled from descriptor 5. -/
def smallTx : PacketTx where
  layout := ⟨16384, 1, 2048, 8⟩
  pcapFd := 5

def replayedOs (data : List Byte) : Os Unit where
  errno := 0
  fds fd := if fd = 5 then some (.file ⟨0, 0, sizeofPcapFileHeader, oRdonly⟩) else none
  resolve path := path
  entry _ := none
  data _ := data
  next := 1

theorem readsFrom_replayedOs (data : List Byte) :
    ReadsFrom smallTx data sizeofPcapFileHeader (replayedOs data) :=
  ⟨_, rfl, by unfold OpenFile.readable; decide, rfl, rfl⟩

end Tx
