import Dabba.PacketRx.Loop
import Dabba.SlotRing.Basic

/-!
# The capture loop neither loses nor duplicates a packet

A packet waits in its slot from its delivery until its write returns. With the
waiting packets as the content of its slots, a capture is a ring of slots in
which the kernel delivers and the thread takes, in whatever order. So every
delivered packet was written or waits, and the file holds the records of
the written ones.
-/

namespace Rx

open Posix Program Pcap Tpacket

variable {S : Type}

def Pc.isRelease : Pc → Bool
  | .release => true
  | _ => false

namespace State

/-- The thread is about to hand back the slot `j`, whose packet it has dealt
with. -/
def Releasing (t : State S) (j : ℕ) : Prop := t.pc.isRelease ∧ j = t.index

instance (t : State S) (j : ℕ) : Decidable (t.Releasing j) :=
  inferInstanceAs (Decidable (_ ∧ _))

def waiting (t : State S) (j : ℕ) : Option (ℕ × Frame) :=
  if (t.slot j).IsUser ∧ ¬ t.Releasing j then some (j, (t.slot j).frame) else none

end State

def Capture.ring (c : Capture S) : SlotRing.State (ℕ × Frame) where
  slot := c.thread.waiting
  head := c.head
  delivered := c.delivered
  taken := c.written

def recordsOf (rx : PacketRx) (ps : List (ℕ × Frame)) : List Byte :=
  ps.flatMap fun p => p.2.recordBytes rx.layout.tpFrameSize

/-- What holds of the thread at each point of the loop when the file had the
bytes `bytes` before the packet of the current slot. -/
def State.Consistent (rx : PacketRx) (i : ℕ) (bytes : List Byte) (t : State S) :
    Prop :=
  match t.pc with
  | .status => AtEnd t.os rx.pcapFd i bytes
  | .poll => t.index < rx.layout.tpFrameNr.toNat ∧ AtEnd t.os rx.pcapFd i bytes
  | .user => t.index < rx.layout.tpFrameNr.toNat ∧ AtEnd t.os rx.pcapFd i bytes
  | .write p =>
      t.index < rx.layout.tpFrameNr.toNat ∧ (t.slot t.index).IsUser ∧
        p.wp Os.completeSem (fun r os => 0 ≤ r ∧
          AtEnd os rx.pcapFd i
            (bytes ++ (t.slot t.index).frame.recordBytes rx.layout.tpFrameSize))
          t.os
  | .release =>
      t.index < rx.layout.tpFrameNr.toNat ∧ (t.slot t.index).IsUser ∧
        AtEnd t.os rx.pcapFd i bytes

def State.Owned (rx : PacketRx) (t : State S) : Prop :=
  ∀ j, (t.slot j).tpStatus = tpStatusKernel ∨
    ((t.slot j).IsUser ∧ (t.slot j).frame.Deliverable rx.layout.tpFrameSize)

/-- The invariant of a capture into a file that began with the bytes `base`. -/
structure Capture.Inv (rx : PacketRx) (i : ℕ) (base : List Byte)
    (c : Capture S) : Prop where
  head_lt : c.head < rx.layout.tpFrameNr.toNat
  owned : c.thread.Owned rx
  consistent : c.thread.Consistent rx i (base ++ recordsOf rx c.written)

variable {rx : PacketRx} {i : ℕ} {base : List Byte}

theorem wp_writeFrame {os : Os S} {bytes : List Byte} {f : Frame}
    (hfd : 0 < rx.pcapFd) (hsize : 0 < rx.layout.tpFrameSize.toNat)
    (hf : f.Deliverable rx.layout.tpFrameSize)
    (hos : AtEnd os rx.pcapFd i bytes) :
    (State.writeFrame rx f).wp Os.completeSem (fun r os' => 0 ≤ r ∧
      AtEnd os' rx.pcapFd i
        (bytes ++ f.recordBytes rx.layout.tpFrameSize)) os := by
  have h := hos.wp_ldabPcapWrite hfd (f.toPacket hsize hf)
  rw [Frame.record_toPacket] at h
  have hsnaplen : (f.toPacket hsize hf).pktSnaplen =
      (f.caplen rx.layout.tpFrameSize).setWidth 64 := by
    rw [Packet.pktSnaplen, Frame.toPacket, hf.length_take, BitVec.ofNat_toNat]
  rw [hsnaplen] at h
  rw [State.writeFrame, ← ldabPcapWrite_take]
  simpa [Frame.toPacket] using h

/-- Slots of the kernel and slots with a delivered packet are told apart by
the status bit. -/
theorem State.Owned.deliverable {t : State S} (h : t.Owned rx) {j : ℕ}
    (huser : (t.slot j).IsUser) :
    (t.slot j).frame.Deliverable rx.layout.tpFrameSize := by
  rcases h j with hkernel | ⟨-, hframe⟩
  · exact absurd huser (Slot.not_isUser_of_kernel hkernel)
  · exact hframe

theorem State.Owned.fill {t : State S} (h : t.Owned rx) {j : ℕ} {s : Slot}
    (hs : s.tpStatus = tpStatusKernel ∨
      (s.IsUser ∧ s.frame.Deliverable rx.layout.tpFrameSize)) :
    (t.fill j s).Owned rx := by
  intro k
  by_cases hk : k = j
  · subst hk
    rwa [fill_slot_self]
  · rw [fill_slot_of_ne t s hk]
    exact h k

@[simp] theorem recordsOf_nil : recordsOf rx [] = [] := rfl

@[simp] theorem recordsOf_append (ps qs : List (ℕ × Frame)) :
    recordsOf rx (ps ++ qs) = recordsOf rx ps ++ recordsOf rx qs :=
  List.flatMap_append

/-- A step of the thread keeps what holds at the points of the loop. -/
theorem State.Consistent.step {t t' : State S} {bytes : List Byte} {o : Outcome}
    (hfd : 0 < rx.pcapFd) (hsize : 0 < rx.layout.tpFrameSize.toNat)
    (howned : t.Owned rx) (h : t.Consistent rx i bytes)
    (hcomplete : t.Complete o) (hstep : t.ldabPacketRx rx o = some t') :
    t'.Owned rx ∧ t'.Consistent rx i (bytes ++ recordsOf rx t.written) := by
  have hnone : (∀ p, t.pc ≠ .write p) → bytes ++ recordsOf rx t.written = bytes := by
    intro hwrite
    rw [State.written_eq_nil hwrite, recordsOf_nil, List.append_nil]
  unfold State.Consistent at h
  cases steps_of_ldabPacketRx hstep with
  | kernelSlot hpc hlt =>
      rw [hnone (by simp [hpc])]
      rw [hpc] at h
      exact ⟨howned, hlt, h⟩
  | otherSlot hpc hlt =>
      rw [hnone (by simp [hpc])]
      rw [hpc] at h
      exact ⟨howned, hlt, h⟩
  | wrap hpc =>
      rw [hnone (by simp [hpc])]
      refine ⟨howned, ?_⟩
      simpa only [State.Consistent, hpc] using h
  | pollFailed hpc =>
      rw [hnone (by simp [hpc])]
      exact ⟨howned, (hpc ▸ h).2⟩
  | polled hpc =>
      rw [hnone (by simp [hpc])]
      rw [hpc] at h
      exact ⟨howned, h⟩
  | capture hpc huser =>
      rw [hnone (by simp [hpc])]
      rw [hpc] at h
      exact ⟨howned, h.1, huser,
        wp_writeFrame hfd hsize (howned.deliverable huser) h.2⟩
  | discard hpc huser hnofd => exact absurd hfd hnofd
  | notReady hpc =>
      rw [hnone (by simp [hpc])]
      exact ⟨howned, (hpc ▸ h).2⟩
  | writeCall op k hpc =>
      rw [State.Complete, hpc] at hcomplete
      rw [hpc] at h
      obtain ⟨hlt, huser, hp⟩ := h
      have hw : t.written = [] := by rw [State.written, hpc]
      rw [hw, recordsOf_nil, List.append_nil]
      exact ⟨howned, hlt, huser, hp _ _ ⟨o, hcomplete, rfl⟩⟩
  | writeEnd n hpc =>
      rw [hpc] at h
      obtain ⟨hlt, huser, hn, hend⟩ := h
      have hw : t.written = [(t.index, (t.slot t.index).frame)] := by
        rw [State.written, hpc]
        exact if_neg (not_lt.2 hn)
      have hrecord : recordsOf rx t.written =
          (t.slot t.index).frame.recordBytes rx.layout.tpFrameSize := by
        rw [hw, recordsOf, List.flatMap_singleton]
      rw [hrecord]
      exact ⟨howned, hlt, huser, hend⟩
  | handBack hpc =>
      rw [hnone (by simp [hpc])]
      exact ⟨howned.fill (Or.inl rfl), (hpc ▸ h).2.2⟩

theorem State.Consistent.atEnd {t : State S} {bytes : List Byte}
    (h : t.Consistent rx i bytes) (hwrite : ∀ p, t.pc ≠ .write p) :
    AtEnd t.os rx.pcapFd i bytes := by
  unfold State.Consistent at h
  cases hpc : t.pc with
  | write p => exact absurd hpc (hwrite p)
  | status => rwa [hpc] at h
  | poll => exact (hpc ▸ h).2
  | user => exact (hpc ▸ h).2
  | release => exact (hpc ▸ h).2.2

theorem State.Consistent.alive {t : State S} {bytes : List Byte}
    (h : t.Consistent rx i bytes) (o : Outcome) : t.ldabPacketRx rx o ≠ none := by
  unfold State.ldabPacketRx
  unfold State.Consistent at h
  cases hpc : t.pc with
  | status =>
      dsimp only
      split_ifs <;> exact Option.some_ne_none _
  | poll => cases o <;> exact Option.some_ne_none _
  | user =>
      dsimp only
      split_ifs <;> exact Option.some_ne_none _
  | write p =>
      cases p with
      | ret n => exact Option.some_ne_none _
      | abort => exact ((hpc ▸ h).2.2).elim
      | call op k => exact Option.some_ne_none _
  | release => exact Option.some_ne_none _

/-- The kernel does not touch a slot of the program. -/
theorem State.Consistent.fill {t : State S} {bytes : List Byte} {j : ℕ}
    (h : t.Consistent rx i bytes)
    (hkernel : (t.slot j).tpStatus = tpStatusKernel) (s : Slot) :
    (t.fill j s).Consistent rx i bytes := by
  have hslot : (t.slot t.index).IsUser → (t.fill j s).slot t.index = t.slot t.index := by
    intro huser
    refine t.fill_slot_of_ne s ?_
    rintro rfl
    exact Slot.not_isUser_of_kernel hkernel huser
  unfold State.Consistent at h ⊢
  have hpc' : (t.fill j s).pc = t.pc := rfl
  rw [hpc']
  cases hpc : t.pc with
  | write p =>
      rw [hpc] at h
      obtain ⟨hlt, huser, hp⟩ := h
      have hfill := hslot huser
      refine ⟨hlt, ?_, ?_⟩
      · exact hfill.symm ▸ huser
      · exact hfill.symm ▸ hp
  | release =>
      rw [hpc] at h
      obtain ⟨hlt, huser, hend⟩ := h
      refine ⟨hlt, ?_, hend⟩
      exact (hslot huser).symm ▸ huser
  | status => rwa [hpc] at h
  | poll => rwa [hpc] at h
  | user => rwa [hpc] at h

theorem Capture.Inv.init {slot : ℕ → Slot} {os : Os S}
    (hnr : 0 < rx.layout.tpFrameNr.toNat)
    (hslot : ∀ j, (slot j).tpStatus = tpStatusKernel)
    (hos : AtEnd os rx.pcapFd i base) :
    Capture.Inv rx i base (Capture.init slot os) where
  head_lt := hnr
  owned j := Or.inl (hslot j)
  consistent := by
    rw [Capture.init, recordsOf_nil, List.append_nil]
    exact hos

/-- Every step of the kernel or of the thread keeps the invariant. -/
theorem Capture.Inv.step {c c' : Capture S} (hfd : 0 < rx.pcapFd)
    (hsize : 0 < rx.layout.tpFrameSize.toNat) (h : Capture.Inv rx i base c)
    (hstep : Capture.Step rx c c') : Capture.Inv rx i base c' := by
  cases hstep with
  | kernel tpStatus f hkernel huser hframe =>
      refine ⟨Nat.mod_lt _ (Nat.zero_lt_of_lt h.head_lt), ?_, ?_⟩
      · exact h.owned.fill (Or.inr ⟨huser, hframe⟩)
      · exact h.consistent.fill hkernel _
  | thread o t hcomplete hstep =>
      obtain ⟨howned, hconsistent⟩ :=
        h.consistent.step hfd hsize h.owned hcomplete hstep
      refine ⟨h.head_lt, howned, ?_⟩
      rwa [recordsOf_append, ← List.append_assoc]

namespace State

theorem waiting_of_kernel {t : State S} {j : ℕ}
    (h : (t.slot j).tpStatus = tpStatusKernel) : t.waiting j = none :=
  if_neg fun huser => Slot.not_isUser_of_kernel h huser.1

theorem waiting_of_isUser {t : State S} {j : ℕ} (h : (t.slot j).IsUser)
    (hpc : t.pc.isRelease = false) : t.waiting j = some (j, (t.slot j).frame) :=
  if_pos ⟨h, fun hrel => by simp [Releasing, hpc] at hrel⟩

theorem waiting_congr {t t' : State S} (hslot : t'.slot = t.slot)
    (hpc : t.pc.isRelease = false) (hpc' : t'.pc.isRelease = false) :
    t'.waiting = t.waiting := by
  funext j
  simp [waiting, Releasing, hslot, hpc, hpc']

theorem waiting_goto_release {t : State S} (hpc : t.pc.isRelease = false) :
    (t.goto .release).waiting = Function.update t.waiting t.index none := by
  funext j
  by_cases hj : j = t.index
  · subst hj
    rw [Function.update_self]
    exact if_neg fun h => h.2 ⟨rfl, rfl⟩
  · rw [Function.update_of_ne hj]
    simp [waiting, Releasing, goto, hpc, hj]

theorem waiting_release_next {t : State S} (hpc : t.pc.isRelease = true) :
    t.release.next.waiting = t.waiting := by
  funext j
  by_cases hj : j = t.index
  · subst hj
    have hkernel : (t.release.next.slot t.index).tpStatus = tpStatusKernel := by
      rw [release, next, fill_slot_self]
    rw [waiting_of_kernel hkernel]
    exact (if_neg fun h => h.2 ⟨hpc, rfl⟩).symm
  · have hslot : t.release.slot j = t.slot j := fill_slot_of_ne t _ hj
    simp [waiting, Releasing, hslot, next, Pc.isRelease, hj]

theorem waiting_fill {t : State S} {j : ℕ} {s : Slot} (hs : s.IsUser)
    (hj : ¬ t.Releasing j) :
    (t.fill j s).waiting = Function.update t.waiting j (some (j, s.frame)) := by
  funext k
  by_cases hk : k = j
  · subst hk
    have huser : ((t.fill k s).slot k).IsUser := by rwa [fill_slot_self]
    rw [Function.update_self, waiting, if_pos ⟨huser, hj⟩, fill_slot_self]
  · rw [Function.update_of_ne hk, waiting, waiting, fill_slot_of_ne t s hk]
    rfl

/-- A step of the thread takes the packet of its slot out of the waiting ones
exactly when it has written it. -/
theorem waiting_step {t t' : State S} {bytes : List Byte} {o : Outcome}
    (hfd : 0 < rx.pcapFd) (h : t.Consistent rx i bytes)
    (hstep : t.ldabPacketRx rx o = some t') :
    (t'.waiting = t.waiting ∧ t.written = []) ∨
      ∃ x, t.index < rx.layout.tpFrameNr.toNat ∧
        t.waiting t.index = some x ∧ t.written = [x] ∧
        t'.waiting = Function.update t.waiting t.index none := by
  have hcongr : ∀ pc, t.pc = pc → pc.isRelease = false →
      (∀ n, pc ≠ .write (.ret n)) → t'.slot = t.slot →
      t'.pc.isRelease = false → t'.waiting = t.waiting ∧ t.written = [] := by
    intro pc hpc hrel hret hslot hrel'
    exact ⟨waiting_congr hslot (by rw [hpc, hrel]) hrel',
      written_eq_nil_of_ne_ret (by rwa [hpc])⟩
  unfold Consistent at h
  cases steps_of_ldabPacketRx hstep with
  | kernelSlot hpc => exact .inl (hcongr _ hpc rfl (by simp) rfl rfl)
  | otherSlot hpc => exact .inl (hcongr _ hpc rfl (by simp) rfl rfl)
  | wrap hpc => exact .inl (hcongr _ hpc rfl (by simp) rfl (by simp only [hpc]; rfl))
  | pollFailed hpc => exact .inl (hcongr _ hpc rfl (by simp) rfl rfl)
  | polled hpc => exact .inl (hcongr _ hpc rfl (by simp) rfl rfl)
  | capture hpc => exact .inl (hcongr _ hpc rfl (by simp) rfl rfl)
  | discard hpc huser hnofd => exact absurd hfd hnofd
  | notReady hpc => exact .inl (hcongr _ hpc rfl (by simp) rfl rfl)
  | writeCall op k hpc => exact .inl (hcongr _ hpc rfl (by simp) rfl rfl)
  | writeEnd n hpc =>
      right
      rw [hpc] at h
      obtain ⟨hlt, huser, hn, -⟩ := h
      have hrel : t.pc.isRelease = false := by rw [hpc]; rfl
      refine ⟨_, hlt, waiting_of_isUser huser hrel, ?_, waiting_goto_release hrel⟩
      rw [written, hpc]
      exact if_neg (not_lt.2 hn)
  | handBack hpc =>
      left
      exact ⟨waiting_release_next (by rw [hpc]; rfl),
        written_eq_nil_of_ne_ret (by simp [hpc])⟩

end State

theorem Capture.ring_deliver {c : Capture S} {tpStatus : BitVec 64} {f : Frame}
    (hkernel : (c.thread.slot c.head).tpStatus = tpStatusKernel)
    (huser : tpStatus &&& tpStatusUser = tpStatusUser)
    (hinv : Capture.Inv rx i base c) :
    (c.deliver rx tpStatus f).ring =
      c.ring.deliver rx.layout.tpFrameNr.toNat (c.head, f) := by
  have hrel : ¬ c.thread.Releasing c.head := by
    rintro ⟨hpc, hhead⟩
    have hconsistent := hinv.consistent
    unfold State.Consistent at hconsistent
    cases hc : c.thread.pc with
    | release =>
        rw [hc] at hconsistent
        rw [hhead] at hkernel
        exact Slot.not_isUser_of_kernel hkernel hconsistent.2.1
    | _ => simp [hc, Pc.isRelease] at hpc
  simp only [ring, deliver, SlotRing.State.deliver,
    State.waiting_fill (s := ⟨tpStatus, f⟩) huser hrel]

theorem Capture.ring_init {slot : ℕ → Slot} {os : Os S}
    (hslot : ∀ j, (slot j).tpStatus = tpStatusKernel) :
    (Capture.init slot os).ring = SlotRing.State.empty := by
  have hwaiting : (Capture.init slot os).thread.waiting = fun _ => none :=
    funext fun j => State.waiting_of_kernel (hslot j)
  rw [ring, hwaiting]
  rfl

theorem Capture.ring_of_waiting_eq {c : Capture S} {t : State S}
    (hwaiting : t.waiting = c.thread.waiting) (hwritten : c.thread.written = []) :
    Capture.ring { c with thread := t, written := c.written ++ c.thread.written } =
      c.ring := by
  simp only [ring, hwaiting, hwritten, List.append_nil]

theorem Capture.ring_of_waiting_take {c : Capture S} {t : State S}
    {x : ℕ × Frame}
    (hwaiting : t.waiting = Function.update c.thread.waiting c.thread.index none)
    (hwritten : c.thread.written = [x]) :
    Capture.ring { c with thread := t, written := c.written ++ c.thread.written } =
      c.ring.take c.thread.index x := by
  simp only [ring, SlotRing.State.take, hwaiting, hwritten]

/-- A capture is a ring of slots: its steps deliver a packet, take the packet
of a slot, or leave the waiting packets as they are. -/
theorem Capture.simulates (hfd : 0 < rx.pcapFd) :
    Transition.Simulates (Capture.Step rx (S := S))
      (SlotRing.Step rx.layout.tpFrameNr.toNat) (Capture.Inv rx i base)
      Capture.ring := by
  intro c c' hinv hstep
  cases hstep with
  | kernel tpStatus f hkernel huser hframe =>
      rw [ring_deliver hkernel huser hinv]
      exact .single (.deliver _ (State.waiting_of_kernel hkernel))
  | thread o t hcomplete hstep =>
      rcases State.waiting_step hfd hinv.consistent hstep with
        ⟨hwaiting, hwritten⟩ | ⟨x, hlt, hfull, hwritten, hwaiting⟩
      · rw [ring_of_waiting_eq hwaiting hwritten]
      · rw [ring_of_waiting_take hwaiting hwritten]
        exact .single (.take hlt hfull)

def State.inUserSlots (n : ℕ) (t : State S) : Multiset (ℕ × Frame) :=
  SlotRing.content n fun j =>
    if (t.slot j).IsUser then some (j, (t.slot j).frame) else none

def State.handedBack (t : State S) : Multiset (ℕ × Frame) :=
  match t.pc with
  | .release => {(t.index, (t.slot t.index).frame)}
  | _ => 0

/-- A capture into a file that began with the bytes `base` is lossless: delivered
packets were written or are in slots of the program, the slot that is just being
handed back apart; a slot the kernel may fill has no unwritten packet; and
between two writes the file holds the records of the written packets. -/
structure Capture.Lossless (rx : PacketRx) (i : ℕ) (base : List Byte)
    (c : Capture S) : Prop where
  conserved : (c.delivered : Multiset (ℕ × Frame)) + c.thread.handedBack =
    c.written + c.thread.inUserSlots rx.layout.tpFrameNr.toNat
  written_once : (c.written : Multiset (ℕ × Frame)) ≤ c.delivered
  refilled_after_write : ∀ j, (c.thread.slot j).tpStatus = tpStatusKernel →
    (c.delivered.filter (·.1 = j)).Perm (c.written.filter (·.1 = j))
  records : (∀ p, c.thread.pc ≠ .write p) →
    c.thread.os.data i = base ++ recordsOf rx c.written
  alive : ∀ o, c.thread.ldabPacketRx rx o ≠ none

/-- The packets in the slots of the program are the waiting ones, and the one
whose slot is being handed back. -/
theorem inUserSlots_eq {c : Capture S} (h : Capture.Inv rx i base c) :
    c.thread.inUserSlots rx.layout.tpFrameNr.toNat =
      SlotRing.content rx.layout.tpFrameNr.toNat c.thread.waiting +
        c.thread.handedBack := by
  have hconsistent := h.consistent
  unfold State.Consistent at hconsistent
  unfold State.handedBack
  cases hpc : c.thread.pc with
  | release =>
      rw [hpc] at hconsistent
      obtain ⟨hlt, huser, -⟩ := hconsistent
      have hempty : c.thread.waiting c.thread.index = none :=
        if_neg fun hw => hw.2 ⟨by rw [hpc]; rfl, rfl⟩
      dsimp only
      rw [← SlotRing.content_put hlt hempty, State.inUserSlots]
      congr 1
      funext j
      by_cases hj : j = c.thread.index
      · subst hj
        rw [Function.update_self, if_pos huser]
      · rw [Function.update_of_ne hj]
        simp [State.waiting, State.Releasing, hj]
  | _ =>
      rw [add_zero, State.inUserSlots]
      congr 1
      funext j
      simp [State.waiting, State.Releasing, hpc, Pc.isRelease]

theorem mem_content_waiting {t : State S} {n : ℕ} {p : ℕ × Frame}
    (h : p ∈ SlotRing.content n t.waiting) : t.waiting p.1 = some p := by
  obtain ⟨j, -, hj⟩ := SlotRing.mem_content.1 h
  have hp := hj
  rw [State.waiting] at hp
  split_ifs at hp
  obtain rfl := Option.some.inj hp
  exact hj

theorem Capture.Inv.lossless {c : Capture S} (h : Capture.Inv rx i base c)
    (hring : SlotRing.Conserved rx.layout.tpFrameNr.toNat c.ring) :
    c.Lossless rx i base := by
  have heq : (c.delivered : Multiset (ℕ × Frame)) =
      c.written + SlotRing.content _ c.thread.waiting := hring.delivered_eq
  refine ⟨?_, ?_, ?_, ?_, ?_⟩
  · rw [inUserSlots_eq h, heq, add_assoc]
  · rw [heq]
    exact Multiset.le_add_right _ _
  · intro j hkernel
    rw [← Multiset.coe_eq_coe, ← Multiset.filter_coe, ← Multiset.filter_coe, heq,
      Multiset.filter_add]
    have hnone : Multiset.filter (·.1 = j)
        (SlotRing.content rx.layout.tpFrameNr.toNat c.thread.waiting) = 0 := by
      rw [Multiset.filter_eq_nil]
      rintro p hp rfl
      have hwaiting := mem_content_waiting hp
      rw [State.waiting_of_kernel hkernel] at hwaiting
      cases hwaiting
    rw [hnone, add_zero]
  · intro hwrite
    obtain ⟨f, -, rfl, -, -, -, hdata⟩ := h.consistent.atEnd hwrite
    exact hdata
  · intro o
    exact h.consistent.alive o

/-- The capture loop is lossless for every interleaving of its steps with the
kernel's deliveries. -/
theorem ldabPacketRx_lossless (hfd : 0 < rx.pcapFd)
    (hnr : 0 < rx.layout.tpFrameNr.toNat)
    (hsize : 0 < rx.layout.tpFrameSize.toNat) {slot : ℕ → Slot} {os : Os S}
    (hslot : ∀ j, (slot j).tpStatus = tpStatusKernel)
    (hos : AtEnd os rx.pcapFd i base) {c : Capture S}
    (hreach : Transition.Reaches (Capture.Step rx) (Capture.init slot os) c) :
    c.Lossless rx i base := by
  have hinit := Capture.Inv.init hnr hslot hos
  have hstep : ∀ c c' : Capture S, Capture.Inv rx i base c →
      Capture.Step rx c c' → Capture.Inv rx i base c' :=
    fun _ _ hinv => hinv.step hfd hsize
  refine (Transition.inv_of_reaches hstep hreach hinit).lossless ?_
  refine (Capture.simulates hfd).inv_of_reaches hstep
    (fun _ _ => SlotRing.Conserved.step) hreach hinit ?_
  rw [Capture.ring_init hslot]
  exact SlotRing.Conserved.empty hnr

/-- The capture after `k` steps of the thread whose system calls return zero or transfer
everything. -/
def Capture.goOn (rx : PacketRx) : ℕ → Capture S → Option (Capture S)
  | 0, c => some c
  | k + 1, c => do
    let c ← c.goOn rx k
    let t ← c.thread.ldabPacketRx rx (.ok 0)
    if c.thread.Complete (.ok 0) then
      some { c with thread := t, written := c.written ++ c.thread.written }
    else none

theorem Capture.reaches_of_goOn {k : ℕ} {c c' : Capture S} (h : c.goOn rx k = some c') :
    Transition.Reaches (Step rx) c c' := by
  induction k generalizing c' with
  | zero =>
      obtain rfl := Option.some.inj h
      exact .refl
  | succ k ih =>
      rw [goOn] at h
      obtain ⟨c₁, hc₁, h⟩ := Option.bind_eq_some_iff.1 h
      obtain ⟨t, hthread, h⟩ := Option.bind_eq_some_iff.1 h
      split_ifs at h with hcomplete
      obtain rfl := Option.some.inj h
      exact (ih hc₁).tail (.thread (.ok 0) t hcomplete hthread)

/-- A ring of eight slots of 2048 bytes, captured into descriptor 5. -/
def smallRx : PacketRx where
  layout := ⟨16384, 1, 2048, 8⟩
  pcapFd := 5

/-- Nothing but an empty file that is open for writing. -/
def writableOs : Os Unit where
  errno := 0
  fds fd := if fd = 5 then some (.file ⟨0, 0, 0, oWronly⟩) else none
  resolve path := path
  entry _ := none
  data _ := []
  next := 1

def smallFrame : Frame where
  tpLen := 2
  tpSnaplen := 2
  tpMac := 2
  tpSec := 0
  tpUsec := 0
  sllIfindex := 2
  mem := [0, 0, 1, 2]

/-- A packet that differs from `smallFrame` in its last byte. -/
def otherFrame : Frame := { smallFrame with mem := [0, 0, 1, 3] }

theorem smallFrame_deliverable : smallFrame.Deliverable 2048 := by
  constructor <;> decide

theorem otherFrame_deliverable : otherFrame.Deliverable 2048 := by
  constructor <;> decide

def twoDelivered : Capture Unit :=
  ((Capture.init (fun _ => Slot.zero) writableOs).deliver smallRx 1 smallFrame).deliver smallRx 1
    otherFrame

theorem log_twoDelivered :
    (twoDelivered.goOn smallRx 11).map (fun c => (c.delivered, c.written, c.thread.pc.isRelease,
      c.thread.os.data 0)) =
      some ([(0, smallFrame), (1, otherFrame)], [(0, smallFrame), (1, otherFrame)], true,
        recordsOf smallRx [(0, smallFrame), (1, otherFrame)]) := by
  decide +kernel

theorem writableOs_atEnd : AtEnd writableOs 5 0 [] :=
  ⟨_, rfl, rfl, by unfold OpenFile.writable; decide, by decide, rfl, rfl⟩

theorem ldabPacketRx_lossless_smallFrame :
    ∃ c : Capture Unit,
      Transition.Reaches (Capture.Step smallRx)
        (Capture.init (fun _ => Slot.zero) writableOs) c ∧
      c.delivered = [(0, smallFrame), (1, otherFrame)] ∧ c.written = c.delivered ∧
      c.thread.os.data 0 = recordsOf smallRx c.delivered ∧ c.Lossless smallRx 0 [] := by
  obtain ⟨c, hrun, hlog⟩ := Option.map_eq_some_iff.1 log_twoDelivered
  simp only [Prod.mk.injEq] at hlog
  obtain ⟨hdelivered, hwritten, -, hdata⟩ := hlog
  have hfirst : Transition.Reaches (Capture.Step smallRx)
      (Capture.init (fun _ => Slot.zero) writableOs) _ :=
    .single (.kernel 1 smallFrame rfl rfl smallFrame_deliverable)
  have hreach := (hfirst.tail (.kernel 1 otherFrame rfl rfl otherFrame_deliverable)).trans
    (Capture.reaches_of_goOn hrun)
  exact ⟨c, hreach, hdelivered, hwritten.trans hdelivered.symm, hdelivered ▸ hdata,
    ldabPacketRx_lossless (by decide) (by decide) (by decide) (fun _ => rfl) writableOs_atEnd
      hreach⟩

end Rx
