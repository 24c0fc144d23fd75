import Dabba.PacketRx.Recorded
import Dabba.Pcap.Growing
import Dabba.Posix.Footprint

/-!
# A capture call by call

At every call of a capture its file is the packets that were written, and during the write
of one more possibly the header of that one. The kernel leaves the slot of the packet alone
until the packet is written.
-/

namespace Rx

open Posix Program Pcap Tpacket

variable {S : Type} {rx : PacketRx} {i : ℕ} {hdr : PcapFileHeader}

def frameHdr (rx : PacketRx) (f : Frame) : PcapSfPkthdr where
  ts := ⟨f.tpSec, f.tpUsec⟩
  caplen := f.caplen rx.layout.tpFrameSize
  len := f.tpLen

def frameRecord (rx : PacketRx) (f : Frame) (h : f.Deliverable rx.layout.tpFrameSize) :
    Record where
  hdr := frameHdr rx f
  payload := kept rx f
  complete := h.length_take

namespace State

/-- What is left of `writeFrame` when the header is written. -/
def writeKept (rx : PacketRx) (f : Frame) : Prog FileCall ℤ :=
  .call (.write rx.pcapFd (kept rx f)) fun written =>
    if written ≠ (f.caplen rx.layout.tpFrameSize).toNat then .ret (-1) else .ret written

theorem writeFrame_eq {f : Frame} (hfd : 0 < rx.pcapFd)
    (hsize : 0 < rx.layout.tpFrameSize.toNat) (hf : f.Deliverable rx.layout.tpFrameSize) :
    writeFrame rx f = .call (.write rx.pcapFd (frameHdr rx f).bytes) fun written =>
      if written ≠ sizeofPcapSfPkthdr then .ret (-1) else writeKept rx f := by
  have hpos := Frame.caplen_pos hsize hf.snaplen_pos
  have hwide : ((f.caplen rx.layout.tpFrameSize).setWidth 64 : BitVec 64) ≠ 0 := by
    intro hzero
    have hnat := congrArg BitVec.toNat hzero
    rw [BitVec.toNat_setWidth_of_le (by decide)] at hnat
    exact absurd hnat hpos.ne'
  have hhdr : writtenHdr (f.tpLen.setWidth 64)
      ((f.caplen rx.layout.tpFrameSize).setWidth 64) (f.tpSec.setWidth 64)
      (f.tpUsec.setWidth 64) = frameHdr rx f := by
    simp [writtenHdr, frameHdr]
  simp only [writeFrame, ldabPcapWrite, Prog.bind_eq, Prog.assert_bind hfd,
    Prog.assert_bind hwide, hhdr, Prog.liftM_eq, Prog.perform_bind]
  rfl

/-- What the file of a capture is at a point of the loop. -/
def Logs (rx : PacketRx) (i : ℕ) (hdr : PcapFileHeader) (l : Log) (t : State S) : Prop :=
  AtEnd t.os rx.pcapFd i (hdr.bytes ++ l.bytes) ∧
    match t.pc with
    | .write p => (t.slot t.index).IsUser ∧
        ((p = writeFrame rx (t.slot t.index).frame ∧ l.pending = none) ∨
          (p = writeKept rx (t.slot t.index).frame ∧
            l.pending = some (frameHdr rx (t.slot t.index).frame)) ∨
          ∃ n, 0 ≤ n ∧ p = .ret n ∧ l.pending = none)
    | _ => l.pending = none

end State

/-- A complete write at the end of a file. -/
theorem AtEnd.write {os : Os S} {fd : ℤ} {bytes x : List Byte} {o : Outcome}
    (h : AtEnd os fd i bytes) (hcomplete : Os.Complete (.write fd x) o os) :
    (Os.handle (.write fd x) o os).1 = x.length ∧
      AtEnd (Os.handle (.write fd x) o os).2 fd i (bytes ++ x) ∧
      Os.Within {fd} {i} ∅ os (Os.handle (.write fd x) o os).2 := by
  obtain ⟨f, hf, rfl, hw, happend, hoff, rfl⟩ := h
  have hwrite : (Prog.perform (.write fd x)).wp Os.completeSem (fun (r : ℤ) os' =>
      r = x.length ∧ os' = os.putFile fd { f with offset := f.offset + x.length }
        (os.data f.inode ++ x)) os := by
    refine Os.wp_write_complete hf hw happend ⟨rfl, ?_⟩
    rw [hoff, writeAt_length]
  obtain ⟨hr, hos⟩ := hwrite (Os.handle (.write fd x) o os).1 (Os.handle (.write fd x) o os).2
    ⟨o, hcomplete, rfl⟩
  have hwithin := Os.within_write os fd x o
  refine ⟨hr, ⟨{ f with offset := f.offset + x.length }, ?_, rfl, hw, happend, ?_, ?_⟩,
    hwithin.mono le_rfl ?_ le_rfl⟩
  · rw [hos, Os.putFile_fds_self]
  · rw [List.length_append, ← hoff]
  · rw [hos]
    exact Os.putFile_data_self _ _ { f with offset := f.offset + x.length } _
  · rintro i ⟨f', hf', rfl⟩
    rw [hf] at hf'
    rw [Descriptor.file.inj (Option.some.inj hf')]
    exact Set.mem_singleton _

/-- What a step of the thread does to its file: it leaves it alone, or takes a part of the
writing of a packet, whose payload is there when the write is about to return. -/
structure Logged (rx : PacketRx) (i : ℕ) (l l' : Log) (t t' : State S) : Prop where
  grows : l' = l ∨ l.Grows l'
  payloads : l'.records.map Record.payload =
    l.records.map Record.payload ++ keptOf rx t'.written
  within : Os.Within {rx.pcapFd} {i} ∅ t.os t'.os

section Step

variable {l : Log} {t t' : State S} {o : Outcome}

theorem Logged.same (hos : t'.os = t.os) (hpc : ∀ n, t'.pc ≠ .write (.ret n)) :
    Logged rx i l l t t' where
  grows := .inl rfl
  payloads := by
    rw [State.written_eq_nil_of_ne_ret hpc]
    exact (List.append_nil _).symm
  within := hos ▸ .refl _

/-- A call of the write of a packet. -/
theorem State.Logs.writeCall {β : Type} {op : FileCall β} {k : β → Prog FileCall ℤ}
    (h : t.Logs rx i hdr l) (hfd : 0 < rx.pcapFd) (hsize : 0 < rx.layout.tpFrameSize.toNat)
    (howned : (t.slot t.index).IsUser →
      (t.slot t.index).frame.Deliverable rx.layout.tpFrameSize)
    (hpc : t.pc = .write (.call op k)) (hcomplete : Os.Complete op o t.os)
    (ht' : t' = { t with os := (Os.handle op o t.os).2
                         pc := .write (k (Os.handle op o t.os).1) }) :
    ∃ l', t'.Logs rx i hdr l' ∧ Logged rx i l l' t t' := by
  obtain ⟨rs, pending⟩ := l
  unfold Logs at h
  rw [hpc] at h
  obtain ⟨hend, huser, hstage⟩ := h
  have hf := howned huser
  rcases hstage with ⟨hp, hnone⟩ | ⟨hp, hsome⟩ | ⟨n, -, hp, -⟩
  · -- The header is written.
    rw [writeFrame_eq hfd hsize hf] at hp
    cases hp
    obtain rfl : pending = none := hnone
    obtain ⟨hr, hend', hwithin⟩ := AtEnd.write hend hcomplete
    rw [PcapSfPkthdr.length_bytes] at hr
    rw [hr] at ht'
    dsimp only at ht'
    rw [if_neg (not_not.2 rfl)] at ht'
    subst ht'
    refine ⟨⟨rs, some (frameHdr rx (t.slot t.index).frame)⟩,
      ⟨?_, huser, .inr (.inl ⟨rfl, rfl⟩)⟩, .inr (.header rs _), ?_, hwithin⟩
    · rw [Log.bytes_none, List.append_assoc] at hend'
      exact hend'
    · exact (List.append_nil _).symm
  · -- The payload is written.
    cases hp
    obtain rfl : pending = some (frameHdr rx (t.slot t.index).frame) := hsome
    obtain ⟨hr, hend', hwithin⟩ := AtEnd.write hend hcomplete
    have hlen : (kept rx (t.slot t.index).frame).length =
        ((t.slot t.index).frame.caplen rx.layout.tpFrameSize).toNat := hf.length_take
    rw [hr, hlen] at ht'
    dsimp only at ht'
    rw [if_neg (not_not.2 rfl)] at ht'
    subst ht'
    have hbytes : Log.bytes ⟨rs ++ [frameRecord rx _ hf], none⟩ =
        Log.bytes ⟨rs, some (frameHdr rx (t.slot t.index).frame)⟩ ++
          kept rx (t.slot t.index).frame := by
      rw [Log.bytes_none, Log.bytes_some, recordsBytes_append, recordsBytes_cons,
        recordsBytes_nil, List.append_nil, List.append_assoc]
      rfl
    have hwritten : ∀ n : ℕ, written { t with
        os := (Os.handle (.write rx.pcapFd (kept rx (t.slot t.index).frame)) o t.os).2
        pc := .write (.ret n) } = [(t.index, (t.slot t.index).frame)] := by
      intro n
      rw [written]
      exact if_neg (not_lt.2 (Int.natCast_nonneg n))
    refine ⟨⟨rs ++ [frameRecord rx _ hf], none⟩,
      ⟨?_, huser, .inr (.inr ⟨_, Int.natCast_nonneg _, rfl, rfl⟩)⟩,
      .inr (.payload rs (frameRecord rx _ hf)), ?_, hwithin⟩
    · rw [hbytes, ← List.append_assoc]
      exact hend'
    · rw [hwritten, List.map_append]
      rfl
  · cases hp

/-- Every step of the thread leaves its file a log. -/
theorem State.Logs.step (h : t.Logs rx i hdr l) (hfd : 0 < rx.pcapFd)
    (hsize : 0 < rx.layout.tpFrameSize.toNat)
    (howned : (t.slot t.index).IsUser →
      (t.slot t.index).frame.Deliverable rx.layout.tpFrameSize)
    (hcomplete : t.Complete o) (hstep : t.ldabPacketRx rx o = some t') :
    ∃ l', t'.Logs rx i hdr l' ∧ Logged rx i l l' t t' := by
  have hlogs := h
  unfold Logs at h
  cases steps_of_ldabPacketRx hstep with
  | kernelSlot hpc hlt hkernel =>
      rw [hpc] at h
      exact ⟨l, h, .same rfl (by simp [goto])⟩
  | otherSlot hpc hlt hkernel =>
      rw [hpc] at h
      exact ⟨l, h, .same rfl (by simp [goto])⟩
  | wrap hpc hge => exact ⟨l, by simpa [Logs, hpc] using h, .same rfl (by simp [hpc])⟩
  | pollFailed hpc e ho =>
      rw [hpc] at h
      exact ⟨l, h, .same rfl (by simp [next])⟩
  | polled hpc n ho =>
      rw [hpc] at h
      exact ⟨l, h, .same rfl (by simp [goto])⟩
  | capture hpc huser hpos =>
      rw [hpc] at h
      refine ⟨l, ⟨h.1, huser, .inl ⟨rfl, h.2⟩⟩, .same rfl ?_⟩
      simp [goto, writeFrame_eq hfd hsize (howned huser)]
  | discard hpc huser hnofd => exact absurd hfd hnofd
  | notReady hpc huser =>
      rw [hpc] at h
      exact ⟨l, h, .same rfl (by simp [next])⟩
  | writeCall op k hpc =>
      rw [Complete, hpc] at hcomplete
      exact hlogs.writeCall hfd hsize howned hpc hcomplete rfl
  | writeEnd n hpc =>
      rw [hpc] at h
      obtain ⟨hend, huser, hstage⟩ := h
      refine ⟨l, ⟨hend, ?_⟩, .same rfl (by simp [goto])⟩
      rcases hstage with ⟨hp, -⟩ | ⟨hp, -⟩ | ⟨m, -, -, hnone⟩
      · rw [writeFrame_eq hfd hsize (howned huser)] at hp
        cases hp
      · cases hp
      · exact hnone
  | handBack hpc =>
      rw [hpc] at h
      exact ⟨l, h, .same rfl (by simp [next])⟩

theorem State.Logs.fill_slot {j : ℕ} {p : Prog FileCall ℤ} (h : t.Logs rx i hdr l)
    (hpc : t.pc = .write p) (hkernel : (t.slot j).tpStatus = tpStatusKernel) (s : Slot) :
    (t.fill j s).slot t.index = t.slot t.index := by
  unfold Logs at h
  rw [hpc] at h
  refine t.fill_slot_of_ne s ?_
  rintro rfl
  exact Slot.not_isUser_of_kernel hkernel h.2.1

theorem State.Logs.written_fill {j : ℕ} (h : t.Logs rx i hdr l)
    (hkernel : (t.slot j).tpStatus = tpStatusKernel) (s : Slot) :
    (t.fill j s).written = t.written := by
  have hpc' : (t.fill j s).pc = t.pc := rfl
  have hindex : (t.fill j s).index = t.index := rfl
  unfold written
  rw [hpc']
  split
  · rw [hindex, h.fill_slot ‹_› hkernel]
  · rfl

theorem State.Logs.fill {j : ℕ} (h : t.Logs rx i hdr l)
    (hkernel : (t.slot j).tpStatus = tpStatusKernel) (s : Slot) :
    (t.fill j s).Logs rx i hdr l := by
  refine ⟨h.1, ?_⟩
  have hstage := h.2
  have hpc' : (t.fill j s).pc = t.pc := rfl
  rw [hpc']
  cases hpc : t.pc with
  | write p =>
      rw [hpc] at hstage
      have hslot := h.fill_slot hpc hkernel s
      have hindex : (t.fill j s).index = t.index := rfl
      dsimp only
      rw [hindex, hslot]
      exact hstage
  | _ =>
      rw [hpc] at hstage
      exact hstage

end Step

namespace Capture

variable {base : List Record} {l : Log} {c c' : Capture S}

/-- A capture whose file holds the packets that were there before, those that were written,
and the one whose write is about to return. -/
structure Logging (rx : PacketRx) (i : ℕ) (hdr : PcapFileHeader) (base : List Record)
    (l : Log) (c : Capture S) : Prop where
  logs : c.thread.Logs rx i hdr l
  payloads : l.records.map Record.payload =
    base.map Record.payload ++ keptOf rx (c.written ++ c.thread.written)
  slots : ∀ j, (c.thread.slot j).tpStatus = tpStatusKernel ∨
    ((c.thread.slot j).IsUser ∧ (j, (c.thread.slot j).frame) ∈ c.delivered)
  delivered : ∀ p ∈ c.delivered, p.2.Deliverable rx.layout.tpFrameSize

theorem Logging.init {slot : ℕ → Slot} {os : Os S}
    (hslot : ∀ j, (slot j).tpStatus = tpStatusKernel)
    (hos : AtEnd os rx.pcapFd i (hdr.bytes ++ recordsBytes base)) :
    Logging rx i hdr base ⟨base, none⟩ (Capture.init slot os) where
  logs := ⟨by rw [Log.bytes_none]; exact hos, rfl⟩
  payloads := (List.append_nil _).symm
  slots j := .inl (hslot j)
  delivered _ hp := absurd hp List.not_mem_nil

theorem Logging.mem_delivered (h : Logging rx i hdr base l c) {j : ℕ}
    (huser : (c.thread.slot j).IsUser) : (j, (c.thread.slot j).frame) ∈ c.delivered := by
  rcases h.slots j with hkernel | ⟨-, hmem⟩
  · exact absurd huser (Slot.not_isUser_of_kernel hkernel)
  · exact hmem

theorem slot_step {t t' : State S} {o : Outcome} (hstep : t.ldabPacketRx rx o = some t')
    (j : ℕ) : t'.slot j = t.slot j ∨ (t'.slot j).tpStatus = tpStatusKernel := by
  cases State.steps_of_ldabPacketRx hstep with
  | handBack hpc =>
      by_cases hj : j = t.index
      · subst hj
        refine .inr ?_
        simp only [State.next, State.release, State.fill_slot_self]
      · exact .inl (State.fill_slot_of_ne t _ hj)
  | _ => exact .inl rfl

/-- Every step of the kernel or of the thread leaves the file a log. -/
theorem Logging.step (h : Logging rx i hdr base l c) (hfd : 0 < rx.pcapFd)
    (hsize : 0 < rx.layout.tpFrameSize.toNat) (hstep : Step rx c c') :
    ∃ l', Logging rx i hdr base l' c' ∧ (l' = l ∨ l.Grows l') ∧
      Os.Within {rx.pcapFd} {i} ∅ c.thread.os c'.thread.os := by
  cases hstep with
  | kernel tpStatus f hkernel huser hframe =>
      have hlogs := h.logs.fill hkernel ⟨tpStatus, f⟩
      refine ⟨l, ⟨hlogs, ?_, fun j => ?_, fun p hp => ?_⟩, .inl rfl, .refl _⟩
      · rw [h.payloads]
        have hwritten : (c.thread.fill c.head ⟨tpStatus, f⟩).written = c.thread.written :=
          h.logs.written_fill hkernel _
        simp only [deliver, hwritten]
      · by_cases hj : j = c.head
        · subst hj
          refine .inr ?_
          simp only [deliver, State.fill_slot_self]
          exact ⟨huser, List.mem_append_right _ (List.mem_singleton_self _)⟩
        · simp only [deliver, State.fill_slot_of_ne c.thread _ hj]
          exact (h.slots j).imp_right fun hslot => ⟨hslot.1, List.mem_append_left _ hslot.2⟩
      · rcases List.mem_append.1 hp with hp | hp
        · exact h.delivered p hp
        · exact (List.mem_singleton.1 hp) ▸ hframe
  | thread o t hcomplete hstep =>
      obtain ⟨l', hlogs, hgrows, hpayloads, hwithin⟩ := h.logs.step hfd hsize
        (fun huser => h.delivered _ (h.mem_delivered huser)) hcomplete hstep
      refine ⟨l', ⟨hlogs, ?_, fun j => ?_, h.delivered⟩, hgrows, hwithin⟩
      · rw [hpayloads, h.payloads, List.append_assoc]
        simp only [keptOf, List.map_append]
      · rcases slot_step hstep j with hslot | hkernel
        · rw [hslot]
          exact h.slots j
        · exact .inl hkernel

end Capture

end Rx
