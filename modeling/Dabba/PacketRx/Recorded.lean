import Dabba.PacketRx.Conservation
import Dabba.Pcap.Opening
import Dabba.Pcap.RoundTrip

/-!
# A file of several captures

The first capture into a file creates it, and later ones may be asked to append. However
many captures there were, and whatever else happened to the descriptors in between, the file
is a header and the records of the packets that were written, capture after capture.
-/

namespace Rx

open Posix Program Pcap Tpacket

variable {S : Type} {rx : PacketRx}

def kept (rx : PacketRx) (f : Frame) : List Byte :=
  f.pkt.take (f.caplen rx.layout.tpFrameSize).toNat

def keptOf (rx : PacketRx) (ps : List (ℕ × Frame)) : List (List Byte) :=
  ps.map fun p => kept rx p.2

/-- What else holds in every state of a capture: the packets are those of the kernel, and no
file changes its name. -/
structure Capture.Kept (rx : PacketRx) (dir : Path → Option ℕ) (c : Capture S) : Prop where
  delivered : ∀ p ∈ c.delivered, p.2.Deliverable rx.layout.tpFrameSize
  dir : c.thread.os.dir = dir
  writes : ∀ p, c.thread.pc = .write p → p.Uses (FileCall.WritesTo rx.pcapFd)

section Kept

variable {dir : Path → Option ℕ} {c c' : Capture S}

theorem Capture.Kept.init (slot : ℕ → Slot) (os : Os S) :
    Kept rx os.dir (Capture.init slot os) where
  delivered _ hp := absurd hp List.not_mem_nil
  dir := rfl
  writes _ hpc := by cases hpc

/-- A step of the thread is a write to its file, or none of the operating system. -/
theorem State.dir_step {t t' : State S} {o : Outcome}
    (h : ∀ p, t.pc = .write p → p.Uses (FileCall.WritesTo rx.pcapFd))
    (hstep : t.ldabPacketRx rx o = some t') :
    t'.os.dir = t.os.dir ∧
      ∀ p, t'.pc = .write p → p.Uses (FileCall.WritesTo rx.pcapFd) := by
  cases steps_of_ldabPacketRx hstep with
  | capture hpc huser hfd =>
      refine ⟨rfl, fun p hp => ?_⟩
      obtain rfl := Pc.write.inj hp
      exact uses_ldabPcapWrite _ _ _ _ _ _
  | writeCall op k hpc =>
      obtain ⟨hop, hk⟩ := h _ hpc
      refine ⟨?_, fun p hp => ?_⟩
      · cases op with
        | write fd bytes => exact (Os.within_write t.os fd bytes o).dir_eq
        | _ => exact hop.elim
      · obtain rfl := Pc.write.inj hp
        exact hk _
  | wrap hpc => exact ⟨rfl, h⟩
  | _ => exact ⟨rfl, fun p hp => by cases hp⟩

theorem Capture.Kept.step (h : Kept rx dir c) (hstep : Capture.Step rx c c') :
    Kept rx dir c' := by
  cases hstep with
  | kernel tpStatus f hkernel huser hframe =>
      refine ⟨fun p hp => ?_, h.dir, h.writes⟩
      rcases List.mem_append.1 hp with hp | hp
      · exact h.delivered p hp
      · obtain rfl := List.mem_singleton.1 hp
        exact hframe
  | thread o t hcomplete hstep =>
      obtain ⟨hdir, hwrites⟩ := State.dir_step h.writes hstep
      exact ⟨h.delivered, hdir.trans h.dir, hwrites⟩

end Kept

/-- Packets of the kernel have records, which are not empty. -/
theorem exists_records (hsize : 0 < rx.layout.tpFrameSize.toNat) {ps : List (ℕ × Frame)}
    (h : ∀ p ∈ ps, p.2.Deliverable rx.layout.tpFrameSize) :
    ∃ rs : List Record, recordsOf rx ps = recordsBytes rs ∧
      rs.map Record.payload = keptOf rx ps ∧ ∀ r ∈ rs, r.payload ≠ [] := by
  induction ps with
  | nil => exact ⟨[], rfl, rfl, fun r hr => absurd hr List.not_mem_nil⟩
  | cons p ps ih =>
      obtain ⟨hp, hps⟩ := List.forall_mem_cons.1 h
      obtain ⟨rs, hbytes, hpayload, hne⟩ := ih hps
      have hrecord := Frame.record_toPacket hsize hp
      have hpos := (p.2.toPacket hsize hp).pos
      refine ⟨(p.2.toPacket hsize hp).record :: rs, ?_, ?_, ?_⟩
      · rw [recordsBytes_cons, hrecord, ← hbytes]
        rfl
      · rw [List.map_cons, hpayload]
        rfl
      · refine List.forall_mem_cons.2 ⟨fun hnil => ?_, hne⟩
        have hnil : (p.2.toPacket hsize hp).payload = [] := hnil
        rw [hnil] at hpos
        exact absurd hpos (by decide)

/-- A capture through a descriptor, from an empty ring up to a moment between two writes. -/
structure Captures (rx : PacketRx) (fd : ℤ) (os : Os S) (c : Capture S) : Prop where
  pcapFd : rx.pcapFd = fd
  frames : 0 < rx.layout.tpFrameNr.toNat
  size : 0 < rx.layout.tpFrameSize.toNat
  reaches : ∃ slot : ℕ → Slot, (∀ j, (slot j).tpStatus = tpStatusKernel) ∧
    Transition.Reaches (Capture.Step rx) (Capture.init slot os) c
  between : ∀ p, c.thread.pc ≠ .write p

/-- The path names a file of these packets, none of which is empty. -/
def Holds (path : Path) (ps : List (List Byte)) (os : Os S) : Prop :=
  ∃ rs : List Record, HasFile os path (createdHeader linktypeEn10mb) (recordsBytes rs) ∧
    rs.map Record.payload = ps ∧ ∀ r ∈ rs, r.payload ≠ []

section Captures

variable {fd : ℤ} {os : Os S} {c : Capture S} {path : Path} {i : ℕ} {base : List Byte}

/-- A capture appends the records of the packets it has written. -/
theorem Captures.appends (h : Captures rx fd os c) (hfd : 0 < fd)
    (hos : AtEnd os fd i base) :
    c.thread.os.dir = os.dir ∧ ∃ rs : List Record,
      c.thread.os.data i = base ++ recordsBytes rs ∧
        rs.map Record.payload = keptOf rx c.written ∧ ∀ r ∈ rs, r.payload ≠ [] := by
  obtain ⟨rfl, hnr, hsize, ⟨slot, hslot, hreach⟩, hbetween⟩ := h
  have hinit := Capture.Inv.init hnr hslot hos
  have hstep : ∀ c c' : Capture S, Capture.Inv rx i base c →
      Capture.Step rx c c' → Capture.Inv rx i base c' :=
    fun _ _ hinv => hinv.step hfd hsize
  have hinv := Transition.inv_of_reaches hstep hreach hinit
  have hkeeps : ∀ c c' : Capture S, Capture.Kept rx os.dir c →
      Capture.Step rx c c' → Capture.Kept rx os.dir c' :=
    fun _ _ hkept hstep => Capture.Kept.step hkept hstep
  have hkept := Transition.inv_of_reaches hkeeps hreach (Capture.Kept.init slot os)
  have hring : SlotRing.Conserved rx.layout.tpFrameNr.toNat c.ring := by
    refine (Capture.simulates hfd).inv_of_reaches hstep
      (fun _ _ => SlotRing.Conserved.step) hreach hinit ?_
    rw [Capture.ring_init hslot]
    exact SlotRing.Conserved.empty hnr
  have heq : (c.delivered : Multiset (ℕ × Frame)) =
      c.written + SlotRing.content _ c.thread.waiting := hring.delivered_eq
  have hmem : ∀ p ∈ c.written, p ∈ c.delivered := by
    intro p hp
    rw [← Multiset.mem_coe, heq]
    exact Multiset.mem_add.2 (.inl (Multiset.mem_coe.2 hp))
  obtain ⟨rs, hbytes, hpayload, hne⟩ :=
    exists_records hsize fun p hp => hkept.delivered p (hmem p hp)
  obtain ⟨f, -, rfl, -, -, -, hdata⟩ := hinv.consistent.atEnd hbetween
  exact ⟨hkept.dir, rs, by rw [hdata, hbytes], hpayload, hne⟩

theorem Captures.holds_create (h : Captures rx fd os c) (hfd : 0 < fd)
    (hdir : os.dir path = some i)
    (hos : AtEnd os fd i (createdHeader linktypeEn10mb).bytes) :
    Holds path (keptOf rx c.written) c.thread.os := by
  obtain ⟨hsame, rs, hdata, hpayload, hne⟩ := h.appends hfd hos
  exact ⟨rs, ⟨i, by rw [hsame, hdir], hdata⟩, hpayload, hne⟩

theorem Captures.holds_append {ps : List (List Byte)} (h : Captures rx fd os c)
    (hfd : 0 < fd) (hdir : os.dir path = some i) (hos : AtEnd os fd i (os.data i))
    (hholds : Holds path ps os) : Holds path (ps ++ keptOf rx c.written) c.thread.os := by
  obtain ⟨rs, ⟨i', hdir', hdata'⟩, hpayload, hne⟩ := hholds
  obtain rfl : i' = i := Option.some.inj (hdir'.symm.trans hdir)
  obtain ⟨hsame, rs', hdata, hpayload', hne'⟩ := h.appends hfd hos
  refine ⟨rs ++ rs', ⟨i', by rw [hsame, hdir], ?_⟩, ?_, ?_⟩
  · rw [hdata, hdata', recordsBytes_append, List.append_assoc]
  · rw [List.map_append, hpayload, hpayload']
  · intro r hr
    exact (List.mem_append.1 hr).elim (hne r) (hne' r)

end Captures

/-- The path names a file that captures were made into, one after another, and these are the
packets they have written, as far as they are kept. Between the captures anything may happen
that leaves the file alone. -/
inductive Captured (path : Path) : List (List Byte) → Os S → Prop
  | create {rx : PacketRx} {os os' : Os S} {fd : ℤ} {c : Capture S}
      (hopen : (ldabPcapCreate path linktypeEn10mb).Exec Os.completeSem os fd os')
      (hcapture : Captures rx fd os' c) : Captured path (keptOf rx c.written) c.thread.os
  | append {rx : PacketRx} {ps : List (List Byte)} {os os' : Os S} {fd : ℤ} {c : Capture S}
      (hbefore : Captured path ps os)
      (hopen : (ldabPcapOpen path (oRdwr ||| oAppend)).Exec Os.completeSem os fd os')
      (hcapture : Captures rx fd os' c) :
      Captured path (ps ++ keptOf rx c.written) c.thread.os
  | other {ps : List (List Byte)} {os os' : Os S} (hbefore : Captured path ps os)
      (hfile : ∀ i, os.dir path = some i → os'.dir path = some i ∧ os'.data i = os.data i) :
      Captured path ps os'

/-- The file of any number of captures has their packets. -/
theorem Captured.holds {path : Path} {ps : List (List Byte)} {os : Os S}
    (h : Captured path ps os) : Holds path ps os := by
  induction h with
  | @create rx os os' fd c hopen hcapture =>
      have hcreate : (ldabPcapCreate path linktypeEn10mb).wp Os.completeSem
          (fun fd os' => 0 < fd ∧ ∃ i, os'.dir path = some i ∧
            AtEnd os' fd i (createdHeader linktypeEn10mb).bytes) os := by
        apply wp_ldabPcapCreate
        intro n os' hpos hdir hfds hdata
        have hwritable : oWronly &&& oAccmode ≠ oRdonly := by decide
        have hplain : oWronly &&& oAppend ≠ oAppend := by decide
        exact ⟨by omega, _, hdir, _, hfds, rfl, hwritable, hplain,
          (PcapFileHeader.length_bytes _).symm, hdata⟩
      obtain ⟨hfd, i, hdir, hos⟩ := hopen.of_wp _ hcreate
      exact hcapture.holds_create hfd hdir hos
  | @append rx ps os os' fd c hbefore hopen hcapture ih =>
      obtain ⟨rs, ⟨i, hdir, hdata⟩, hpayload, hne⟩ := ih
      have happend : (ldabPcapOpen path (oRdwr ||| oAppend)).wp Os.completeSem
          (fun fd os' => 0 < fd ∧ os'.dir = os.dir ∧ os'.data = os.data ∧
            AtEnd os' fd i (os'.data i)) os := by
        apply wp_ldabPcapOpen_append hdir hdata createdHeader_isValid
        intro n hfresh
        have hwritable : oRdwr &&& oAccmode ≠ oRdonly := by decide
        have hplain : oRdwr &&& oAppend ≠ oAppend := by decide
        exact ⟨hfresh.1, rfl, rfl, _, Os.install_fds_self _ _ _, rfl, hwritable, hplain, rfl,
          rfl⟩
      obtain ⟨hfd, hdir', hdata', hos⟩ := hopen.of_wp _ happend
      refine hcapture.holds_append hfd (hdir' ▸ hdir) hos ⟨rs, ⟨i, ?_, ?_⟩, hpayload, hne⟩
      · rw [hdir', hdir]
      · rw [hdata', hdata]
  | other hbefore hfile ih =>
      obtain ⟨rs, ⟨i, hdir, hdata⟩, hpayload, hne⟩ := ih
      obtain ⟨hdir', hdata'⟩ := hfile i hdir
      exact ⟨rs, ⟨i, hdir', hdata'.trans hdata⟩, hpayload, hne⟩

end Rx
