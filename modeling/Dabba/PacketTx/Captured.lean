import Dabba.PacketRx.Progress
import Dabba.PacketRx.Recorded
import Dabba.PacketTx.Conservation

/-!
# What was captured is replayed

A replay of a file that captures were made into puts the packets of all of them into its
slots, in the order in which they were written, from the first one to the last and over
again. Each of them is sent once, or waits in its slot.
-/

namespace Tx

open Posix Program Pcap Tpacket Transition SlotRing Rx

variable {S : Type} {path : Path} {ps : List (List Byte)} {os os' : Os S} {fd : ℤ}

theorem readsFrom_of_holds (h : Holds path ps os)
    (hopen : (ldabPcapOpen path oRdonly).Exec Os.completeSem os fd os') :
    0 < fd ∧ ∃ rs : List Record, rs.map Record.payload = ps ∧ (∀ r ∈ rs, r.payload ≠ []) ∧
      ∀ tx : PacketTx, tx.pcapFd = fd → ReadsFrom tx
        ((createdHeader linktypeEn10mb).bytes ++ recordsBytes rs) sizeofPcapFileHeader os' := by
  obtain ⟨rs, ⟨i, hdir, hdata⟩, hpayload, hne⟩ := h
  have hread : (ldabPcapOpen path oRdonly).wp Os.completeSem (fun fd os' => 0 < fd ∧
      ∃ f, os'.fds fd = some (.file f) ∧ f.readable ∧
        os'.data f.inode = (createdHeader linktypeEn10mb).bytes ++ recordsBytes rs ∧
        f.offset = sizeofPcapFileHeader) os := by
    have hreadable : oRdonly &&& oAccmode ≠ oWronly := by decide
    apply wp_ldabPcapOpen (by decide) hreadable hdir hdata createdHeader_isValid
    intro n hfresh
    exact ⟨hfresh.1, _, Os.install_fds_self _ _ _, hreadable, hdata, rfl⟩
  obtain ⟨hfd, hfile⟩ := hopen.of_wp _ hread
  refine ⟨hfd, rs, hpayload, hne, ?_⟩
  rintro tx rfl
  exact hfile

/-- For every file of any number of captures, and every replay of it in any order of the
steps of its thread and the kernel, whose frames the packets fit: the packets that were put
into slots are the first of the captured ones, repeated without end, and each of them was
sent once or waits in its slot. -/
theorem captured_replayed (hcaptured : Captured path ps os)
    (hopen : (ldabPcapOpen path oRdonly).Exec Os.completeSem os fd os') {tx : PacketTx}
    (hfd : tx.pcapFd = fd) (hnr : 0 < tx.layout.tpFrameNr.toNat)
    (hsize : tx.layout.tpFrameSize ≠ 0)
    (hfit : ∀ p ∈ ps, tplen + p.length ≤ tx.layout.tpFrameSize.toNat) {slot : ℕ → Slot}
    (hslot : ∀ i, (slot i).tpStatus = tpStatusAvailable) {c : Replay S}
    (hreach : Reaches (Replay.Step tx) (Replay.init slot os') c) :
    (∃ n, c.filled <+: (List.replicate n ps).flatten) ∧
      (c.filled : Multiset (List Byte)) =
        c.transmitted + content tx.layout.tpFrameNr.toNat (Replay.waiting c.thread.slot) := by
  obtain ⟨hpos, rs, rfl, hne, hreads⟩ := readsFrom_of_holds hcaptured.holds hopen
  have hpos : 0 < tx.pcapFd := hfd ▸ hpos
  have hos := hreads tx hfd
  have hfits : Fit tx rs := fun r hr => ⟨hne r hr, hfit _ (List.mem_map_of_mem hr)⟩
  exact ⟨Replay.progress_of_reaches hpos hsize hfits hos hreach,
    Replay.conserved_of_reaches hpos hnr hsize hslot hos hreach⟩

def runComplete {α : Type} : Prog FileCall α → List Outcome → Os S → Option (α × Os S)
  | .ret a, _, os => some (a, os)
  | .abort, _, _ => none
  | .call _ _, [], _ => none
  | .call op k, o :: outcomes, os =>
      if Os.Complete op o os then
        runComplete (k (Os.handle op o os).1) outcomes (Os.handle op o os).2
      else none

theorem exec_of_runComplete {α : Type} {p : Prog FileCall α} {outcomes : List Outcome} {a : α}
    (h : runComplete p outcomes os = some (a, os')) : p.Exec Os.completeSem os a os' := by
  induction p generalizing outcomes os with
  | ret b =>
      obtain ⟨rfl, rfl⟩ := Prod.mk.inj (Option.some.inj h)
      exact ⟨rfl, rfl⟩
  | abort => cases h
  | call op k ih =>
      cases outcomes with
      | nil => cases h
      | cons o outcomes =>
          rw [runComplete] at h
          split_ifs at h with hcomplete
          exact ⟨_, _, ⟨o, hcomplete, rfl⟩, ih _ h⟩

def bareOs : Os Unit where
  errno := 0
  fds _ := none
  resolve path := path
  entry _ := none
  data _ := []
  next := 0

/-- A ring of two slots of 64 bytes, filled from descriptor 6. -/
def tinyTx : PacketTx where
  layout := ⟨128, 1, 64, 2⟩
  pcapFd := 6

/-- A file is created through descriptor 5, a packet of two bytes is captured, and the file
is opened again through descriptor 6 and replayed, up to the sending of that packet. -/
def recorded : Option (ℤ × Capture Unit × ℤ × Replay Unit) :=
  (runComplete (ldabPcapCreate [0x61] linktypeEn10mb) [.ok 5, .ok 0] bareOs).bind fun x =>
  (((Capture.init (fun _ => Slot.zero) x.2).deliver tinyRx 1 smallFrame).goOn tinyRx 5).bind
    fun c =>
  (runComplete (ldabPcapOpen [0x61] oRdonly) [.ok 6, .ok 0, .ok 0, .ok 0] c.thread.os).bind
    fun y =>
  (Replay.follow tinyTx (fun _ => True) (List.replicate 8 .thread ++ [.transmit])
    (Replay.init (fun _ => Slot.zero) y.2)).map fun r => (x.1, c, y.1, r)

theorem captured_replayed_smallFrame :
    ∃ (os : Os Unit) (c : Replay Unit), Captured [0x61] [[1, 2]] os ∧
      c.transmitted = [[1, 2]] ∧
      (∃ n, c.filled <+: (List.replicate n [[1, 2]]).flatten) ∧
        (c.filled : Multiset (List Byte)) = c.transmitted +
          content tinyTx.layout.tpFrameNr.toNat (Replay.waiting c.thread.slot) := by
  have hlog : recorded.map (fun x => (x.1, keptOf tinyRx x.2.1.written,
      x.2.1.thread.pc.isRelease, x.2.2.1, x.2.2.2.transmitted)) =
        some (5, [[1, 2]], true, 6, [[1, 2]]) := by decide +kernel
  obtain ⟨x, hrecorded, hlog⟩ := Option.map_eq_some_iff.1 hlog
  simp only [Prod.mk.injEq] at hlog
  obtain ⟨hfd, hkept, hrelease, hfd', htransmitted⟩ := hlog
  obtain ⟨⟨fd, os₁⟩, hcreate, hrecorded⟩ := Option.bind_eq_some_iff.1 hrecorded
  obtain ⟨c', hcapture, hrecorded⟩ := Option.bind_eq_some_iff.1 hrecorded
  obtain ⟨⟨fd', os₂⟩, hopen, hrecorded⟩ := Option.bind_eq_some_iff.1 hrecorded
  obtain ⟨r', hreplay, hrecorded⟩ := Option.map_eq_some_iff.1 hrecorded
  obtain rfl := hrecorded
  have hdelivered : Rx.Capture.Step tinyRx (Capture.init (fun _ => Slot.zero) os₁)
      ((Capture.init (fun _ => Slot.zero) os₁).deliver tinyRx 1 smallFrame) :=
    .kernel 1 smallFrame rfl rfl smallFrame_deliverable
  have hbetween : ∀ p, c'.thread.pc ≠ .write p := by
    intro p hp
    rw [hp] at hrelease
    cases hrelease
  have hcaptures : Captures tinyRx fd os₁ c' := by
    refine ⟨hfd.symm, by decide, by decide, ⟨fun _ => Slot.zero, fun _ => rfl, ?_⟩, hbetween⟩
    exact .head hdelivered (Capture.reaches_of_runs (Capture.runs_of_goOn hcapture))
  have hcaptured := Captured.create (exec_of_runComplete hcreate) hcaptures
  rw [hkept] at hcaptured
  have hreach := (Replay.reaches_of_follow hreplay).lift id fun _ _ h => h.2
  refine ⟨c'.thread.os, r', hcaptured, htransmitted, captured_replayed hcaptured
    (exec_of_runComplete hopen) hfd'.symm (by decide) (by decide) (by decide) (fun _ => rfl)
    hreach⟩

end Tx
