import Dabba.PacketRx.Logged
import Dabba.PacketTx.Captured
import Dabba.PacketTx.Following

/-!
# A replay of a capture that is still running

A capture and a replay of one daemon may work on the same file, each through a descriptor
of its own. Their threads and the kernel take steps in any order. The file may then end in
a packet whose payload is missing, and the replay comes to it at any moment of its own
reads. What it puts into slots are whole packets all the same, every round a beginning of
the file, and each of them is sent once or waits in its slot.
-/

namespace Tx

open Posix Program Pcap Tpacket Transition SlotRing Rx

variable {S : Type} {rx : PacketRx} {tx : PacketTx} {i : ℕ} {hdr : PcapFileHeader}
  {base : List Record} {l l' : Log}

/-- The capture as its thread sees the files that another thread leaves, with its own
`errno`. -/
def onFiles (c : Capture S) (os : Os S) : Capture S :=
  { c with thread := { c.thread with os := { os with errno := c.thread.os.errno } } }

structure Live (S : Type) where
  capture : Capture S
  replay : Replay S

namespace Live

def start (c : Capture S) (slot : ℕ → Slot) (os : Os S) : Live S :=
  ⟨onFiles c os, Replay.init slot os⟩

/-- One step of the capture or of the replay, or of the kernel for one of them. -/
inductive Step (rx : PacketRx) (tx : PacketTx) : Live S → Live S → Prop
  | capture {s : Live S} {c : Capture S} (hstep : Capture.Step rx s.capture c) :
      Step rx tx s ⟨c, { s.replay with thread := { s.replay.thread with
        os := { c.thread.os with errno := s.replay.thread.os.errno } } }⟩
  | replay {s : Live S} {r : Replay S} (hstep : Replay.Step tx s.replay r) :
      Step rx tx s ⟨onFiles s.capture r.thread.os, r⟩

end Live

section Packets

/-- Every packet that was delivered fits a frame of the replay, as far as it is kept. -/
def Room (rx : PacketRx) (tx : PacketTx) (delivered : List (ℕ × Frame)) : Prop :=
  ∀ p ∈ delivered, tplen + (kept rx p.2).length ≤ tx.layout.tpFrameSize.toNat

theorem LogFits.of_fit (hne : Fit tx base) : LogFits tx ⟨base, none⟩ := by
  rintro q h (⟨r, hr, rfl⟩ | ⟨-, hpending⟩)
  · obtain ⟨hpayload, hlen⟩ := hne r (List.mem_of_getElem? hr)
    rw [← r.complete]
    exact ⟨List.length_pos_iff.2 hpayload, hlen⟩
  · cases hpending

/-- A file whose packets fit has only packets that fit after a write whose packet does. -/
theorem LogFits.grows (hfits : LogFits tx l) (hgrows : l' = l ∨ l.Grows l')
    (hpending : ∀ h, l'.pending = some h → 0 < h.caplen.toNat ∧
      tplen + h.caplen.toNat ≤ tx.layout.tpFrameSize.toNat) : LogFits tx l' := by
  rcases hgrows with rfl | hgrows
  · exact hfits
  intro q h hat
  cases hgrows with
  | header rs h' =>
      rcases hat with hr | ⟨-, hh⟩
      · exact hfits q h (.inl hr)
      · exact hpending h hh
  | payload rs r =>
      rcases hat with ⟨r', hr', rfl⟩ | ⟨-, hh⟩
      · rcases lt_trichotomy q rs.length with hlt | rfl | hgt
        · rw [List.getElem?_append_left hlt] at hr'
          exact hfits q _ (.inl ⟨r', hr', rfl⟩)
        · rw [List.getElem?_concat_length] at hr'
          obtain rfl := Option.some.inj hr'
          exact hfits _ _ (.inr ⟨rfl, rfl⟩)
        · rw [List.getElem?_eq_none (by rw [List.length_append]; exact hgt)] at hr'
          cases hr'
      · cases hh

variable {c c' : Capture S}

/-- A header whose payload is missing is that of a packet that was delivered. -/
theorem exists_delivered_of_pending (h : c.Logging rx i hdr base l) {x : PcapSfPkthdr}
    (hx : l.pending = some x) : ∃ p ∈ c.delivered, x = frameHdr rx p.2 := by
  have hlogs := h.logs
  unfold State.Logs at hlogs
  cases hpc : c.thread.pc with
  | write p =>
      rw [hpc] at hlogs
      obtain ⟨-, huser, ⟨-, hnone⟩ | ⟨-, hsome⟩ | ⟨n, -, -, hnone⟩⟩ := hlogs
      · rw [hnone] at hx
        cases hx
      · rw [hsome] at hx
        exact ⟨_, h.mem_delivered huser, (Option.some.inj hx).symm⟩
      · rw [hnone] at hx
        cases hx
  | _ =>
      rw [hpc] at hlogs
      rw [hlogs.2] at hx
      cases hx

theorem LogFits.capture (hfits : LogFits tx l) (h : c'.Logging rx i hdr base l')
    (hgrows : l' = l ∨ l.Grows l') (hsize : 0 < rx.layout.tpFrameSize.toNat)
    (hroom : Room rx tx c'.delivered) : LogFits tx l' := by
  refine hfits.grows hgrows fun x hx => ?_
  obtain ⟨p, hp, rfl⟩ := exists_delivered_of_pending h hx
  have hframe := h.delivered p hp
  have hlen : (kept rx p.2).length = (frameHdr rx p.2).caplen.toNat := hframe.length_take
  rw [← hlen]
  refine ⟨?_, hroom p hp⟩
  rw [hlen]
  exact Frame.caplen_pos hsize hframe.snaplen_pos

theorem delivered_subset (hstep : Capture.Step rx c c') : c.delivered ⊆ c'.delivered := by
  cases hstep with
  | kernel tpStatus f hkernel huser hframe => exact List.subset_append_left _ _
  | thread o t hcomplete hstep => exact fun _ h => h

theorem Logging.onFiles {os : Os S} {fd : ℤ} (h : c.Logging rx i hdr base l)
    (hne : rx.pcapFd ≠ fd) (hfds : ∀ fd' ≠ fd, os.fds fd' = c.thread.os.fds fd')
    (hdata : os.data = c.thread.os.data) : (onFiles c os).Logging rx i hdr base l := by
  obtain ⟨⟨⟨f, hf, hi, hw, happend, hoff, hbytes⟩, hstage⟩, hpayloads, hslots, hdelivered⟩ := h
  refine ⟨⟨⟨f, ?_, hi, hw, happend, hoff, ?_⟩, hstage⟩, hpayloads, hslots, hdelivered⟩
  · exact (hfds _ hne).trans hf
  · exact (congrFun hdata i).trans hbytes

end Packets

section Replay

variable {r r' : Replay S} {q : ℕ}

theorem State.Follows.measured {t : State S} (h : t.Follows tx i hdr l q) :
    Replay.Measured t := by
  intro obytes bytes hpc
  unfold Follows at h
  rw [hpc] at h
  obtain ⟨-, r, -, hgot, -⟩ := h
  obtain ⟨rfl, rfl⟩ := Prod.mk.inj hgot
  refine ⟨rfl, ?_⟩
  rw [r.complete]
  exact r.hdr.caplen.isLt

theorem follows_step (hfollows : r.thread.Follows tx i hdr l q)
    (hrounds : Rounds (l.records.map Record.payload) q r.filled) (hmoving : r.thread.Moving tx)
    (hstep : Replay.Step tx r r') :
    (∃ q', r'.thread.Follows tx i hdr l q' ∧
      Rounds (l.records.map Record.payload) q' r'.filled) ∧
      r'.thread.Moving tx ∧ Os.Within {tx.pcapFd} ∅ ∅ r.thread.os r'.thread.os := by
  cases hstep with
  | thread o t hcomplete hsend hstep =>
      obtain ⟨q', hfollows', hpasses⟩ := hfollows.step hcomplete hstep
      exact ⟨⟨q', hfollows', hrounds.passes hpasses⟩, hmoving.step hstep⟩
  | transmit hsend => exact ⟨⟨q, hfollows, hrounds⟩, hmoving, .refl _⟩
  | release j hsending => exact ⟨⟨q, hfollows, hrounds⟩, hmoving, .refl _⟩

end Replay

namespace Live

variable {s s' : Live S}

/-- What holds in every state of a capture and a replay on the same file. -/
structure Inv (rx : PacketRx) (tx : PacketTx) (i : ℕ) (hdr : PcapFileHeader)
    (base : List Record) (l : Log) (s : Live S) : Prop where
  fds : s.replay.thread.os.fds = s.capture.thread.os.fds
  data : s.replay.thread.os.data = s.capture.thread.os.data
  logging : s.capture.Logging rx i hdr base l
  fits : LogFits tx l
  follows : ∃ q, s.replay.thread.Follows tx i hdr l q ∧
    Rounds (l.records.map Record.payload) q s.replay.filled
  moving : s.replay.thread.Moving tx
  owns : s.replay.thread.Owns tx
  head_lt : s.replay.head < tx.layout.tpFrameNr.toNat
  conserved : s.replay.pool.Conserved tx.layout.tpFrameNr.toNat

theorem Inv.step (h : Inv rx tx i hdr base l s) (hne : rx.pcapFd ≠ tx.pcapFd)
    (hfd : 0 < rx.pcapFd) (hsize : 0 < rx.layout.tpFrameSize.toNat)
    (hroom : Room rx tx s'.capture.delivered) (hstep : Step rx tx s s') :
    ∃ l', Inv rx tx i hdr base l' s' := by
  obtain ⟨q, hfollows, hrounds⟩ := h.follows
  cases hstep with
  | @capture c hstep =>
      obtain ⟨l', hlogging, hgrows, hwithin⟩ := h.logging.step hfd hsize hstep
      have hfits := h.fits.capture hlogging hgrows hsize hroom
      have hw : Writes tx i hdr (l, s.replay.thread.os)
          (l', { c.thread.os with errno := s.replay.thread.os.errno }) := by
        refine ⟨hgrows, ?_, ?_, hfits⟩
        · exact (hwithin.fds _ hne.symm).trans (congrFun h.fds _).symm
        · obtain ⟨f, -, -, -, -, -, hbytes⟩ := hlogging.logs.1
          exact hbytes
      have hgrown : l.records.map Record.payload <+: l'.records.map Record.payload :=
        hw.records_grow.map _
      exact ⟨l', rfl, rfl, hlogging, hfits, ⟨q, hfollows.writes hw, hrounds.of_prefix hgrown⟩,
        h.moving, h.owns, h.head_lt, h.conserved⟩
  | @replay r hstep =>
      obtain ⟨hfollows', hmoving, hwithin⟩ := follows_step hfollows hrounds h.moving hstep
      have hlogging : (onFiles s.capture r.thread.os).Logging rx i hdr base l := by
        refine Logging.onFiles h.logging hne (fun fd hfd => ?_) ?_
        · exact (hwithin.fds fd hfd).trans (congrFun h.fds fd)
        · exact hwithin.data_eq.trans h.data
      have hpool := Replay.pool_step h.owns h.head_lt hfollows.measured hstep
      have hconserved : r.pool.Conserved tx.layout.tpFrameNr.toNat :=
        inv_of_reaches (fun _ _ h hstep => h.step hstep) hpool.to_reflTransGen h.conserved
      exact ⟨l, rfl, rfl, hlogging, h.fits, hfollows', hmoving, Replay.owns_step h.owns hstep,
        Replay.head_lt_step h.head_lt hstep, hconserved⟩

theorem delivered_subset (hstep : Step rx tx s s') :
    s.capture.delivered ⊆ s'.capture.delivered := by
  cases hstep with
  | capture hstep => exact Tx.delivered_subset hstep
  | replay hstep => exact fun _ h => h

/-- What holds at the beginning of a replay whose file a capture has open. -/
theorem Inv.start {c : Capture S} {os' : Os S} {path : Path} {slot : ℕ → Slot}
    (hlogging : c.Logging rx i hdr base l) (hfits : LogFits tx l)
    (hdir : c.thread.os.dir path = some i) (hvalid : hdr.swapped.isValid = true)
    (hopen : (ldabPcapOpen path oRdonly).Exec Os.completeSem c.thread.os tx.pcapFd os')
    (hnr : 0 < tx.layout.tpFrameNr.toNat)
    (hslot : ∀ j, (slot j).tpStatus = tpStatusAvailable) :
    rx.pcapFd ≠ tx.pcapFd ∧ Inv rx tx i hdr base l (Live.start c slot os') := by
  obtain ⟨f, hf, -, -, -, -, hbytes⟩ := hlogging.logs.1
  have hreadable : oRdonly &&& oAccmode ≠ oWronly := by decide
  have hopened : (ldabPcapOpen path oRdonly).wp Os.completeSem (fun fd os' =>
      c.thread.os.fds fd = none ∧ os' = c.thread.os.install fd
        (.file ⟨c.thread.os.next, i, sizeofPcapFileHeader, oRdonly⟩)) c.thread.os := by
    apply wp_ldabPcapOpen (by decide) hreadable hdir hbytes hvalid
    exact fun n hfresh => ⟨hfresh.2, rfl⟩
  obtain ⟨hnone, rfl⟩ := hopen.of_wp _ hopened
  have hne : rx.pcapFd ≠ tx.pcapFd := by
    intro heq
    rw [heq, hnone] at hf
    cases hf
  have hat : AtPacket tx i hdr 0 (l, c.thread.os.install tx.pcapFd
      (.file ⟨c.thread.os.next, i, sizeofPcapFileHeader, oRdonly⟩)) :=
    ⟨Nat.zero_le _, ⟨_, Os.install_fds_self _ _ _, hreadable, rfl, rfl⟩, hbytes, hfits⟩
  refine ⟨hne, rfl, rfl, ?_, hfits, ⟨0, ⟨rfl, hat⟩, Nat.zero_le _, [], ?_, rfl⟩, trivial,
    trivial, hnr, ?_⟩
  · exact Logging.onFiles hlogging hne (fun fd hfd => Function.update_of_ne hfd _ _) rfl
  · exact fun n hn => absurd hn List.not_mem_nil
  · exact Pool.Conserved.empty fun j => Replay.waiting_of_available (hslot j)

end Live

theorem exists_logging {path : Path} {slot : ℕ → Slot} {os : Os S} {c : Capture S}
    (hfd : 0 < rx.pcapFd) (hsize : 0 < rx.layout.tpFrameSize.toNat)
    (hslot : ∀ j, (slot j).tpStatus = tpStatusKernel) (hdir : os.dir path = some i)
    (hos : AtEnd os rx.pcapFd i (hdr.bytes ++ recordsBytes base)) (hfit : Fit tx base)
    (hreach : Reaches (Capture.Step rx) (Capture.init slot os) c)
    (hroom : Room rx tx c.delivered) :
    ∃ l, c.Logging rx i hdr base l ∧ LogFits tx l ∧ c.thread.os.dir path = some i := by
  induction hreach with
  | refl => exact ⟨_, .init hslot hos, .of_fit hfit, hdir⟩
  | tail hrun hstep ih =>
      obtain ⟨l, hlogging, hfits, hdir⟩ := ih fun p hp => hroom p (delivered_subset hstep hp)
      obtain ⟨l', hlogging', hgrows, hwithin⟩ := hlogging.step hfd hsize hstep
      exact ⟨l', hlogging', hfits.capture hlogging' hgrows hsize hroom,
        by rw [hwithin.dir_eq, hdir]⟩

/-- For every capture into a file, and every replay that opens the file at any moment while
the capture runs: in every order of the steps of both threads and of the kernel, the
packets that were put into slots are rounds of the packets of the file, each of them the
first ones up to some packet and all of them whole, and each of them was sent once or waits
in its slot. -/
theorem captured_while_replayed {path : Path} {slot slot' : ℕ → Slot} {os os' : Os S}
    {c : Capture S} {s : Live S} (hfd : 0 < rx.pcapFd)
    (hsize : 0 < rx.layout.tpFrameSize.toNat)
    (hslot : ∀ j, (slot j).tpStatus = tpStatusKernel) (hdir : os.dir path = some i)
    (hos : AtEnd os rx.pcapFd i (hdr.bytes ++ recordsBytes base))
    (hvalid : hdr.swapped.isValid = true)
    (hcapture : Reaches (Capture.Step rx) (Capture.init slot os) c)
    (hopen : (ldabPcapOpen path oRdonly).Exec Os.completeSem c.thread.os tx.pcapFd os')
    (hnr : 0 < tx.layout.tpFrameNr.toNat)
    (hslot' : ∀ j, (slot' j).tpStatus = tpStatusAvailable)
    (hrun : Reaches (Live.Step rx tx) (Live.start c slot' os') s) (hfit : Fit tx base)
    (hroom : Room rx tx s.capture.delivered) :
    (∃ ns : List ℕ, s.replay.filled = (ns.map fun n => (base.map Record.payload ++
        keptOf rx (s.capture.written ++ s.capture.thread.written)).take n).flatten) ∧
      (s.replay.filled : Multiset (List Byte)) = s.replay.transmitted +
        content tx.layout.tpFrameNr.toNat (Replay.waiting s.replay.thread.slot) := by
  have hinv : rx.pcapFd ≠ tx.pcapFd ∧ ∃ l, Live.Inv rx tx i hdr base l s := by
    induction hrun with
    | refl =>
        obtain ⟨l, hlogging, hfits, hdir⟩ :=
          exists_logging hfd hsize hslot hdir hos hfit hcapture hroom
        obtain ⟨hne, hinv⟩ := Live.Inv.start hlogging hfits hdir hvalid hopen hnr hslot'
        exact ⟨hne, l, hinv⟩
    | tail hrun hstep ih =>
        obtain ⟨hne, l, hinv⟩ := ih fun p hp => hroom p (Live.delivered_subset hstep hp)
        exact ⟨hne, hinv.step hne hfd hsize hroom hstep⟩
  obtain ⟨-, l, hinv⟩ := hinv
  refine ⟨?_, hinv.conserved⟩
  obtain ⟨q, -, -, ns, -, hfilled⟩ := hinv.follows
  refine ⟨ns ++ [q], ?_⟩
  rw [hfilled, ← hinv.logging.payloads, List.map_append, List.flatten_append,
    List.map_singleton, List.flatten_singleton]

/-- Whose turn it is in a run that is written down. -/
inductive Turn
  | capture
  | replay

namespace Live

/-- The state after a step of one of the threads, whose system call is complete. -/
def turn (rx : PacketRx) (tx : PacketTx) (s : Live S) : Turn → Option (Live S)
  | .capture =>
      if s.capture.thread.Complete (.ok 0) then
        (s.capture.thread.ldabPacketRx rx (.ok 0)).map fun t =>
          ⟨{ s.capture with thread := t, written := s.capture.written ++ s.capture.thread.written },
            { s.replay with thread := { s.replay.thread with
              os := { t.os with errno := s.replay.thread.os.errno } } }⟩
      else none
  | .replay => (s.replay.apply tx .thread).map fun r => ⟨onFiles s.capture r.thread.os, r⟩

theorem step_of_turn {s s' : Live S} {x : Turn} (h : s.turn rx tx x = some s') :
    Step rx tx s s' := by
  cases x with
  | capture =>
      rw [turn] at h
      split_ifs at h with hcomplete
      obtain ⟨t, ht, rfl⟩ := Option.map_eq_some_iff.1 h
      exact .capture (.thread (.ok 0) t hcomplete ht)
  | replay =>
      obtain ⟨r, hr, rfl⟩ := Option.map_eq_some_iff.1 h
      exact .replay (Replay.step_of_apply hr)

def turns (rx : PacketRx) (tx : PacketTx) : List Turn → Live S → Option (Live S)
  | [], s => some s
  | x :: xs, s => (s.turn rx tx x).bind (turns rx tx xs)

theorem reaches_of_turns {xs : List Turn} {s s' : Live S} (h : turns rx tx xs s = some s') :
    Reaches (Step rx tx) s s' := by
  induction xs generalizing s with
  | nil =>
      obtain rfl := Option.some.inj h
      exact .refl
  | cons x xs ih =>
      obtain ⟨s₁, hs₁, hrest⟩ := Option.bind_eq_some_iff.1 h
      exact .head (step_of_turn hs₁) (ih hrest)

end Live

def recordingOs : Os Unit where
  errno := 0
  fds fd := if fd = 5 then some (.file ⟨0, 0, sizeofPcapFileHeader, oWronly⟩) else none
  resolve path := path
  entry path := if path = [0x61] then some 0 else none
  data _ := (createdHeader linktypeEn10mb).bytes
  next := 1

/-- A packet is captured up to its header, the file is opened for a replay, the replay reads
the header, the capture writes the payload, and the replay reads it and fills a slot. -/
def halfWritten : Option (Capture Unit × ℤ × Os Unit × Live Unit) :=
  (((Capture.init (fun _ => Slot.zero) recordingOs).deliver tinyRx 1 smallFrame).goOn tinyRx 3).bind
    fun c =>
  (runComplete (ldabPcapOpen [0x61] oRdonly) [.ok 6, .ok 0, .ok 0, .ok 0] c.thread.os).bind
    fun y =>
  (Live.turns tinyRx tinyTx
    [.replay, .replay, .capture, .replay, .replay, .replay, .capture]
    (Live.start c (fun _ => Slot.zero) y.2)).map fun s => (c, y.1, y.2, s)

theorem recordingOs_atEnd : AtEnd recordingOs tinyRx.pcapFd 0
    ((createdHeader linktypeEn10mb).bytes ++ recordsBytes []) := by
  refine ⟨_, rfl, rfl, ?_, by decide, ?_, ?_⟩
  · unfold OpenFile.writable
    decide
  · rw [recordsBytes_nil, List.append_nil, PcapFileHeader.length_bytes]
  · rw [recordsBytes_nil, List.append_nil]
    rfl

theorem captured_while_replayed_halfWritten :
    ∃ s : Live Unit, s.replay.filled = [[1, 2]] ∧
      (∃ ns : List ℕ, s.replay.filled = (ns.map fun n =>
        (List.map Record.payload [] ++ keptOf tinyRx
          (s.capture.written ++ s.capture.thread.written)).take n).flatten) ∧
      (s.replay.filled : Multiset (List Byte)) = s.replay.transmitted +
        content tinyTx.layout.tpFrameNr.toNat (Replay.waiting s.replay.thread.slot) := by
  have hlog : halfWritten.map (fun x => (x.2.1, x.2.2.2.replay.filled,
      x.2.2.2.capture.delivered)) = some (6, [[1, 2]], [(0, smallFrame)]) := by
    decide +kernel
  obtain ⟨⟨c, fd, os', s⟩, hrun, hlog⟩ := Option.map_eq_some_iff.1 hlog
  simp only [Prod.mk.injEq] at hlog
  obtain ⟨rfl, hfilled, hdelivered⟩ := hlog
  obtain ⟨c₁, hcapture, hrun⟩ := Option.bind_eq_some_iff.1 hrun
  obtain ⟨y, hopen, hrun⟩ := Option.bind_eq_some_iff.1 hrun
  obtain ⟨s₁, hturns, hrun⟩ := Option.map_eq_some_iff.1 hrun
  simp only [Prod.mk.injEq] at hrun
  obtain ⟨rfl, hfd, rfl, rfl⟩ := hrun
  have hkernel : Capture.Step tinyRx (Capture.init (fun _ => Slot.zero) recordingOs)
      ((Capture.init (fun _ => Slot.zero) recordingOs).deliver tinyRx 1 smallFrame) :=
    .kernel 1 smallFrame rfl rfl smallFrame_deliverable
  have hreach := Capture.reaches_of_runs (Capture.runs_of_goOn hcapture)
  have hopen' : (ldabPcapOpen [0x61] oRdonly).Exec Os.completeSem c₁.thread.os
      tinyTx.pcapFd y.2 := by
    have hexec := exec_of_runComplete hopen
    rwa [hfd] at hexec
  have hroom : Room tinyRx tinyTx s₁.capture.delivered := by
    rw [hdelivered]
    intro p hp
    obtain rfl := List.mem_singleton.1 hp
    decide
  exact ⟨s₁, hfilled, captured_while_replayed (by decide) (by decide) (fun _ => rfl) rfl
    recordingOs_atEnd createdHeader_isValid (.head hkernel hreach) hopen' (by decide)
    (fun _ => rfl) (Live.reaches_of_turns hturns) (fun _ h => absurd h List.not_mem_nil) hroom⟩

end Tx
