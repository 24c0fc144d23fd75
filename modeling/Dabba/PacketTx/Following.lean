import Dabba.PacketTx.Conservation
import Dabba.PacketTx.Overrun
import Dabba.Pcap.Growing
import Dabba.Program.Ghost

/-!
# A replay of a file that grows

Packets may be written to the file while a replay reads it. Between the two calls of a read
a header may get its payload, and behind the last packet another one may appear. Wherever
the writes fall, a read returns the whole packet that comes next, or nothing, and after
nothing the file is rewound. So every round of the replay is a beginning of the file.
-/

namespace Tx

open Posix Program Pcap Tpacket Transition

variable {S : Type} {tx : PacketTx} {i : ℕ} {hdr : PcapFileHeader}

def LogFits (tx : PacketTx) (l : Log) : Prop :=
  ∀ q h, l.HeaderAt q h → 0 < h.caplen.toNat ∧
    tplen + h.caplen.toNat ≤ tx.layout.tpFrameSize.toNat

/-- The file that is replayed holds the packets, and is at the offset. -/
structure Located (tx : PacketTx) (i : ℕ) (hdr : PcapFileHeader) (off : ℕ)
    (s : Log × Os S) : Prop where
  file : ∃ f, s.2.fds tx.pcapFd = some (.file f) ∧ f.readable ∧ f.inode = i ∧ f.offset = off
  data : s.2.data i = hdr.bytes ++ s.1.bytes
  fits : LogFits tx s.1

/-- The file is at packet `q`, or behind the last one. -/
def AtPacket (tx : PacketTx) (i : ℕ) (hdr : PcapFileHeader) (q : ℕ) (s : Log × Os S) : Prop :=
  q ≤ s.1.records.length ∧ Located tx i hdr (s.1.offset q) s

/-- The file is behind the header of packet `q`. -/
def AtPayload (tx : PacketTx) (i : ℕ) (hdr : PcapFileHeader) (q : ℕ) (h : PcapSfPkthdr)
    (s : Log × Os S) : Prop :=
  s.1.HeaderAt q h ∧ Located tx i hdr (s.1.offset q + sizeofPcapSfPkthdr) s

def Got (tx : PacketTx) (i : ℕ) (hdr : PcapFileHeader) (q : ℕ) (x : ℤ × List Byte)
    (s : Log × Os S) : Prop :=
  (x = received [] ∧ ∃ off, Located tx i hdr off s) ∨
    ∃ r, s.1.records[q]? = some r ∧ x = received r.payload ∧ AtPacket tx i hdr (q + 1) s

/-- A part of a packet is written to the file, or something happens that leaves the file
alone. -/
structure Writes (tx : PacketTx) (i : ℕ) (hdr : PcapFileHeader) (s s' : Log × Os S) :
    Prop where
  grows : s'.1 = s.1 ∨ s.1.Grows s'.1
  fd : s'.2.fds tx.pcapFd = s.2.fds tx.pcapFd
  data : s'.2.data i = hdr.bytes ++ s'.1.bytes
  fits : LogFits tx s'.1

section Stable

variable {off q : ℕ} {h : PcapSfPkthdr} {x : ℤ × List Byte} {s s' : Log × Os S}

theorem Writes.records_grow (hw : Writes tx i hdr s s') : s.1.records <+: s'.1.records := by
  rcases hw.grows with heq | hgrows
  · rw [heq]
  · exact hgrows.records_grow

theorem Writes.headerAt (hw : Writes tx i hdr s s') (hat : s.1.HeaderAt q h) :
    s'.1.HeaderAt q h := by
  rcases hw.grows with heq | hgrows
  · rwa [heq]
  · exact hgrows.headerAt hat

theorem Located.writes (hat : Located tx i hdr off s) (hw : Writes tx i hdr s s') :
    Located tx i hdr off s' := by
  obtain ⟨f, hf, hr, hi, hoff⟩ := hat.file
  exact ⟨⟨f, hw.fd.trans hf, hr, hi, hoff⟩, hw.data, hw.fits⟩

theorem AtPacket.writes (hat : AtPacket tx i hdr q s) (hw : Writes tx i hdr s s') :
    AtPacket tx i hdr q s' := by
  refine ⟨hat.1.trans hw.records_grow.length_le, ?_⟩
  rw [Log.offset_of_prefix hw.records_grow hat.1]
  exact hat.2.writes hw

theorem AtPayload.writes (hat : AtPayload tx i hdr q h s) (hw : Writes tx i hdr s s') :
    AtPayload tx i hdr q h s' := by
  refine ⟨hw.headerAt hat.1, ?_⟩
  rw [Log.offset_of_prefix hw.records_grow hat.1.le_length]
  exact hat.2.writes hw

theorem Got.writes (hgot : Got tx i hdr q x s) (hw : Writes tx i hdr s s') :
    Got tx i hdr q x s' := by
  rcases hgot with ⟨hx, off, hat⟩ | ⟨r, hr, hx, hat⟩
  · exact .inl ⟨hx, off, hat.writes hw⟩
  · exact .inr ⟨r, Log.getElem?_of_prefix hw.records_grow hr, hx, hat.writes hw⟩

theorem assertion_of_writes {P : Log × Os S → Prop}
    (hP : ∀ s s', P s → Writes tx i hdr s s' → P s') :
    Assertion (Writes tx i hdr) (fun _ => True) P :=
  ⟨hP, fun _ _ => trivial⟩

end Stable

section Reader

variable {off q n : ℕ} {h : PcapSfPkthdr} {s s' : Log × Os S}

abbrev readerSem : Sem FileCall (Log × Os S) := Sem.ghost Log Os.completeSem

theorem Located.read {got : Option (List Byte)} (hat : Located tx i hdr off s)
    (hs : readerSem (.read tx.pcapFd n) s got s') :
    got = some (readAt (hdr.bytes ++ s.1.bytes) off n) ∧ s'.1 = s.1 ∧
      Located tx i hdr (off + (readAt (hdr.bytes ++ s.1.bytes) off n).length) s' := by
  obtain ⟨hlog, hs⟩ := hs
  obtain ⟨f, hf, hr, rfl, rfl⟩ := hat.file
  have hread : (Prog.perform (.read tx.pcapFd n)).wp Os.completeSem (fun got os' =>
      got = some (readAt (s.2.data f.inode) f.offset n) ∧
        os' = s.2.seek tx.pcapFd f
          (f.offset + (readAt (s.2.data f.inode) f.offset n).length)) s.2 :=
    Os.wp_read_complete hf hr ⟨rfl, rfl⟩
  obtain ⟨hgot, hos⟩ := hread got s'.2 hs
  rw [hat.data] at hgot hos
  refine ⟨hgot, hlog, ⟨⟨{ f with
    offset := f.offset + (readAt (hdr.bytes ++ s.1.bytes) f.offset n).length },
      ?_, hr, rfl, rfl⟩, ?_, ?_⟩⟩
  · rw [hos, Os.seek_fds_self]
  · rw [hos, Os.seek_data, hat.data, hlog]
  · rw [hlog]
    exact hat.fits

/-- The payload of a packet is found whole, or not at all. -/
theorem AtPayload.got {got : Option (List Byte)} (hat : AtPayload tx i hdr q h s)
    (hs : readerSem (.read tx.pcapFd h.caplen.toNat) s got s') :
    ∃ bytes, got = some bytes ∧ Got tx i hdr q (received bytes) s' := by
  obtain ⟨rfl, hlog, hat'⟩ := hat.2.read hs
  refine ⟨_, rfl, ?_⟩
  rcases Log.readAt_payload hat.1 with ⟨r, hr, hread⟩ | hread
  · rw [hread] at hat' ⊢
    refine .inr ⟨r, by rw [hlog, hr], rfl, ?_, ?_⟩
    · rw [hlog]
      exact (List.getElem?_eq_some_iff.1 hr).1
    · rw [hlog, Log.offset_succ hr, ← Nat.add_assoc]
      exact hat'
  · rw [hread] at hat' ⊢
    exact .inl ⟨rfl, _, hat'⟩

/-- A read at a packet returns it whole, or nothing, whatever is written in between. -/
theorem safe_ldabPcapRead (hat : AtPacket tx i hdr q s) :
    (ldabPcapRead tx.pcapFd tx.layout.tpFrameSize).Safe readerSem (Writes tx i hdr)
      (fun _ => True) (Got tx i hdr q) s := by
  simp only [ldabPcapRead, Prog.bind_eq, Prog.liftM_eq, Prog.perform_bind]
  refine Prog.Safe.assert_bind fun _ => Prog.Safe.assert_bind fun _ => ?_
  refine Prog.Safe.call (assertion_of_writes fun _ _ h hw => AtPacket.writes h hw) hat ?_
  intro s got s' hat hs
  have hgot : Assertion (Writes tx i hdr) (fun _ => True) (Got (S := S) tx i hdr q (0, [])) :=
    assertion_of_writes fun _ _ h hw => h.writes hw
  obtain ⟨rfl, hlog, hat'⟩ := hat.2.read hs
  dsimp only
  rcases Log.readAt_header hat.1 with ⟨h, hheader, hread⟩ | hread
  · -- The header of the packet is there, and fits the buffer.
    rw [hread] at hat' ⊢
    have hmin : min h.caplen.toNat tx.layout.tpFrameSize.toNat = h.caplen.toNat :=
      min_eq_left ((Nat.le_add_left _ _).trans (hat.2.fits q h hheader).2)
    rw [if_neg (not_not.2 h.length_bytes), h.ofBytes_bytes, hmin]
    have hpayload : AtPayload tx i hdr q h s' := by
      refine ⟨hlog ▸ hheader, ?_⟩
      rw [hlog, ← h.length_bytes]
      exact hat'
    refine Prog.Safe.call (assertion_of_writes fun _ _ h hw => AtPayload.writes h hw) hpayload ?_
    intro s got s' hat hs
    obtain ⟨bytes, rfl, hbytes⟩ := hat.got hs
    exact Prog.Safe.ret (assertion_of_writes fun _ _ h hw => Got.writes h hw) hbytes fun _ h => h
  · rw [hread] at hat' ⊢
    rw [if_pos (by decide)]
    exact Prog.Safe.ret hgot (.inl ⟨rfl, _, hat'⟩) fun _ h => h

theorem safe_ldabPcapRewind (hat : Located tx i hdr off s) :
    (ldabPcapRewind tx.pcapFd).Safe readerSem (Writes tx i hdr) (fun _ => True)
      (fun _ => AtPacket tx i hdr 0) s := by
  simp only [ldabPcapRewind, Prog.bind_eq, Prog.liftM_eq, Prog.perform_bind]
  refine Prog.Safe.call (assertion_of_writes fun _ _ h hw => Located.writes h hw) hat ?_
  rintro s r s' hat ⟨hlog, hs⟩
  obtain ⟨f, hf, hr, rfl, rfl⟩ := hat.file
  have hseek : (Prog.perform (.lseek tx.pcapFd sizeofPcapFileHeader .set)).wp Os.completeSem
      (fun _ os' => os' = s.2.seek tx.pcapFd f sizeofPcapFileHeader) s.2 :=
    Os.wp_lseek_complete hf sizeofPcapFileHeader (by simp) rfl
  have hos := hseek r s'.2 hs
  have hfirst : AtPacket tx f.inode hdr 0 s' := by
    refine ⟨Nat.zero_le _, ⟨{ f with offset := sizeofPcapFileHeader }, ?_, hr, rfl, rfl⟩, ?_, ?_⟩
    · rw [hos, Os.seek_fds_self]
    · rw [hos, Os.seek_data, hat.data, hlog]
    · rw [hlog]
      exact hat.fits
  exact Prog.Safe.ret (assertion_of_writes fun _ _ h hw => AtPacket.writes h hw) hfirst
    fun _ h => h

end Reader

namespace State

variable {l l' : Log} {q q' : ℕ} {t t' : State S} {o : Outcome}

/-- The thread is about to read packet `q` of a file that grows, or has just read it. -/
def Follows (tx : PacketTx) (i : ℕ) (hdr : PcapFileHeader) (l : Log) (q : ℕ) (t : State S) :
    Prop :=
  match t.pc with
  | .status => t.eof = false ∧ AtPacket tx i hdr q (l, t.os)
  | .read p => t.eof = false ∧ p.Safe readerSem (Writes tx i hdr) (fun _ => True)
      (Got tx i hdr q) (l, t.os)
  | .request obytes bytes => t.eof = false ∧ ∃ r, l.records[q]? = some r ∧
      (obytes, bytes) = received r.payload ∧ AtPacket tx i hdr (q + 1) (l, t.os)
  | .send => if t.eof then ∃ off, Located tx i hdr off (l, t.os)
      else AtPacket tx i hdr q (l, t.os)
  | .rewind p => p.Safe readerSem (Writes tx i hdr) (fun _ => True)
      (fun _ => AtPacket tx i hdr 0) (l, t.os)

/-- The calls of the thread move nothing but its descriptor. -/
def Moving (tx : PacketTx) (t : State S) : Prop :=
  match t.pc with
  | .read p => p.Uses (FileCall.Moves tx.pcapFd)
  | .rewind p => p.Uses (FileCall.Moves tx.pcapFd)
  | _ => True

/-- How a step of the thread moves it among the packets: not at all, past the one it puts
into a slot, or back to the first. -/
inductive Passes (l : Log) (q : ℕ) (t : State S) : ℕ → Prop
  | stays (hfilled : t.filled = []) : Passes l q t q
  | fills (r : Record) (hr : l.records[q]? = some r) (hfilled : t.filled = [r.payload]) :
      Passes l q t (q + 1)
  | rewinds (hfilled : t.filled = []) : Passes l q t 0

/-- Writes to the file leave the thread where it is. -/
theorem Follows.writes {os' : Os S} (h : t.Follows tx i hdr l q)
    (hw : Writes tx i hdr (l, t.os) (l', os')) :
    ({ t with os := os' } : State S).Follows tx i hdr l' q := by
  unfold Follows at h ⊢
  dsimp only
  cases hpc : t.pc with
  | status =>
      rw [hpc] at h
      exact ⟨h.1, h.2.writes hw⟩
  | read p =>
      rw [hpc] at h
      exact ⟨h.1, h.2.of_env hw⟩
  | request obytes bytes =>
      rw [hpc] at h
      obtain ⟨heof, r, hr, hgot, hat⟩ := h
      exact ⟨heof, r, Log.getElem?_of_prefix hw.records_grow hr, hgot, hat.writes hw⟩
  | send =>
      rw [hpc] at h
      dsimp only at h
      split_ifs at h ⊢ with heof
      · obtain ⟨off, hat⟩ := h
        exact ⟨off, hat.writes hw⟩
      · exact h.writes hw
  | rewind p =>
      rw [hpc] at h
      exact h.of_env hw

theorem Moving.step (h : t.Moving tx) (hstep : t.ldabPacketTx tx o = some t') :
    t'.Moving tx ∧ Os.Within {tx.pcapFd} ∅ ∅ t.os t'.os := by
  unfold Moving at h
  cases steps_of_ldabPacketTx hstep with
  | available hpc hlt havailable => exact ⟨moves_ldabPcapRead _ _, .refl _⟩
  | sentAtEnd hpc heof => exact ⟨⟨rfl, fun _ => trivial⟩, .refl _⟩
  | readCall op k hpc =>
      rw [hpc] at h
      exact ⟨h.2 _, Os.within_moves h.1 t.os o⟩
  | rewindCall op k hpc =>
      rw [hpc] at h
      exact ⟨h.2 _, Os.within_moves h.1 t.os o⟩
  | _ => exact ⟨trivial, .refl _⟩

/-- A step of the thread leaves it at a packet. -/
theorem Follows.step (h : t.Follows tx i hdr l q) (hcomplete : t.Complete o)
    (hstep : t.ldabPacketTx tx o = some t') :
    ∃ q', t'.Follows tx i hdr l q' ∧ Passes l q t q' := by
  unfold Follows at h
  unfold Complete at hcomplete
  cases steps_of_ldabPacketTx hstep with
  | available hpc hlt havailable =>
      rw [hpc] at h
      exact ⟨q, ⟨h.1, safe_ldabPcapRead h.2⟩, .stays (filled_eq_nil (by simp [hpc]))⟩
  | busy hpc hlt hbusy =>
      rw [hpc] at h
      exact ⟨q, h, .stays (filled_eq_nil (by simp [hpc]))⟩
  | walked hpc hge =>
      rw [hpc] at h
      refine ⟨q, ?_, .stays (filled_eq_nil (by simp [hpc]))⟩
      simpa [Follows, goto, h.1] using h.2
  | readCall op k hpc =>
      rw [hpc] at h hcomplete
      exact ⟨q, ⟨h.1, h.2.of_call ⟨rfl, o, hcomplete, rfl⟩⟩,
        .stays (filled_eq_nil (by simp [hpc]))⟩
  | endOfFile obytes bytes hpc hend =>
      rw [hpc] at h
      refine ⟨q, ?_, .stays (filled_eq_nil (by simp [hpc]))⟩
      rcases h.2.post with ⟨-, hat⟩ | ⟨r, hr, hgot, hat⟩
      · exact hat
      · exact ⟨_, hat.2⟩
  | readEnd obytes bytes hpc hmore =>
      rw [hpc] at h
      refine ⟨q, ⟨h.1, ?_⟩, .stays (filled_eq_nil (by simp [hpc]))⟩
      rcases h.2.post with ⟨hgot, -⟩ | hgot
      · obtain ⟨rfl, -⟩ := Prod.mk.inj hgot
        exact absurd le_rfl hmore
      · exact hgot
  | fill obytes bytes hpc =>
      rw [hpc] at h
      obtain ⟨heof, r, hr, hgot, hat⟩ := h
      obtain ⟨rfl, rfl⟩ := Prod.mk.inj hgot
      exact ⟨q + 1, ⟨heof, hat⟩, .fills r hr (by simp [filled, hpc])⟩
  | sentAtEnd hpc heof =>
      rw [hpc] at h
      simp only [heof, if_true] at h
      obtain ⟨off, hat⟩ := h
      exact ⟨q, safe_ldabPcapRewind hat, .stays (filled_eq_nil (by simp [hpc]))⟩
  | sent hpc heof =>
      rw [hpc] at h
      simp only [heof, Bool.false_eq_true, if_false] at h
      exact ⟨q, ⟨heof, h⟩, .stays (filled_eq_nil (by simp [hpc]))⟩
  | rewindCall op k hpc =>
      rw [hpc] at h hcomplete
      exact ⟨q, h.of_call ⟨rfl, o, hcomplete, rfl⟩, .stays (filled_eq_nil (by simp [hpc]))⟩
  | rewound n hpc =>
      rw [hpc] at h
      exact ⟨0, ⟨rfl, h.post⟩, .rewinds (filled_eq_nil (by simp [hpc]))⟩

end State

/-- The packets put into slots are those of some rounds, each of them a beginning of the
file, and the first `q` of one more. -/
def Rounds (payloads : List (List Byte)) (q : ℕ) (filled : List (List Byte)) : Prop :=
  q ≤ payloads.length ∧ ∃ ns : List ℕ, (∀ n ∈ ns, n ≤ payloads.length) ∧
    filled = (ns.map fun n => payloads.take n).flatten ++ payloads.take q

section Rounds

variable {payloads payloads' filled : List (List Byte)} {q q' : ℕ} {l : Log} {t : State S}

theorem Rounds.of_prefix (h : Rounds payloads q filled) (hgrown : payloads <+: payloads') :
    Rounds payloads' q filled := by
  obtain ⟨hq, ns, hns, rfl⟩ := h
  obtain ⟨post, rfl⟩ := hgrown
  have hle : payloads.length ≤ (payloads ++ post).length := by simp
  refine ⟨hq.trans hle, ns, fun n hn => (hns n hn).trans hle, ?_⟩
  have hmap : ns.map (fun n => (payloads ++ post).take n) = ns.map fun n => payloads.take n :=
    List.map_congr_left fun n hn => List.take_append_of_le_length (hns n hn)
  rw [hmap, List.take_append_of_le_length hq]

theorem Rounds.passes (h : Rounds (l.records.map Record.payload) q filled)
    (hpasses : t.Passes l q q') :
    Rounds (l.records.map Record.payload) q' (filled ++ t.filled) := by
  obtain ⟨hq, ns, hns, rfl⟩ := h
  cases hpasses with
  | stays hfilled => exact ⟨hq, ns, hns, by rw [hfilled, List.append_nil]⟩
  | fills r hr hfilled =>
      obtain ⟨hlt, rfl⟩ := List.getElem?_eq_some_iff.1 hr
      have hlt' : q < (l.records.map Record.payload).length := by rwa [List.length_map]
      refine ⟨hlt', ns, hns, ?_⟩
      rw [hfilled, List.take_succ_eq_append_getElem hlt', List.getElem_map, List.append_assoc]
  | rewinds hfilled =>
      refine ⟨Nat.zero_le _, ns ++ [q], ?_, ?_⟩
      · intro n hn
        rcases List.mem_append.1 hn with hn | hn
        · exact hns n hn
        · exact (List.mem_singleton.1 hn) ▸ hq
      · rw [hfilled, List.map_append, List.flatten_append, List.map_singleton,
          List.flatten_singleton, List.take_zero, List.append_nil]

end Rounds

end Tx
