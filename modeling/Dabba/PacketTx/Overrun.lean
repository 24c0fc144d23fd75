import Mathlib.Data.List.Induction
import Dabba.PacketTx.Bounds
import Dabba.Posix.Footprint

/-!
# A replay that reads every packet

A kernel that sends and gives back all packets of a walk lets the thread come to every
record of its file. So a file with a record that is too long for a frame makes the
thread store outside a frame in some run.
-/

namespace Tx

open Posix Program Pcap Tpacket Transition Tile

variable {S : Type} {tx : PacketTx} {data : List Byte} {off k : ℕ} {c c' : Replay S}

theorem complete_of_moves {fd : ℤ} {β : Type} {op : FileCall β}
    (h : FileCall.Moves fd β op) (os : Os S) : Os.Complete op (.ok 0) os := by
  cases op with
  | openAt path flags => exact h.elim
  | creat path => exact h.elim
  | write fd bytes => exact h.elim
  | read fd n => exact rfl
  | _ => trivial

theorem moves_ldabPcapRead (fd : ℤ) (pktLen : BitVec 32) :
    (ldabPcapRead fd pktLen).Uses (FileCall.Moves fd) := by
  simp only [ldabPcapRead, Prog.bind_eq, Prog.liftM_eq]
  refine Prog.uses_bind (Prog.uses_assert _) fun _ => ?_
  refine Prog.uses_bind (Prog.uses_assert _) fun _ => ?_
  refine Prog.uses_bind ((Prog.uses_perform _).2 rfl) fun got => ?_
  cases got with
  | none => trivial
  | some hdr =>
      dsimp only
      split
      · trivial
      · refine Prog.uses_bind ((Prog.uses_perform _).2 rfl) fun got => ?_
        cases got <;> trivial

namespace Replay

theorem exists_step (tx : PacketTx) (c : Replay S) {t : State S} {o : Outcome}
    (hcomplete : c.thread.Complete o)
    (hsend : ¬ c.Sending) (hstep : c.thread.ldabPacketTx tx o = some t) :
    ∃ c', Step tx c c' ∧ c'.thread = t ∧ c'.head = c.head :=
  ⟨_, .thread o t hcomplete hsend hstep, rfl, rfl⟩

theorem not_sending (h : c.thread.pc.isSend = false) : ¬ c.Sending := by
  rintro ⟨hpc, -⟩
  rw [h] at hpc
  cases hpc

/-- The thread runs its reader to the end. -/
theorem exists_reaches_ret (tx : PacketTx) {p : Prog FileCall (ℤ × List Byte)}
    {Q : ℤ × List Byte → Os S → Prop} (hp : p.Uses (FileCall.Moves tx.pcapFd))
    (hpc : c.thread.pc = .read p) (hwp : p.wp Os.completeSem Q c.thread.os) :
    ∃ c' r os', Reaches (Step tx) c c' ∧ c'.head = c.head ∧ Q r os' ∧
      c'.thread = { c.thread with os := os', pc := .read (.ret r) } := by
  induction p generalizing c with
  | ret r => exact ⟨c, r, c.thread.os, .refl, rfl, hwp, by rw [← hpc]⟩
  | abort => exact hwp.elim
  | call op k ih =>
      have hcomplete : Os.Complete op (.ok 0) c.thread.os := complete_of_moves hp.1 _
      obtain ⟨c₁, hstep, hthread, hhead⟩ := exists_step tx c (o := .ok 0)
        (t := { c.thread with
          os := (Os.handle op (.ok 0) c.thread.os).2
          pc := .read (k (Os.handle op (.ok 0) c.thread.os).1) })
        (by rw [State.Complete, hpc]; exact hcomplete)
        (not_sending (by rw [hpc]; rfl)) (by rw [State.ldabPacketTx, hpc])
      obtain ⟨c', r, os', hreach, hhead', hQ, hthread'⟩ := ih _ (hp.2 _)
        (c := c₁) (by rw [hthread])
        (by rw [hthread]; exact hwp _ _ ⟨.ok 0, hcomplete, rfl⟩)
      refine ⟨c', r, os', hreach.head hstep, hhead'.trans hhead, hQ, ?_⟩
      rw [hthread', hthread]

/-- The thread walks over its ring: the slots behind it wait to be sent, and the others are
available. -/
structure Walking (tx : PacketTx) (c : Replay S) : Prop where
  eof : c.thread.eof = false
  head : c.head = 0
  slot : ∀ i < tx.layout.tpFrameNr.toNat, (c.thread.slot i).tpStatus =
    if i < c.thread.a then tpStatusSendRequest else tpStatusAvailable

/-- The thread is about to look at a slot, and to read the packet at the offset. -/
structure Ready (tx : PacketTx) (data : List Byte) (off : ℕ) (c : Replay S) : Prop
    extends Walking tx c where
  pc : c.thread.pc = .status
  reads : ReadsFrom tx data off c.thread.os
  a_le : c.thread.a ≤ tx.layout.tpFrameNr.toNat

/-- The thread has just read the packet at the offset into a slot. -/
structure HasRead (tx : PacketTx) (data : List Byte) (off : ℕ) (c : Replay S) : Prop
    extends Walking tx c where
  pc : c.thread.pc = .read (.ret (received (nextPacket tx data off).1))
  reads : ReadsFrom tx data (nextPacket tx data off).2 c.thread.os
  a_lt : c.thread.a < tx.layout.tpFrameNr.toNat

/-- The kernel has sent and given back the first `k` slots of a full ring. -/
structure Draining (tx : PacketTx) (data : List Byte) (off k : ℕ) (c : Replay S) :
    Prop where
  eof : c.thread.eof = false
  pc : c.thread.pc = .send
  reads : ReadsFrom tx data off c.thread.os
  head : c.head = k % tx.layout.tpFrameNr.toNat
  slot : ∀ i < tx.layout.tpFrameNr.toNat, (c.thread.slot i).tpStatus =
    if i < k then tpStatusAvailable else tpStatusSendRequest

theorem Draining.next (h : Draining tx data off k c) (hk : k < tx.layout.tpFrameNr.toNat) :
    ∃ c', Reaches (Step tx) c c' ∧ Draining tx data off (k + 1) c' := by
  have hhead : c.head = k := h.head.trans (Nat.mod_eq_of_lt hk)
  have hsend : c.Sending := by
    refine ⟨by rw [h.pc]; rfl, ?_⟩
    rw [hhead, h.slot k hk, if_neg (lt_irrefl k)]
  have hsending : ((c.transmit tx).thread.slot k).tpStatus = tpStatusSending := by
    rw [transmit, hhead, setStatus_slot_self]
  refine ⟨_, .tail (.single (.transmit hsend)) (.release k hsending),
    ⟨h.eof, h.pc, h.reads, ?_, ?_⟩⟩
  · have hnext : ((c.transmit tx).setStatus k tpStatusAvailable).head =
        (c.head + 1) % tx.layout.tpFrameNr.toNat := rfl
    rw [hnext, hhead]
  · intro i hi
    by_cases hik : i = k
    · subst hik
      rw [setStatus_slot_self, if_pos (Nat.lt_succ_self i)]
    · have hold : ((c.transmit tx).thread.slot i).tpStatus = (c.thread.slot i).tpStatus := by
        rw [transmit, hhead, setStatus_slot_of_ne c k _ hik]
      rw [setStatus_slot_of_ne _ k _ hik, hold, h.slot i hi]
      by_cases hlt : i < k
      · rw [if_pos hlt, if_pos (by omega)]
      · rw [if_neg hlt, if_neg (by omega)]

theorem Draining.exists_drained (h : Draining tx data off 0 c)
    (hk : k ≤ tx.layout.tpFrameNr.toNat) :
    ∃ c', Reaches (Step tx) c c' ∧ Draining tx data off k c' := by
  induction k with
  | zero => exact ⟨c, .refl, h⟩
  | succ k ih =>
      obtain ⟨c₁, hreach, h₁⟩ := ih (Nat.le_of_succ_le hk)
      obtain ⟨c', hreach', h'⟩ := h₁.next hk
      exact ⟨c', hreach.trans hreach', h'⟩

/-- When the thread has filled the whole ring, the kernel sends all of it, and the next
walk begins. -/
theorem Ready.exists_rewalk (h : Ready tx data off c)
    (hnr : 0 < tx.layout.tpFrameNr.toNat) (ha : c.thread.a = tx.layout.tpFrameNr.toNat) :
    ∃ c', Reaches (Step tx) c c' ∧ Ready tx data off c' ∧ c'.thread.a = 0 := by
  obtain ⟨c₁, hstep, hthread, hhead⟩ := exists_step tx c (o := .ok 0)
    (t := c.thread.goto .send) (by rw [State.Complete, h.pc]; trivial)
    (not_sending (by rw [h.pc]; rfl)) (by rw [State.ldabPacketTx, h.pc]; simp [ha])
  have h₁ : Draining tx data off 0 c₁ := by
    refine ⟨by rw [hthread]; exact h.eof, by rw [hthread]; rfl,
      by rw [hthread]; exact h.reads, ?_, fun i hi => ?_⟩
    · rw [hhead, h.head, Nat.zero_mod]
    · rw [hthread, if_neg (Nat.not_lt_zero i)]
      exact (h.slot i hi).trans (if_pos (ha ▸ hi))
  obtain ⟨c₂, hreach, h₂⟩ := h₁.exists_drained le_rfl
  have hhead₂ : c₂.head = 0 := by rw [h₂.head, Nat.mod_self]
  have havailable : ∀ i < tx.layout.tpFrameNr.toNat,
      (c₂.thread.slot i).tpStatus = tpStatusAvailable :=
    fun i hi => (h₂.slot i hi).trans (if_pos hi)
  have hsend : ¬ c₂.Sending := by
    rintro ⟨-, hrequest⟩
    rw [hhead₂, havailable 0 hnr] at hrequest
    exact absurd hrequest (by decide)
  obtain ⟨c', hstep', hthread', hhead'⟩ := exists_step tx c₂ (o := .ok 0)
    (t := { c₂.thread with a := 0, pc := .status }) (by rw [State.Complete, h₂.pc]; trivial)
    hsend (by rw [State.ldabPacketTx, h₂.pc]; simp [h₂.eof])
  refine ⟨c', (hreach.head hstep).tail hstep', ⟨⟨?_, hhead'.trans hhead₂, ?_⟩, ?_, ?_, ?_⟩, ?_⟩
  · rw [hthread']
    exact h₂.eof
  · intro i hi
    rw [hthread', if_neg (Nat.not_lt_zero i)]
    exact havailable i hi
  · rw [hthread']
  · rw [hthread']
    exact h₂.reads
  · rw [hthread']
    exact Nat.zero_le _
  · rw [hthread']

/-- The thread comes to read the packet it is at. -/
theorem Ready.exists_hasRead (h : Ready tx data off c) (hfd : 0 < tx.pcapFd)
    (hsize : tx.layout.tpFrameSize ≠ 0) (hnr : 0 < tx.layout.tpFrameNr.toNat) :
    ∃ c', Reaches (Step tx) c c' ∧ HasRead tx data off c' := by
  obtain ⟨c₀, hreach₀, h₀, ha⟩ : ∃ c₀, Reaches (Step tx) c c₀ ∧ Ready tx data off c₀ ∧
      c₀.thread.a < tx.layout.tpFrameNr.toNat := by
    rcases lt_or_eq_of_le h.a_le with ha | ha
    · exact ⟨c, .refl, h, ha⟩
    · obtain ⟨c₀, hreach₀, h₀, ha₀⟩ := h.exists_rewalk hnr ha
      exact ⟨c₀, hreach₀, h₀, by rw [ha₀]; exact hnr⟩
  have havailable : (c₀.thread.slot c₀.thread.a).tpStatus = tpStatusAvailable := by
    rw [h₀.slot _ ha, if_neg (lt_irrefl _)]
  obtain ⟨c₁, hstep, hthread, hhead⟩ := exists_step tx c₀ (o := .ok 0)
    (t := c₀.thread.goto (.read (ldabPcapRead tx.pcapFd tx.layout.tpFrameSize)))
    (by rw [State.Complete, h₀.pc]; trivial) (not_sending (by rw [h₀.pc]; rfl))
    (by rw [State.ldabPacketTx, h₀.pc]; simp [ha, havailable])
  obtain ⟨c', r, os', hreach, hhead', ⟨rfl, hreads⟩, hthread'⟩ := exists_reaches_ret tx
    (c := c₁) (moves_ldabPcapRead _ _) (by rw [hthread]; rfl)
    (by rw [hthread]; exact h₀.reads.wp_read hfd hsize)
  rw [hthread] at hthread'
  refine ⟨c', hreach₀.trans (hreach.head hstep), ⟨⟨?_, ?_, ?_⟩, ?_, ?_, ?_⟩⟩
  · rw [hthread']
    exact h₀.eof
  · rw [hhead', hhead, h₀.head]
  · rw [hthread']
    exact h₀.slot
  · rw [hthread']
  · rw [hthread']
    exact hreads
  · rw [hthread']
    exact ha

/-- The thread puts the packet it has read into its slot. -/
theorem HasRead.exists_ready (h : HasRead tx data off c)
    (hne : (nextPacket tx data off).1 ≠ []) :
    ∃ c', Reaches (Step tx) c c' ∧ Ready tx data (nextPacket tx data off).2 c' := by
  have hpos := List.length_pos_of_ne_nil hne
  obtain ⟨c₁, hstep, hthread, hhead⟩ := exists_step tx c (o := .ok 0)
    (t := c.thread.goto (.request (nextPacket tx data off).1.length (nextPacket tx data off).1))
    (by rw [State.Complete, h.pc]; trivial) (not_sending (by rw [h.pc]; rfl))
    (by rw [State.ldabPacketTx, h.pc, received]; simp only; rw [if_neg (by omega)])
  have hpc₁ : c₁.thread.pc =
      .request (nextPacket tx data off).1.length (nextPacket tx data off).1 := by
    rw [hthread]
    rfl
  obtain ⟨c', hstep', hthread', hhead'⟩ := exists_step tx c₁ (o := .ok 0)
    (t := State.next { c₁.thread with
      slot := Function.update c₁.thread.slot c₁.thread.a
        (State.requested (c₁.thread.slot c₁.thread.a).frame
          (nextPacket tx data off).1.length (nextPacket tx data off).1) })
    (by rw [State.Complete, hpc₁]; trivial) (not_sending (by rw [hpc₁]; rfl))
    (by rw [State.ldabPacketTx, hpc₁]; rfl)
  rw [hthread] at hthread'
  have ha' : c'.thread.a = c.thread.a + 1 := by
    rw [hthread']
    rfl
  have hslot' : c'.thread.slot = Function.update c.thread.slot c.thread.a
      (State.requested (c.thread.slot c.thread.a).frame (nextPacket tx data off).1.length
        (nextPacket tx data off).1) := by
    rw [hthread']
    rfl
  refine ⟨c', .tail (.single hstep) hstep', ⟨⟨?_, ?_, ?_⟩, ?_, ?_, ?_⟩⟩
  · rw [hthread']
    exact h.eof
  · rw [hhead', hhead, h.head]
  · intro i hi
    rw [hslot', ha']
    by_cases hia : i = c.thread.a
    · subst hia
      rw [Function.update_self, if_pos (Nat.lt_succ_self _)]
      rfl
    · rw [Function.update_of_ne hia, h.slot i hi]
      by_cases hlt : i < c.thread.a
      · rw [if_pos hlt, if_pos (by omega)]
      · rw [if_neg hlt, if_neg (by omega)]
  · rw [hthread']
    rfl
  · rw [hthread']
    exact h.reads
  · rw [ha']
    exact h.a_lt

/-- The thread has read past the end of its frame, unless the packet fits. -/
theorem HasRead.fits (h : HasRead tx data off c) (hin : c.thread.InFrame tx)
    (hsize : tplen ≤ tx.layout.tpFrameSize.toNat) :
    tplen + (nextPacket tx data off).1.length ≤ tx.layout.tpFrameSize.toNat := by
  by_contra hlong
  have hframe := hin.frame
  simp only [State.stores, h.pc, received] at hframe
  -- The last byte of the packet.
  have hlast : c.thread.a * tx.layout.tpFrameSize.toNat + tplen +
      (nextPacket tx data off).1.length - 1 ∈
        tile tx.layout.tpFrameSize.toNat c.thread.a := hframe ⟨by omega, by omega⟩
  obtain ⟨-, hlt⟩ := hlast
  rw [Nat.succ_mul] at hlt
  omega

end Replay

section Overrun

variable {hdr : PcapFileHeader} {body : List Byte} {slot : ℕ → Slot} {os : Os S}

theorem nextPacket_hdr {done rest : List Byte} (h : PcapSfPkthdr)
    (hfits : tplen + (nextPacket tx (done ++ (h.bytes ++ rest)) done.length).1.length ≤
      tx.layout.tpFrameSize.toNat) :
    (nextPacket tx (done ++ (h.bytes ++ rest)) done.length).1 = rest.take h.caplen.toNat := by
  rw [nextPacket, readPacket_hdr, List.length_take] at hfits
  rw [nextPacket, readPacket_hdr]
  rcases le_total h.caplen.toNat tx.layout.tpFrameSize.toNat with hle | hle
  · rw [min_eq_left hle]
  · rw [min_eq_right hle] at hfits ⊢
    have htplen : 0 < tplen := by decide
    have hshort : rest.length ≤ tx.layout.tpFrameSize.toNat := by omega
    rw [List.take_of_length_le hshort, List.take_of_length_le (hshort.trans hle)]

/-- When nothing is stored outside a frame, the thread comes to every record of a
file. -/
theorem exists_ready_of_inFrame (hfd : 0 < tx.pcapFd)
    (hnr : 0 < tx.layout.tpFrameNr.toNat) (hsize : tplen ≤ tx.layout.tpFrameSize.toNat)
    (hslot : ∀ i, (slot i).tpStatus = tpStatusAvailable)
    (hos : ReadsFrom tx (hdr.bytes ++ body) sizeofPcapFileHeader os)
    (hin : ∀ c, Reaches (Replay.Step tx) (Replay.init slot os) c → c.thread.InFrame tx)
    {rs : List Record} {rest : List Byte} (hbody : body = recordsBytes rs ++ rest)
    (hne : ∀ r ∈ rs, r.payload ≠ []) :
    ∃ c, Reaches (Replay.Step tx) (Replay.init slot os) c ∧
      Replay.Ready tx (hdr.bytes ++ body) (hdr.bytes ++ recordsBytes rs).length c := by
  induction rs using List.reverseRecOn generalizing rest with
  | nil =>
      refine ⟨_, .refl, ⟨⟨rfl, rfl, fun i hi => hslot i⟩, rfl, ?_, Nat.zero_le _⟩⟩
      rwa [recordsBytes_nil, List.append_nil, hdr.length_bytes]
  | append_singleton rs r ih =>
      have hbody' : body = recordsBytes rs ++ (r.hdr.bytes ++ (r.payload ++ rest)) := by
        rw [hbody, recordsBytes_append, recordsBytes_cons, recordsBytes_nil, List.append_nil,
          Record.bytes, List.append_assoc, List.append_assoc]
      have hnonzero : tx.layout.tpFrameSize ≠ 0 := by
        rintro hzero
        rw [hzero] at hsize
        exact absurd hsize (by decide)
      obtain ⟨c₀, hreach₀, h₀⟩ := ih hbody' fun r' hr' => hne r' (List.mem_append_left _ hr')
      obtain ⟨c₁, hreach₁, h₁⟩ := h₀.exists_hasRead hfd hnonzero hnr
      have hfits := h₁.fits (hin c₁ (hreach₀.trans hreach₁)) hsize
      have hdata : hdr.bytes ++ body = (hdr.bytes ++ recordsBytes rs) ++
          (r.hdr.bytes ++ (r.payload ++ rest)) := by
        rw [hbody', List.append_assoc]
      have hpacket : (nextPacket tx (hdr.bytes ++ body)
          (hdr.bytes ++ recordsBytes rs).length).1 = r.payload := by
        rw [hdata] at hfits ⊢
        rw [nextPacket_hdr r.hdr hfits, ← r.complete, List.take_left]
      have hlen : r.payload.length ≤ tx.layout.tpFrameSize.toNat := by
        rw [hpacket] at hfits
        exact (Nat.le_add_left _ _).trans hfits
      have hnext : (nextPacket tx (hdr.bytes ++ body)
          (hdr.bytes ++ recordsBytes rs).length).2 =
            (hdr.bytes ++ recordsBytes (rs ++ [r])).length := by
        have hrecord : r.hdr.bytes ++ (r.payload ++ rest) = r.bytes ++ rest := by
          rw [Record.bytes, List.append_assoc]
        rw [hdata, hrecord, nextPacket, readPacket_record r hlen, recordsBytes_append,
          recordsBytes_cons, recordsBytes_nil, List.append_nil]
        simp only [List.length_append, Nat.add_assoc]
      have hr : r.payload ≠ [] := hne r (List.mem_append_right _ (List.mem_singleton_self r))
      obtain ⟨c', hreach', h'⟩ := h₁.exists_ready (hpacket ▸ hr)
      rw [hnext] at h'
      exact ⟨c', (hreach₀.trans hreach₁).trans hreach', h'⟩

/-- A file whose replay never stores outside a frame fits. -/
theorem fits_of_inFrame (hfd : 0 < tx.pcapFd)
    (hnr : 0 < tx.layout.tpFrameNr.toNat) (hsize : tplen ≤ tx.layout.tpFrameSize.toNat)
    (hslot : ∀ i, (slot i).tpStatus = tpStatusAvailable)
    (hos : ReadsFrom tx (hdr.bytes ++ body) sizeofPcapFileHeader os)
    (hin : ∀ c, Reaches (Replay.Step tx) (Replay.init slot os) c → c.thread.InFrame tx) :
    Fits tx.layout.tpFrameSize.toNat body := by
  intro rs h rest hbody hne
  have hnonzero : tx.layout.tpFrameSize ≠ 0 := by
    rintro hzero
    rw [hzero] at hsize
    exact absurd hsize (by decide)
  obtain ⟨c₀, hreach₀, h₀⟩ := exists_ready_of_inFrame hfd hnr hsize hslot hos hin hbody hne
  obtain ⟨c₁, hreach₁, h₁⟩ := h₀.exists_hasRead hfd hnonzero hnr
  have hfits := h₁.fits (hin c₁ (hreach₀.trans hreach₁)) hsize
  have hdata : hdr.bytes ++ body =
      (hdr.bytes ++ recordsBytes rs) ++ (h.bytes ++ rest) := by
    rw [hbody, List.append_assoc]
  rw [hdata] at hfits
  have hpacket := nextPacket_hdr h hfits
  rwa [hpacket, List.length_take] at hfits

/-- Everything a replay stores for a slot lies in the frame of the slot, in every run, if
and only if no record of the file up to the first empty one has more bytes than are left
of a frame. -/
theorem ldabPacketTx_inFrame_iff (hfd : 0 < tx.pcapFd)
    (hnr : 0 < tx.layout.tpFrameNr.toNat) (hsize : tplen ≤ tx.layout.tpFrameSize.toNat)
    (hslot : ∀ i, (slot i).tpStatus = tpStatusAvailable)
    (hos : ReadsFrom tx (hdr.bytes ++ body) sizeofPcapFileHeader os) :
    (∀ c, Reaches (Replay.Step tx) (Replay.init slot os) c → c.thread.InFrame tx) ↔
      Fits tx.layout.tpFrameSize.toNat body :=
  ⟨fits_of_inFrame hfd hnr hsize hslot hos, fun hfits _ => inFrame_of_fits hfd hsize hos hfits⟩

end Overrun

def zeros (n : ℕ) (h : n < 2 ^ 32) : Record where
  hdr := ⟨⟨1, 2⟩, BitVec.ofNat 32 n, BitVec.ofNat 32 n⟩
  payload := List.replicate n 0
  complete := by
    rw [List.length_replicate, BitVec.toNat_ofNat, Nat.mod_eq_of_lt h]

/-- A file of one packet that is one byte too long for a frame of 2048 bytes. -/
abbrev longPacket : List Byte := recordsBytes [zeros 2017 (by decide)]

theorem ldabPacketTx_inFrame_iff_longPacket :
    (∀ c, Reaches (Replay.Step smallTx) (Replay.init (fun _ => Slot.zero)
        (replayedOs ((createdHeader linktypeEn10mb).bytes ++ longPacket))) c →
      c.thread.InFrame smallTx) ↔ Fits 2048 longPacket :=
  ldabPacketTx_inFrame_iff (by decide) (by decide) (by decide) (fun _ => rfl)
    (readsFrom_replayedOs _)

/-- The last byte of the packet is the first one of the status of the next slot. -/
theorem exists_not_inFrame :
    ∃ c, Reaches (Replay.Step smallTx) (Replay.init (fun _ => Slot.zero)
        (replayedOs ((createdHeader linktypeEn10mb).bytes ++ longPacket))) c ∧
      ¬ c.thread.InFrame smallTx := by
  by_contra hnone
  push Not at hnone
  have hfits := fits_of_inFrame (by decide) (by decide) (by decide)
    (fun _ => rfl) (readsFrom_replayedOs _) hnone
  have hrecord := hfits [] (zeros 2017 (by decide)).hdr (List.replicate 2017 0)
    (List.append_nil _) fun r hr => absurd hr List.not_mem_nil
  rw [List.length_replicate] at hrecord
  exact absurd hrecord (by decide)

end Tx
