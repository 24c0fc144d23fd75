import Dabba.Pcap.Attempt
import Dabba.Pcap.ByteOrder

/-!
# What a failed write leaves behind

A file is undamaged by some writes if it can be read back exactly, whatever packets are
written to it afterwards. Bytes that a failing call has left behind shift the reader
against the records that follow, and no packet is read back right after them.
-/

namespace Pcap

open Posix Program

/-- After the calls, and any packets that are written next, the file is read back as
the packets it held followed by those whose calls returned success. -/
def Undamaged {S : Type} (os : Os S) (path : Path) (fd : ℤ) (old : List Record)
    (calls : List WriteCall) : Prop :=
  ∀ further : List Packet, ∃ rcs os',
    runWrites fd (calls ++ further.map WriteCall.complete) os = some (rcs, os') ∧
    ReadsBack os' path (old.map Record.payload ++
      (succeeded (calls ++ further.map WriteCall.complete) rcs).map Packet.payload)

theorem map_payload_records (ps : List Packet) :
    (records ps).map Record.payload = ps.map Packet.payload := by
  rw [records, List.map_map]
  rfl

/-- A packet of one byte, which its packet header does not depend on. -/
def probe (x : Byte) : Packet where
  payload := [x]
  pktLen := 1
  tvSec := 0
  tvUsec := 0
  pos := by simp
  lt := by simp

theorem exists_probe (file : List Byte) {off : ℕ} (hoff : off < file.length) :
    ∃ x : Byte, (file ++ [x])[off]? ≠ some x := by
  refine ⟨file[off] + 1, ?_⟩
  rw [List.getElem?_append_left hoff, List.getElem?_eq_getElem hoff]
  intro heq
  have hself : file[off] = file[off] + 1 := Option.some.inj heq
  bv_omega

/-- A reader that has returned fewer bytes than the file holds does not find the packet
that is written next. -/
theorem readPackets_probe_ne (done : List Byte) (old : List Record)
    {calls : List WriteCall} (h : ¬ AllOrNothing calls) :
    ∃ x : Byte, ∀ pktLen, (∀ r ∈ old, r.payload.length ≤ pktLen) →
      readPackets pktLen (done ++ (recordsBytes old ++
          (takenBytes calls ++ (probe x).record.bytes))) done.length
          (old.length + ((stored calls).length + 1)) ≠
        old.map Record.payload ++ ((stored calls).map Packet.payload ++ [[x]]) := by
  obtain ⟨-, hlt⟩ := length_stored_le calls
  have hshort := hlt h
  -- Where the reader looks for the payload of the packet.
  let off := done.length + (recordsBytes old).length +
    (recordsBytes (records (stored calls))).length + sizeofPcapSfPkthdr
  let file := done ++ (recordsBytes old ++ (takenBytes calls ++ (probe 0).hdr.bytes))
  have hoff : off < file.length := by
    have hlen : (probe 0).hdr.bytes.length = sizeofPcapSfPkthdr :=
      (probe 0).hdr.length_bytes
    simp only [off, file, List.length_append, hlen]
    omega
  obtain ⟨x, hx⟩ := exists_probe file hoff
  have hfile : done ++ (recordsBytes old ++ (takenBytes calls ++ (probe x).record.bytes)) =
      file ++ [x] := by
    simp only [file, List.append_assoc]
    rfl
  refine ⟨x, fun pktLen hbuf hread => hx ?_⟩
  rw [readPackets_records done _ hbuf, List.append_right_inj, readPackets_add,
    ← map_payload_records, ← length_records, hfile] at hread
  obtain ⟨hstored, hlast⟩ := List.append_inj hread
    (by rw [length_readPackets, List.length_map])
  have hne : ∀ r ∈ records (stored calls), r.payload ≠ [] := by
    intro r hr
    obtain ⟨p, -, rfl⟩ := List.mem_map.1 hr
    exact List.ne_nil_of_length_pos p.pos
  rw [offsetAfter_of_readPackets hne hstored] at hlast
  have hprobe := (List.cons.inj hlast).1
  obtain ⟨n, hread, -⟩ := readPacket_of_ne_nil (hprobe ▸ List.cons_ne_nil x [])
  exact getElem?_of_readAt (hread.symm.trans hprobe)

section Undamaged

variable {S : Type} {os : Os S} {path : Path} {fd : ℤ} {i : ℕ} {hdr : PcapFileHeader}
  {old : List Record} {calls : List WriteCall}

theorem runWrites_further (calls : List WriteCall) (hpos : 0 < fd) (hdir : os.dir path = some i)
    (hend : AtEnd os fd i (hdr.bytes ++ recordsBytes old)) (further : List Packet) :
    ∃ rcs os', runWrites fd (calls ++ further.map WriteCall.complete) os =
        some (rcs, os') ∧
      succeeded (calls ++ further.map WriteCall.complete) rcs = stored calls ++ further ∧
      HasFile os' path hdr (recordsBytes old ++ (takenBytes calls ++
        recordsBytes (records further))) ∧
      (os.Unexhausted → os'.Unexhausted) := by
  obtain ⟨rcs, os', hrun, hsucceeded, hend', hdir', hfree⟩ :=
    runWrites_atEnd (calls ++ further.map WriteCall.complete) hpos hend
  obtain ⟨f, -, -, -, -, -, hdata⟩ := hend'
  refine ⟨rcs, os', hrun, ?_, ⟨i, hdir' ▸ hdir, ?_⟩, hfree⟩
  · rw [hsucceeded, stored_append, stored_complete]
  · rw [hdata, takenBytes_append, takenBytes_complete, List.append_assoc]

theorem undamaged_of_allOrNothing (hpos : 0 < fd) (hdir : os.dir path = some i)
    (hvalid : hdr.swapped.isValid = true)
    (hend : AtEnd os fd i (hdr.bytes ++ recordsBytes old)) (h : AllOrNothing calls) :
    Undamaged os path fd old calls := by
  intro further
  obtain ⟨rcs, os', hrun, hsucceeded, hfile, -⟩ :=
    runWrites_further calls hpos hdir hend further
  rw [takenBytes_of_allOrNothing h, ← recordsBytes_append, ← recordsBytes_append,
    ← records_append] at hfile
  have hread := readsBack_records hfile hvalid
  rw [List.map_append, map_payload_records] at hread
  exact ⟨rcs, os', hrun, hsucceeded ▸ hread⟩

/-- Calls that leave the file undamaged transfer their whole record or nothing. -/
theorem Undamaged.allOrNothing (h : Undamaged os path fd old calls) (hpos : 0 < fd)
    (hdir : os.dir path = some i) (hvalid : hdr.swapped.isValid = true)
    (hend : AtEnd os fd i (hdr.bytes ++ recordsBytes old)) (hfree : os.Unexhausted) :
    AllOrNothing calls := by
  by_contra hdamaged
  obtain ⟨x, hx⟩ := readPackets_probe_ne hdr.bytes old hdamaged
  obtain ⟨rcs, os', hrun, hread⟩ := h [probe x]
  obtain ⟨rcs', os'', hrun', hsucceeded, hfile, hfree'⟩ :=
    runWrites_further calls hpos hdir hend [probe x]
  rw [hrun] at hrun'
  obtain ⟨rfl, rfl⟩ := Prod.mk.inj (Option.some.inj hrun')
  rw [hsucceeded, List.map_append] at hread
  have hbuf : ∀ r ∈ old, r.payload.length ≤ (0xffffffff : BitVec 32).toNat :=
    fun r _ => r.length_payload_le
  have hbytes : recordsBytes (records [probe x]) = (probe x).record.bytes :=
    List.append_nil _
  rw [hbytes] at hfile
  have hpackets := (readsBack_iff (hfree' hfree) hfile hvalid _).1 hread 0xffffffff
    (old.length + ((stored calls).length + 1)) (by decide) ?_
  · rw [expectedReads_of_le (by simp), List.take_of_length_le (by simp),
      ← hdr.length_bytes] at hpackets
    exact hx _ hbuf hpackets
  · intro bytes hmem
    rcases List.mem_append.1 hmem with hmem | hmem
    · obtain ⟨r, hr, rfl⟩ := List.mem_map.1 hmem
      exact hbuf r hr
    · rw [← List.map_append] at hmem
      obtain ⟨p, -, rfl⟩ := List.mem_map.1 hmem
      exact p.length_le_allOnes

/-- Calls of `ldabPcapWrite` at the end of a file, each of whose writes may fail or be cut
short, leave the file undamaged if and only if no call fails after it has transferred a
byte. -/
theorem undamaged_iff (hpos : 0 < fd) (hdir : os.dir path = some i)
    (hvalid : hdr.swapped.isValid = true)
    (hend : AtEnd os fd i (hdr.bytes ++ recordsBytes old)) (hfree : os.Unexhausted) :
    Undamaged os path fd old calls ↔ AllOrNothing calls :=
  ⟨fun h => h.allOrNothing hpos hdir hvalid hend hfree,
    undamaged_of_allOrNothing hpos hdir hvalid hend⟩

end Undamaged

abbrev appendingOs : Os Unit :=
  (fileOs [0x61] (createdHeader linktypeEn10mb).bytes).install 3
    (.file ⟨1, 0, sizeofPcapFileHeader, oRdwr⟩)

theorem atEnd_appendingOs :
    AtEnd appendingOs 3 0 ((createdHeader linktypeEn10mb).bytes ++ recordsBytes []) := by
  refine ⟨⟨1, 0, sizeofPcapFileHeader, oRdwr⟩, Os.install_fds_self _ _ _, rfl, by decide,
    by decide, rfl, ?_⟩
  simp [fileOs]

theorem appendingOs_dir : appendingOs.dir [0x61] = some 0 := rfl

theorem appendingOs_unexhausted : appendingOs.Unexhausted := by
  intro k
  refine ⟨max k 4, le_max_left _ _, ?_⟩
  have hne : ((max k 4 : ℕ) : ℤ) ≠ 3 := by omega
  exact Function.update_of_ne hne _ _

abbrev enospcCall : WriteCall := ⟨bytePacket, .ok 0, .fail 28⟩

theorem undamaged_iff_enospc :
    Undamaged appendingOs [0x61] 3 [] [enospcCall, .complete bytePacket] ↔
      AllOrNothing [enospcCall, .complete bytePacket] :=
  undamaged_iff (by decide) appendingOs_dir createdHeader_isValid
    atEnd_appendingOs appendingOs_unexhausted

/-- The packet header that is left behind damages the file. -/
theorem not_undamaged_enospc : ¬ Undamaged appendingOs [0x61] 3 [] [enospcCall] := by
  intro h
  have hall := h.allOrNothing (by decide) appendingOs_dir
    createdHeader_isValid atEnd_appendingOs appendingOs_unexhausted
  exact absurd hall (by decide)

end Pcap
