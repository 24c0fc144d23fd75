import Dabba.Pcap.Replay

/-!
# Recognising the end of a file

One value carries the length of a packet, the end of the file and an error. A record
without a payload is reported as the end of the file, and the part of a payload that is
in a file that was cut off is reported as a packet.
-/

namespace Pcap

open Posix Program

section End

variable {pktLen : ℕ} {data tail : List Byte} {off : ℕ}

/-- The bytes begin with a complete record. -/
def StartsWithRecord (bytes : List Byte) : Prop :=
  ∃ (r : Record) (rest : List Byte), bytes = r.bytes ++ rest

theorem startsWithRecord_hdr (hdr : PcapSfPkthdr) (rest : List Byte) :
    StartsWithRecord (hdr.bytes ++ rest) ↔ hdr.caplen.toNat ≤ rest.length := by
  constructor
  · rintro ⟨r, rest', heq⟩
    rw [Record.bytes, List.append_assoc] at heq
    obtain ⟨hhdr, rfl⟩ := List.append_inj heq (by simp)
    have hcaplen : hdr.caplen = r.hdr.caplen := by
      rw [← hdr.ofBytes_bytes, hhdr, r.hdr.ofBytes_bytes]
    rw [hcaplen, ← r.complete, List.length_append]
    exact Nat.le_add_right _ _
  · intro hle
    refine ⟨⟨hdr, rest.take hdr.caplen.toNat, List.length_take_of_le hle⟩,
      rest.drop hdr.caplen.toNat, ?_⟩
    rw [Record.bytes, List.append_assoc, List.take_append_drop]

theorem not_startsWithRecord_of_lt {bytes : List Byte}
    (h : bytes.length < sizeofPcapSfPkthdr) : ¬ StartsWithRecord bytes := by
  rintro ⟨r, rest, rfl⟩
  rw [List.length_append, r.length_bytes] at h
  omega

theorem exists_records_tail (bytes : List Byte) :
    ∃ rs tail, bytes = recordsBytes rs ++ tail ∧ ¬ StartsWithRecord tail := by
  induction hn : bytes.length using Nat.strong_induction_on generalizing bytes with
  | _ n ih =>
      by_cases hrec : StartsWithRecord bytes
      · obtain ⟨r, rest, rfl⟩ := hrec
        have hlt : rest.length < n := by
          rw [← hn, List.length_append, r.length_bytes]
          exact Nat.lt_add_of_pos_left (Nat.add_pos_left (by decide) _)
        obtain ⟨rs, tail, rfl, htail⟩ := ih _ hlt rest rfl
        exact ⟨r :: rs, tail, by rw [recordsBytes_cons, List.append_assoc], htail⟩
      · exact ⟨[], bytes, rfl, hrec⟩

/-- What is read at an offset tells whether a complete record is there, and is the
payload of that record. -/
def RecognisedAt (data : List Byte) (off : ℕ) (got : ℤ × List Byte) : Prop :=
  (got.1 = 0 ↔ ¬ StartsWithRecord (data.drop off)) ∧
    (0 < got.1 → ∃ (r : Record) (rest : List Byte),
      data.drop off = r.bytes ++ rest ∧ got.2 = r.payload)

theorem recognisedAt_record {r : Record} {done rest : List Byte} :
    RecognisedAt (done ++ (r.bytes ++ rest)) done.length (received r.payload) ↔
      0 < r.hdr.caplen.toNat := by
  have hstarts : StartsWithRecord (r.bytes ++ rest) := ⟨r, rest, rfl⟩
  rw [RecognisedAt, List.drop_left, ← r.complete]
  constructor
  · rintro ⟨hzero, -⟩
    by_contra hlen
    have hnone : (received r.payload).1 = 0 := by
      simp only [received]
      omega
    exact hzero.1 hnone hstarts
  · intro hpos
    refine ⟨⟨fun hzero => ?_, fun hnot => absurd hstarts hnot⟩,
      fun _ => ⟨r, rest, rfl, rfl⟩⟩
    simp only [received] at hzero
    omega

theorem recognisedAt_of_not_startsWithRecord {bytes : List Byte}
    (h : ¬ StartsWithRecord (data.drop off)) :
    RecognisedAt data off (received bytes) ↔ bytes = [] := by
  constructor
  · rintro ⟨hzero, -⟩
    have hlen := hzero.2 h
    simp only [received, Int.natCast_eq_zero] at hlen
    exact List.length_eq_zero_iff.1 hlen
  · rintro rfl
    exact ⟨⟨fun _ => h, fun _ => rfl⟩, fun hpos => absurd hpos (by simp [received])⟩

/-- What is left of an incomplete record is read in one call, and all that follows its
packet header is returned. -/
theorem readPacket_tail (done : List Byte) (htail : ¬ StartsWithRecord tail)
    (hbuf : ∀ hdr rest, tail = PcapSfPkthdr.bytes hdr ++ rest → hdr.caplen.toNat ≤ pktLen) :
    readPacket pktLen (done ++ tail) done.length =
      (tail.drop sizeofPcapSfPkthdr, (done ++ tail).length) := by
  by_cases hlen : sizeofPcapSfPkthdr ≤ tail.length
  · obtain ⟨hdr, rest, rfl⟩ := exists_hdr_of_length hlen
    rw [startsWithRecord_hdr] at htail
    have hcaplen := hbuf hdr rest rfl
    have htake : rest.take (min hdr.caplen.toNat pktLen) = rest :=
      List.take_of_length_le (by omega)
    rw [readPacket_hdr, htake, List.drop_left' hdr.length_bytes, List.length_append,
      List.length_append, hdr.length_bytes, Nat.add_assoc]
  · have hshort : tail.length ≤ sizeofPcapSfPkthdr := (Nat.lt_of_not_le hlen).le
    rw [readPacket_short done hshort, List.drop_eq_nil_of_le hshort]

/-- Along a file the end is recognised at every position the reader comes to, exactly
when every record has a payload and of the last one at most the packet header is there
without it. -/
theorem recognisedAt_iff (done : List Byte) {rs : List Record}
    (htail : ¬ StartsWithRecord tail) (hlen : ∀ r ∈ rs, r.payload.length ≤ pktLen)
    (hbuf : ∀ hdr rest, tail = PcapSfPkthdr.bytes hdr ++ rest → hdr.caplen.toNat ≤ pktLen) :
    (∀ n, RecognisedAt (done ++ (recordsBytes rs ++ tail))
        (offsetAfter pktLen (done ++ (recordsBytes rs ++ tail)) done.length n)
        (received (readPacket pktLen (done ++ (recordsBytes rs ++ tail))
          (offsetAfter pktLen (done ++ (recordsBytes rs ++ tail)) done.length n)).1)) ↔
      (∀ r ∈ rs, 0 < r.hdr.caplen.toNat) ∧ tail.length ≤ sizeofPcapSfPkthdr := by
  induction rs generalizing done with
  | nil =>
      have hread := readPacket_tail done htail hbuf
      have hend : ¬ StartsWithRecord ((done ++ tail).drop (done ++ tail).length) := by
        rw [List.drop_length]
        exact not_startsWithRecord_of_lt (by decide)
      have hnow : ¬ StartsWithRecord ((done ++ tail).drop done.length) := by
        rwa [List.drop_left]
      rw [recordsBytes_nil, List.nil_append, ← Nat.and_forall_add_one]
      simp only [offsetAfter, hread, offsetAfter_end, readPacket_end,
        recognisedAt_of_not_startsWithRecord hend,
        recognisedAt_of_not_startsWithRecord hnow, List.drop_eq_nil_iff]
      simp
  | cons r rs ih =>
      have hread : readPacket pktLen (done ++ (r.bytes ++ (recordsBytes rs ++ tail)))
          done.length = (r.payload, done.length + r.bytes.length) :=
        readPacket_record r (hlen r List.mem_cons_self)
      have hnext := ih (done ++ r.bytes) fun r' hr' => hlen r' (List.mem_cons_of_mem r hr')
      simp only [List.append_assoc, List.length_append] at hnext
      rw [recordsBytes_cons, List.append_assoc, ← Nat.and_forall_add_one]
      simp only [offsetAfter, hread, recognisedAt_record, hnext, List.forall_mem_cons,
        and_assoc]

end End

section Recognised

variable {S : Type} {os : Os S} {path : Path} {hdr : PcapFileHeader} {pktLen : BitVec 32}
  {bytes : List Byte}

/-- At every position that reads and rewinds lead to, a call returns zero exactly when no
complete record is there, and otherwise the whole payload of the record. -/
def RecognisesEnd (os : Os S) (path : Path) (pktLen : BitVec 32) : Prop :=
  ∀ (ks : List ℕ) (n : ℕ), (replayFile path pktLen ks n).wp Os.completeSem (fun seen os' =>
    ∃ f, os'.fds seen.1 = some (.file f) ∧
      (ldabPcapRead seen.1 pktLen).wp Os.completeSem
        (fun got _ => RecognisedAt (os'.data f.inode) f.offset got) os') os

/-- Whether the end is recognised is decided by the bytes of the file alone. -/
theorem recognisesEnd_iff_recognisedAt (hfree : os.Unexhausted)
    (hfile : HasFile os path hdr bytes) (hvalid : hdr.swapped.isValid = true)
    (hlen : pktLen ≠ 0) :
    RecognisesEnd os path pktLen ↔ ∀ n, RecognisedAt (hdr.bytes ++ bytes)
      (offsetAfter pktLen.toNat (hdr.bytes ++ bytes) hdr.bytes.length n)
      (received (readPacket pktLen.toNat (hdr.bytes ++ bytes)
        (offsetAfter pktLen.toNat (hdr.bytes ++ bytes) hdr.bytes.length n)).1) := by
  rw [hdr.length_bytes]
  constructor
  · intro h n
    have hcode : (replayFile path pktLen [] n).wp Os.completeSem (fun seen os' =>
        ∃ f, 0 < seen.1 ∧ os'.fds seen.1 = some (.file f) ∧ f.readable ∧
          os'.data f.inode = hdr.bytes ++ bytes ∧ f.offset =
            offsetAfter pktLen.toNat (hdr.bytes ++ bytes) sizeofPcapFileHeader n) os :=
      wp_replayFile hfile hvalid hlen fun _ _ f hpos hfd hr hdata hoff =>
        ⟨f, hpos, hfd, hr, hdata, hoff⟩
    obtain ⟨seen, os', ⟨⟨f, hfd, hread⟩, f', hpos, hfd', hr, hdata, hoff⟩, hfree'⟩ :=
      Os.exists_of_wp_complete ((Prog.wp_and _).2 ⟨h [] n, hcode⟩) hfree
    rw [hfd] at hfd'
    cases hfd'
    have hgot : (ldabPcapRead seen.1 pktLen).wp Os.completeSem (fun got _ => got =
        received (readPacket pktLen.toNat (os'.data f.inode) f.offset).1) os' :=
      wp_ldabPcapRead hpos hlen hfd hr rfl
    obtain ⟨got, _, ⟨hrec, rfl⟩, -⟩ :=
      Os.exists_of_wp_complete ((Prog.wp_and _).2 ⟨hread, hgot⟩) hfree'
    rwa [hdata, hoff] at hrec
  · intro h ks n
    apply wp_replayFile hfile hvalid hlen
    intro fd os' f hpos hfd hr hdata hoff
    refine ⟨f, hfd, wp_ldabPcapRead hpos hlen hfd hr ?_⟩
    rw [hdata, hoff]
    exact h n

/-- The end of a file is recognised exactly if and only if every complete record has a
payload and nothing of the payload of an incomplete one is in the file. -/
theorem recognisesEnd_iff (hfree : os.Unexhausted) {rs : List Record} {tail : List Byte}
    (hfile : HasFile os path hdr (recordsBytes rs ++ tail))
    (hvalid : hdr.swapped.isValid = true) (hlen : pktLen ≠ 0)
    (htail : ¬ StartsWithRecord tail)
    (hbuf : ∀ r ∈ rs, r.hdr.caplen.toNat ≤ pktLen.toNat)
    (hbuf' : ∀ hdr rest, tail = PcapSfPkthdr.bytes hdr ++ rest →
      hdr.caplen.toNat ≤ pktLen.toNat) :
    RecognisesEnd os path pktLen ↔
      (∀ r ∈ rs, 0 < r.hdr.caplen.toNat) ∧ tail.length ≤ sizeofPcapSfPkthdr := by
  rw [recognisesEnd_iff_recognisedAt hfree hfile hvalid hlen]
  exact recognisedAt_iff hdr.bytes htail (fun r hr => r.complete ▸ hbuf r hr) hbuf'

theorem recognisesEnd_iff_cut :
    RecognisesEnd (fileOs [0x61] ((createdHeader linktypeEn10mb).bytes ++
        (recordsBytes [fiveRecord] ++ [1, 2, 3]))) [0x61] 5 ↔
      (∀ r ∈ [fiveRecord], 0 < r.hdr.caplen.toNat) ∧
        ([1, 2, 3] : List Byte).length ≤ sizeofPcapSfPkthdr := by
  refine recognisesEnd_iff (fileOs_unexhausted _ _) (hasFile_fileOs _ _ _)
    createdHeader_isValid (by decide) (not_startsWithRecord_of_lt (by decide)) ?_ ?_
  · simp [fiveRecord]
  · intro hdr rest heq
    have hlen := congrArg List.length heq
    rw [List.length_append, hdr.length_bytes] at hlen
    have hle : sizeofPcapSfPkthdr ≤ ([1, 2, 3] : List Byte).length :=
      hlen ▸ Nat.le_add_right _ _
    exact absurd hle (by decide)

end Recognised

def emptyRecord : Record where
  hdr := ⟨⟨1, 2⟩, 0, 60⟩
  payload := []
  complete := rfl

/-- A file in which a packet follows a record without a payload. -/
abbrev emptyRecordFile : Os Unit :=
  fileOs [0x61] ((createdHeader linktypeEn10mb).bytes ++
    recordsBytes [emptyRecord, byteRecord])

abbrev cutFile : Os Unit :=
  fileOs [0x61] ((createdHeader linktypeEn10mb).bytes ++
    (fiveRecord.hdr.bytes ++ [1, 2]))

/-- The record without a payload is taken for the end of the file, and the two bytes for
a packet. -/
theorem not_recognisesEnd_emptyRecordFile_cutFile :
    ¬ RecognisesEnd emptyRecordFile [0x61] 5 ∧ ¬ RecognisesEnd cutFile [0x61] 5 := by
  constructor
  · rw [recognisesEnd_iff_recognisedAt (fileOs_unexhausted _ _) (hasFile_fileOs _ _ _)
      createdHeader_isValid (by decide)]
    intro h
    have hfirst := h 0
    rw [offsetAfter, recordsBytes_cons, readPacket_record emptyRecord (by decide),
      recognisedAt_record] at hfirst
    exact absurd hfirst (by decide)
  · rw [recognisesEnd_iff_recognisedAt (fileOs_unexhausted _ _) (hasFile_fileOs _ _ _)
      createdHeader_isValid (by decide)]
    intro h
    have hfirst := h 0
    have hnone : ¬ StartsWithRecord (((createdHeader linktypeEn10mb).bytes ++
        (fiveRecord.hdr.bytes ++ [1, 2])).drop
          (createdHeader linktypeEn10mb).bytes.length) := by
      rw [List.drop_left, startsWithRecord_hdr]
      decide
    rw [offsetAfter, recognisedAt_of_not_startsWithRecord hnone, readPacket_hdr] at hfirst
    exact absurd hfirst (by decide)

end Pcap
