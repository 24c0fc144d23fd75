import Dabba.Pcap.Reader

/-!
# Files of the other byte order

The check of the file header accepts a header of either byte order, but the record
reader and writer know one order only. A file of the other order is decoded as it
should be exactly when the captured length of every record reads the same in both
orders.
-/

namespace Pcap

open Posix Program

def PcapSfPkthdr.bswap (h : PcapSfPkthdr) : PcapSfPkthdr where
  ts := ⟨bswap32 h.ts.tvSec, bswap32 h.ts.tvUsec⟩
  caplen := bswap32 h.caplen
  len := bswap32 h.len

def PcapFileHeader.IsNative (hdr : PcapFileHeader) : Prop := hdr.magic = tcpdumpMagic

instance (hdr : PcapFileHeader) : Decidable hdr.IsNative :=
  inferInstanceAs (Decidable (_ = _))

def Record.bytesIn (hdr : PcapFileHeader) (r : Record) : List Byte :=
  (if hdr.IsNative then r.hdr else r.hdr.bswap).bytes ++ r.payload

def recordsBytesIn (hdr : PcapFileHeader) (rs : List Record) : List Byte :=
  rs.flatMap (Record.bytesIn hdr)

/-- The file is decoded in its own byte order: reading it returns the payloads of its
records, and a packet that is appended to it is the next one. -/
structure DecodedInOrder {S : Type} (os : Os S) (path : Path) (rs : List Record) :
    Prop where
  reads : ReadsBack os path (rs.map Record.payload)
  appends : ∀ p : Packet, (appendSession path [p]).wp Os.completeSem
    (fun _ os' => ReadsBack os' path (rs.map Record.payload ++ [p.payload])) os

section Bytes

variable {hdr : PcapFileHeader} {rs : List Record}

/-- The captured length is the same in the byte order of the file and in that of the
machine. -/
def Record.Agrees (hdr : PcapFileHeader) (r : Record) : Prop :=
  hdr.IsNative ∨ bswap32 r.hdr.caplen = r.hdr.caplen

instance (hdr : PcapFileHeader) (r : Record) : Decidable (r.Agrees hdr) :=
  inferInstanceAs (Decidable (_ ∨ _))

/-- A record whose lengths agree is a record of the machine's byte order, with the same
payload. -/
theorem Record.Agrees.exists_native {r : Record} (h : r.Agrees hdr) :
    ∃ r' : Record, r.bytesIn hdr = r'.bytes ∧ r'.payload = r.payload := by
  by_cases hnative : hdr.IsNative
  · exact ⟨r, by rw [bytesIn, if_pos hnative, bytes], rfl⟩
  · have hswap := h.resolve_left hnative
    have hcomplete : r.payload.length = r.hdr.bswap.caplen.toNat :=
      r.complete.trans (congrArg BitVec.toNat hswap.symm)
    exact ⟨⟨r.hdr.bswap, r.payload, hcomplete⟩,
      by rw [bytesIn, if_neg hnative, bytes], rfl⟩

theorem exists_native_records (h : ∀ r ∈ rs, r.Agrees hdr) :
    ∃ rs' : List Record, recordsBytesIn hdr rs = recordsBytes rs' ∧
      rs'.map Record.payload = rs.map Record.payload := by
  induction rs with
  | nil => exact ⟨[], rfl, rfl⟩
  | cons r rs ih =>
      obtain ⟨rs', hbytes, hpayload⟩ := ih fun r' hr' => h r' (List.mem_cons_of_mem r hr')
      obtain ⟨r', hr', hpay⟩ := (h r List.mem_cons_self).exists_native
      refine ⟨r' :: rs', ?_, ?_⟩
      · rw [recordsBytes_cons, ← hr', ← hbytes]
        rfl
      · rw [List.map_cons, List.map_cons, hpay, hpayload]

theorem Record.length_payload_le (r : Record) :
    r.payload.length ≤ (0xffffffff : BitVec 32).toNat := by
  have hlt := r.hdr.caplen.isLt
  rw [r.complete]
  exact Nat.le_of_lt_succ hlt

/-- A record whose lengths do not agree is read with a wrong length, if anything comes
after it. -/
theorem readPacket_ne_payload {done tail : List Byte} {r : Record} (htail : tail ≠ [])
    (h : ¬ r.Agrees hdr) :
    (readPacket (0xffffffff : BitVec 32).toNat (done ++ (r.bytesIn hdr ++ tail))
      done.length).1 ≠ r.payload := by
  have hnative : ¬ hdr.IsNative := fun hn => h (Or.inl hn)
  have hswap : bswap32 r.hdr.caplen ≠ r.hdr.caplen := fun hs => h (Or.inr hs)
  have hlt : (bswap32 r.hdr.caplen).toNat ≤ (0xffffffff : BitVec 32).toNat :=
    Nat.le_of_lt_succ (bswap32 r.hdr.caplen).isLt
  have hcaplen : r.hdr.bswap.caplen = bswap32 r.hdr.caplen := rfl
  rw [Record.bytesIn, if_neg hnative, List.append_assoc, readPacket_hdr, hcaplen,
    min_eq_left hlt]
  -- With a byte left behind the payload, only the right length cuts the payload out.
  intro heq
  have hlen := congrArg List.length heq
  rw [List.length_take, List.length_append, r.complete] at hlen
  have hpos := List.length_pos_of_ne_nil htail
  exact hswap (BitVec.eq_of_toNat_eq (by omega))

/-- Some number of reads shows that the lengths of a record do not agree. -/
theorem readPackets_ne_expected (done : List Byte) {tail : List Byte} (htail : tail ≠ [])
    (h : ¬ ∀ r ∈ rs, r.Agrees hdr) (payloads : List (List Byte)) :
    ∃ n, readPackets (0xffffffff : BitVec 32).toNat
        (done ++ (recordsBytesIn hdr rs ++ tail)) done.length n ≠
      expectedReads (rs.map Record.payload ++ payloads) n := by
  induction rs generalizing done with
  | nil => exact (h fun r hr => absurd hr List.not_mem_nil).elim
  | cons r rs ih =>
      have hdata : done ++ (recordsBytesIn hdr (r :: rs) ++ tail) =
          done ++ (r.bytesIn hdr ++ (recordsBytesIn hdr rs ++ tail)) := by
        rw [recordsBytesIn, List.flatMap_cons, List.append_assoc]
        rfl
      rw [hdata, List.map_cons, List.cons_append]
      by_cases hr : r.Agrees hdr
      · obtain ⟨r', hbytes, hpayload⟩ := hr.exists_native
        have hrest : ¬ ∀ r' ∈ rs, r'.Agrees hdr :=
          fun hrs => h (List.forall_mem_cons.2 ⟨hr, hrs⟩)
        obtain ⟨n, hn⟩ := ih (done ++ r'.bytes) hrest
        rw [List.append_assoc, List.length_append] at hn
        refine ⟨n + 1, ?_⟩
        rw [readPackets, expectedReads_cons, hbytes, readPacket_record r' r'.length_payload_le,
          hpayload]
        exact fun heq => hn (List.cons.inj heq).2
      · have htail' : recordsBytesIn hdr rs ++ tail ≠ [] :=
          fun hnil => htail (List.append_eq_nil_iff.1 hnil).2
        refine ⟨1, ?_⟩
        rw [readPackets, expectedReads_cons]
        exact fun heq => readPacket_ne_payload htail' hr (List.cons.inj heq).1

end Bytes

section Decoded

variable {S : Type} {os : Os S} {path : Path} {hdr : PcapFileHeader} {rs : List Record}

def anyPacket : Packet where
  payload := [0]
  pktLen := 1
  tvSec := 0
  tvUsec := 0
  pos := by decide
  lt := by decide

theorem decodedInOrder_of_agrees (hfile : HasFile os path hdr (recordsBytesIn hdr rs))
    (hvalid : hdr.swapped.isValid = true) (h : ∀ r ∈ rs, r.Agrees hdr) :
    DecodedInOrder os path rs := by
  obtain ⟨rs', hbytes, hpayload⟩ := exists_native_records h
  rw [hbytes] at hfile
  constructor
  · rw [← hpayload]
    exact readsBack_records hfile hvalid
  · intro p
    apply wp_appendSession_file hfile hvalid
    intro os' hfile'
    rw [← recordsBytes_append] at hfile'
    have hread := readsBack_records hfile' hvalid
    rwa [List.map_append, hpayload] at hread

/-- A file that is decoded in its own byte order has records whose lengths agree. -/
theorem DecodedInOrder.agrees (hdecoded : DecodedInOrder os path rs)
    (hfree : os.Unexhausted) (hfile : HasFile os path hdr (recordsBytesIn hdr rs))
    (hvalid : hdr.swapped.isValid = true) : ∀ r ∈ rs, r.Agrees hdr := by
  by_contra hagrees
  -- A record that is appended lies behind the first one whose lengths do not agree.
  have hgood := hdecoded.appends anyPacket
  have hbytes : (appendSession path [anyPacket]).wp Os.completeSem (fun _ os' =>
      HasFile os' path hdr
        (recordsBytesIn hdr rs ++ recordsBytes (records [anyPacket]))) os :=
    wp_appendSession_file hfile hvalid fun _ hfile' => hfile'
  obtain ⟨_, os', ⟨hreads, hfile'⟩, hfree'⟩ :=
    Os.exists_of_wp_complete ((Prog.wp_and _).2 ⟨hgood, hbytes⟩) hfree
  have htail : recordsBytes (records [anyPacket]) ≠ [] := List.cons_ne_nil _ _
  obtain ⟨n, hn⟩ := readPackets_ne_expected hdr.bytes htail hagrees
    [anyPacket.payload]
  rw [hdr.length_bytes] at hn
  refine hn ((readsBack_iff hfree' hfile' hvalid _).1 hreads 0xffffffff n (by decide) ?_)
  intro bytes hmem
  rcases List.mem_append.1 hmem with hmem | hmem
  · obtain ⟨r, -, rfl⟩ := List.mem_map.1 hmem
    exact r.length_payload_le
  · rw [List.mem_singleton.1 hmem]
    exact anyPacket.length_le_allOnes

/-- Every accepted file is decoded in its own byte order if and only if this is the order
of the machine, or the captured length of every record reads the same in both orders. -/
theorem decodedInOrder_iff (hfree : os.Unexhausted)
    (hfile : HasFile os path hdr (recordsBytesIn hdr rs))
    (hvalid : hdr.swapped.isValid = true) :
    DecodedInOrder os path rs ↔ ∀ r ∈ rs, r.Agrees hdr :=
  ⟨fun h => h.agrees hfree hfile hvalid, decodedInOrder_of_agrees hfile hvalid⟩

end Decoded

def fileOs (path : Path) (bytes : List Byte) : Os Unit :=
  { emptyOs with
    entry := Function.update emptyOs.entry (emptyOs.resolve path) (some 0)
    data := Function.update emptyOs.data 0 bytes
    next := 1 }

theorem hasFile_fileOs (path : Path) (hdr : PcapFileHeader) (bytes : List Byte) :
    HasFile (fileOs path (hdr.bytes ++ bytes)) path hdr bytes :=
  ⟨0, by simp [fileOs, Os.dir], by simp [fileOs]⟩

theorem fileOs_unexhausted (path : Path) (bytes : List Byte) :
    (fileOs path bytes).Unexhausted := emptyOs_unexhausted

/-- The header of a file from a machine of the other byte order. -/
def swappedHeader : PcapFileHeader where
  magic := 0xd4c3b2a1
  versionMajor := 0x0200
  versionMinor := 0x0400
  thiszone := 0
  sigfigs := 0
  snaplen := 0xffff0000
  linktype := 0x01000000

def byteRecord : Record where
  hdr := ⟨⟨1, 2⟩, 1, 60⟩
  payload := [0x2a]
  complete := by decide

/-- A file with two records of one byte, from a machine of the other byte order. -/
abbrev swappedFile : Os Unit :=
  fileOs [0x61] (swappedHeader.bytes ++
    recordsBytesIn swappedHeader [byteRecord, byteRecord])

theorem decodedInOrder_iff_swappedFile :
    DecodedInOrder swappedFile [0x61] [byteRecord, byteRecord] ↔
      ∀ r ∈ [byteRecord, byteRecord], r.Agrees swappedHeader :=
  decodedInOrder_iff (fileOs_unexhausted _ _) (hasFile_fileOs _ _ _) (by decide)

/-- The first record of the file is read as a record of everything behind it. -/
theorem not_decodedInOrder_swappedFile :
    ¬ DecodedInOrder swappedFile [0x61] [byteRecord, byteRecord] := by
  intro h
  have hagrees := h.agrees (fileOs_unexhausted _ _) (hasFile_fileOs _ _ _) (by decide)
  exact absurd (hagrees byteRecord List.mem_cons_self) (by decide)

end Pcap
