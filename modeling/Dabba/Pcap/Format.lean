import Dabba.Posix.Bytes

/-!
# The PCAP file format

A PCAP file is a 24-byte file header followed by records, each a 16-byte packet
header and the bytes captured of the packet. The headers are written as the
structures lie in memory, so their fields are in the byte order of the machine,
little-endian here; a file from a machine of the other order has all header
fields reversed.
-/

namespace Pcap

open Posix

abbrev tcpdumpMagic : BitVec 32 := 0xa1b2c3d4
abbrev pcapVersionMajor : BitVec 16 := 2
abbrev pcapVersionMinor : BitVec 16 := 4
abbrev pcapDefaultSnapshotLen : BitVec 32 := 65535
abbrev linktypeEn10mb : BitVec 32 := 1

structure PcapFileHeader where
  magic : BitVec 32
  versionMajor : BitVec 16
  versionMinor : BitVec 16
  thiszone : BitVec 32
  sigfigs : BitVec 32
  snaplen : BitVec 32
  linktype : BitVec 32
deriving DecidableEq, Repr

structure PcapTimeval where
  tvSec : BitVec 32
  tvUsec : BitVec 32
deriving DecidableEq, Repr

structure PcapSfPkthdr where
  ts : PcapTimeval
  caplen : BitVec 32
  len : BitVec 32
deriving DecidableEq, Repr

abbrev sizeofPcapFileHeader : ℕ := 24

abbrev sizeofPcapSfPkthdr : ℕ := 16

def PcapFileHeader.bytes (h : PcapFileHeader) : List Byte :=
  leBytes 4 h.magic.toNat ++ (leBytes 2 h.versionMajor.toNat ++
    (leBytes 2 h.versionMinor.toNat ++ (leBytes 4 h.thiszone.toNat ++
      (leBytes 4 h.sigfigs.toNat ++ (leBytes 4 h.snaplen.toNat ++
        leBytes 4 h.linktype.toNat)))))

def PcapFileHeader.ofBytes (bs : List Byte) : PcapFileHeader where
  magic := BitVec.ofNat 32 (leField 0 4 bs)
  versionMajor := BitVec.ofNat 16 (leField 4 2 bs)
  versionMinor := BitVec.ofNat 16 (leField 6 2 bs)
  thiszone := BitVec.ofNat 32 (leField 8 4 bs)
  sigfigs := BitVec.ofNat 32 (leField 12 4 bs)
  snaplen := BitVec.ofNat 32 (leField 16 4 bs)
  linktype := BitVec.ofNat 32 (leField 20 4 bs)

def PcapSfPkthdr.bytes (h : PcapSfPkthdr) : List Byte :=
  leBytes 4 h.ts.tvSec.toNat ++ (leBytes 4 h.ts.tvUsec.toNat ++
    (leBytes 4 h.caplen.toNat ++ leBytes 4 h.len.toNat))

def PcapSfPkthdr.ofBytes (bs : List Byte) : PcapSfPkthdr where
  ts := ⟨BitVec.ofNat 32 (leField 0 4 bs), BitVec.ofNat 32 (leField 4 4 bs)⟩
  caplen := BitVec.ofNat 32 (leField 8 4 bs)
  len := BitVec.ofNat 32 (leField 12 4 bs)

@[simp] theorem PcapFileHeader.length_bytes (h : PcapFileHeader) :
    h.bytes.length = sizeofPcapFileHeader := by
  simp [bytes]

@[simp] theorem PcapSfPkthdr.length_bytes (h : PcapSfPkthdr) :
    h.bytes.length = sizeofPcapSfPkthdr := by
  simp [bytes]

theorem toNat_mod_word (x : BitVec 32) : x.toNat % 4294967296 = x.toNat :=
  Nat.mod_eq_of_lt x.isLt

theorem toNat_mod_half (x : BitVec 16) : x.toNat % 65536 = x.toNat :=
  Nat.mod_eq_of_lt x.isLt

@[simp] theorem PcapFileHeader.ofBytes_bytes (h : PcapFileHeader) :
    ofBytes h.bytes = h := by
  simp [ofBytes, bytes, leField_append_left, leField_leBytes_append,
    leField_leBytes, toNat_mod_word, toNat_mod_half]

@[simp] theorem PcapSfPkthdr.ofBytes_bytes (h : PcapSfPkthdr) :
    ofBytes h.bytes = h := by
  simp [ofBytes, bytes, leField_append_left, leField_leBytes_append,
    leField_leBytes, toNat_mod_word]

/-- Every 16 bytes are those of a packet header. -/
theorem PcapSfPkthdr.bytes_ofBytes {bs : List Byte} (h : bs.length = sizeofPcapSfPkthdr) :
    (ofBytes bs).bytes = bs := by
  have hfield : ∀ off, off + 4 ≤ 16 →
      leBytes 4 (BitVec.ofNat 32 (leField off 4 bs)).toNat = (bs.drop off).take 4 := by
    intro off hoff
    have hlt : leField off 4 bs < 2 ^ 32 := leField_lt off 4 bs
    rw [BitVec.toNat_ofNat, Nat.mod_eq_of_lt hlt, leBytes_leField (h ▸ hoff)]
  have hlast : (bs.drop 12).take 4 = bs.drop 12 := by
    apply List.take_of_length_le
    rw [List.length_drop, h]
    decide
  have hcut : ∀ off, (bs.drop off).take 4 ++ bs.drop (off + 4) = bs.drop off := by
    intro off
    rw [← List.drop_drop, List.take_append_drop]
  have hbytes : (ofBytes bs).bytes =
      leBytes 4 (BitVec.ofNat 32 (leField 0 4 bs)).toNat ++
        (leBytes 4 (BitVec.ofNat 32 (leField 4 4 bs)).toNat ++
          (leBytes 4 (BitVec.ofNat 32 (leField 8 4 bs)).toNat ++
            leBytes 4 (BitVec.ofNat 32 (leField 12 4 bs)).toNat)) := rfl
  rw [hbytes, hfield 0 (by decide), hfield 4 (by decide), hfield 8 (by decide),
    hfield 12 (by decide), hlast, hcut 8, hcut 4, hcut 0, List.drop_zero]

theorem exists_hdr_of_length {bs : List Byte} (h : sizeofPcapSfPkthdr ≤ bs.length) :
    ∃ (hdr : PcapSfPkthdr) (rest : List Byte), bs = hdr.bytes ++ rest := by
  refine ⟨.ofBytes (bs.take sizeofPcapSfPkthdr), bs.drop sizeofPcapSfPkthdr, ?_⟩
  rw [PcapSfPkthdr.bytes_ofBytes (List.length_take_of_le h), List.take_append_drop]

def bswap16 (x : BitVec 16) : BitVec 16 :=
  x.extractLsb' 0 8 ++ x.extractLsb' 8 8

def bswap32 (x : BitVec 32) : BitVec 32 :=
  x.extractLsb' 0 8 ++ x.extractLsb' 8 8 ++ x.extractLsb' 16 8 ++
    x.extractLsb' 24 8

/-- One packet as a PCAP file stores it. -/
structure Record where
  hdr : PcapSfPkthdr
  payload : List Byte
  complete : payload.length = hdr.caplen.toNat
deriving DecidableEq

def Record.bytes (r : Record) : List Byte := r.hdr.bytes ++ r.payload

@[simp] theorem Record.length_bytes (r : Record) :
    r.bytes.length = sizeofPcapSfPkthdr + r.payload.length := by
  simp [bytes]

def recordsBytes (rs : List Record) : List Byte := rs.flatMap Record.bytes

@[simp] theorem recordsBytes_nil : recordsBytes [] = [] := rfl

@[simp] theorem recordsBytes_cons (r : Record) (rs : List Record) :
    recordsBytes (r :: rs) = r.bytes ++ recordsBytes rs := rfl

@[simp] theorem recordsBytes_append (rs rs' : List Record) :
    recordsBytes (rs ++ rs') = recordsBytes rs ++ recordsBytes rs' := by
  simp [recordsBytes]

end Pcap
