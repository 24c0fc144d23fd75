import Dabba.Pcap.Session

/-!
# The slots of a packet ring

A ring is an area of `tp_frame_nr` slots shared with the kernel. Each slot starts
with a header: a status word, which says whether the kernel or the program owns
the slot, and the description of the packet in it. The frame of a slot is the
rest of that header with the memory from the slot on.
-/

namespace Tpacket

open Posix Pcap

def tpStatusKernel : BitVec 64 := 0
def tpStatusUser : BitVec 64 := 1
def tpStatusAvailable : BitVec 64 := 0
def tpStatusSendRequest : BitVec 64 := 1

/-- The geometry of a ring, `struct tpacket_req`. -/
structure TpacketReq where
  tpBlockSize : BitVec 32
  tpBlockNr : BitVec 32
  tpFrameSize : BitVec 32
  tpFrameNr : BitVec 32
deriving DecidableEq

/-- The description of a packet in `struct packet_mmap_header`, with the interface
the packet arrived on, and the memory that starts at the slot. -/
structure Frame where
  tpLen : BitVec 32
  tpSnaplen : BitVec 32
  tpMac : BitVec 16
  tpSec : BitVec 32
  tpUsec : BitVec 32
  sllIfindex : ℤ
  mem : List Byte
deriving DecidableEq

structure Slot where
  tpStatus : BitVec 64
  frame : Frame
deriving DecidableEq

def Slot.zero : Slot := ⟨tpStatusKernel, ⟨0, 0, 0, 0, 0, 0, []⟩⟩

def Slot.IsUser (s : Slot) : Prop := s.tpStatus &&& tpStatusUser = tpStatusUser

instance (s : Slot) : Decidable s.IsUser :=
  inferInstanceAs (Decidable (s.tpStatus &&& tpStatusUser = tpStatusUser))

theorem Slot.not_isUser_of_kernel {s : Slot} (h : s.tpStatus = tpStatusKernel) :
    ¬ s.IsUser := by
  rw [IsUser, h]
  decide

namespace Frame

/-- The number of bytes that are kept of a packet, `MIN` of its two bounds. -/
def caplen (tpFrameSize : BitVec 32) (f : Frame) : BitVec 32 :=
  if f.tpSnaplen < tpFrameSize then f.tpSnaplen else tpFrameSize

def pkt (f : Frame) : List Byte := f.mem.drop f.tpMac.toNat

/-- A frame the kernel delivers: the packet is not empty, and the memory holds
what is kept of it. -/
structure Deliverable (tpFrameSize : BitVec 32) (f : Frame) : Prop where
  snaplen_pos : 0 < f.tpSnaplen.toNat
  fits : f.tpMac.toNat + (f.caplen tpFrameSize).toNat ≤ f.mem.length

def recordBytes (tpFrameSize : BitVec 32) (f : Frame) : List Byte :=
  PcapSfPkthdr.bytes
    { ts := ⟨f.tpSec, f.tpUsec⟩
      caplen := f.caplen tpFrameSize
      len := f.tpLen } ++
    f.pkt.take (f.caplen tpFrameSize).toNat

variable {tpFrameSize : BitVec 32} {f : Frame}

theorem caplen_pos (hsize : 0 < tpFrameSize.toNat)
    (hpos : 0 < f.tpSnaplen.toNat) : 0 < (f.caplen tpFrameSize).toNat := by
  rw [caplen]
  split_ifs
  · exact hpos
  · exact hsize

theorem Deliverable.length_take (h : f.Deliverable tpFrameSize) :
    (f.pkt.take (f.caplen tpFrameSize).toNat).length =
      (f.caplen tpFrameSize).toNat := by
  have hfits := h.fits
  rw [List.length_take, pkt, List.length_drop]
  omega

/-- The packet of a frame, as the arguments of `ldabPcapWrite`. -/
def toPacket (hsize : 0 < tpFrameSize.toNat) (h : f.Deliverable tpFrameSize) :
    Packet where
  payload := f.pkt.take (f.caplen tpFrameSize).toNat
  pktLen := f.tpLen.setWidth 64
  tvSec := f.tpSec.setWidth 64
  tvUsec := f.tpUsec.setWidth 64
  pos := by
    rw [h.length_take]
    exact caplen_pos hsize h.snaplen_pos
  lt := by
    rw [h.length_take]
    exact (f.caplen tpFrameSize).isLt

theorem record_toPacket (hsize : 0 < tpFrameSize.toNat)
    (h : f.Deliverable tpFrameSize) :
    (f.toPacket hsize h).record.bytes = f.recordBytes tpFrameSize := by
  have hcap : (f.toPacket hsize h).hdr.caplen = f.caplen tpFrameSize := by
    apply BitVec.eq_of_toNat_eq
    rw [Packet.caplen_hdr, toPacket, h.length_take]
  have hhdr : (f.toPacket hsize h).hdr =
      { ts := ⟨f.tpSec, f.tpUsec⟩
        caplen := f.caplen tpFrameSize
        len := f.tpLen } := by
    rw [← hcap]
    simp [Packet.hdr, writtenHdr, toPacket]
  have hbytes : (f.toPacket hsize h).record.bytes =
      (f.toPacket hsize h).hdr.bytes ++ (f.toPacket hsize h).payload := rfl
  rw [hbytes, hhdr]
  rfl

end Frame

end Tpacket
