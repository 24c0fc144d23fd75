import Dabba.Pcap.Format
import Dabba.Posix.File

/-!
# Creating, opening, writing and reading PCAP files

The operations on a PCAP file work on a bare descriptor. Creating a file writes
its header, opening one reads and checks the header and then, if the caller asked
for `O_APPEND`, seeks to the end; the flag itself is never given to the kernel. A
write appends a packet header and a payload with two calls, and a read takes them
back with two calls. Every function returns what the C function returns, minus
one for failure.
-/

namespace Pcap

open Posix Program

/-- Writes the file header. -/
def pcapFileHeaderWrite (fd : ℤ) (linktype thiszone snaplen : BitVec 32) :
    Prog FileCall ℤ := do
  Prog.assert (0 < fd)
  let hdr : PcapFileHeader :=
    { magic := tcpdumpMagic
      versionMajor := pcapVersionMajor
      versionMinor := pcapVersionMinor
      thiszone := thiszone
      sigfigs := 0
      snaplen := snaplen
      linktype := linktype }
  let written ← FileCall.write fd hdr.bytes
  if written ≠ sizeofPcapFileHeader then
    return -1
  else
    return 0

def pcapLinktypeIsValid (linktype : BitVec 32) : Bool :=
  linktype == linktypeEn10mb

/-- The header as the check reads it: one with another magic number is swapped
first, except for the fields the check does not look at. -/
def PcapFileHeader.swapped (hdr : PcapFileHeader) : PcapFileHeader :=
  if hdr.magic ≠ tcpdumpMagic then
    { hdr with
      magic := bswap32 hdr.magic
      linktype := bswap32 hdr.linktype
      versionMajor := bswap16 hdr.versionMajor
      versionMinor := bswap16 hdr.versionMinor }
  else hdr

def PcapFileHeader.isValid (hdr : PcapFileHeader) : Bool :=
  !(decide (hdr.magic ≠ tcpdumpMagic ∨ hdr.versionMajor ≠ pcapVersionMajor ∨
    hdr.versionMinor ≠ pcapVersionMinor) || !pcapLinktypeIsValid hdr.linktype)

/-- Reads and checks the file header. -/
def pcapIsValid (fd : ℤ) : Prog FileCall Bool := do
  if fd < 0 then
    FileCall.setErrno einval
    return false
  else
    let got ← FileCall.read fd sizeofPcapFileHeader
    match got with
    | none =>
        FileCall.setErrno eio
        return false
    | some bytes =>
        if bytes.length ≠ sizeofPcapFileHeader then
          FileCall.setErrno eio
          return false
        else if (PcapFileHeader.ofBytes bytes).swapped.isValid = false then
          FileCall.setErrno einval
          return false
        else
          return true

def ldabPcapDestroy (fd : ℤ) (pcapPath : Path) : Prog FileCall Unit := do
  Prog.assert (0 < fd)
  let _ ← FileCall.close fd
  let _ ← FileCall.unlink pcapPath
  return ()

/-- Creates a PCAP file with the default snapshot length. -/
def ldabPcapCreate (pcapPath : Path) (linktype : BitVec 32) :
    Prog FileCall ℤ := do
  let fd ← FileCall.creat pcapPath
  if fd < 0 then
    return -1
  else
    let rc ← pcapFileHeaderWrite fd linktype 0 pcapDefaultSnapshotLen
    if rc ≠ 0 then
      ldabPcapDestroy fd pcapPath
      return -1
    else
      return fd

def ldabPcapClose (fd : ℤ) : Prog FileCall ℤ := do
  let rc ← FileCall.close fd
  return rc

/-- Opens a PCAP file whose header is valid. -/
def ldabPcapOpen (pcapPath : Path) (flags : BitVec 32) : Prog FileCall ℤ := do
  let append := flags &&& oAppend = oAppend
  let flags' := if append then flags &&& ~~~oAppend else flags
  let fd ← FileCall.openAt pcapPath flags'
  if fd < 0 then
    return -1
  else
    let valid ← pcapIsValid fd
    if valid = false then
      let _ ← ldabPcapClose fd
      return -1
    else if append then
      let off ← FileCall.lseek fd 0 .last
      if off < 0 then
        let _ ← ldabPcapClose fd
        return -1
      else
        return fd
    else
      return fd

/-- The packet header that `ldabPcapWrite` builds: the 64-bit arguments are
narrowed to the 32-bit fields. -/
def writtenHdr (pktLen pktSnaplen tvSec tvUsec : BitVec 64) : PcapSfPkthdr where
  ts := ⟨tvSec.setWidth 32, tvUsec.setWidth 32⟩
  caplen := pktSnaplen.setWidth 32
  len := pktLen.setWidth 32

/-- Writes a packet; `pkt` is the memory that starts at the packet. -/
def ldabPcapWrite (fd : ℤ) (pkt : List Byte)
    (pktLen pktSnaplen tvSec tvUsec : BitVec 64) : Prog FileCall ℤ := do
  Prog.assert (0 < fd)
  Prog.assert (pktSnaplen ≠ 0)
  let sfHdr := writtenHdr pktLen pktSnaplen tvSec tvUsec
  let written ← FileCall.write fd sfHdr.bytes
  if written ≠ sizeofPcapSfPkthdr then
    return -1
  else
    let written ← FileCall.write fd (pkt.take sfHdr.caplen.toNat)
    if written ≠ sfHdr.caplen.toNat then
      return -1
    else
      return written

/-- Reads the next packet: the value returned, and the bytes put into the
buffer of `pktLen` bytes. -/
def ldabPcapRead (fd : ℤ) (pktLen : BitVec 32) :
    Prog FileCall (ℤ × List Byte) := do
  Prog.assert (0 < fd)
  Prog.assert (pktLen ≠ 0)
  let got ← FileCall.read fd sizeofPcapSfPkthdr
  match got with
  | none => return (0, [])
  | some hdr =>
      if hdr.length ≠ sizeofPcapSfPkthdr then
        return (0, [])
      else
        let caplen := (PcapSfPkthdr.ofBytes hdr).caplen
        let got ← FileCall.read fd (min caplen.toNat pktLen.toNat)
        match got with
        | none => return (-1, [])
        | some bytes => return (bytes.length, bytes)

/-- Goes back to the first packet; the result is the C comparison with zero. -/
def ldabPcapRewind (fd : ℤ) : Prog FileCall ℤ := do
  let off ← FileCall.lseek fd sizeofPcapFileHeader .set
  return if off = 0 then 1 else 0

end Pcap
