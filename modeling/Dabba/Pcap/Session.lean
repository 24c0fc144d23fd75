import Dabba.Pcap.Descriptor

/-!
# Single operations on a well-formed PCAP file

What each operation does when its calls succeed and are complete. A write at the
end of the file appends the bytes of one record. A read at a record boundary
takes exactly that record, and at the end of the file reports that nothing is
left. Opening leaves the offset behind the file header, or at the end of the file
when the caller appends.
-/

namespace Pcap

open Posix Program

/-- A packet as a caller hands it to `ldabPcapWrite`. -/
structure Packet where
  payload : List Byte
  pktLen : BitVec 64
  tvSec : BitVec 64
  tvUsec : BitVec 64
  pos : 1 ≤ payload.length
  lt : payload.length < 2 ^ 32

def Packet.pktSnaplen (p : Packet) : BitVec 64 :=
  BitVec.ofNat 64 p.payload.length

theorem Packet.pktSnaplen_ne_zero (p : Packet) : p.pktSnaplen ≠ 0 := by
  have hpos := p.pos
  have hlt := p.lt
  intro h
  have hzero : p.payload.length % 2 ^ 64 = 0 := by
    simpa [pktSnaplen] using congrArg BitVec.toNat h
  omega

def Packet.hdr (p : Packet) : PcapSfPkthdr :=
  writtenHdr p.pktLen p.pktSnaplen p.tvSec p.tvUsec

@[simp] theorem Packet.caplen_hdr (p : Packet) :
    p.hdr.caplen.toNat = p.payload.length := by
  have hlt := p.lt
  simp only [hdr, writtenHdr, pktSnaplen, BitVec.toNat_setWidth,
    BitVec.toNat_ofNat]
  omega

def Packet.record (p : Packet) : Record where
  hdr := p.hdr
  payload := p.payload
  complete := p.caplen_hdr.symm

theorem readAt_record (done post : List Byte) (r : Record) :
    readAt (done ++ (r.bytes ++ post)) done.length sizeofPcapSfPkthdr =
      r.hdr.bytes := by
  rw [readAt, List.drop_left, Record.bytes, List.append_assoc]
  exact List.take_left' r.hdr.length_bytes

theorem readAt_end (data : List Byte) (n : ℕ) : readAt data data.length n = [] := by
  simp [readAt]

section Complete

variable {S : Type} {os : Os S} {fd : ℤ} {f : OpenFile}

/-- A write at the end of the file appends the record of the packet. -/
theorem wp_ldabPcapWrite {Q : ℤ → Os S → Prop} {p : Packet} (hpos : 0 < fd)
    (hfd : os.fds fd = some (.file f)) (hw : f.writable)
    (happend : f.flags &&& oAppend ≠ oAppend)
    (hend : f.offset = (os.data f.inode).length)
    (h : Q p.payload.length
      (os.putFile fd { f with offset := f.offset + p.record.bytes.length }
        (os.data f.inode ++ p.record.bytes))) :
    (ldabPcapWrite fd p.payload p.pktLen p.pktSnaplen p.tvSec p.tvUsec).wp
      Os.completeSem Q os := by
  have hcap : (writtenHdr p.pktLen p.pktSnaplen p.tvSec p.tvUsec).caplen.toNat =
      p.payload.length := p.caplen_hdr
  simp only [ldabPcapWrite, Prog.bind_eq, Prog.wp_bind, Prog.wp_assert,
    Prog.liftM_eq]
  refine ⟨hpos, p.pktSnaplen_ne_zero, ?_⟩
  apply Os.wp_write_complete hfd hw happend
  rw [hend, writeAt_length]
  simp only [PcapSfPkthdr.length_bytes, ne_eq, not_true_eq_false, if_false,
    Prog.wp_bind]
  apply Os.wp_write_complete (f := { f with
    offset := (os.data f.inode).length + sizeofPcapSfPkthdr })
    (Os.putFile_fds_self _ _ _ _) hw happend
  rw [hcap, List.take_length, Os.putFile_data_self]
  -- The header has moved the end of the file to where the payload goes.
  have hlen : (os.data f.inode).length + sizeofPcapSfPkthdr =
      (os.data f.inode ++ p.hdr.bytes).length := by simp
  have hdata : writeAt (os.data f.inode ++ p.hdr.bytes)
      ((os.data f.inode).length + sizeofPcapSfPkthdr) p.payload =
      os.data f.inode ++ p.record.bytes := by
    rw [hlen, writeAt_length, List.append_assoc]
    rfl
  have hoff : (os.data f.inode).length + sizeofPcapSfPkthdr + p.payload.length =
      f.offset + p.record.bytes.length := by
    rw [hend, Record.length_bytes, Nat.add_assoc]
    rfl
  simp only [not_true_eq_false, if_false, Prog.pure_eq, Prog.wp_ret,
    Os.putFile_putFile]
  rw [hoff, ← Packet.hdr, hdata]
  exact h

/-- The descriptor writes to the end of the file, which holds the bytes. -/
def AtEnd (os : Os S) (fd : ℤ) (i : ℕ) (bytes : List Byte) : Prop :=
  ∃ f, os.fds fd = some (.file f) ∧ f.inode = i ∧ f.writable ∧
    f.flags &&& oAppend ≠ oAppend ∧ f.offset = bytes.length ∧ os.data i = bytes

theorem AtEnd.wp_ldabPcapWrite {i : ℕ} {bytes : List Byte} (hpos : 0 < fd)
    (h : AtEnd os fd i bytes) (p : Packet) :
    (ldabPcapWrite fd p.payload p.pktLen p.pktSnaplen p.tvSec p.tvUsec).wp
      Os.completeSem
      (fun r os' => 0 ≤ r ∧ AtEnd os' fd i (bytes ++ p.record.bytes)) os := by
  obtain ⟨f, hfd, rfl, hw, happend, hoff, rfl⟩ := h
  apply Pcap.wp_ldabPcapWrite hpos hfd hw happend hoff
  refine ⟨Int.natCast_nonneg _, _, Os.putFile_fds_self _ _ _ _, rfl, hw, happend,
    ?_, Os.putFile_data_self _ _ _ _⟩
  rw [List.length_append, ← hoff]

theorem ldabPcapWrite_take (pkt : List Byte)
    (pktLen pktSnaplen tvSec tvUsec : BitVec 64) :
    ldabPcapWrite fd (pkt.take (pktSnaplen.setWidth 32 : BitVec 32).toNat) pktLen
        pktSnaplen tvSec tvUsec =
      ldabPcapWrite fd pkt pktLen pktSnaplen tvSec tvUsec := by
  simp only [ldabPcapWrite, writtenHdr, List.take_take, min_self]

theorem wp_ldabPcapRewind {Q : ℤ → Os S → Prop}
    (hfd : os.fds fd = some (.file f))
    (h : Q 0 (os.seek fd f sizeofPcapFileHeader)) :
    (ldabPcapRewind fd).wp Os.completeSem Q os := by
  simp only [ldabPcapRewind, Prog.bind_eq, Prog.wp_bind, Prog.liftM_eq]
  apply Os.wp_lseek_complete hfd sizeofPcapFileHeader (by simp)
  simpa using h

theorem wp_ldabPcapClose {Q : ℤ → Os S → Prop} {d : Descriptor S}
    (hfd : os.fds fd = some d) (h : Q 0 (os.closed fd)) :
    (ldabPcapClose fd).wp Os.completeSem Q os := by
  simpa only [ldabPcapClose, Prog.liftM_eq, bind_pure] using
    Os.wp_close_complete hfd h

def createdHeader (linktype : BitVec 32) : PcapFileHeader where
  magic := tcpdumpMagic
  versionMajor := pcapVersionMajor
  versionMinor := pcapVersionMinor
  thiszone := 0
  sigfigs := 0
  snaplen := pcapDefaultSnapshotLen
  linktype := linktype

theorem createdHeader_isValid :
    (createdHeader linktypeEn10mb).swapped.isValid = true := by
  decide

/-- Creating a file leaves it with its header alone, open behind the header. -/
theorem wp_ldabPcapCreate {Q : ℤ → Os S → Prop} {path : Path}
    {linktype : BitVec 32}
    (h : ∀ (n : ℕ) (os' : Os S), 0 < n →
      os'.dir path = some (os.truncated path).1 →
      os'.fds n = some (.file
        ⟨os.next, (os.truncated path).1, sizeofPcapFileHeader, oWronly⟩) →
      os'.data (os.truncated path).1 = (createdHeader linktype).bytes → Q n os') :
    (ldabPcapCreate path linktype).wp Os.completeSem Q os := by
  simp only [ldabPcapCreate, Prog.bind_eq, Prog.wp_bind, Prog.liftM_eq]
  apply Os.wp_creat_complete
  intro n hfresh
  have hpos : (0 : ℤ) < n := hfresh.1
  rw [if_neg (by omega)]
  simp only [pcapFileHeaderWrite, Prog.bind_eq, Prog.wp_bind, Prog.wp_assert,
    Prog.liftM_eq]
  refine ⟨hpos, ?_⟩
  have hw : oWronly &&& oAccmode ≠ oRdonly := by decide
  have happend : oWronly &&& oAppend ≠ oAppend := by decide
  apply Os.wp_write_complete
    (f := ⟨os.next, (os.truncated path).1, 0, oWronly⟩)
    (Os.install_fds_self _ _ _) hw happend
  have hempty : (os.truncated path).2.data (os.truncated path).1 = [] := by
    simp [Os.truncated]
  simp only [PcapFileHeader.length_bytes, ne_eq, not_true_eq_false, if_false,
    Prog.pure_eq, Prog.wp_ret]
  refine h n _ (by omega) (Os.truncated_dir os path) (Os.putFile_fds_self _ _ _ _) ?_
  rw [Os.install_data, hempty]
  exact Os.putFile_data_self _ _ _ _

theorem wp_pcapIsValid {Q : Bool → Os S → Prop} {hdr : PcapFileHeader}
    {post : List Byte} (hpos : 0 < fd) (hfd : os.fds fd = some (.file f))
    (hr : f.readable) (hoff : f.offset = 0)
    (hdata : os.data f.inode = hdr.bytes ++ post)
    (hvalid : hdr.swapped.isValid = true)
    (h : Q true (os.seek fd f sizeofPcapFileHeader)) :
    (pcapIsValid fd).wp Os.completeSem Q os := by
  simp only [pcapIsValid, if_neg (show ¬ fd < 0 by omega), Prog.bind_eq,
    Prog.wp_bind, Prog.liftM_eq]
  apply Os.wp_read_complete hfd hr
  have hread : readAt (os.data f.inode) f.offset sizeofPcapFileHeader =
      hdr.bytes := by
    rw [readAt, hdata, hoff, List.drop_zero]
    exact List.take_left' hdr.length_bytes
  rw [hread]
  simpa [hvalid, hoff] using h

theorem wp_ldabPcapOpen {Q : ℤ → Os S → Prop} {path : Path}
    {flags : BitVec 32} {i : ℕ} {hdr : PcapFileHeader} {post : List Byte}
    (happend : flags &&& oAppend ≠ oAppend)
    (hr : flags &&& oAccmode ≠ oWronly) (hdir : os.dir path = some i)
    (hdata : os.data i = hdr.bytes ++ post)
    (hvalid : hdr.swapped.isValid = true)
    (h : ∀ n : ℕ, os.Fresh n → Q n (os.install n
      (.file ⟨os.next, i, sizeofPcapFileHeader, flags⟩))) :
    (ldabPcapOpen path flags).wp Os.completeSem Q os := by
  simp only [ldabPcapOpen, happend, if_false, Prog.bind_eq, Prog.wp_bind,
    Prog.liftM_eq]
  apply Os.wp_openAt_complete hdir
  intro n hfresh
  have hpos : (0 : ℤ) < n := hfresh.1
  rw [if_neg (by omega)]
  simp only [Prog.wp_bind]
  apply wp_pcapIsValid (f := ⟨os.next, i, 0, flags⟩) hpos
    (Os.install_fds_self _ _ _) hr rfl hdata hvalid
  simpa using h n hfresh

/-- Opening to append leaves the offset at the end of the file. -/
theorem wp_ldabPcapOpen_append {Q : ℤ → Os S → Prop} {path : Path} {i : ℕ}
    {hdr : PcapFileHeader} {post : List Byte} (hdir : os.dir path = some i)
    (hdata : os.data i = hdr.bytes ++ post)
    (hvalid : hdr.swapped.isValid = true)
    (h : ∀ n : ℕ, os.Fresh n → Q n (os.install n
      (.file ⟨os.next, i, (os.data i).length, oRdwr⟩))) :
    (ldabPcapOpen path (oRdwr ||| oAppend)).wp Os.completeSem Q os := by
  have happend : (oRdwr ||| oAppend) &&& oAppend = oAppend := by decide
  have hflags : (oRdwr ||| oAppend) &&& ~~~oAppend = oRdwr := by decide
  simp only [ldabPcapOpen, happend, if_true, hflags, Prog.bind_eq, Prog.wp_bind,
    Prog.liftM_eq]
  apply Os.wp_openAt_complete hdir
  intro n hfresh
  have hpos : (0 : ℤ) < n := hfresh.1
  rw [if_neg (by omega)]
  simp only [Prog.wp_bind]
  have hr : oRdwr &&& oAccmode ≠ oWronly := by decide
  apply wp_pcapIsValid (f := ⟨os.next, i, 0, oRdwr⟩) hpos
    (Os.install_fds_self _ _ _) hr rfl hdata hvalid
  simp only [Os.seek_install, Bool.true_eq_false, if_false, Prog.wp_bind]
  apply Os.wp_lseek_complete (Os.install_fds_self _ _ _) (os.data i).length
    (by simp)
  rw [if_neg (by omega)]
  simpa using h n hfresh

end Complete

end Pcap
