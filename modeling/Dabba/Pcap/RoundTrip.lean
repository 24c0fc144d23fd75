import Dabba.Pcap.Reading

/-!
# Whole sessions on a PCAP file

A session opens a file, writes packets and closes it; the first one creates the
file and the others append to it. After any number of sessions the file is its
header followed by the records of all packets in order. Reading it returns
exactly these packets, again after rewinding, and skipping over the payloads
counts them. The counter of the test tools returns its count as an `int`, so the
value it reports is right below `2 ^ 31` packets only.
-/

namespace Pcap

open Posix Program

def writeAll (fd : ℤ) : List Packet → Prog FileCall Unit
  | [] => return ()
  | p :: ps => do
      let _ ← ldabPcapWrite fd p.payload p.pktLen p.pktSnaplen p.tvSec p.tvUsec
      writeAll fd ps

def createSession (path : Path) (ps : List Packet) : Prog FileCall Unit := do
  let fd ← ldabPcapCreate path linktypeEn10mb
  writeAll fd ps
  let _ ← ldabPcapClose fd
  return ()

def appendSession (path : Path) (ps : List Packet) : Prog FileCall Unit := do
  let fd ← ldabPcapOpen path (oRdwr ||| oAppend)
  writeAll fd ps
  let _ ← ldabPcapClose fd
  return ()

def appendSessions (path : Path) : List (List Packet) → Prog FileCall Unit
  | [] => return ()
  | ps :: rest => do
      appendSession path ps
      appendSessions path rest

/-- The counting loop of the test tool, `none` when the bound on its iterations
is used up. -/
def pktcntLoop (fd : ℤ) : ℕ → ℕ → Prog FileCall (Option ℕ)
  | 0, _ => return none
  | fuel + 1, a => do
      let got ← FileCall.read fd sizeofPcapSfPkthdr
      match got with
      | none => return some a
      | some hdr =>
          if hdr.length = sizeofPcapSfPkthdr then
            let off ← FileCall.lseek fd (PcapSfPkthdr.ofBytes hdr).caplen.toNat .cur
            if off < 0 then
              return some a
            else
              pktcntLoop fd fuel (a + 1)
          else
            return some a

/-- Counts the packets of a file; the count is returned as an `int`. -/
def pktcnt (fuel : ℕ) (pcap : Path) : Prog FileCall (Option ℤ) := do
  let fd ← ldabPcapOpen pcap 0
  if fd < 0 then
    return some 0
  else
    let a ← pktcntLoop fd fuel 0
    let _ ← FileCall.close fd
    return a.map fun a => (BitVec.ofNat 32 a).toInt

/-- Everything a reader sees: the descriptor, what `n` reads return, what they
return again after a rewind, and the packet count. -/
def readBack (path : Path) (pktLen : BitVec 32) (n fuel : ℕ) :
    Prog FileCall
      (ℤ × List (ℤ × List Byte) × List (ℤ × List Byte) × Option ℤ) := do
  let fd ← ldabPcapOpen path oRdonly
  let rs ← readN fd pktLen n
  let _ ← ldabPcapRewind fd
  let rs' ← readN fd pktLen n
  let cnt ← pktcnt fuel path
  return (fd, rs, rs', cnt)

def writeReadBack (path : Path) (first : List Packet) (rest : List (List Packet))
    (pktLen : BitVec 32) (n fuel : ℕ) :
    Prog FileCall
      (ℤ × List (ℤ × List Byte) × List (ℤ × List Byte) × Option ℤ) := do
  createSession path first
  appendSessions path rest
  readBack path pktLen n fuel

def Record.received (r : Record) : ℤ × List Byte := (r.payload.length, r.payload)

def records (ps : List Packet) : List Record := ps.map Packet.record

@[simp] theorem length_records (ps : List Packet) :
    (records ps).length = ps.length := by
  simp [records]

theorem records_append (ps qs : List Packet) :
    records (ps ++ qs) = records ps ++ records qs := by
  simp [records]

/-- The path names a file with this header and these bytes behind it. -/
def HasFile {S : Type} (os : Os S) (path : Path) (hdr : PcapFileHeader)
    (bytes : List Byte) : Prop :=
  ∃ i, os.dir path = some i ∧ os.data i = hdr.bytes ++ bytes

def Stores {S : Type} (os : Os S) (path : Path) (rs : List Record) : Prop :=
  ∃ i, os.dir path = some i ∧
    os.data i = (createdHeader linktypeEn10mb).bytes ++ recordsBytes rs

section Complete

variable {S : Type} {os : Os S} {fd : ℤ} {f : OpenFile} {path : Path}

/-- Writing packets at the end of the file appends their records. -/
theorem wp_writeAll {Q : Unit → Os S → Prop} {ps : List Packet} (hpos : 0 < fd)
    (hfd : os.fds fd = some (.file f)) (hw : f.writable)
    (happend : f.flags &&& oAppend ≠ oAppend)
    (hend : f.offset = (os.data f.inode).length)
    (h : Q () (os.putFile fd
      { f with offset := f.offset + (recordsBytes (records ps)).length }
      (os.data f.inode ++ recordsBytes (records ps)))) :
    (writeAll fd ps).wp Os.completeSem Q os := by
  induction ps generalizing os f with
  | nil =>
      simp only [records, List.map_nil, recordsBytes_nil, List.length_nil,
        Nat.add_zero, List.append_nil, Os.putFile_self os fd f hfd] at h
      exact h
  | cons p ps ih =>
      simp only [writeAll, Prog.bind_eq, Prog.wp_bind]
      apply wp_ldabPcapWrite hpos hfd hw happend hend
      apply ih (f := { f with offset := f.offset + p.record.bytes.length })
        (Os.putFile_fds_self _ _ _ _) hw happend
      · simp only [Os.putFile_data_self, List.length_append, hend]
      · simp only [Os.putFile_putFile, Os.putFile_data_self, List.append_assoc,
          Nat.add_assoc]
        simpa [records, Nat.add_assoc] using h

theorem wp_createSession {Q : Unit → Os S → Prop} {ps : List Packet}
    (h : ∀ os', Stores os' path (records ps) → Q () os') :
    (createSession path ps).wp Os.completeSem Q os := by
  simp only [createSession, Prog.bind_eq, Prog.wp_bind]
  apply wp_ldabPcapCreate
  intro n os' hn hdir hfd hdata
  have hw : oWronly &&& oAccmode ≠ oRdonly := by decide
  have happend : oWronly &&& oAppend ≠ oAppend := by decide
  apply wp_writeAll (by omega) hfd hw happend
  · rw [hdata, PcapFileHeader.length_bytes]
  · apply wp_ldabPcapClose (Os.putFile_fds_self _ _ _ _)
    refine h _ ⟨_, hdir, ?_⟩
    rw [Os.closed_data, Os.putFile_data_self, hdata]

/-- A session that appends adds the records of its packets to a file, whatever the
file holds behind its header. -/
theorem wp_appendSession_file {Q : Unit → Os S → Prop} {ps : List Packet}
    {hdr : PcapFileHeader} {bytes : List Byte} (hfile : HasFile os path hdr bytes)
    (hvalid : hdr.swapped.isValid = true)
    (h : ∀ os', HasFile os' path hdr (bytes ++ recordsBytes (records ps)) → Q () os') :
    (appendSession path ps).wp Os.completeSem Q os := by
  obtain ⟨i, hdir, hdata⟩ := hfile
  simp only [appendSession, Prog.bind_eq, Prog.wp_bind]
  apply wp_ldabPcapOpen_append hdir hdata hvalid
  intro n hfresh
  have hw : oRdwr &&& oAccmode ≠ oRdonly := by decide
  have happend : oRdwr &&& oAppend ≠ oAppend := by decide
  apply wp_writeAll (f := ⟨os.next, i, (os.data i).length, oRdwr⟩) hfresh.1
    (Os.install_fds_self _ _ _) hw happend rfl
  apply wp_ldabPcapClose (Os.putFile_fds_self _ _ _ _)
  refine h _ ⟨i, hdir, ?_⟩
  rw [Os.closed_data, Os.install_data, hdata, ← List.append_assoc]
  exact Os.putFile_data_self _ _ _ _

theorem wp_appendSession {Q : Unit → Os S → Prop} {ps : List Packet}
    {rs : List Record} (hstores : Stores os path rs)
    (h : ∀ os', Stores os' path (rs ++ records ps) → Q () os') :
    (appendSession path ps).wp Os.completeSem Q os := by
  apply wp_appendSession_file hstores createdHeader_isValid
  intro os' hfile
  apply h
  rwa [← recordsBytes_append] at hfile

theorem wp_appendSessions {Q : Unit → Os S → Prop} {rest : List (List Packet)}
    {rs : List Record} (hstores : Stores os path rs)
    (h : ∀ os', Stores os' path (rs ++ records rest.flatten) → Q () os') :
    (appendSessions path rest).wp Os.completeSem Q os := by
  induction rest generalizing os rs with
  | nil => exact h os (by simpa [records] using hstores)
  | cons ps rest ih =>
      simp only [appendSessions, Prog.bind_eq, Prog.wp_bind]
      apply wp_appendSession hstores
      intro os' hstores'
      apply ih hstores'
      intro os'' hstores''
      apply h
      simpa [records, List.append_assoc] using hstores''

/-- Reading at a record boundary returns the remaining records in order, and
then reports the end of the file. -/
theorem wp_readN {Q : List (ℤ × List Byte) → Os S → Prop} {done : List Byte}
    {rs : List Record} {pktLen : BitVec 32} {m : ℕ} (hpos : 0 < fd)
    (hlen : pktLen ≠ 0) (hbuf : ∀ r ∈ rs, r.payload.length ≤ pktLen.toNat)
    (hfd : os.fds fd = some (.file f)) (hr : f.readable)
    (hdata : os.data f.inode = done ++ recordsBytes rs)
    (hoff : f.offset = done.length)
    (h : Q (rs.map Record.received ++ List.replicate m (0, []))
      (os.seek fd f (os.data f.inode).length)) :
    (readN fd pktLen (rs.length + m)).wp Os.completeSem Q os := by
  have hend : done.length + (recordsBytes rs).length = (done ++ recordsBytes rs).length :=
    List.length_append.symm
  have hread : (readPackets pktLen.toNat (done ++ recordsBytes rs) done.length
      (rs.length + m)).map received =
        rs.map Record.received ++ List.replicate m (0, []) := by
    have hpackets := readPackets_records done [] hbuf m
    rw [List.append_nil, hend, readPackets_end] at hpackets
    rw [hpackets, List.map_append, List.map_map, List.map_replicate]
    rfl
  have hoffset : offsetAfter pktLen.toNat (done ++ recordsBytes rs) done.length
      (rs.length + m) = (done ++ recordsBytes rs).length := by
    have hrecords := offsetAfter_records done [] hbuf
    rw [List.append_nil, hend] at hrecords
    rw [offsetAfter_add, hrecords, offsetAfter_end]
  apply wp_readN_eq hpos hlen hfd hr
  rw [hoff, hdata, hread, hoffset, ← hdata]
  exact h

/-- The counting loop counts the remaining records. -/
theorem wp_pktcntLoop {Q : Option ℕ → Os S → Prop} {done : List Byte}
    {rs : List Record} {fuel a : ℕ} (hfuel : rs.length < fuel)
    (hfd : os.fds fd = some (.file f)) (hr : f.readable)
    (hdata : os.data f.inode = done ++ recordsBytes rs)
    (hoff : f.offset = done.length)
    (h : Q (some (a + rs.length)) (os.seek fd f (os.data f.inode).length)) :
    (pktcntLoop fd fuel a).wp Os.completeSem Q os := by
  induction rs generalizing os f done a fuel with
  | nil =>
      obtain ⟨fuel, rfl⟩ := Nat.exists_eq_succ_of_ne_zero (by omega : fuel ≠ 0)
      have hend : f.offset = (os.data f.inode).length := by
        rw [hoff, hdata, recordsBytes_nil, List.append_nil]
      simp only [pktcntLoop, Prog.bind_eq, Prog.wp_bind, Prog.liftM_eq]
      apply Os.wp_read_complete hfd hr
      rw [hend, readAt_end]
      simpa using h
  | cons r rs ih =>
      obtain ⟨fuel, rfl⟩ := Nat.exists_eq_succ_of_ne_zero (by omega : fuel ≠ 0)
      have hnext : os.data f.inode = (done ++ r.bytes) ++ recordsBytes rs := by
        rw [hdata, recordsBytes_cons, List.append_assoc]
      simp only [pktcntLoop, Prog.bind_eq, Prog.wp_bind, Prog.liftM_eq]
      apply Os.wp_read_complete hfd hr
      rw [hdata, recordsBytes_cons, hoff, readAt_record]
      simp only [PcapSfPkthdr.length_bytes, if_true, PcapSfPkthdr.ofBytes_bytes,
        Prog.wp_bind]
      apply Os.wp_lseek_complete
        (f := { f with offset := done.length + sizeofPcapSfPkthdr })
        (Os.seek_fds_self _ _ _ _) (done.length + r.bytes.length)
      · rw [Record.length_bytes, r.complete]
        push_cast
        ring
      · rw [if_neg (by omega), Os.seek_seek]
        apply ih (f := { f with offset := done.length + r.bytes.length })
          (by simpa using hfuel) (Os.seek_fds_self _ _ _ _) hr hnext
        · simp
        · simpa [Nat.add_assoc, Nat.add_comm 1] using h

theorem wp_pktcnt {Q : Option ℤ → Os S → Prop} {rs : List Record} {fuel : ℕ}
    (hstores : Stores os path rs) (hfuel : rs.length < fuel)
    (h : ∀ os', Q (some (BitVec.ofNat 32 rs.length).toInt) os') :
    (pktcnt fuel path).wp Os.completeSem Q os := by
  obtain ⟨i, hdir, hdata⟩ := hstores
  have hr : (0 : BitVec 32) &&& oAccmode ≠ oWronly := by decide
  simp only [pktcnt, Prog.bind_eq, Prog.wp_bind]
  apply wp_ldabPcapOpen (by decide) hr hdir hdata createdHeader_isValid
  intro n hfresh
  have hpos : (0 : ℤ) < n := hfresh.1
  rw [if_neg (by omega)]
  simp only [Prog.wp_bind, Prog.liftM_eq]
  apply wp_pktcntLoop (f := ⟨os.next, i, sizeofPcapFileHeader, 0⟩) hfuel
    (Os.install_fds_self _ _ _) hr hdata (by simp)
  apply Os.wp_close_complete (Os.seek_fds_self _ _ _ _)
  simpa using h _

/-- What a reader sees of the packets of all sessions. -/
theorem wp_readBack
    {Q : ℤ × List (ℤ × List Byte) × List (ℤ × List Byte) × Option ℤ →
      Os S → Prop}
    {rs : List Record} {pktLen : BitVec 32} {m fuel : ℕ}
    (hstores : Stores os path rs) (hlen : pktLen ≠ 0)
    (hbuf : ∀ r ∈ rs, r.payload.length ≤ pktLen.toNat) (hfuel : rs.length < fuel)
    (h : ∀ (fd : ℤ) (os' : Os S), 0 < fd →
      Q (fd, rs.map Record.received ++ List.replicate m (0, []),
        rs.map Record.received ++ List.replicate m (0, []),
        some (BitVec.ofNat 32 rs.length).toInt) os') :
    (readBack path pktLen (rs.length + m) fuel).wp Os.completeSem Q os := by
  obtain ⟨i, hdir, hdata⟩ := hstores
  have hr : oRdonly &&& oAccmode ≠ oWronly := by decide
  simp only [readBack, Prog.bind_eq, Prog.wp_bind]
  apply wp_ldabPcapOpen (by decide) hr hdir hdata createdHeader_isValid
  intro n hfresh
  apply wp_readN (f := ⟨os.next, i, sizeofPcapFileHeader, oRdonly⟩) hfresh.1 hlen
    hbuf (Os.install_fds_self _ _ _) hr hdata (by simp)
  apply wp_ldabPcapRewind (Os.seek_fds_self _ _ _ _)
  simp only [Os.seek_install]
  apply wp_readN (f := ⟨os.next, i, sizeofPcapFileHeader, oRdonly⟩) hfresh.1 hlen
    hbuf (Os.install_fds_self _ _ _) hr hdata (by simp)
  simp only [Os.seek_install]
  have hstores' : ∀ d, Stores (os.install n d) path rs :=
    fun d => ⟨i, hdir, hdata⟩
  apply wp_pktcnt (hstores' _) hfuel
  intro os'
  exact h n os' hfresh.1

end Complete

def allPackets (first : List Packet) (rest : List (List Packet)) : List Packet :=
  first ++ rest.flatten

/-- What a caller of `ldabPcapRead` should receive for the packets: each one, and
zero from then on. -/
def expected (ps : List Packet) (m : ℕ) : List (ℤ × List Byte) :=
  (ps.map fun p => ((p.payload.length : ℤ), p.payload)) ++
    List.replicate m (0, [])

/-- The round trip: with a buffer as long as every payload the file opens, `m`
reads more than there are packets return the packets in order and then zero, they
do so again after a rewind, and the packet count is the number of writes. -/
def RoundTrips {S : Type} (os : Os S) (path : Path) (first : List Packet)
    (rest : List (List Packet)) : Prop :=
  ∀ (pktLen : BitVec 32) (m fuel : ℕ), pktLen ≠ 0 →
    (∀ p ∈ allPackets first rest, p.payload.length ≤ pktLen.toNat) →
    (allPackets first rest).length < fuel →
    (writeReadBack path first rest pktLen ((allPackets first rest).length + m)
      fuel).wp Os.completeSem
      (fun seen _ => 0 < seen.1 ∧ seen.2.1 = expected (allPackets first rest) m ∧
        seen.2.2.1 = expected (allPackets first rest) m ∧
        seen.2.2.2 = some ((allPackets first rest).length : ℤ)) os

/-- Everything in the round trip but the count, which is the number of packets as
an `int`. -/
theorem wp_writeReadBack {S : Type} (os : Os S) (path : Path)
    (first : List Packet) (rest : List (List Packet)) {pktLen : BitVec 32}
    {m fuel : ℕ} (hlen : pktLen ≠ 0)
    (hbuf : ∀ p ∈ allPackets first rest, p.payload.length ≤ pktLen.toNat)
    (hfuel : (allPackets first rest).length < fuel) :
    (writeReadBack path first rest pktLen ((allPackets first rest).length + m)
      fuel).wp Os.completeSem
      (fun seen _ => 0 < seen.1 ∧ seen.2.1 = expected (allPackets first rest) m ∧
        seen.2.2.1 = expected (allPackets first rest) m ∧
        seen.2.2.2 =
          some (BitVec.ofNat 32 (allPackets first rest).length).toInt) os := by
  have hreceived : (records (allPackets first rest)).map Record.received ++
      List.replicate m (0, []) = expected (allPackets first rest) m := by
    simp [records, expected, Record.received, Packet.record]
  simp only [writeReadBack, Prog.bind_eq, Prog.wp_bind]
  apply wp_createSession
  intro os₁ hstores₁
  apply wp_appendSessions hstores₁
  intro os₂ hstores₂
  rw [← records_append] at hstores₂
  rw [← length_records (allPackets first rest)] at hfuel ⊢
  apply wp_readBack hstores₂ hlen _ hfuel
  · intro fd os' hpos
    exact ⟨hpos, hreceived, hreceived, rfl⟩
  · intro r hr
    obtain ⟨p, hp, rfl⟩ := List.mem_map.1 hr
    exact hbuf p hp

theorem toInt_ofNat_eq_iff (n : ℕ) :
    (BitVec.ofNat 32 n).toInt = (n : ℤ) ↔ n < 2 ^ 31 := by
  constructor
  · intro h
    have hlt := (BitVec.ofNat 32 n).toInt_lt
    rw [h] at hlt
    omega
  · intro h
    rw [BitVec.toInt_eq_toNat_of_lt] <;> rw [BitVec.toNat_ofNat] <;> omega

theorem Packet.length_le_allOnes (p : Packet) :
    p.payload.length ≤ (0xffffffff : BitVec 32).toNat := by
  have hlt := p.lt
  rw [show (0xffffffff : BitVec 32).toNat = 2 ^ 32 - 1 from rfl]
  omega

/-- The round trip fails beyond the range of `int`, by the count alone. -/
theorem not_roundTrips {S : Type} {os : Os S} (hfree : os.Unexhausted)
    {path : Path} {first : List Packet} {rest : List (List Packet)}
    (hcount : ¬ (allPackets first rest).length < 2 ^ 31) :
    ¬ RoundTrips os path first rest := by
  intro hround
  have hbuf : ∀ p ∈ allPackets first rest,
      p.payload.length ≤ (0xffffffff : BitVec 32).toNat :=
    fun p _ => p.length_le_allOnes
  have hclaim := hround 0xffffffff 0 _ (by decide) hbuf (Nat.lt_succ_self _)
  have hcode := wp_writeReadBack os path first rest (m := 0) (by decide) hbuf (Nat.lt_succ_self _)
  obtain ⟨seen, os', ⟨⟨-, -, -, hseen⟩, -, -, -, hseen'⟩, -⟩ :=
    Os.exists_of_wp_complete ((Prog.wp_and _).2 ⟨hclaim, hcode⟩) hfree
  rw [hseen, Option.some.injEq] at hseen'
  exact hcount ((toInt_ofNat_eq_iff _).1 hseen'.symm)

/-- Whole sessions of writes are read back exactly and counted right, if and only
if there are fewer than `2 ^ 31` packets. -/
theorem pcap_roundTrips_iff {S : Type} (os : Os S) (hfree : os.Unexhausted)
    (path : Path) (first : List Packet) (rest : List (List Packet)) :
    RoundTrips os path first rest ↔ (allPackets first rest).length < 2 ^ 31 := by
  constructor
  · intro hround
    by_contra hcount
    exact not_roundTrips hfree hcount hround
  · intro hcount pktLen m fuel hlen hbuf hfuel
    have h := wp_writeReadBack os path first rest (m := m) hlen hbuf hfuel
    rwa [(toInt_ofNat_eq_iff _).2 hcount] at h

def emptyOs : Os Unit where
  errno := 0
  fds := fun _ => none
  resolve := id
  entry := fun _ => none
  data := fun _ => []
  next := 0

theorem emptyOs_unexhausted : emptyOs.Unexhausted := fun k => ⟨k, le_rfl, rfl⟩

def bytePacket : Packet where
  payload := [0x2a]
  pktLen := 60
  tvSec := 1
  tvUsec := 2
  pos := by decide
  lt := by decide

theorem pcap_roundTrips_iff_bytePacket :
    RoundTrips emptyOs [0x61] [bytePacket] [[bytePacket], []] ↔
      (allPackets [bytePacket] [[bytePacket], []]).length < 2 ^ 31 :=
  pcap_roundTrips_iff emptyOs emptyOs_unexhausted _ _ _

/-- With `2 ^ 31` packets the count is reported as a negative number. -/
theorem not_roundTrips_two_pow_31 :
    ¬ RoundTrips emptyOs [0x61] (List.replicate (2 ^ 31) bytePacket) [] := by
  refine not_roundTrips emptyOs_unexhausted ?_
  rw [allPackets, List.flatten_nil, List.append_nil, List.length_replicate]
  exact lt_irrefl _

end Pcap
