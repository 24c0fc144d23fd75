import Dabba.Pcap.ByteOrder

/-!
# Reading a file over and over

A replay reads a file in rounds and goes back to the first packet between them. The
reader keeps no state but the offset of its descriptor, so each round depends on the
reads before it in the same round alone. A packet longer than the buffer leaves the
offset inside its payload, and what is left of it is taken for the next record.
-/

namespace Pcap

open Posix Program

/-- Reads in rounds and goes back to the first packet between them; the result is what
the last round reads. -/
def readRounds (fd : ℤ) (pktLen : BitVec 32) :
    List ℕ → ℕ → Prog FileCall (List (ℤ × List Byte))
  | [], n => readN fd pktLen n
  | k :: ks, n => do
      let _ ← readN fd pktLen k
      let _ ← ldabPcapRewind fd
      readRounds fd pktLen ks n

def replayFile (path : Path) (pktLen : BitVec 32) (ks : List ℕ) (n : ℕ) :
    Prog FileCall (ℤ × List (ℤ × List Byte)) := do
  let fd ← ldabPcapOpen path oRdonly
  let rs ← readRounds fd pktLen ks n
  return (fd, rs)

section Replay

variable {S : Type} {os : Os S} {path : Path} {hdr : PcapFileHeader} {fd : ℤ}
  {f : OpenFile} {bytes : List Byte} {pktLen : BitVec 32}

theorem wp_readRounds {Q : List (ℤ × List Byte) → Os S → Prop} {ks : List ℕ} {n : ℕ}
    (hpos : 0 < fd) (hlen : pktLen ≠ 0) (hfd : os.fds fd = some (.file f))
    (hr : f.readable) (hoff : f.offset = sizeofPcapFileHeader)
    (h : Q ((readPackets pktLen.toNat (os.data f.inode) sizeofPcapFileHeader n).map received)
      (os.seek fd f
        (offsetAfter pktLen.toNat (os.data f.inode) sizeofPcapFileHeader n))) :
    (readRounds fd pktLen ks n).wp Os.completeSem Q os := by
  induction ks generalizing os f with
  | nil => exact wp_readN_eq hpos hlen hfd hr (by rwa [hoff])
  | cons k ks ih =>
      simp only [readRounds, Prog.bind_eq, Prog.wp_bind]
      apply wp_readN_eq hpos hlen hfd hr
      apply wp_ldabPcapRewind (Os.seek_fds_self _ _ _ _)
      rw [Os.seek_seek]
      apply ih (f := { f with offset := sizeofPcapFileHeader })
        (Os.seek_fds_self _ _ _ _) hr rfl
      rw [Os.seek_seek]
      exact h

theorem wp_replayFile {Q : ℤ × List (ℤ × List Byte) → Os S → Prop} {ks : List ℕ} {n : ℕ}
    (hfile : HasFile os path hdr bytes) (hvalid : hdr.swapped.isValid = true)
    (hlen : pktLen ≠ 0)
    (h : ∀ (fd : ℤ) (os' : Os S) (f : OpenFile), 0 < fd → os'.fds fd = some (.file f) →
      f.readable → os'.data f.inode = hdr.bytes ++ bytes →
      f.offset = offsetAfter pktLen.toNat (hdr.bytes ++ bytes) sizeofPcapFileHeader n →
      Q (fd, (readPackets pktLen.toNat (hdr.bytes ++ bytes) sizeofPcapFileHeader n).map
        received) os') :
    (replayFile path pktLen ks n).wp Os.completeSem Q os := by
  obtain ⟨i, hdir, hdata⟩ := hfile
  have hr : oRdonly &&& oAccmode ≠ oWronly := by decide
  simp only [replayFile, Prog.bind_eq, Prog.wp_bind]
  apply wp_ldabPcapOpen (by decide) hr hdir hdata hvalid
  intro fd hfresh
  apply wp_readRounds (f := ⟨os.next, i, sizeofPcapFileHeader, oRdonly⟩) hfresh.1 hlen
    (Os.install_fds_self _ _ _) hr rfl
  rw [Os.install_data, hdata]
  exact h fd _ _ hfresh.1 (Os.seek_fds_self _ _ _ _) hr hdata rfl

end Replay

section Boundaries

variable {pktLen : ℕ} {rs : List Record}

/-- What the calls should return: of each packet the part that fits the buffer, and zero
from then on. -/
def expectedCalls (pktLen : ℕ) (rs : List Record) (n : ℕ) : List (ℤ × List Byte) :=
  ((rs.map fun r : Record =>
      (((min r.hdr.caplen.toNat pktLen : ℕ) : ℤ), r.payload.take pktLen)) ++
    List.replicate n (0, [])).take n

/-- The offset of the record that `n` whole records are in front of. -/
def recordBoundary (rs : List Record) (n : ℕ) : ℕ :=
  sizeofPcapFileHeader + (recordsBytes (rs.take n)).length

theorem expectedCalls_eq (pktLen : ℕ) (rs : List Record) (n : ℕ) :
    expectedCalls pktLen rs n =
      (expectedReads (rs.map fun r => r.payload.take pktLen) n).map received := by
  rw [expectedReads, List.map_take, List.map_append, List.map_map, List.map_replicate,
    expectedCalls]
  congr 2
  apply List.map_congr_left
  intro r _
  simp [received, r.complete, min_comm]

theorem offsetAfter_eq_boundary (done : List Byte)
    (hlen : ∀ r ∈ rs, r.payload.length ≤ pktLen) (n : ℕ) :
    offsetAfter pktLen (done ++ recordsBytes rs) done.length n =
      done.length + (recordsBytes (rs.take n)).length := by
  by_cases hn : n ≤ rs.length
  · have hlen' : ∀ r ∈ rs.take n, r.payload.length ≤ pktLen :=
      fun r hr => hlen r (List.mem_of_mem_take hr)
    have hoff := offsetAfter_records done (recordsBytes (rs.drop n)) hlen'
    rwa [← recordsBytes_append, List.take_append_drop, List.length_take_of_le hn] at hoff
  · obtain ⟨m, rfl⟩ := Nat.exists_eq_add_of_le (Nat.le_of_not_le hn)
    have hoff := offsetAfter_records done [] hlen
    rw [List.append_nil] at hoff
    rw [List.take_of_length_le (Nat.le_add_right _ _), offsetAfter_add, hoff,
      ← List.length_append, offsetAfter_end]

/-- A reader that is always at a boundary has met no record longer than its buffer. -/
theorem length_le_of_offsetAfter (done : List Byte)
    (h : ∀ n, offsetAfter pktLen (done ++ recordsBytes rs) done.length n =
      done.length + (recordsBytes (rs.take n)).length) :
    ∀ r ∈ rs, r.payload.length ≤ pktLen := by
  induction rs generalizing done with
  | nil => exact fun r hr => absurd hr List.not_mem_nil
  | cons r rs ih =>
      rw [recordsBytes_cons] at h
      have hlen : r.payload.length ≤ pktLen := by
        have hone := h 1
        rw [Record.bytes, List.append_assoc, offsetAfter, offsetAfter, readPacket_hdr,
          List.take_succ_cons, List.take_zero, recordsBytes_cons, recordsBytes_nil,
          List.append_nil, r.length_bytes, List.length_take, List.length_append,
          ← r.complete] at hone
        omega
      have hrest : ∀ r' ∈ rs, r'.payload.length ≤ pktLen := by
        apply ih (done ++ r.bytes)
        intro n
        have hnext := h (n + 1)
        rw [offsetAfter, readPacket_record r hlen, List.take_succ_cons, recordsBytes_cons,
          List.length_append, ← Nat.add_assoc] at hnext
        rw [List.append_assoc, List.length_append]
        exact hnext
      intro r' hr'
      rcases List.mem_cons.1 hr' with rfl | hr'
      · exact hlen
      · exact hrest r' hr'

end Boundaries

section Boundary

variable {S : Type} {os : Os S} {path : Path} {hdr : PcapFileHeader} {pktLen : BitVec 32}
  {rs : List Record}

/-- Whatever was read before a rewind, each call returns the part of the next packet that
fits the buffer, and the calls after the last packet return zero. -/
def ReturnsPackets (os : Os S) (path : Path) (pktLen : BitVec 32) (rs : List Record) :
    Prop :=
  ∀ (ks : List ℕ) (n : ℕ), (replayFile path pktLen ks n).wp Os.completeSem (fun seen _ =>
    0 < seen.1 ∧ seen.2 = expectedCalls pktLen.toNat rs n) os

/-- The calls return the packets, and the descriptor is at a record boundary after every
call. -/
def StaysOnRecords (os : Os S) (path : Path) (pktLen : BitVec 32) (rs : List Record) :
    Prop :=
  ReturnsPackets os path pktLen rs ∧ ∀ (ks : List ℕ) (n : ℕ),
    (replayFile path pktLen ks n).wp Os.completeSem (fun seen os' =>
      ∃ f, os'.fds seen.1 = some (.file f) ∧ f.offset = recordBoundary rs n) os

theorem returnsPackets_iff (hfree : os.Unexhausted) {bytes : List Byte}
    (hfile : HasFile os path hdr bytes) (hvalid : hdr.swapped.isValid = true)
    (hlen : pktLen ≠ 0) :
    ReturnsPackets os path pktLen rs ↔ ∀ n,
      readPackets pktLen.toNat (hdr.bytes ++ bytes) sizeofPcapFileHeader n =
        expectedReads (rs.map fun r => r.payload.take pktLen.toNat) n := by
  constructor
  · intro h n
    have hcode : (replayFile path pktLen [] n).wp Os.completeSem (fun seen _ =>
        seen.2 = (readPackets pktLen.toNat (hdr.bytes ++ bytes) sizeofPcapFileHeader
          n).map received) os := wp_replayFile hfile hvalid hlen fun _ _ _ _ _ _ _ _ => rfl
    obtain ⟨seen, os', ⟨⟨-, hseen⟩, hseen'⟩, -⟩ :=
      Os.exists_of_wp_complete ((Prog.wp_and _).2 ⟨h [] n, hcode⟩) hfree
    rw [expectedCalls_eq] at hseen
    exact Function.Injective.list_map received_injective (hseen'.symm.trans hseen)
  · intro h ks n
    apply wp_replayFile hfile hvalid hlen
    intro fd os' f hpos _ _ _ _
    exact ⟨hpos, by rw [expectedCalls_eq, h n]⟩

/-- The reader stays on the records of a file if and only if none of them is longer than
its buffer. -/
theorem staysOnRecords_iff (hfree : os.Unexhausted)
    (hfile : HasFile os path hdr (recordsBytes rs)) (hvalid : hdr.swapped.isValid = true)
    (hlen : pktLen ≠ 0) :
    StaysOnRecords os path pktLen rs ↔
      ∀ r ∈ rs, r.hdr.caplen.toNat ≤ pktLen.toNat := by
  have hcaplen : (∀ r ∈ rs, r.hdr.caplen.toNat ≤ pktLen.toNat) ↔
      ∀ r ∈ rs, r.payload.length ≤ pktLen.toNat := by
    simp only [Record.complete]
  rw [hcaplen]
  constructor
  · rintro ⟨-, h⟩
    apply length_le_of_offsetAfter hdr.bytes
    intro n
    have hcode : (replayFile path pktLen [] n).wp Os.completeSem (fun seen os' =>
        ∃ f, os'.fds seen.1 = some (.file f) ∧ f.offset =
          offsetAfter pktLen.toNat (hdr.bytes ++ recordsBytes rs) sizeofPcapFileHeader n)
        os :=
      wp_replayFile hfile hvalid hlen fun _ _ f _ hfd _ _ hoff => ⟨f, hfd, hoff⟩
    obtain ⟨seen, os', ⟨⟨f, hfd, hoff⟩, f', hfd', hoff'⟩, -⟩ :=
      Os.exists_of_wp_complete ((Prog.wp_and _).2 ⟨h [] n, hcode⟩) hfree
    rw [hfd] at hfd'
    cases hfd'
    rw [hdr.length_bytes, ← hoff', hoff, recordBoundary]
  · intro hbuf
    have hcut : rs.map (fun r => r.payload.take pktLen.toNat) = rs.map Record.payload :=
      List.map_congr_left fun r hr => List.take_of_length_le (hbuf r hr)
    constructor
    · rw [returnsPackets_iff hfree hfile hvalid hlen]
      intro n
      rw [hcut, ← hdr.length_bytes, readPackets_eq_expected _ hbuf]
    · intro ks n
      apply wp_replayFile hfile hvalid hlen
      intro fd os' f _ hfd _ _ hoff
      refine ⟨f, hfd, ?_⟩
      rw [hoff, recordBoundary, ← hdr.length_bytes, offsetAfter_eq_boundary _ hbuf]

end Boundary

section Lengths

variable {pktLen : ℕ} {hs : List PcapSfPkthdr}

/-- No packet but the last is longer than the buffer, and the last one by at most the
length of a packet header. -/
def LengthsFit (pktLen : ℕ) : List PcapSfPkthdr → Prop
  | [] => True
  | [h] => h.caplen.toNat ≤ pktLen + sizeofPcapSfPkthdr
  | h :: h' :: hs => h.caplen.toNat ≤ pktLen ∧ LengthsFit pktLen (h' :: hs)

def ReadsCut (pktLen : ℕ) (done : List Byte) (rs : List Record) : Prop :=
  ∀ n, readPackets pktLen (done ++ recordsBytes rs) done.length n =
    expectedReads (rs.map fun r => r.payload.take pktLen) n

def filled (x : Byte) (h : PcapSfPkthdr) : Record where
  hdr := h
  payload := List.replicate h.caplen.toNat x
  complete := List.length_replicate

/-- After a record that fits the buffer the rest of the file is read. -/
theorem readsCut_cons {done : List Byte} {r : Record} {rs : List Record}
    (hlen : r.payload.length ≤ pktLen) :
    ReadsCut pktLen done (r :: rs) ↔ ReadsCut pktLen (done ++ r.bytes) rs := by
  have hread : readPacket pktLen (done ++ (r.bytes ++ recordsBytes rs)) done.length =
      (r.payload, done.length + r.bytes.length) := readPacket_record r hlen
  have hnext : ∀ n, readPackets pktLen (done ++ recordsBytes (r :: rs)) done.length (n + 1) =
      r.payload :: readPackets pktLen (done ++ (r.bytes ++ recordsBytes rs))
        (done.length + r.bytes.length) n := by
    intro n
    rw [recordsBytes_cons, readPackets, hread]
  simp only [ReadsCut, List.append_assoc, List.length_append]
  constructor
  · intro h n
    have hn := h (n + 1)
    rw [hnext, List.map_cons, expectedReads_cons] at hn
    exact (List.cons.inj hn).2
  · intro h n
    cases n with
    | zero => rfl
    | succ n =>
        rw [hnext, h n, List.map_cons, expectedReads_cons, List.take_of_length_le hlen]

/-- After a record that does not fit the buffer the rest of its payload comes next. -/
theorem readPackets_long {done rest : List Byte} {r : Record}
    (hlong : pktLen < r.payload.length) (n : ℕ) :
    readPackets pktLen (done ++ (r.bytes ++ rest)) done.length (n + 1) =
      r.payload.take pktLen ::
        readPackets pktLen
          ((done ++ (r.hdr.bytes ++ r.payload.take pktLen)) ++
            (r.payload.drop pktLen ++ rest))
          (done ++ (r.hdr.bytes ++ r.payload.take pktLen)).length n := by
  have hdata : done ++ (r.bytes ++ rest) =
      (done ++ (r.hdr.bytes ++ r.payload.take pktLen)) ++
        (r.payload.drop pktLen ++ rest) := by
    conv_lhs => rw [Record.bytes, ← List.take_append_drop pktLen r.payload]
    simp only [List.append_assoc]
  have hmin : min r.hdr.caplen.toNat pktLen = pktLen := by
    rw [← r.complete]
    omega
  have htake : (r.payload ++ rest).take pktLen = r.payload.take pktLen :=
    List.take_append_of_le_length hlong.le
  rw [readPackets, ← hdata, Record.bytes, List.append_assoc, readPacket_hdr, hmin, htake,
    List.length_append, List.length_append, r.hdr.length_bytes, Nat.add_assoc]

theorem readPacket_short (done : List Byte) {tail : List Byte}
    (h : tail.length ≤ sizeofPcapSfPkthdr) :
    readPacket pktLen (done ++ tail) done.length = ([], (done ++ tail).length) := by
  by_cases hlen : tail.length = sizeofPcapSfPkthdr
  · obtain ⟨hdr, rest, rfl⟩ := exists_hdr_of_length hlen.ge
    obtain rfl : rest = [] := by
      rw [List.length_append, hdr.length_bytes] at h
      exact List.length_eq_zero_iff.1 (Nat.le_zero.1 ((add_le_iff_nonpos_right _).1 h))
    rw [readPacket_hdr, List.take_nil, List.length_append, List.length_append,
      hdr.length_bytes, Nat.add_assoc]
  · have hshort : (tail.take sizeofPcapSfPkthdr).length ≠ sizeofPcapSfPkthdr := by
      rw [List.length_take]
      omega
    rw [readPacket, readAt_append, if_pos hshort, List.take_of_length_le h,
      List.length_append]

theorem readPackets_short (done : List Byte) {tail : List Byte}
    (h : tail.length ≤ sizeofPcapSfPkthdr) (n : ℕ) :
    readPackets pktLen (done ++ tail) done.length n = List.replicate n [] := by
  cases n with
  | zero => rfl
  | succ n => rw [readPackets, readPacket_short done h, readPackets_end, List.replicate_succ]

theorem readsCut_of_lengthsFit {rs : List Record} (done : List Byte)
    (h : LengthsFit pktLen (rs.map Record.hdr)) : ReadsCut pktLen done rs := by
  induction rs generalizing done with
  | nil =>
      intro n
      have hnone : ∀ r ∈ ([] : List Record), r.payload.length ≤ pktLen := by simp
      exact readPackets_eq_expected done hnone n
  | cons r rs ih =>
      by_cases hlen : r.payload.length ≤ pktLen
      · rw [readsCut_cons hlen]
        apply ih
        cases rs with
        | nil => trivial
        | cons r' rs => exact h.2
      · cases rs with
        | cons r' rs =>
            have hle : r.hdr.caplen.toNat ≤ pktLen := h.1
            exact absurd (r.complete ▸ hle) hlen
        | nil =>
            have hle : r.hdr.caplen.toNat ≤ pktLen + sizeofPcapSfPkthdr := h
            intro n
            cases n with
            | zero => rfl
            | succ n =>
                have hshort : (r.payload.drop pktLen).length ≤ sizeofPcapSfPkthdr := by
                  rw [List.length_drop, r.complete]
                  exact Nat.sub_le_iff_le_add'.2 hle
                rw [recordsBytes_cons, readPackets_long (Nat.lt_of_not_le hlen),
                  recordsBytes_nil, List.append_nil, readPackets_short _ hshort,
                  List.map_cons, expectedReads_cons, List.map_nil, expectedReads,
                  List.nil_append, List.take_replicate, min_self]

def onesHdr : PcapSfPkthdr where
  ts := ⟨0xffffffff, 0xffffffff⟩
  caplen := 0xffffffff
  len := 0xffffffff

theorem onesHdr_bytes : onesHdr.bytes = List.replicate sizeofPcapSfPkthdr 0xff := by
  decide

/-- What is left of a packet is taken for a packet of its own, if it is longer than a
packet header. -/
theorem not_readsCut_filled {h : PcapSfPkthdr} (hpos : 0 < pktLen)
    (hlong : pktLen + sizeofPcapSfPkthdr < h.caplen.toNat) (done : List Byte) :
    ¬ ReadsCut pktLen done [filled 0xff h] := by
  intro hread
  have hlen : pktLen < (filled 0xff h).payload.length := by
    rw [filled, List.length_replicate]
    omega
  have htwo := hread 2
  obtain ⟨m, hm⟩ := Nat.exists_eq_add_of_lt hlong
  have hrest : (filled 0xff h).payload.drop pktLen =
      onesHdr.bytes ++ List.replicate (m + 1) 0xff := by
    rw [filled, List.drop_replicate, onesHdr_bytes, List.replicate_append_replicate, hm]
    congr 1
    omega
  rw [recordsBytes_cons, readPackets_long hlen, recordsBytes_nil, List.append_nil,
    List.map_cons, List.map_nil, expectedReads_cons, hrest, readPackets,
    readPacket_hdr] at htwo
  have hnil := (List.cons.inj (List.cons.inj htwo).2).1
  rw [List.take_eq_nil_iff] at hnil
  have hmin : 0 < min onesHdr.caplen.toNat pktLen := lt_min (by decide) hpos
  rcases hnil with hzero | hnil
  · exact absurd hzero hmin.ne'
  · exact absurd hnil (List.cons_ne_nil _ _)

/-- The packet that follows one longer than the buffer is not found, whatever the
lengths are, if its bytes differ from the one the reader comes to. -/
theorem exists_not_readsCut (hs : List PcapSfPkthdr) {h h' : PcapSfPkthdr}
    (hpos : 0 < pktLen) (hpos' : 0 < h'.caplen.toNat) (hlong : pktLen < h.caplen.toNat)
    (done : List Byte) :
    ∃ x, ¬ ReadsCut pktLen done (filled 0 h :: filled x h' :: hs.map (filled 0)) := by
  have hlen : pktLen < (filled 0 h).payload.length := by
    rw [filled, List.length_replicate]
    exact hlong
  -- The reader looks for the next payload one packet header further on.
  let seen := (filled 0 h).payload.drop pktLen ++ h'.bytes
  have hoff : sizeofPcapSfPkthdr < seen.length := by
    rw [List.length_append, h'.length_bytes, List.length_drop]
    omega
  refine ⟨seen[sizeofPcapSfPkthdr] + 1, fun hread => ?_⟩
  have htwo := hread 2
  rw [recordsBytes_cons, readPackets_long hlen, List.map_cons, List.map_cons,
    expectedReads_cons, expectedReads_cons, readPackets] at htwo
  have hgot := (List.cons.inj (List.cons.inj htwo).2).1
  obtain ⟨m, hm⟩ := Nat.exists_eq_succ_of_ne_zero (lt_min hpos hpos').ne'
  have hcons : (filled (seen[sizeofPcapSfPkthdr] + 1) h').payload.take pktLen =
      (seen[sizeofPcapSfPkthdr] + 1) ::
        List.replicate m (seen[sizeofPcapSfPkthdr] + 1) := by
    rw [filled, List.take_replicate, hm, List.replicate_succ]
  rw [hcons] at hgot
  obtain ⟨k, hat, -⟩ := readPacket_of_ne_nil (hgot ▸ List.cons_ne_nil _ _)
  have hbyte := getElem?_of_readAt (hat.symm.trans hgot)
  have hrest : ∀ x : Byte, (filled 0 h).payload.drop pktLen ++
      recordsBytes (filled x h' :: hs.map (filled 0)) =
        seen ++ ((filled x h').payload ++ recordsBytes (hs.map (filled 0))) := by
    intro x
    simp only [recordsBytes_cons, Record.bytes, seen, List.append_assoc]
    rfl
  rw [List.getElem?_append_right (Nat.le_add_right _ _), Nat.add_sub_cancel_left, hrest,
    List.getElem?_append_left hoff, List.getElem?_eq_getElem hoff] at hbyte
  have hself := Option.some.inj hbyte
  bv_omega

theorem lengthsFit_of_readsCut (hpos : 0 < pktLen)
    (hcaplen : ∀ h ∈ hs, 0 < h.caplen.toNat) (done : List Byte)
    (hread : ∀ rs, rs.map Record.hdr = hs → ReadsCut pktLen done rs) :
    LengthsFit pktLen hs := by
  induction hs generalizing done with
  | nil => trivial
  | cons h hs ih =>
      cases hs with
      | nil =>
          by_contra hlong
          exact not_readsCut_filled hpos (Nat.lt_of_not_le hlong) done
            (hread [filled 0xff h] rfl)
      | cons h' hs =>
          have hle : h.caplen.toNat ≤ pktLen := by
            by_contra hlong
            obtain ⟨x, hx⟩ := exists_not_readsCut hs hpos (hcaplen h' (by simp))
              (Nat.lt_of_not_le hlong) done
            refine hx (hread _ ?_)
            simp [filled, Function.comp_def]
          refine ⟨hle, ih (fun h₁ h₂ => hcaplen h₁ (List.mem_cons_of_mem h h₂))
            (done ++ (filled 0 h).bytes) fun rs hrs => ?_⟩
          rw [← readsCut_cons (by rw [filled, List.length_replicate]; exact hle)]
          exact hread _ (by rw [List.map_cons, hrs]; rfl)

/-- For given packet headers the calls return the packets, whatever these contain, if and
only if the lengths fit the buffer. -/
theorem returnsPackets_forall_iff {hdr : PcapFileHeader} {pktLen : BitVec 32}
    (path : Path) (hvalid : hdr.swapped.isValid = true) (hlen : pktLen ≠ 0)
    (hcaplen : ∀ h ∈ hs, 0 < h.caplen.toNat) :
    (∀ rs : List Record, rs.map Record.hdr = hs → ∀ {S : Type} (os : Os S), os.Unexhausted →
        HasFile os path hdr (recordsBytes rs) → ReturnsPackets os path pktLen rs) ↔
      LengthsFit pktLen.toNat hs := by
  have hpos : 0 < pktLen.toNat := by
    refine Nat.pos_of_ne_zero fun hzero => hlen ?_
    exact BitVec.eq_of_toNat_eq hzero
  constructor
  · intro h
    apply lengthsFit_of_readsCut hpos hcaplen hdr.bytes
    intro rs hrs
    have hreturns := h rs hrs (fileOs path (hdr.bytes ++ recordsBytes rs))
      (fileOs_unexhausted _ _) (hasFile_fileOs _ _ _)
    rwa [returnsPackets_iff (fileOs_unexhausted _ _) (hasFile_fileOs _ _ _) hvalid hlen,
      ← hdr.length_bytes] at hreturns
  · rintro h rs rfl S os hfree hfile
    rw [returnsPackets_iff hfree hfile hvalid hlen, ← hdr.length_bytes]
    exact readsCut_of_lengthsFit hdr.bytes h

end Lengths

def fiveRecord : Record where
  hdr := ⟨⟨1, 2⟩, 5, 5⟩
  payload := [1, 2, 3, 4, 5]
  complete := by decide

abbrev fiveFile : Os Unit :=
  fileOs [0x61] ((createdHeader linktypeEn10mb).bytes ++
    recordsBytes [fiveRecord, byteRecord])

theorem staysOnRecords_iff_fiveFile :
    StaysOnRecords fiveFile [0x61] 5 [fiveRecord, byteRecord] ↔
      ∀ r ∈ [fiveRecord, byteRecord], r.hdr.caplen.toNat ≤ (5 : BitVec 32).toNat :=
  staysOnRecords_iff (fileOs_unexhausted _ _) (hasFile_fileOs _ _ _)
    createdHeader_isValid (by decide)

/-- With a buffer of four bytes the second call returns two bytes, the last of the
second packet header and its payload. -/
theorem not_returnsPackets_fiveFile :
    ¬ ReturnsPackets fiveFile [0x61] 4 [fiveRecord, byteRecord] := by
  rw [returnsPackets_iff (fileOs_unexhausted _ _) (hasFile_fileOs _ _ _)
    createdHeader_isValid (by decide)]
  intro h
  exact absurd (h 2) (by decide +kernel)

end Pcap
