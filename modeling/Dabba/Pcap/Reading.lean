import Dabba.Pcap.Session

/-!
# What a read finds in the bytes of a file

A read takes a packet header and then as many bytes as the header says and the
buffer holds. With complete calls the result is a function of the bytes of the file
and the offset, whatever the bytes are. On records it is their payloads, one after
the other, and nothing at the end.
-/

namespace Pcap

open Posix Program

def readPacket (pktLen : ℕ) (data : List Byte) (off : ℕ) : List Byte × ℕ :=
  let hdr := readAt data off sizeofPcapSfPkthdr
  if hdr.length ≠ sizeofPcapSfPkthdr then ([], off + hdr.length)
  else
    let bytes := readAt data (off + sizeofPcapSfPkthdr)
      (min (PcapSfPkthdr.ofBytes hdr).caplen.toNat pktLen)
    (bytes, off + sizeofPcapSfPkthdr + bytes.length)

def readPackets (pktLen : ℕ) (data : List Byte) : ℕ → ℕ → List (List Byte)
  | _, 0 => []
  | off, n + 1 =>
      (readPacket pktLen data off).1 ::
        readPackets pktLen data (readPacket pktLen data off).2 n

def offsetAfter (pktLen : ℕ) (data : List Byte) : ℕ → ℕ → ℕ
  | off, 0 => off
  | off, n + 1 => offsetAfter pktLen data (readPacket pktLen data off).2 n

def received (bytes : List Byte) : ℤ × List Byte := (bytes.length, bytes)

theorem received_injective : Function.Injective received :=
  fun _ _ h => (Prod.mk.inj h).2

/-- Reads `n` times with a buffer of `pktLen` bytes. -/
def readN (fd : ℤ) (pktLen : BitVec 32) :
    ℕ → Prog FileCall (List (ℤ × List Byte))
  | 0 => return []
  | n + 1 => do
      let r ← ldabPcapRead fd pktLen
      let rs ← readN fd pktLen n
      return r :: rs

section Read

variable {S : Type} {os : Os S} {fd : ℤ} {f : OpenFile} {pktLen : BitVec 32}

/-- A read finds what is at the offset of its descriptor. -/
theorem wp_ldabPcapRead {Q : ℤ × List Byte → Os S → Prop} (hpos : 0 < fd)
    (hlen : pktLen ≠ 0) (hfd : os.fds fd = some (.file f)) (hr : f.readable)
    (h : Q (received (readPacket pktLen.toNat (os.data f.inode) f.offset).1)
      (os.seek fd f (readPacket pktLen.toNat (os.data f.inode) f.offset).2)) :
    (ldabPcapRead fd pktLen).wp Os.completeSem Q os := by
  simp only [ldabPcapRead, Prog.bind_eq, Prog.wp_bind, Prog.wp_assert, Prog.liftM_eq]
  refine ⟨hpos, hlen, ?_⟩
  apply Os.wp_read_complete hfd hr
  dsimp only
  by_cases hhdr : (readAt (os.data f.inode) f.offset sizeofPcapSfPkthdr).length =
      sizeofPcapSfPkthdr
  · rw [readPacket, if_neg (not_not.2 hhdr)] at h
    rw [if_neg (not_not.2 hhdr), Prog.wp_bind, hhdr]
    apply Os.wp_read_complete (f := { f with offset := f.offset + sizeofPcapSfPkthdr })
      (Os.seek_fds_self _ _ _ _) hr
    simp only [Os.seek_data, Os.seek_seek]
    exact h
  · rw [readPacket, if_pos hhdr] at h
    rw [if_pos hhdr]
    exact h

theorem wp_readN_eq {Q : List (ℤ × List Byte) → Os S → Prop} {n : ℕ} (hpos : 0 < fd)
    (hlen : pktLen ≠ 0) (hfd : os.fds fd = some (.file f)) (hr : f.readable)
    (h : Q ((readPackets pktLen.toNat (os.data f.inode) f.offset n).map received)
      (os.seek fd f (offsetAfter pktLen.toNat (os.data f.inode) f.offset n))) :
    (readN fd pktLen n).wp Os.completeSem Q os := by
  induction n generalizing os f Q with
  | zero =>
      rw [offsetAfter, Os.seek_self _ _ _ hfd] at h
      exact h
  | succ n ih =>
      simp only [readN, Prog.bind_eq, Prog.wp_bind]
      apply wp_ldabPcapRead hpos hlen hfd hr
      apply ih (f := { f with
        offset := (readPacket pktLen.toNat (os.data f.inode) f.offset).2 })
        (Os.seek_fds_self _ _ _ _) hr
      rw [Os.seek_seek]
      exact h

end Read

section Records

variable {pktLen : ℕ} {done post : List Byte}

theorem readAt_append (done rest : List Byte) (n : ℕ) :
    readAt (done ++ rest) done.length n = rest.take n := by
  rw [readAt, List.drop_left]

/-- A read at a packet header takes as many of the bytes behind it as it says. -/
theorem readPacket_hdr (hdr : PcapSfPkthdr) :
    readPacket pktLen (done ++ (hdr.bytes ++ post)) done.length =
      (post.take (min hdr.caplen.toNat pktLen),
        done.length + sizeofPcapSfPkthdr +
          (post.take (min hdr.caplen.toNat pktLen)).length) := by
  have hhdr : readAt (done ++ (hdr.bytes ++ post)) done.length sizeofPcapSfPkthdr =
      hdr.bytes := by
    rw [readAt_append]
    exact List.take_left' hdr.length_bytes
  have hpost : ∀ n, readAt (done ++ (hdr.bytes ++ post))
      (done.length + sizeofPcapSfPkthdr) n = post.take n := by
    intro n
    rw [← hdr.length_bytes, ← List.length_append, ← List.append_assoc, readAt_append]
  rw [readPacket, hhdr, if_neg (not_not.2 hdr.length_bytes), hdr.ofBytes_bytes, hpost]

theorem readPacket_record (r : Record) (hlen : r.payload.length ≤ pktLen) :
    readPacket pktLen (done ++ (r.bytes ++ post)) done.length =
      (r.payload, done.length + r.bytes.length) := by
  have hmin : min r.hdr.caplen.toNat pktLen = r.payload.length := by
    rw [← r.complete]
    exact min_eq_left hlen
  rw [Record.bytes, List.append_assoc, readPacket_hdr, hmin, List.take_left,
    List.length_append, r.hdr.length_bytes, Nat.add_assoc]

theorem readPacket_end (data : List Byte) :
    readPacket pktLen data data.length = ([], data.length) := by
  simp [readPacket, readAt_end]

theorem readPackets_end (data : List Byte) (n : ℕ) :
    readPackets pktLen data data.length n = List.replicate n [] := by
  induction n with
  | zero => rfl
  | succ n ih => rw [readPackets, readPacket_end, ih, List.replicate_succ]

theorem readPackets_records (done post : List Byte) {rs : List Record}
    (hlen : ∀ r ∈ rs, r.payload.length ≤ pktLen) (n : ℕ) :
    readPackets pktLen (done ++ (recordsBytes rs ++ post)) done.length (rs.length + n) =
      rs.map Record.payload ++
        readPackets pktLen (done ++ (recordsBytes rs ++ post))
          (done.length + (recordsBytes rs).length) n := by
  induction rs generalizing done with
  | nil => simp
  | cons r rs ih =>
      have hdata : done ++ (recordsBytes (r :: rs) ++ post) =
          done ++ (r.bytes ++ (recordsBytes rs ++ post)) := by
        rw [recordsBytes_cons, List.append_assoc]
      have hnext := ih (done ++ r.bytes)
        (fun r' hr' => hlen r' (List.mem_cons_of_mem r hr'))
      rw [List.append_assoc, List.length_append] at hnext
      rw [List.length_cons, Nat.add_right_comm, readPackets, hdata,
        readPacket_record r (hlen r List.mem_cons_self), hnext, recordsBytes_cons,
        List.length_append, List.map_cons, List.cons_append, Nat.add_assoc]

theorem offsetAfter_records (done post : List Byte) {rs : List Record}
    (hlen : ∀ r ∈ rs, r.payload.length ≤ pktLen) :
    offsetAfter pktLen (done ++ (recordsBytes rs ++ post)) done.length rs.length =
      done.length + (recordsBytes rs).length := by
  induction rs generalizing done with
  | nil => rfl
  | cons r rs ih =>
      have hdata : done ++ (recordsBytes (r :: rs) ++ post) =
          done ++ (r.bytes ++ (recordsBytes rs ++ post)) := by
        rw [recordsBytes_cons, List.append_assoc]
      have hnext := ih (done ++ r.bytes)
        (fun r' hr' => hlen r' (List.mem_cons_of_mem r hr'))
      rw [List.append_assoc, List.length_append] at hnext
      rw [List.length_cons, offsetAfter, hdata,
        readPacket_record r (hlen r List.mem_cons_self), hnext, recordsBytes_cons,
        List.length_append, Nat.add_assoc]

theorem offsetAfter_add (data : List Byte) (off m n : ℕ) :
    offsetAfter pktLen data off (m + n) =
      offsetAfter pktLen data (offsetAfter pktLen data off m) n := by
  induction m generalizing off with
  | zero => rw [Nat.zero_add, offsetAfter]
  | succ m ih => rw [Nat.add_right_comm, offsetAfter, ih, offsetAfter]

theorem offsetAfter_end (data : List Byte) (n : ℕ) :
    offsetAfter pktLen data data.length n = data.length := by
  induction n with
  | zero => rfl
  | succ n ih => rw [offsetAfter, readPacket_end, ih]

end Records

end Pcap
