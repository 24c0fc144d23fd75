import Mathlib.Data.List.Basic
import Dabba.Pcap.RoundTrip

/-!
# What a reader makes of the bytes of a file

What a file reads back as is decided by its bytes. Records are read as their payloads
in order, and nothing from then on.
-/

namespace Pcap

open Posix Program

/-- The payloads in order, and nothing from then on, for `n` reads. -/
def expectedReads (payloads : List (List Byte)) (n : ℕ) : List (List Byte) :=
  (payloads ++ List.replicate n []).take n

section Offsets

variable {pktLen off : ℕ} {data : List Byte}

theorem length_readPackets (off n : ℕ) : (readPackets pktLen data off n).length = n := by
  induction n generalizing off with
  | zero => rfl
  | succ n ih => rw [readPackets, List.length_cons, ih]

theorem getElem?_of_readAt {n : ℕ} {x : Byte} {xs : List Byte}
    (h : readAt data off n = x :: xs) : data[off]? = some x := by
  rw [readAt] at h
  have hdrop : data.drop off = x :: (xs ++ (data.drop off).drop n) := by
    rw [← List.cons_append, ← h, List.take_append_drop]
  rw [← Nat.add_zero off, ← List.getElem?_drop, hdrop, List.getElem?_cons_zero]

theorem readPackets_add (off m n : ℕ) :
    readPackets pktLen data off (m + n) = readPackets pktLen data off m ++
      readPackets pktLen data (offsetAfter pktLen data off m) n := by
  induction m generalizing off with
  | zero => rw [Nat.zero_add, readPackets, offsetAfter, List.nil_append]
  | succ m ih =>
      rw [Nat.add_right_comm, readPackets, ih, readPackets, offsetAfter, List.cons_append]

theorem readPacket_of_ne_nil (h : (readPacket pktLen data off).1 ≠ []) :
    ∃ n, (readPacket pktLen data off).1 = readAt data (off + sizeofPcapSfPkthdr) n ∧
      (readPacket pktLen data off).2 =
        off + sizeofPcapSfPkthdr + (readPacket pktLen data off).1.length := by
  by_cases hhdr : (readAt data off sizeofPcapSfPkthdr).length = sizeofPcapSfPkthdr
  · rw [readPacket, if_neg (not_not.2 hhdr)]
    exact ⟨_, rfl, rfl⟩
  · rw [readPacket, if_pos hhdr] at h
    exact absurd rfl h

/-- Reads that return the payloads of records have moved by the length of the records,
whatever the file holds. -/
theorem offsetAfter_of_readPackets {rs : List Record} (hne : ∀ r ∈ rs, r.payload ≠ [])
    (h : readPackets pktLen data off rs.length = rs.map Record.payload) :
    offsetAfter pktLen data off rs.length = off + (recordsBytes rs).length := by
  induction rs generalizing off with
  | nil => rfl
  | cons r rs ih =>
      rw [List.length_cons, readPackets, List.map_cons] at h
      obtain ⟨hread, hrest⟩ := List.cons.inj h
      have hpayload : (readPacket pktLen data off).1 ≠ [] := by
        rw [hread]
        exact hne r List.mem_cons_self
      obtain ⟨n, -, hnext⟩ := readPacket_of_ne_nil hpayload
      rw [List.length_cons, offsetAfter, ih (fun r' hr' => hne r' (List.mem_cons_of_mem r hr'))
        hrest, hnext, hread, recordsBytes_cons, List.length_append, r.length_bytes]
      ring

end Offsets

section Expected

variable {payloads : List (List Byte)} {n : ℕ}

theorem expectedReads_of_le (h : n ≤ payloads.length) :
    expectedReads payloads n = payloads.take n :=
  List.take_append_of_le_length h

theorem expectedReads_add (payloads : List (List Byte)) (m : ℕ) :
    expectedReads payloads (payloads.length + m) = payloads ++ List.replicate m [] := by
  rw [expectedReads, List.take_length_add_append, List.take_replicate,
    min_eq_left (Nat.le_add_left m _)]

theorem expectedReads_cons (bytes : List Byte) (payloads : List (List Byte)) (n : ℕ) :
    expectedReads (bytes :: payloads) (n + 1) = bytes :: expectedReads payloads n := by
  have hlen : n ≤ (payloads ++ List.replicate n ([] : List Byte)).length := by
    rw [List.length_append, List.length_replicate]
    exact Nat.le_add_left n _
  rw [expectedReads, List.cons_append, List.take_succ_cons, List.replicate_succ',
    ← List.append_assoc, List.take_append_of_le_length hlen, expectedReads]

/-- A file of records behind some bytes is read as the payloads of the records. -/
theorem readPackets_eq_expected {pktLen : ℕ} {rs : List Record} (done : List Byte)
    (hlen : ∀ r ∈ rs, r.payload.length ≤ pktLen) (n : ℕ) :
    readPackets pktLen (done ++ recordsBytes rs) done.length n =
      expectedReads (rs.map Record.payload) n := by
  by_cases hn : n ≤ rs.length
  · rw [expectedReads_of_le (by simpa using hn), ← List.map_take]
    have hsplit : recordsBytes rs =
        recordsBytes (rs.take n) ++ recordsBytes (rs.drop n) := by
      rw [← recordsBytes_append, List.take_append_drop]
    have hlen' : ∀ r ∈ rs.take n, r.payload.length ≤ pktLen :=
      fun r hr => hlen r (List.mem_of_mem_take hr)
    have hread := readPackets_records done (recordsBytes (rs.drop n)) hlen' 0
    rw [← hsplit, List.length_take_of_le hn, Nat.add_zero, readPackets,
      List.append_nil] at hread
    exact hread
  · obtain ⟨m, rfl⟩ := Nat.exists_eq_add_of_le (Nat.le_of_not_le hn)
    have hread := readPackets_records done [] hlen m
    rw [List.append_nil] at hread
    have hexpected := expectedReads_add (rs.map Record.payload) m
    rw [List.length_map] at hexpected
    rw [hread, hexpected, ← List.length_append, readPackets_end]

end Expected

section ReadBack

def readFile (path : Path) (pktLen : BitVec 32) (n : ℕ) :
    Prog FileCall (ℤ × List (ℤ × List Byte)) := do
  let fd ← ldabPcapOpen path oRdonly
  let rs ← readN fd pktLen n
  return (fd, rs)

variable {S : Type} {os : Os S} {path : Path} {hdr : PcapFileHeader}

/-- The file opens, and with every buffer that is long enough, reading it returns these
payloads in order and nothing from then on. -/
def ReadsBack (os : Os S) (path : Path) (payloads : List (List Byte)) : Prop :=
  ∀ (pktLen : BitVec 32) (n : ℕ), pktLen ≠ 0 →
    (∀ bytes ∈ payloads, bytes.length ≤ pktLen.toNat) →
    (readFile path pktLen n).wp Os.completeSem (fun seen _ =>
      0 < seen.1 ∧ seen.2 = (expectedReads payloads n).map received) os

theorem wp_readFile {Q : ℤ × List (ℤ × List Byte) → Os S → Prop} {bytes : List Byte}
    {pktLen : BitVec 32} {n : ℕ} (hfile : HasFile os path hdr bytes)
    (hvalid : hdr.swapped.isValid = true) (hlen : pktLen ≠ 0)
    (h : ∀ (fd : ℤ) (os' : Os S), 0 < fd → Q (fd, (readPackets pktLen.toNat
      (hdr.bytes ++ bytes) sizeofPcapFileHeader n).map received) os') :
    (readFile path pktLen n).wp Os.completeSem Q os := by
  obtain ⟨i, hdir, hdata⟩ := hfile
  have hr : oRdonly &&& oAccmode ≠ oWronly := by decide
  simp only [readFile, Prog.bind_eq, Prog.wp_bind]
  apply wp_ldabPcapOpen (by decide) hr hdir hdata hvalid
  intro fd hfresh
  apply wp_readN_eq (f := ⟨os.next, i, sizeofPcapFileHeader, oRdonly⟩) hfresh.1 hlen
    (Os.install_fds_self _ _ _) hr
  rw [Os.install_data, hdata]
  exact h fd _ hfresh.1

/-- What a file reads back as is decided by its bytes alone. -/
theorem readsBack_iff (hfree : os.Unexhausted) {bytes : List Byte}
    (hfile : HasFile os path hdr bytes) (hvalid : hdr.swapped.isValid = true)
    (payloads : List (List Byte)) :
    ReadsBack os path payloads ↔ ∀ (pktLen : BitVec 32) (n : ℕ), pktLen ≠ 0 →
      (∀ bytes ∈ payloads, bytes.length ≤ pktLen.toNat) →
      readPackets pktLen.toNat (hdr.bytes ++ bytes) sizeofPcapFileHeader n =
        expectedReads payloads n := by
  constructor
  · intro h pktLen n hlen hbuf
    have hcode : (readFile path pktLen n).wp Os.completeSem (fun seen _ =>
        seen.2 = (readPackets pktLen.toNat (hdr.bytes ++ bytes) sizeofPcapFileHeader
          n).map received) os := wp_readFile hfile hvalid hlen fun _ _ _ => rfl
    obtain ⟨seen, os', ⟨⟨-, hseen⟩, hseen'⟩, -⟩ := Os.exists_of_wp_complete
      ((Prog.wp_and _).2 ⟨h pktLen n hlen hbuf, hcode⟩) hfree
    exact Function.Injective.list_map received_injective (hseen'.symm.trans hseen)
  · intro h pktLen n hlen hbuf
    apply wp_readFile hfile hvalid hlen
    intro fd os' hpos
    exact ⟨hpos, by rw [h pktLen n hlen hbuf]⟩

theorem readsBack_records {rs : List Record} (hfile : HasFile os path hdr (recordsBytes rs))
    (hvalid : hdr.swapped.isValid = true) : ReadsBack os path (rs.map Record.payload) := by
  intro pktLen n hlen hbuf
  have hbuf' : ∀ r ∈ rs, r.payload.length ≤ pktLen.toNat :=
    fun r hr => hbuf _ (List.mem_map_of_mem hr)
  apply wp_readFile hfile hvalid hlen
  intro fd os' hpos
  rw [← hdr.length_bytes, readPackets_eq_expected _ hbuf']
  exact ⟨hpos, rfl⟩

end ReadBack

end Pcap
