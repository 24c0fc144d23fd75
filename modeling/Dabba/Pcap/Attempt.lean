import Dabba.Pcap.Reader
import Dabba.Posix.Write

/-!
# Writes that fail half-way

A packet is written with two calls of write(2), and each may transfer a part of its
bytes only. The function reports the failure, but leaves in the file what was
transferred. The file is still read as it should be, after whatever is written to it
next, exactly when no failing call has transferred a byte.
-/

namespace Pcap

open Posix Program

/-- A call of `ldabPcapWrite`, and how its two calls of write(2) end. -/
structure WriteCall where
  packet : Packet
  header : Outcome
  payload : Outcome

namespace WriteCall

/-- A call whose two calls of write(2) transfer everything. -/
def complete (p : Packet) : WriteCall := ⟨p, .ok 0, .ok 0⟩

def run {S : Type} (fd : ℤ) (c : WriteCall) (os : Os S) : Option (ℤ × Os S) :=
  (ldabPcapWrite fd c.packet.payload c.packet.pktLen c.packet.pktSnaplen c.packet.tvSec
    c.packet.tvUsec).run Os.handle (fun n => if n = 0 then c.header else c.payload) os

def taken (c : WriteCall) : ℕ :=
  if c.header.taken sizeofPcapSfPkthdr = sizeofPcapSfPkthdr then
    sizeofPcapSfPkthdr + c.payload.taken c.packet.payload.length
  else c.header.taken sizeofPcapSfPkthdr

def bytes (c : WriteCall) : List Byte := c.packet.record.bytes.take c.taken

def Succeeds (c : WriteCall) : Prop := c.taken = c.packet.record.bytes.length

instance (c : WriteCall) : Decidable c.Succeeds := inferInstanceAs (Decidable (_ = _))

theorem succeeds_complete (p : Packet) : (complete p).Succeeds := by
  rw [Succeeds, Record.length_bytes]
  rfl

theorem bytes_of_succeeds {c : WriteCall} (h : c.Succeeds) :
    c.bytes = c.packet.record.bytes := by
  rw [bytes, h, List.take_length]

theorem taken_le (c : WriteCall) : c.taken ≤ c.packet.record.bytes.length := by
  have hheader := c.header.taken_le sizeofPcapSfPkthdr
  have hpayload := c.payload.taken_le c.packet.payload.length
  have hlen : c.packet.record.bytes.length =
      sizeofPcapSfPkthdr + c.packet.payload.length := Record.length_bytes _
  rw [taken]
  split <;> omega

theorem length_bytes (c : WriteCall) : c.bytes.length = c.taken := by
  rw [bytes, List.length_take, min_eq_left c.taken_le]

theorem bytes_eq (c : WriteCall) :
    c.bytes = if c.header.taken sizeofPcapSfPkthdr = sizeofPcapSfPkthdr then
      c.packet.hdr.bytes ++
        c.packet.payload.take (c.payload.taken c.packet.payload.length)
    else c.packet.hdr.bytes.take (c.header.taken sizeofPcapSfPkthdr) := by
  have hrecord : c.packet.record.bytes = c.packet.hdr.bytes ++ c.packet.payload := rfl
  have hlen : c.packet.hdr.bytes.length = sizeofPcapSfPkthdr := c.packet.hdr.length_bytes
  rw [bytes, taken, hrecord]
  split
  · rw [← hlen, List.take_length_add_append]
  · exact List.take_append_of_le_length (hlen ▸ c.header.taken_le _)

section Run

variable {S : Type} {os : Os S} {fd : ℤ} {f : OpenFile}

/-- A call on a descriptor puts the bytes it transfers at the offset of the descriptor,
and returns minus one unless this is the whole record. -/
theorem run_eq (c : WriteCall) (hpos : 0 < fd) (hfd : os.fds fd = some (.file f))
    (hw : f.writable) (happend : f.flags &&& oAppend ≠ oAppend)
    (hoff : f.offset ≤ (os.data f.inode).length) :
    ∃ os', c.run fd os =
        some (if c.Succeeds then (c.packet.payload.length : ℤ) else -1, os') ∧
      os.Wrote fd f c.bytes os' := by
  have hrun : c.run fd os = (ldabPcapWrite fd c.packet.payload c.packet.pktLen
      c.packet.pktSnaplen c.packet.tvSec c.packet.tvUsec).run Os.handle
      (fun n => if n = 0 then c.header else c.payload) os := rfl
  have hcap : (writtenHdr c.packet.pktLen c.packet.pktSnaplen c.packet.tvSec
      c.packet.tvUsec).caplen.toNat = c.packet.payload.length := c.packet.caplen_hdr
  have hlen : c.packet.hdr.bytes.length = sizeofPcapSfPkthdr := c.packet.hdr.length_bytes
  have hrecord : c.packet.record.bytes.length =
      sizeofPcapSfPkthdr + c.packet.payload.length := Record.length_bytes _
  have hwrote := Os.wrote_handle hfd hw happend hoff c.packet.hdr.bytes c.header
  have hret := Os.handle_write_eq_iff hfd hw happend c.packet.hdr.bytes c.header
    (n := sizeofPcapSfPkthdr) (by decide)
  rw [hlen] at hwrote hret
  simp only [ldabPcapWrite, Prog.bind_eq, Prog.liftM_eq] at hrun
  rw [Prog.assert_bind hpos, Prog.assert_bind c.packet.pktSnaplen_ne_zero,
    Prog.perform_bind, Prog.run_call, if_pos rfl, ← Packet.hdr] at hrun
  by_cases hheader : c.header.taken sizeofPcapSfPkthdr = sizeofPcapSfPkthdr
  · -- The header is in the file, and the payload goes behind it.
    rw [hret.2 hheader, if_neg (not_not.2 rfl), Prog.perform_bind, Prog.run_call,
      if_neg (Nat.succ_ne_zero 0), Packet.hdr, hcap, List.take_length, ← Packet.hdr] at hrun
    rw [hheader, ← hlen, List.take_length] at hwrote
    have hoff' : f.offset + c.packet.hdr.bytes.length ≤
        ((Os.handle (.write fd c.packet.hdr.bytes) c.header os).2.data f.inode).length := by
      rw [hwrote.data_self, length_writeAt hoff]
      exact le_max_right _ _
    have hwrote' := Os.wrote_handle (f := { f with offset :=
      f.offset + c.packet.hdr.bytes.length }) hwrote.fds_self hw happend hoff'
      c.packet.payload c.payload
    have hret' := Os.handle_write_eq_iff hwrote.fds_self hw happend c.packet.payload
      c.payload (n := c.packet.payload.length) c.packet.pos
    have hboth := hwrote.trans hwrote' hoff
    rw [bytes_eq, if_pos hheader]
    refine ⟨_, ?_, hboth⟩
    by_cases hpayload : c.payload.taken c.packet.payload.length = c.packet.payload.length
    · have hsucceeds : c.Succeeds := by
        rw [Succeeds, taken, if_pos hheader, hpayload, hrecord]
      rw [hret'.2 hpayload, if_neg (not_not.2 rfl)] at hrun
      rw [hrun, if_pos hsucceeds]
      rfl
    · have hfails : ¬ c.Succeeds := by
        rw [Succeeds, taken, if_pos hheader, hrecord]
        omega
      rw [if_pos (mt hret'.1 hpayload)] at hrun
      rw [hrun, if_neg hfails]
      rfl
  · have hfails : ¬ c.Succeeds := by
      have hle := c.header.taken_le sizeofPcapSfPkthdr
      rw [Succeeds, taken, if_neg hheader, hrecord]
      omega
    rw [if_pos (mt hret.1 hheader)] at hrun
    rw [bytes_eq, if_neg hheader]
    refine ⟨_, ?_, hwrote⟩
    rw [hrun, if_neg hfails]
    rfl

theorem run_atEnd {i : ℕ} {done : List Byte} (c : WriteCall) (hpos : 0 < fd)
    (h : AtEnd os fd i done) :
    ∃ os', c.run fd os =
        some (if c.Succeeds then (c.packet.payload.length : ℤ) else -1, os') ∧
      AtEnd os' fd i (done ++ c.bytes) ∧ os'.dir = os.dir ∧
      (os.Unexhausted → os'.Unexhausted) := by
  obtain ⟨f, hfd, rfl, hw, happend, hoff, hdata⟩ := h
  have hend : f.offset = (os.data f.inode).length := by rw [hoff, hdata]
  obtain ⟨os', hrun, hwrote⟩ := c.run_eq hpos hfd hw happend hend.le
  refine ⟨os', hrun, ⟨_, hwrote.fds_self, rfl, hw, happend, ?_, ?_⟩, hwrote.dir,
    hwrote.unexhausted⟩
  · rw [List.length_append, hoff]
  · rw [hwrote.data_self, hend, writeAt_length, hdata]

end Run

end WriteCall

def runWrites {S : Type} (fd : ℤ) : List WriteCall → Os S → Option (List ℤ × Os S)
  | [], os => some ([], os)
  | c :: cs, os =>
      (c.run fd os).bind fun x =>
        (runWrites fd cs x.2).map fun y => (x.1 :: y.1, y.2)

def succeeded (cs : List WriteCall) (rcs : List ℤ) : List Packet :=
  ((cs.zip rcs).filter fun x => x.2 ≠ -1).map fun x => x.1.packet

def stored (cs : List WriteCall) : List Packet :=
  (cs.filter fun c => c.Succeeds).map WriteCall.packet

def takenBytes (cs : List WriteCall) : List Byte := cs.flatMap WriteCall.bytes

section Runs

variable {S : Type} {os : Os S} {fd : ℤ} {i : ℕ} {done : List Byte} {cs : List WriteCall}

theorem stored_cons (c : WriteCall) (cs : List WriteCall) :
    stored (c :: cs) = if c.Succeeds then c.packet :: stored cs else stored cs := by
  by_cases hc : c.Succeeds
  · simp [stored, hc]
  · simp [stored, hc]

theorem succeeded_cons (c : WriteCall) (cs : List WriteCall) (rc : ℤ) (rcs : List ℤ) :
    succeeded (c :: cs) (rc :: rcs) =
      if rc = -1 then succeeded cs rcs else c.packet :: succeeded cs rcs := by
  by_cases hrc : rc = -1
  · simp [succeeded, hrc]
  · simp [succeeded, hrc]

theorem stored_append (cs cs' : List WriteCall) :
    stored (cs ++ cs') = stored cs ++ stored cs' := by
  rw [stored, List.filter_append, List.map_append, stored, stored]

theorem stored_complete (ps : List Packet) : stored (ps.map WriteCall.complete) = ps := by
  induction ps with
  | nil => rfl
  | cons p ps ih =>
      rw [List.map_cons, stored_cons, if_pos (WriteCall.succeeds_complete p), ih]
      rfl

theorem takenBytes_append (cs cs' : List WriteCall) :
    takenBytes (cs ++ cs') = takenBytes cs ++ takenBytes cs' :=
  List.flatMap_append

theorem takenBytes_complete (ps : List Packet) :
    takenBytes (ps.map WriteCall.complete) = recordsBytes (records ps) := by
  induction ps with
  | nil => rfl
  | cons p ps ih =>
      rw [takenBytes, List.map_cons, List.flatMap_cons, ← takenBytes, ih,
        WriteCall.bytes_of_succeeds (WriteCall.succeeds_complete p)]
      rfl

/-- Calls on a descriptor at the end of its file append what each of them transfers, and
the calls that return success are those that transfer their record. -/
theorem runWrites_atEnd (cs : List WriteCall) (hpos : 0 < fd) (h : AtEnd os fd i done) :
    ∃ rcs os', runWrites fd cs os = some (rcs, os') ∧ succeeded cs rcs = stored cs ∧
      AtEnd os' fd i (done ++ takenBytes cs) ∧ os'.dir = os.dir ∧
      (os.Unexhausted → os'.Unexhausted) := by
  induction cs generalizing os done with
  | nil => exact ⟨[], os, rfl, rfl, by rwa [takenBytes, List.flatMap_nil, List.append_nil],
      rfl, id⟩
  | cons c cs ih =>
      obtain ⟨os₁, hrun, h₁, hdir, hfree⟩ := c.run_atEnd hpos h
      obtain ⟨rcs, os', hruns, hsucceeded, h', hdir', hfree'⟩ := ih h₁
      refine ⟨(if c.Succeeds then (c.packet.payload.length : ℤ) else -1) :: rcs, os', ?_,
        ?_, ?_, hdir'.trans hdir, hfree' ∘ hfree⟩
      · rw [runWrites, hrun, Option.bind_some, hruns, Option.map_some]
      · rw [succeeded_cons, stored_cons, hsucceeded]
        by_cases hc : c.Succeeds
        · rw [if_pos hc, if_pos hc, if_neg (by omega)]
        · rw [if_neg hc, if_neg hc, if_pos rfl]
      · rwa [List.append_assoc] at h'

/-- No call fails after it has transferred a byte. -/
def AllOrNothing (cs : List WriteCall) : Prop := ∀ c ∈ cs, c.Succeeds ∨ c.taken = 0

instance (cs : List WriteCall) : Decidable (AllOrNothing cs) :=
  inferInstanceAs (Decidable (∀ c ∈ cs, _))

theorem takenBytes_of_allOrNothing (h : AllOrNothing cs) :
    takenBytes cs = recordsBytes (records (stored cs)) := by
  induction cs with
  | nil => rfl
  | cons c cs ih =>
      have hrest := ih fun c' hc' => h c' (List.mem_cons_of_mem c hc')
      rw [takenBytes, List.flatMap_cons, ← takenBytes, hrest, stored_cons]
      by_cases hc : c.Succeeds
      · rw [if_pos hc, WriteCall.bytes_of_succeeds hc]
        rfl
      · have hnone := (h c List.mem_cons_self).resolve_left hc
        rw [if_neg hc, WriteCall.bytes, hnone, List.take_zero, List.nil_append]

/-- The records of the calls that succeed are a part of what all calls transfer, and not
all of it when a call fails after it has transferred a byte. -/
theorem length_stored_le (cs : List WriteCall) :
    (recordsBytes (records (stored cs))).length ≤ (takenBytes cs).length ∧
      (¬ AllOrNothing cs →
        (recordsBytes (records (stored cs))).length < (takenBytes cs).length) := by
  induction cs with
  | nil => exact ⟨le_rfl, fun h => (h fun c hc => absurd hc List.not_mem_nil).elim⟩
  | cons c cs ih =>
      rw [takenBytes, List.flatMap_cons, ← takenBytes, List.length_append, stored_cons,
        c.length_bytes]
      have hrest : (c.Succeeds ∨ c.taken = 0) → ¬ AllOrNothing (c :: cs) →
          ¬ AllOrNothing cs :=
        fun hc h hcs => h (List.forall_mem_cons.2 ⟨hc, hcs⟩)
      by_cases hc : c.Succeeds
      · have hlen : (recordsBytes (records (c.packet :: stored cs))).length =
            c.taken + (recordsBytes (records (stored cs))).length := by
          rw [hc, records, List.map_cons, recordsBytes_cons, List.length_append]
          rfl
        rw [if_pos hc, hlen]
        refine ⟨Nat.add_le_add_left ih.1 _, fun h => ?_⟩
        exact Nat.add_lt_add_left (ih.2 (hrest (Or.inl hc) h)) _
      · rw [if_neg hc]
        refine ⟨ih.1.trans (Nat.le_add_left _ _), fun h => ?_⟩
        by_cases hnone : c.taken = 0
        · rw [hnone, Nat.zero_add]
          exact ih.2 (hrest (Or.inr hnone) h)
        · have hle := ih.1
          omega

end Runs

end Pcap
