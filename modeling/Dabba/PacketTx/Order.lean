import Dabba.PacketTx.Kernel
import Dabba.SlotRing.Basic

/-!
# The order of a replay

The packets are sent in the order of the file, over and over, as long as the thread
puts each of them into the slot that comes after the last one it filled. Every walk
starts at the first slot again, so the thread leaves this order when a slot behind the
kernel's cursor is available before the walk has passed it.
-/

namespace Tx

open Posix Program Pcap Tpacket Transition

variable {S : Type} {tx : PacketTx} {hdr : PcapFileHeader} {rs : List Record}

/-- The offset of packet `q` of a file of records. -/
def boundary (rs : List Record) (q : ℕ) : ℕ :=
  sizeofPcapFileHeader + (recordsBytes (rs.take q)).length

def repeated (rs : List Record) (n : ℕ) : List (List Byte) :=
  (List.replicate n (rs.map Record.payload)).flatten

theorem repeated_succ (rs : List Record) (n : ℕ) :
    repeated rs (n + 1) = repeated rs n ++ rs.map Record.payload := by
  rw [repeated, List.replicate_succ', List.flatten_append, List.flatten_singleton, repeated]

/-- The packets put into slots are those of some rounds through the file, and the first
`q` of one more, with the thread at packet `q`. -/
def Progress (rs : List Record) (off : ℕ) (filled : List (List Byte)) : Prop :=
  ∃ m q, q ≤ rs.length ∧ off = boundary rs q ∧
    filled = repeated rs m ++ (rs.map Record.payload).take q

theorem Progress.exists_prefix {off : ℕ} {filled : List (List Byte)}
    (h : Progress rs off filled) : ∃ n, filled <+: repeated rs n := by
  obtain ⟨m, q, -, -, rfl⟩ := h
  refine ⟨m + 1, ?_⟩
  rw [repeated_succ]
  exact (List.prefix_append_right_inj _).2 (List.take_prefix _ _)

/-- Every packet is not empty and fits a frame. -/
def Fit (tx : PacketTx) (rs : List Record) : Prop :=
  ∀ r ∈ rs, r.payload ≠ [] ∧ tplen + r.payload.length ≤ tx.layout.tpFrameSize.toNat

theorem nextPacket_boundary (hfit : Fit tx rs) {q : ℕ} (hq : q < rs.length) :
    nextPacket tx (hdr.bytes ++ recordsBytes rs) (boundary rs q) =
      (rs[q].payload, boundary rs (q + 1)) := by
  have hsplit : rs = rs.take q ++ (rs[q] :: rs.drop (q + 1)) := by
    rw [List.cons_getElem_drop_succ, List.take_append_drop]
  have hdata : hdr.bytes ++ recordsBytes rs = (hdr.bytes ++ recordsBytes (rs.take q)) ++
      (rs[q].bytes ++ recordsBytes (rs.drop (q + 1))) := by
    rw [List.append_assoc, ← recordsBytes_cons, ← recordsBytes_append, ← hsplit]
  have hoff : boundary rs q = (hdr.bytes ++ recordsBytes (rs.take q)).length := by
    rw [List.length_append, hdr.length_bytes, boundary]
  have hlen : rs[q].payload.length ≤ tx.layout.tpFrameSize.toNat :=
    (Nat.le_add_left _ _).trans (hfit _ (List.getElem_mem hq)).2
  have hnext : boundary rs (q + 1) = boundary rs q + rs[q].bytes.length := by
    rw [boundary, List.take_succ_eq_append_getElem hq, recordsBytes_append, List.length_append,
      boundary, recordsBytes_cons, recordsBytes_nil, List.append_nil, Nat.add_assoc]
  rw [nextPacket, hdata, hoff, readPacket_record _ hlen, hnext, hoff]

theorem nextPacket_end :
    (nextPacket tx (hdr.bytes ++ recordsBytes rs) (boundary rs rs.length)).1 = [] := by
  have hoff : boundary rs rs.length = (hdr.bytes ++ recordsBytes rs).length := by
    rw [List.length_append, hdr.length_bytes, boundary, List.take_length]
  rw [nextPacket, hoff, readPacket_end]

/-- Moving in the file keeps the packets in the order of the file. -/
theorem Progress.moves {t : State S} {off off' : ℕ} {filled : List (List Byte)}
    (h : Progress rs off filled) (hfit : Fit tx rs)
    (hmoves : Moves tx (hdr.bytes ++ recordsBytes rs) off t off') :
    Progress rs off' (filled ++ t.filled) := by
  obtain ⟨m, q, hq, rfl, rfl⟩ := h
  cases hmoves with
  | stays hfilled =>
      rw [hfilled, List.append_nil]
      exact ⟨m, q, hq, rfl, rfl⟩
  | fills hne hfilled =>
      have hlt : q < rs.length := by
        refine lt_of_le_of_ne hq ?_
        rintro rfl
        exact hne nextPacket_end
      rw [hfilled, nextPacket_boundary hfit hlt]
      refine ⟨m, q + 1, hlt, rfl, ?_⟩
      have hlt' : q < (rs.map Record.payload).length := by rwa [List.length_map]
      rw [List.append_assoc, List.take_succ_eq_append_getElem hlt', List.getElem_map]
  | rewinds hend hfilled =>
      have hlast : q = rs.length := by
        by_contra hne
        have hlt : q < rs.length := lt_of_le_of_ne hq hne
        rw [nextPacket_boundary hfit hlt] at hend
        exact (hfit _ (List.getElem_mem hlt)).1 hend
      refine ⟨m + 1, 0, Nat.zero_le _, rfl, ?_⟩
      rw [hfilled, hlast, List.take_zero, List.append_nil, List.append_nil, repeated_succ,
        List.take_of_length_le (by rw [List.length_map])]

namespace Replay

def InTurn (tx : PacketTx) (c : Replay S) : Prop :=
  ∀ obytes bytes, c.thread.pc = .request obytes bytes →
    c.thread.a = c.filled.length % tx.layout.tpFrameNr.toNat

/-- A step of a replay whose thread fills consecutive slots. -/
def TurnStep (tx : PacketTx) (c c' : Replay S) : Prop := c.InTurn tx ∧ Step tx c c'

def waiting (slot : ℕ → Slot) (i : ℕ) : Option (List Byte) :=
  if (slot i).tpStatus = tpStatusSendRequest then some (packet (slot i).frame) else none

def ring (tx : PacketTx) (c : Replay S) : SlotRing.State (List Byte) where
  slot := waiting c.thread.slot
  head := c.filled.length % tx.layout.tpFrameNr.toNat
  delivered := c.filled
  taken := c.transmitted

/-- What holds in every state of a replay. -/
structure Inv (tx : PacketTx) (hdr : PcapFileHeader) (rs : List Record) (c : Replay S) :
    Prop where
  reads : ∃ off, c.thread.At tx (hdr.bytes ++ recordsBytes rs) off ∧
    Progress rs off c.filled
  owns : c.thread.Owns tx
  head_eq : c.head = c.transmitted.length % tx.layout.tpFrameNr.toNat

theorem Inv.init {slot : ℕ → Slot} {os : Os S}
    (hos : ReadsFrom tx (hdr.bytes ++ recordsBytes rs) sizeofPcapFileHeader os) :
    Inv tx hdr rs (Replay.init slot os) where
  reads := ⟨_, ⟨rfl, hos⟩, 0, 0, Nat.zero_le _, rfl, rfl⟩
  owns := trivial
  head_eq := (Nat.zero_mod _).symm

theorem Inv.step {c c' : Replay S} (h : Inv tx hdr rs c) (hfd : 0 < tx.pcapFd)
    (hsize : tx.layout.tpFrameSize ≠ 0) (hfit : Fit tx rs) (hstep : Step tx c c') :
    Inv tx hdr rs c' := by
  obtain ⟨off, hat, hprogress⟩ := h.reads
  cases hstep with
  | thread o t hcomplete hsend hstep =>
      obtain ⟨off', hat', hmoves⟩ := hat.step hfd hsize hcomplete hstep
      exact ⟨⟨off', hat', hprogress.moves hfit hmoves⟩, h.owns.step hstep, h.head_eq⟩
  | transmit hsend =>
      have hbusy : (c.thread.slot c.head).tpStatus ≠ tpStatusAvailable :=
        hsend.2.trans_ne sendRequest_ne_available
      refine ⟨⟨off, hat.setStatus _ _, hprogress⟩, owns_setStatus h.owns hbusy _, ?_⟩
      rw [transmit, List.length_append, List.length_singleton, h.head_eq, Nat.mod_add_mod]
  | release i hsending =>
      have hbusy : (c.thread.slot i).tpStatus ≠ tpStatusAvailable :=
        hsending.trans_ne sending_ne_available
      exact ⟨⟨off, hat.setStatus _ _, hprogress⟩, owns_setStatus h.owns hbusy _, h.head_eq⟩

theorem waiting_of_available {slot : ℕ → Slot} {i : ℕ}
    (h : (slot i).tpStatus = tpStatusAvailable) : waiting slot i = none := by
  rw [waiting, if_neg]
  rw [h]
  decide

theorem waiting_setStatus (c : Replay S) (i : ℕ) {tpStatus : BitVec 64}
    (hstatus : tpStatus ≠ tpStatusSendRequest) :
    waiting (c.setStatus i tpStatus).thread.slot =
      Function.update (waiting c.thread.slot) i none := by
  funext j
  by_cases hj : j = i
  · subst hj
    rw [Function.update_self, waiting, setStatus_slot_self, if_neg hstatus]
  · rw [Function.update_of_ne hj, waiting, setStatus_slot_of_ne c i tpStatus hj, waiting]

theorem waiting_fill {slot : ℕ → Slot} (a : ℕ) {bytes : List Byte}
    (hlt : bytes.length < 2 ^ 32) :
    waiting (Function.update slot a
        (State.requested (slot a).frame bytes.length bytes)) =
      Function.update (waiting slot) a (some bytes) := by
  funext j
  by_cases hj : j = a
  · subst hj
    rw [Function.update_self, waiting, Function.update_self, packet_requested _ hlt]
    exact if_pos rfl
  · rw [Function.update_of_ne hj, waiting, Function.update_of_ne hj, waiting]

theorem ring_fill {c : Replay S} {obytes : ℤ} {bytes : List Byte}
    (hpc : c.thread.pc = .request obytes bytes)
    (hindex : c.thread.a = c.filled.length % tx.layout.tpFrameNr.toNat)
    (hlt : bytes.length < 2 ^ 32) :
    ring tx
        { c with
          thread := State.next { c.thread with
            slot := Function.update c.thread.slot c.thread.a
              (State.requested (c.thread.slot c.thread.a).frame bytes.length bytes) }
          filled := c.filled ++ c.thread.filled } =
      (ring tx c).deliver tx.layout.tpFrameNr.toNat bytes := by
  have hfilled : c.thread.filled = [bytes] := by rw [State.filled, hpc]
  simp only [ring, SlotRing.State.deliver, State.next, hfilled]
  rw [waiting_fill _ hlt, ← hindex, List.length_append, List.length_singleton, hindex,
    Nat.mod_add_mod]

theorem slot_eq_of_filled_eq_nil {t t' : State S} {o : Outcome} (h : t.filled = [])
    (hstep : t.ldabPacketTx tx o = some t') : t'.slot = t.slot := by
  cases State.steps_of_ldabPacketTx hstep with
  | fill obytes bytes hpc =>
      rw [State.filled, hpc] at h
      cases h
  | _ => rfl

/-- A replay whose thread fills consecutive slots is a ring that the kernel empties in the
order of the slots. -/
theorem simulates :
    Transition.Simulates (TurnStep tx (S := S))
      (SlotRing.FifoStep tx.layout.tpFrameNr.toNat) (Inv tx hdr rs) (ring tx) := by
  rintro c c' h ⟨hturn, hstep⟩
  obtain ⟨off, hat, -⟩ := h.reads
  cases hstep with
  | thread o t hcomplete hsend hstep =>
      by_cases hfilled : c.thread.filled = []
      · have hring : ring tx { c with thread := t, filled := c.filled ++ c.thread.filled } =
            ring tx c := by
          rw [ring, slot_eq_of_filled_eq_nil hfilled hstep, hfilled, List.append_nil]
          rfl
        rw [hring]
      · obtain ⟨obytes, bytes, hpc⟩ := State.exists_request_of_filled hfilled
        obtain rfl := State.eq_of_request hpc hstep
        unfold State.At at hat
        rw [hpc] at hat
        obtain ⟨-, hread, -, -⟩ := hat
        obtain ⟨rfl, rfl⟩ := Prod.mk.inj hread
        have howns := h.owns
        unfold State.Owns at howns
        rw [hpc] at howns
        have hindex : c.thread.a = c.filled.length % tx.layout.tpFrameNr.toNat :=
          hturn _ _ hpc
        have hempty : (ring tx c).slot (ring tx c).head = none := by
          have havailable := waiting_of_available howns.2
          rwa [hindex] at havailable
        rw [ring_fill hpc hindex (length_nextPacket_lt tx _ off)]
        exact .single (.deliver _ hempty)
  | transmit hsend =>
      have hfull : waiting c.thread.slot
          (c.transmitted.length % tx.layout.tpFrameNr.toNat) =
            some (packet (c.thread.slot c.head).frame) := by
        rw [← h.head_eq]
        exact if_pos hsend.2
      have hring : ring tx (c.transmit tx) = (ring tx c).take
          (c.transmitted.length % tx.layout.tpFrameNr.toNat)
          (packet (c.thread.slot c.head).frame) := by
        simp only [ring, SlotRing.State.take, transmit]
        rw [waiting_setStatus c c.head (by decide), h.head_eq]
        rfl
      rw [hring]
      exact .single (.take hfull)
  | release i hsending =>
      have hnone : waiting c.thread.slot i = none := by
        rw [waiting, if_neg]
        rw [hsending]
        decide
      have hring : ring tx (c.setStatus i tpStatusAvailable) = ring tx c := by
        simp only [ring]
        rw [waiting_setStatus c i (by decide), ← hnone, Function.update_eq_self]
        rfl
      rw [hring]

end Replay

/-- For every ring and every file of packets that are not empty and fit a frame: as long
as the thread fills consecutive slots, the packets that are sent are at every moment the
first of those of the file, repeated without end. -/
theorem ldabPacketTx_repeats (hfd : 0 < tx.pcapFd) (hnr : 0 < tx.layout.tpFrameNr.toNat)
    (hne : rs ≠ []) (hfit : Fit tx rs) {slot : ℕ → Slot} {os : Os S}
    (hslot : ∀ i, (slot i).tpStatus = tpStatusAvailable)
    (hos : ReadsFrom tx (hdr.bytes ++ recordsBytes rs) sizeofPcapFileHeader os)
    {c : Replay S} (hreach : Reaches (Replay.TurnStep tx) (Replay.init slot os) c) :
    ∃ n, c.transmitted <+: repeated rs n := by
  have hsize : tx.layout.tpFrameSize ≠ 0 := by
    obtain ⟨r, hr⟩ := List.exists_mem_of_ne_nil rs hne
    have hle := (hfit r hr).2
    rintro hzero
    rw [hzero] at hle
    exact absurd hle (by simp [tplen])
  have hinit : Replay.Inv tx hdr rs (Replay.init slot os) := Replay.Inv.init hos
  have hstep : ∀ c c' : Replay S, Replay.Inv tx hdr rs c → Replay.TurnStep tx c c' →
      Replay.Inv tx hdr rs c' :=
    fun _ _ hinv hturn => hinv.step hfd hsize hfit hturn.2
  have hfifo : SlotRing.Fifo tx.layout.tpFrameNr.toNat (Replay.ring tx c) := by
    refine Replay.simulates.inv_of_reaches hstep (fun _ _ hfifo => hfifo.step hnr)
      hreach hinit ?_
    have hempty : Replay.ring tx (Replay.init slot os) = SlotRing.State.empty := by
      have hwaiting : Replay.waiting slot = fun _ => none :=
        funext fun i => Replay.waiting_of_available (hslot i)
      simp [Replay.ring, Replay.init, hwaiting, SlotRing.State.empty]
    rw [hempty]
    exact SlotRing.Fifo.empty _
  obtain ⟨off, -, hprogress⟩ := (inv_of_reaches hstep hreach hinit).reads
  obtain ⟨n, hn⟩ := hprogress.exists_prefix
  exact ⟨n, hfifo.taken_prefix.trans hn⟩

/-- A step of a run that is written down. -/
inductive Event
  | thread
  | transmit
  | release (i : ℕ)

namespace Replay

instance (tx : PacketTx) (c : Replay S) : Decidable (c.InTurn tx) :=
  match h : c.thread.pc with
  | .request _ _ =>
      decidable_of_iff (c.thread.a = c.filled.length % tx.layout.tpFrameNr.toNat)
        ⟨fun ha _ _ _ => ha, fun hturn => hturn _ _ h⟩
  | .status => isTrue fun _ _ hpc => by simp [h] at hpc
  | .read _ => isTrue fun _ _ hpc => by simp [h] at hpc
  | .send => isTrue fun _ _ hpc => by simp [h] at hpc
  | .rewind _ => isTrue fun _ _ hpc => by simp [h] at hpc

/-- The state after an event, if it can happen. -/
def apply (tx : PacketTx) (c : Replay S) : Event → Option (Replay S)
  | .thread =>
      if c.thread.Complete (.ok 0) ∧ ¬ c.Sending then
        (c.thread.ldabPacketTx tx (.ok 0)).map fun t =>
          { c with thread := t, filled := c.filled ++ c.thread.filled }
      else none
  | .transmit => if c.Sending then some (c.transmit tx) else none
  | .release i =>
      if (c.thread.slot i).tpStatus = tpStatusSending then
        some (c.setStatus i tpStatusAvailable)
      else none

theorem step_of_apply {c c' : Replay S} {e : Event} (h : c.apply tx e = some c') :
    Step tx c c' := by
  cases e with
  | thread =>
      rw [apply] at h
      split_ifs at h with hok
      obtain ⟨t, ht, rfl⟩ := Option.map_eq_some_iff.1 h
      exact .thread (.ok 0) t hok.1 hok.2 ht
  | transmit =>
      rw [apply] at h
      split_ifs at h with hsend
      obtain rfl := Option.some.inj h
      exact .transmit hsend
  | release i =>
      rw [apply] at h
      split_ifs at h with hsending
      obtain rfl := Option.some.inj h
      exact .release i hsending

/-- The state after events, each of them from a state with the property. -/
def follow (tx : PacketTx) (P : Replay S → Prop) [DecidablePred P] :
    List Event → Replay S → Option (Replay S)
  | [], c => some c
  | e :: es, c => if P c then (c.apply tx e).bind (follow tx P es) else none

theorem reaches_of_follow {P : Replay S → Prop} [DecidablePred P] {es : List Event}
    {c c' : Replay S} (h : follow tx P es c = some c') :
    Reaches (fun c c' => P c ∧ Step tx c c') c c' := by
  induction es generalizing c with
  | nil =>
      obtain rfl := Option.some.inj h
      exact .refl
  | cons e es ih =>
      rw [follow] at h
      split_ifs at h with hP
      obtain ⟨c₁, hc₁, hrest⟩ := Option.bind_eq_some_iff.1 h
      exact .head ⟨hP, step_of_apply hc₁⟩ (ih hrest)

end Replay

def recordOf (x : Byte) : Record where
  hdr := ⟨⟨1, 2⟩, 1, 60⟩
  payload := [x]
  complete := by simp

abbrev twoPackets : List Byte :=
  (createdHeader linktypeEn10mb).bytes ++ recordsBytes [recordOf 1, recordOf 2]

theorem fit_twoPackets : Fit smallTx [recordOf 1, recordOf 2] := by
  simp [Fit, recordOf, smallTx, tplen]

/-- The walk over the first slots, up to the end of the file, and the call of `send(2)`
in which both packets are taken. -/
def firstWalk : List Event :=
  List.replicate 13 .thread ++ [.transmit, .transmit]

theorem ldabPacketTx_repeats_twoPackets :
    ∃ c : Replay Unit, c.transmitted = [[1], [2]] ∧
      ∃ n, c.transmitted <+: repeated [recordOf 1, recordOf 2] n := by
  obtain ⟨c, hrun⟩ : ∃ c, Replay.follow smallTx (Replay.InTurn smallTx) firstWalk
      (Replay.init (fun _ => Slot.zero) (replayedOs twoPackets)) = some c :=
    Option.isSome_iff_exists.1 rfl
  have hsent : (Replay.follow smallTx (Replay.InTurn smallTx) firstWalk
      (Replay.init (fun _ => Slot.zero) (replayedOs twoPackets))).map Replay.transmitted =
        some [[1], [2]] := rfl
  rw [hrun] at hsent
  exact ⟨c, Option.some.inj hsent, ldabPacketTx_repeats (by decide) (by decide) (by simp)
    fit_twoPackets (fun _ => rfl) (readsFrom_replayedOs _) (Replay.reaches_of_follow hrun)⟩

/-- The next walk: it passes the first slot before the slots are available again, and
fills the second one and the third. The kernel goes on with the third. -/
def secondWalk : List Event :=
  List.replicate 4 .thread ++ [.release 0, .release 1] ++ List.replicate 13 .thread ++
    [.transmit]

/-- The second packet is sent twice in a row. -/
theorem exists_transmitted_not_repeated :
    ∃ c : Replay Unit,
      Reaches (Replay.Step smallTx) (Replay.init (fun _ => Slot.zero) (replayedOs twoPackets)) c ∧
      ¬ ∃ n, c.transmitted <+: repeated [recordOf 1, recordOf 2] n := by
  obtain ⟨c, hrun⟩ : ∃ c, Replay.follow smallTx (fun _ => True) (firstWalk ++ secondWalk)
      (Replay.init (fun _ => Slot.zero) (replayedOs twoPackets)) = some c :=
    Option.isSome_iff_exists.1 rfl
  have hsent : (Replay.follow smallTx (fun _ => True) (firstWalk ++ secondWalk)
      (Replay.init (fun _ => Slot.zero) (replayedOs twoPackets))).map Replay.transmitted =
        some [[1], [2], [2]] := rfl
  rw [hrun] at hsent
  refine ⟨c, (Replay.reaches_of_follow hrun).lift id fun _ _ h => h.2, ?_⟩
  rw [Option.some.inj hsent]
  rintro ⟨n, tail, hn⟩
  match n with
  | 0 => cases hn
  | 1 => simp [repeated, recordOf] at hn
  | n + 2 => simp [repeated, List.replicate_succ, recordOf] at hn

end Tx
