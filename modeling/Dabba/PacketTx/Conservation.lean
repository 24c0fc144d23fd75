import Dabba.PacketTx.Bounds
import Dabba.PacketTx.Order
import Dabba.SlotRing.Pool

/-!
# A replay neither loses nor duplicates a packet

The order in which packets are sent may differ from the order in which they were put into
slots, since every walk begins at the first slot while the kernel goes on at its cursor.
But whatever the order of their steps, every packet that was put into a slot was sent
once or still waits in its slot, and the packets are put in in the order of the file.
-/

namespace Tx

open Posix Program Pcap Tpacket Transition SlotRing

variable {S : Type} {tx : PacketTx} {data : List Byte}

namespace Replay

def pool (c : Replay S) : Pool (List Byte) where
  slot := waiting c.thread.slot
  added := c.filled
  taken := c.transmitted

/-- What holds in every state of a replay of any file. -/
structure Sound (tx : PacketTx) (data : List Byte) (c : Replay S) : Prop where
  reads : ∃ off, c.thread.At tx data off
  owns : c.thread.Owns tx
  head_lt : c.head < tx.layout.tpFrameNr.toNat

theorem owns_step {c c' : Replay S} (h : c.thread.Owns tx) (hstep : Step tx c c') :
    c'.thread.Owns tx := by
  cases hstep with
  | thread o t hcomplete hsend hstep => exact h.step hstep
  | transmit hsend =>
      have hbusy : (c.thread.slot c.head).tpStatus ≠ tpStatusAvailable :=
        hsend.2.trans_ne sendRequest_ne_available
      exact owns_setStatus h hbusy _
  | release i hsending =>
      have hbusy : (c.thread.slot i).tpStatus ≠ tpStatusAvailable :=
        hsending.trans_ne sending_ne_available
      exact owns_setStatus h hbusy _

theorem head_lt_step {c c' : Replay S} (h : c.head < tx.layout.tpFrameNr.toNat)
    (hstep : Step tx c c') : c'.head < tx.layout.tpFrameNr.toNat := by
  cases hstep with
  | transmit hsend => exact Nat.mod_lt _ (Nat.zero_lt_of_lt h)
  | _ => exact h

theorem Sound.step {c c' : Replay S} (h : Sound tx data c) (hfd : 0 < tx.pcapFd)
    (hsize : tx.layout.tpFrameSize ≠ 0) (hstep : Step tx c c') : Sound tx data c' := by
  refine ⟨?_, owns_step h.owns hstep, head_lt_step h.head_lt hstep⟩
  obtain ⟨off, hat⟩ := h.reads
  cases hstep with
  | thread o t hcomplete hsend hstep =>
      obtain ⟨off', hat', -⟩ := hat.step hfd hsize hcomplete hstep
      exact ⟨off', hat'⟩
  | transmit hsend => exact ⟨off, hat.setStatus _ _⟩
  | release i hsending => exact ⟨off, hat.setStatus _ _⟩

def Measured (t : State S) : Prop :=
  ∀ obytes bytes, t.pc = .request obytes bytes →
    obytes = bytes.length ∧ bytes.length < 2 ^ 32

theorem Sound.measured {c : Replay S} (h : Sound tx data c) : Measured c.thread := by
  intro obytes bytes hpc
  obtain ⟨off, hat⟩ := h.reads
  unfold State.At at hat
  rw [hpc] at hat
  obtain ⟨-, hread, -, -⟩ := hat
  obtain ⟨rfl, rfl⟩ := Prod.mk.inj hread
  exact ⟨rfl, length_nextPacket_lt tx data off⟩

theorem pool_release {c : Replay S} {i : ℕ}
    (hsending : (c.thread.slot i).tpStatus = tpStatusSending) :
    (c.setStatus i tpStatusAvailable).pool = c.pool := by
  have hnone : waiting c.thread.slot i = none := by
    rw [waiting, if_neg]
    rw [hsending]
    decide
  rw [pool, waiting_setStatus c i (by decide), ← hnone, Function.update_eq_self]
  rfl

/-- The thread puts the packet it has read into the slot it is at, which is empty. -/
theorem poolStep_fill {c : Replay S} {t : State S} {o : Outcome} {obytes : ℤ}
    {bytes : List Byte} (howns : c.thread.Owns tx) (hmeasured : Measured c.thread)
    (hpc : c.thread.pc = .request obytes bytes)
    (hstep : c.thread.ldabPacketTx tx o = some t) :
    Pool.Step tx.layout.tpFrameNr.toNat c.pool
      (pool { c with thread := t, filled := c.filled ++ c.thread.filled }) := by
  obtain ⟨rfl, hlt⟩ := hmeasured _ _ hpc
  unfold State.Owns at howns
  rw [hpc] at howns
  obtain rfl := State.eq_of_request hpc hstep
  have hfilled : c.thread.filled = [bytes] := by
    rw [State.filled, hpc]
  have hslot := @waiting_fill c.thread.slot c.thread.a _ hlt
  have hadd := Pool.Step.add (p := c.pool) bytes howns.1 (waiting_of_available howns.2)
  have hpool : pool { c with
      thread := State.next { c.thread with
        slot := Function.update c.thread.slot c.thread.a (State.requested
          (c.thread.slot c.thread.a).frame bytes.length bytes) }
      filled := c.filled ++ c.thread.filled } =
      ⟨Function.update c.pool.slot c.thread.a (some bytes), c.pool.added ++ [bytes],
        c.pool.taken⟩ := by
    simp only [pool, State.next, hfilled, hslot]
  rw [hpool]
  exact hadd

/-- Every step of a replay puts a packet into an empty slot, sends one out of its slot, or
leaves the pool as it is. -/
theorem pool_step {c c' : Replay S} (howns : c.thread.Owns tx)
    (hhead : c.head < tx.layout.tpFrameNr.toNat) (hmeasured : Measured c.thread)
    (hstep : Step tx c c') :
    Relation.ReflGen (Pool.Step tx.layout.tpFrameNr.toNat) c.pool c'.pool := by
  cases hstep with
  | thread o t hcomplete hsend hstep =>
      by_cases hfilled : c.thread.filled = []
      · have hpool : pool { c with thread := t, filled := c.filled ++ c.thread.filled } =
            pool c := by
          rw [pool, slot_eq_of_filled_eq_nil hfilled hstep, hfilled, List.append_nil]
          rfl
        rw [hpool]
      · obtain ⟨obytes, bytes, hpc⟩ := State.exists_request_of_filled hfilled
        exact .single (poolStep_fill howns hmeasured hpc hstep)
  | transmit hsend =>
      have hfull : c.pool.slot c.head = some (packet (c.thread.slot c.head).frame) :=
        if_pos hsend.2
      have hpool : (c.transmit tx).pool =
          ⟨Function.update c.pool.slot c.head none, c.pool.added,
            c.pool.taken ++ [packet (c.thread.slot c.head).frame]⟩ := by
        simp only [pool, transmit]
        rw [waiting_setStatus c c.head (by decide)]
        rfl
      rw [hpool]
      exact .single (.take hhead hfull)
  | release i hsending =>
      rw [pool_release hsending]

theorem simulates_pool :
    Transition.Simulates (Step tx (S := S)) (Pool.Step tx.layout.tpFrameNr.toNat)
      (Sound tx data) pool :=
  fun _ _ h hstep => pool_step h.owns h.head_lt h.measured hstep

theorem conserved_of_reaches (hfd : 0 < tx.pcapFd) (hnr : 0 < tx.layout.tpFrameNr.toNat)
    (hsize : tx.layout.tpFrameSize ≠ 0) {slot : ℕ → Slot} {os : Os S}
    (hslot : ∀ i, (slot i).tpStatus = tpStatusAvailable)
    (hos : ReadsFrom tx data sizeofPcapFileHeader os) {c : Replay S}
    (hreach : Reaches (Step tx) (Replay.init slot os) c) :
    (c.filled : Multiset (List Byte)) =
      c.transmitted + content tx.layout.tpFrameNr.toNat (waiting c.thread.slot) := by
  have hinit : Sound tx data (Replay.init slot os) := ⟨⟨_, rfl, hos⟩, trivial, hnr⟩
  have hstep : ∀ c c' : Replay S, Sound tx data c → Step tx c c' → Sound tx data c' :=
    fun _ _ h hstep => h.step hfd hsize hstep
  exact simulates_pool.inv_of_reaches hstep (fun _ _ h hstep => h.step hstep) hreach hinit
    (Pool.Conserved.empty fun i => waiting_of_available (hslot i))

theorem progress_of_reaches {hdr : PcapFileHeader} {rs : List Record} (hfd : 0 < tx.pcapFd)
    (hsize : tx.layout.tpFrameSize ≠ 0) (hfit : Fit tx rs) {slot : ℕ → Slot} {os : Os S}
    (hos : ReadsFrom tx (hdr.bytes ++ recordsBytes rs) sizeofPcapFileHeader os)
    {c : Replay S} (hreach : Reaches (Step tx) (Replay.init slot os) c) :
    ∃ n, c.filled <+: repeated rs n := by
  obtain ⟨off, -, hprogress⟩ := (inv_of_reaches
    (fun _ _ h hstep => Inv.step h hfd hsize hfit hstep) hreach (Inv.init hos)).reads
  exact hprogress.exists_prefix

end Replay

theorem fit_of_fits {rs : List Record}
    (hfits : Fits tx.layout.tpFrameSize.toNat (recordsBytes rs))
    (hne : ∀ r ∈ rs, r.payload ≠ []) : Fit tx rs := by
  intro r hr
  obtain ⟨rs₁, rs₂, rfl⟩ := List.append_of_mem hr
  have hmin := hfits rs₁ r.hdr (r.payload ++ recordsBytes rs₂)
    (by rw [recordsBytes_append, recordsBytes_cons, Record.bytes, List.append_assoc])
    fun r' hr' => hne r' (List.mem_append_left _ hr')
  rw [← r.complete, List.length_append, min_eq_left (Nat.le_add_right _ _)] at hmin
  exact ⟨hne r hr, hmin⟩

/-- For every ring and every file whose records fit a frame, in every order of the steps of
the thread and the kernel: what is stored for a slot stays in its frame, and each packet that
was put into a slot was sent once or waits in its slot. When the records of the file are whole
and none is empty, the packets that were put in are the first of those of the file, repeated
without end. -/
theorem ldabPacketTx_conserves {hdr : PcapFileHeader} {body : List Byte} (hfd : 0 < tx.pcapFd)
    (hnr : 0 < tx.layout.tpFrameNr.toNat) (hsize : tplen ≤ tx.layout.tpFrameSize.toNat)
    (hfits : Fits tx.layout.tpFrameSize.toNat body) {slot : ℕ → Slot} {os : Os S}
    (hslot : ∀ i, (slot i).tpStatus = tpStatusAvailable)
    (hos : ReadsFrom tx (hdr.bytes ++ body) sizeofPcapFileHeader os) {c : Replay S}
    (hreach : Reaches (Replay.Step tx) (Replay.init slot os) c) :
    c.thread.InFrame tx ∧
      (c.filled : Multiset (List Byte)) =
        c.transmitted + content tx.layout.tpFrameNr.toNat (Replay.waiting c.thread.slot) ∧
      ∀ rs : List Record, body = recordsBytes rs → (∀ r ∈ rs, r.payload ≠ []) →
        ∃ n, c.filled <+: repeated rs n := by
  have hpos : tx.layout.tpFrameSize ≠ 0 := by
    rintro hzero
    rw [hzero] at hsize
    exact absurd hsize (by decide)
  refine ⟨inFrame_of_fits hfd hsize hos hfits hreach,
    Replay.conserved_of_reaches hfd hnr hpos hslot hos hreach, ?_⟩
  rintro rs rfl hne
  exact Replay.progress_of_reaches hfd hpos (fit_of_fits hfits hne) hos hreach

/-- After the second walk one packet waits that was overtaken. -/
theorem ldabPacketTx_conserves_twoPackets :
    ∃ c : Replay Unit, c.filled = [[1], [2], [1], [2]] ∧ c.transmitted = [[1], [2], [2]] ∧
      c.thread.InFrame smallTx ∧
      (c.filled : Multiset (List Byte)) =
        c.transmitted + content smallTx.layout.tpFrameNr.toNat
          (Replay.waiting c.thread.slot) ∧
      ∀ rs : List Record, recordsBytes [recordOf 1, recordOf 2] = recordsBytes rs →
        (∀ r ∈ rs, r.payload ≠ []) → ∃ n, c.filled <+: repeated rs n := by
  obtain ⟨c, hrun⟩ : ∃ c, Replay.follow smallTx (fun _ => True) (firstWalk ++ secondWalk)
      (Replay.init (fun _ => Slot.zero) (replayedOs twoPackets)) = some c :=
    Option.isSome_iff_exists.1 rfl
  have hlog : (Replay.follow smallTx (fun _ => True) (firstWalk ++ secondWalk)
      (Replay.init (fun _ => Slot.zero) (replayedOs twoPackets))).map
        (fun c => (c.filled, c.transmitted)) =
          some ([[1], [2], [1], [2]], [[1], [2], [2]]) := rfl
  rw [hrun] at hlog
  obtain ⟨hfilled, hsent⟩ := Prod.mk.inj (Option.some.inj hlog)
  have hreach := (Replay.reaches_of_follow hrun).lift id fun _ _ h => h.2
  have hfits : Fits smallTx.layout.tpFrameSize.toNat (recordsBytes [recordOf 1, recordOf 2]) :=
    fits_of_length_le (by decide)
  exact ⟨c, hfilled, hsent, ldabPacketTx_conserves (by decide) (by decide) (by decide) hfits
    (fun _ => rfl) (readsFrom_replayedOs _) hreach⟩

end Tx
