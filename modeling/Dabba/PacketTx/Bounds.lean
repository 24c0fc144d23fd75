import Dabba.PacketTx.Kernel
import Dabba.Tile.Basic

/-!
# Where a replay writes

The packet is read to an offset of the slot, but the reader is given the size of the
whole frame as its bound. All that is stored for a slot lies in its frame exactly when
no record of the file holds more than is left of a frame behind that offset.
-/

namespace Tx

open Posix Program Pcap Tpacket Transition Tile

/-- The size of the header fields that are stored: the status, `tp_len` and
`tp_snaplen`. -/
abbrev storedFields : ℕ := 16

/-- The bytes of the ring that have just been read into the slot, or that the next step
stores to. -/
def State.stores {S : Type} (tx : PacketTx) (t : State S) : Set ℕ :=
  match t.pc with
  | .read (.ret (_, bytes)) =>
      Set.Ico (t.a * tx.layout.tpFrameSize.toNat + tplen)
        (t.a * tx.layout.tpFrameSize.toNat + tplen + bytes.length)
  | .request _ _ =>
      Set.Ico (t.a * tx.layout.tpFrameSize.toNat)
        (t.a * tx.layout.tpFrameSize.toNat + storedFields)
  | _ => ∅

/-- What is stored for a slot lies in its frame, and so neither in the frame of another
slot nor past the ring. -/
structure State.InFrame {S : Type} (tx : PacketTx) (t : State S) : Prop where
  frame : t.stores tx ⊆ tile tx.layout.tpFrameSize.toNat t.a
  other : ∀ b, b ≠ t.a → Disjoint (t.stores tx) (tile tx.layout.tpFrameSize.toNat b)
  ring : t.stores tx ⊆
    Set.Ico 0 (tx.layout.tpFrameNr.toNat * tx.layout.tpFrameSize.toNat)

/-- No record up to the first empty one has more bytes in the file than are left of a
frame. -/
def Fits (tpFrameSize : ℕ) (body : List Byte) : Prop :=
  ∀ (rs : List Record) (h : PcapSfPkthdr) (rest : List Byte),
    body = recordsBytes rs ++ (h.bytes ++ rest) → (∀ r ∈ rs, r.payload ≠ []) →
    tplen + min h.caplen.toNat rest.length ≤ tpFrameSize

theorem fits_of_length_le {tpFrameSize : ℕ} {body : List Byte}
    (h : tplen + body.length ≤ tpFrameSize) : Fits tpFrameSize body := by
  rintro rs hdr rest rfl -
  rw [List.length_append, List.length_append] at h
  have hmin := min_le_right hdr.caplen.toNat rest.length
  omega

section Boundary

variable {tx : PacketTx} {hdr : PcapFileHeader} {body : List Byte} {off : ℕ}

def AtBoundary (hdr : PcapFileHeader) (body : List Byte) (off : ℕ) : Prop :=
  off = (hdr.bytes ++ body).length ∨ ∃ rs rest, body = recordsBytes rs ++ rest ∧
    (∀ r ∈ rs, r.payload ≠ []) ∧ off = (hdr.bytes ++ recordsBytes rs).length

theorem AtBoundary.start : AtBoundary hdr body sizeofPcapFileHeader :=
  Or.inr ⟨[], body, rfl, fun r hr => absurd hr List.not_mem_nil, by simp⟩

/-- A read at a boundary of a file that fits stays in the frame, and ends at a boundary
again. -/
theorem AtBoundary.next (h : AtBoundary hdr body off)
    (hsize : tplen ≤ tx.layout.tpFrameSize.toNat)
    (hfits : Fits tx.layout.tpFrameSize.toNat body) :
    tplen + (nextPacket tx (hdr.bytes ++ body) off).1.length ≤ tx.layout.tpFrameSize.toNat ∧
      ((nextPacket tx (hdr.bytes ++ body) off).1 ≠ [] →
        AtBoundary hdr body (nextPacket tx (hdr.bytes ++ body) off).2) := by
  have hnil : (nextPacket tx (hdr.bytes ++ body) off).1 = [] →
      tplen + (nextPacket tx (hdr.bytes ++ body) off).1.length ≤
          tx.layout.tpFrameSize.toNat ∧
        ((nextPacket tx (hdr.bytes ++ body) off).1 ≠ [] →
          AtBoundary hdr body (nextPacket tx (hdr.bytes ++ body) off).2) := by
    intro heq
    rw [heq]
    exact ⟨hsize, fun hne => absurd rfl hne⟩
  rcases h with rfl | ⟨rs, rest, rfl, hne, rfl⟩
  · exact hnil (by rw [nextPacket, readPacket_end])
  · rw [← List.append_assoc] at hnil ⊢
    by_cases hshort : rest.length < sizeofPcapSfPkthdr
    · refine hnil ?_
      rw [nextPacket, readPacket, readAt_append, if_pos]
      rw [List.length_take]
      omega
    · obtain ⟨h, rest', rfl⟩ := exists_hdr_of_length (not_lt.1 hshort)
      have hmin := hfits rs h rest' rfl hne
      have hread : nextPacket tx (hdr.bytes ++ recordsBytes rs ++ (h.bytes ++ rest'))
          (hdr.bytes ++ recordsBytes rs).length =
          (rest'.take h.caplen.toNat, (hdr.bytes ++ recordsBytes rs).length +
            sizeofPcapSfPkthdr + (rest'.take h.caplen.toNat).length) := by
        have htake : rest'.take (min h.caplen.toNat tx.layout.tpFrameSize.toNat) =
            rest'.take h.caplen.toNat := by
          rcases le_total rest'.length h.caplen.toNat with hle | hle
          · rw [List.take_of_length_le hle, List.take_of_length_le (le_min hle (by omega))]
          · rw [min_eq_left (by omega)]
        rw [nextPacket, readPacket_hdr, htake]
      rw [hread]
      refine ⟨by rw [List.length_take]; exact hmin, fun hmore => ?_⟩
      rcases le_total h.caplen.toNat rest'.length with hle | hle
      · -- The record is whole, and ends at a boundary.
        have hlen : (rest'.take h.caplen.toNat).length = h.caplen.toNat :=
          List.length_take_of_le hle
        let r : Record := ⟨h, rest'.take h.caplen.toNat, hlen⟩
        have hr : r.bytes = h.bytes ++ rest'.take h.caplen.toNat := rfl
        refine Or.inr ⟨rs ++ [r], rest'.drop h.caplen.toNat, ?_, ?_, ?_⟩
        · rw [recordsBytes_append, recordsBytes_cons, recordsBytes_nil, List.append_nil, hr,
            List.append_assoc, List.append_assoc, List.take_append_drop]
        · intro r' hr'
          rcases List.mem_append.1 hr' with hr' | hr'
          · exact hne r' hr'
          · rw [List.mem_singleton.1 hr']
            exact hmore
        · rw [recordsBytes_append, recordsBytes_cons, recordsBytes_nil, List.append_nil, hr]
          simp only [List.length_append, h.length_bytes]
          ring
      · -- The file ends before the record does.
        left
        rw [List.take_of_length_le hle]
        simp only [List.length_append, h.length_bytes]
        ring

end Boundary

section Runs

variable {S : Type} {tx : PacketTx} {hdr : PcapFileHeader} {body : List Byte}

/-- What is stored for a slot of the ring lies in its frame when it does not reach past the
end of the frame. -/
theorem State.inFrame_of_subset {t : State S} (hsize : 0 < tx.layout.tpFrameSize.toNat)
    (ha : t.stores tx ≠ ∅ → t.a < tx.layout.tpFrameNr.toNat)
    (h : t.stores tx ⊆ tile tx.layout.tpFrameSize.toNat t.a) : t.InFrame tx where
  frame := h
  other := fun b hb => Set.disjoint_of_subset_left h (disjoint_tile hsize hb.symm)
  ring := by
    by_cases hempty : t.stores tx = ∅
    · rw [hempty]
      exact Set.empty_subset _
    · exact h.trans (tile_subset (ha hempty))

/-- A thread at a boundary of a file that fits stores in the frame of its slot. -/
theorem State.inFrame_of_at {t : State S} {off : ℕ} (hat : t.At tx (hdr.bytes ++ body) off)
    (howns : t.Owns tx) (hboundary : AtBoundary hdr body off)
    (hsize : tplen ≤ tx.layout.tpFrameSize.toNat)
    (hfits : Fits tx.layout.tpFrameSize.toNat body) : t.InFrame tx := by
  have hpos : 0 < tx.layout.tpFrameSize.toNat := lt_of_lt_of_le (by decide) hsize
  obtain ⟨hlen, -⟩ := hboundary.next hsize hfits
  have hend : (t.a + 1) * tx.layout.tpFrameSize.toNat =
      t.a * tx.layout.tpFrameSize.toNat + tx.layout.tpFrameSize.toNat := by ring
  unfold At at hat
  unfold Owns at howns
  cases hpc : t.pc with
  | read p =>
      rw [hpc] at hat howns
      refine inFrame_of_subset hpos (fun _ => howns.1) ?_
      cases p with
      | ret r =>
          obtain ⟨-, rfl, -⟩ := hat
          simp only [stores, hpc, received, tile]
          rw [hend]
          exact Set.Ico_subset_Ico (Nat.le_add_right _ _) (by omega)
      | abort => simp [stores, hpc]
      | call op k => simp [stores, hpc]
  | request obytes bytes =>
      rw [hpc] at howns
      refine inFrame_of_subset hpos (fun _ => howns.1) ?_
      simp only [stores, hpc, tile]
      rw [hend]
      exact Set.Ico_subset_Ico le_rfl (Nat.add_le_add_left (le_trans (by decide) hsize) _)
  | _ =>
      have hempty : t.stores tx = ∅ := by simp only [stores, hpc]
      exact inFrame_of_subset hpos (fun hne => absurd hempty hne)
        (hempty ▸ Set.empty_subset _)

/-- What holds in every state of a replay of a file that fits. -/
structure Replay.Bounded (tx : PacketTx) (hdr : PcapFileHeader) (body : List Byte)
    (c : Replay S) : Prop where
  reads : ∃ off, c.thread.At tx (hdr.bytes ++ body) off ∧ AtBoundary hdr body off
  owns : c.thread.Owns tx

theorem Replay.Bounded.step {c c' : Replay S} (h : Bounded tx hdr body c)
    (hfd : 0 < tx.pcapFd) (hsize : tplen ≤ tx.layout.tpFrameSize.toNat)
    (hfits : Fits tx.layout.tpFrameSize.toNat body) (hstep : Step tx c c') :
    Bounded tx hdr body c' := by
  have hne : tx.layout.tpFrameSize ≠ 0 := by
    rintro hzero
    rw [hzero] at hsize
    exact absurd hsize (by decide)
  obtain ⟨off, hat, hboundary⟩ := h.reads
  cases hstep with
  | thread o t hcomplete hsend hstep =>
      obtain ⟨off', hat', hmoves⟩ := hat.step hfd hne hcomplete hstep
      refine ⟨⟨off', hat', ?_⟩, h.owns.step hstep⟩
      cases hmoves with
      | stays hfilled => exact hboundary
      | fills hmore hfilled => exact (hboundary.next hsize hfits).2 hmore
      | rewinds hend hfilled => exact .start
  | transmit hsend =>
      have hbusy : (c.thread.slot c.head).tpStatus ≠ tpStatusAvailable :=
        hsend.2.trans_ne sendRequest_ne_available
      exact ⟨⟨off, hat.setStatus _ _, hboundary⟩, owns_setStatus h.owns hbusy _⟩
  | release i hsending =>
      have hbusy : (c.thread.slot i).tpStatus ≠ tpStatusAvailable :=
        hsending.trans_ne sending_ne_available
      exact ⟨⟨off, hat.setStatus _ _, hboundary⟩, owns_setStatus h.owns hbusy _⟩

theorem inFrame_of_fits (hfd : 0 < tx.pcapFd) (hsize : tplen ≤ tx.layout.tpFrameSize.toNat)
    {slot : ℕ → Slot} {os : Os S}
    (hos : ReadsFrom tx (hdr.bytes ++ body) sizeofPcapFileHeader os)
    (hfits : Fits tx.layout.tpFrameSize.toNat body) {c : Replay S}
    (hreach : Reaches (Replay.Step tx) (Replay.init slot os) c) : c.thread.InFrame tx := by
  have hinit : Replay.Bounded tx hdr body (Replay.init slot os) :=
    ⟨⟨_, ⟨rfl, hos⟩, .start⟩, trivial⟩
  obtain ⟨⟨off, hat, hboundary⟩, howns⟩ := inv_of_reaches
    (fun _ _ h hstep => Replay.Bounded.step h hfd hsize hfits hstep) hreach hinit
  exact State.inFrame_of_at hat howns hboundary hsize hfits

end Runs

end Tx
