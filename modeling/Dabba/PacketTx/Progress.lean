import Dabba.PacketTx.Conservation
import Dabba.Program.Calls
import Dabba.Transition.Labeled

/-!
# A replay does not come to a standstill

A walk passes every slot once, and at the end of the file the loop goes back to the first
packet and begins another walk. So while a slot is available, some slot is filled within
two walks of the thread, whatever the kernel does in between, as long as the first packet
of the file can be read. Otherwise the end of the file is met at once, over and over, and
no slot is ever filled.
-/

namespace Tx

open Posix Program Pcap Tpacket Transition

variable {S : Type} {tx : PacketTx} {data : List Byte} {off off' j k n : ℕ}

deriving instance DecidableEq for Event

/-- One step of the thread or of the kernel, by what it does. -/
def Replay.Acts (tx : PacketTx) : Event → Replay S → Replay S → Prop
  | .thread, c, c' => ∃ o t, c.thread.Complete o ∧ ¬ c.Sending ∧
      c.thread.ldabPacketTx tx o = some t ∧
      c' = { c with thread := t, filled := c.filled ++ c.thread.filled }
  | .transmit, c, c' => c.Sending ∧ c' = c.transmit tx
  | .release i, c, c' => (c.thread.slot i).tpStatus = tpStatusSending ∧
      c' = c.setStatus i tpStatusAvailable

theorem Replay.Acts.step {e : Event} {c c' : Replay S} (h : Acts tx e c c') :
    Step tx c c' := by
  cases e with
  | thread =>
      obtain ⟨o, t, hcomplete, hsend, hstep, rfl⟩ := h
      exact .thread o t hcomplete hsend hstep
  | transmit =>
      obtain ⟨hsend, rfl⟩ := h
      exact .transmit hsend
  | release i =>
      obtain ⟨hsending, rfl⟩ := h
      exact .release i hsending

theorem callsAtMost_ldabPcapRead (fd : ℤ) (pktLen : BitVec 32) :
    (ldabPcapRead fd pktLen).CallsAtMost 2 := by
  unfold ldabPcapRead
  refine Prog.CallsAtMost.assert_bind (Prog.CallsAtMost.assert_bind fun header => ?_)
  cases header with
  | none => trivial
  | some hdr =>
      simp only [Prog.bind_eq, Prog.ret_bind]
      split_ifs with hlen
      · trivial
      · refine fun payload => ?_
        cases payload <;> trivial

theorem callsAtMost_ldabPcapRewind (fd : ℤ) : (ldabPcapRewind fd).CallsAtMost 1 :=
  fun _ => trivial

/-- The file has no packet at the offset that could be read. -/
def atEnd (tx : PacketTx) (data : List Byte) (off : ℕ) : Bool :=
  (nextPacket tx data off).1.isEmpty

theorem atEnd_eq_true : atEnd tx data off = true ↔ (nextPacket tx data off).1 = [] :=
  List.isEmpty_iff

theorem atEnd_eq_false : atEnd tx data off = false ↔ (nextPacket tx data off).1 ≠ [] := by
  rw [← Bool.not_eq_true, atEnd_eq_true]

/-- The steps between a read and the filling of a slot. At the end of the file these are
`send(2)`, the rewinding, and a walk up to slot `j`. -/
def stepsBehind (j : ℕ) (ended : Bool) : ℕ :=
  if ended then 9 + j else 2

theorem stepsBehind_false : stepsBehind j false = 2 := rfl

theorem stepsBehind_true : stepsBehind j true = 9 + j := rfl

namespace State

variable {t t' : State S} {ended : Bool} {o : Outcome}

def CallsLeft (t : State S) : Prop :=
  match t.pc with
  | .read p => p.CallsAtMost 2
  | .rewind p => p.CallsAtMost 1
  | _ => True

theorem CallsLeft.step (h : t.CallsLeft) (hstep : t.ldabPacketTx tx o = some t') :
    t'.CallsLeft := by
  unfold CallsLeft at h
  cases steps_of_ldabPacketTx hstep with
  | available hpc hlt havailable => exact callsAtMost_ldabPcapRead tx.pcapFd _
  | sentAtEnd hpc heof => exact callsAtMost_ldabPcapRewind tx.pcapFd
  | readCall op q hpc =>
      rw [hpc] at h
      exact (h _).mono (Nat.le_succ 1)
  | rewindCall op q hpc =>
      rw [hpc] at h
      exact (h _).mono (Nat.zero_le 1)
  | _ => trivial

/-- The slots that the walks pass before they come to slot `j` of `n`, and the two steps
between two walks. -/
def ahead (n j : ℕ) (t : State S) : ℕ :=
  if t.a ≤ j then j - t.a else n - t.a + 2 + j

theorem ahead_next (hlt : t.a < n) (hne : t.a ≠ j) : t.next.ahead n j + 1 ≤ t.ahead n j := by
  have ha : t.next.a = t.a + 1 := rfl
  unfold ahead
  rw [ha]
  by_cases hle : t.a ≤ j
  · rw [if_pos hle, if_pos (by omega)]
    omega
  · rw [if_neg hle, if_neg (by omega)]
    omega

/-- Some slot is filled within `k` more steps if slot `j` stays available: the status of
the slot is compared, and the packet is read with two calls and put into the slot. -/
def DueWithin (n j : ℕ) (ended : Bool) (k : ℕ) (t : State S) : Prop :=
  match t.pc with
  | .status => t.ahead n j + 3 + stepsBehind j ended ≤ k
  | .read p => ∃ m, p.CallsAtMost m ∧ m + stepsBehind j ended ≤ k
  | .request _ _ => 1 ≤ k
  | .send => if t.eof then 8 + j ≤ k else 4 + j + stepsBehind j ended ≤ k
  | .rewind p => ∃ m, p.CallsAtMost m ∧ m + 6 + j ≤ k

theorem DueWithin.pos (h : t.DueWithin n j ended k) : 0 < k := by
  unfold DueWithin stepsBehind at h
  split at h
  · omega
  · obtain ⟨m, -, hm⟩ := h
    split_ifs at hm <;> omega
  · exact h
  · split_ifs at h <;> omega
  · obtain ⟨m, -, hm⟩ := h
    omega

/-- From everywhere some slot is filled within two walks. -/
theorem dueWithin_of_callsLeft (h : t.CallsLeft) (hj : j < n) :
    t.DueWithin n j ended (2 * n + 12) := by
  have hbehind : stepsBehind j ended ≤ 9 + j := by
    unfold stepsBehind
    split_ifs <;> omega
  unfold CallsLeft at h
  unfold DueWithin
  cases hpc : t.pc with
  | status =>
      simp only [ahead]
      split_ifs <;> omega
  | read p =>
      rw [hpc] at h
      exact ⟨2, h, by omega⟩
  | request obytes bytes => exact (Nat.le_add_left 1 11).trans (Nat.le_add_left 12 _)
  | send =>
      dsimp only
      split_ifs <;> omega
  | rewind p =>
      rw [hpc] at h
      exact ⟨1, h, by omega⟩

end State

theorem ReadsFrom.unique {os : Os S} (h : ReadsFrom tx data off os)
    (h' : ReadsFrom tx data off' os) : off = off' := by
  obtain ⟨f, hf, -, -, rfl⟩ := h
  obtain ⟨f', hf', -, -, rfl⟩ := h'
  rw [hf] at hf'
  obtain rfl := Descriptor.file.inj (Option.some.inj hf')
  rfl

/-- A step that fills no slot brings the end of the file no closer. -/
theorem Moves.stepsBehind_le {t : State S} (h : Moves tx data off t off')
    (hfilled : t.filled = []) (hfirst : (nextPacket tx data sizeofPcapFileHeader).1 ≠ []) :
    stepsBehind j (atEnd tx data off') ≤ stepsBehind j (atEnd tx data off) := by
  cases h with
  | stays _ => exact le_rfl
  | fills _ hfilled' =>
      rw [hfilled] at hfilled'
      cases hfilled'
  | rewinds hend _ =>
      rw [atEnd_eq_false.2 hfirst, atEnd_eq_true.2 hend, stepsBehind_false, stepsBehind_true]
      omega

/-- While slot `j` is available, every step of the thread brings it closer to filling a
slot, or fills one. -/
theorem State.DueWithin.step {t t' : State S} {o : Outcome}
    (h : t.DueWithin tx.layout.tpFrameNr.toNat j (atEnd tx data off) (k + 1))
    (hat : t.At tx data off) (hat' : t'.At tx data off') (hmoves : Moves tx data off t off')
    (hfirst : (nextPacket tx data sizeofPcapFileHeader).1 ≠ [])
    (hj : j < tx.layout.tpFrameNr.toNat) (havailable : (t.slot j).tpStatus = tpStatusAvailable)
    (hfilled : t.filled = []) (hstep : t.ldabPacketTx tx o = some t') :
    t'.DueWithin tx.layout.tpFrameNr.toNat j (atEnd tx data off') k := by
  have hbehind := hmoves.stepsBehind_le (j := j) hfilled hfirst
  unfold DueWithin at h
  unfold At at hat
  cases steps_of_ldabPacketTx hstep with
  | available hpc hlt hslot =>
      rw [hpc] at h
      dsimp only at h
      exact ⟨2, callsAtMost_ldabPcapRead _ _, by omega⟩
  | busy hpc hlt hbusy =>
      have hne : t.a ≠ j := fun ha => hbusy (ha ▸ havailable)
      have hnext := ahead_next hlt hne
      rw [hpc] at h
      dsimp only at h
      have hgoal : t.next.ahead tx.layout.tpFrameNr.toNat j + 3 +
          stepsBehind j (atEnd tx data off') ≤ k := by omega
      exact hgoal
  | walked hpc hge =>
      rw [hpc] at h hat
      dsimp only [ahead] at h
      rw [if_neg (by omega)] at h
      simp only [DueWithin, goto, hat.1, Bool.false_eq_true, if_false]
      omega
  | readCall op q hpc =>
      rw [hpc] at h
      obtain ⟨m, hcalls, hm⟩ := h
      cases m with
      | zero => exact hcalls.elim
      | succ m => exact ⟨m, hcalls _, by omega⟩
  | endOfFile obytes bytes hpc hend =>
      rw [hpc] at h
      obtain ⟨m, -, hm⟩ := h
      unfold At at hat'
      simp only [if_true] at hat'
      rw [atEnd_eq_true.2 hat'.1, stepsBehind_true] at hbehind
      simp only [DueWithin, if_true]
      omega
  | readEnd obytes bytes hpc hmore =>
      rw [hpc] at h
      obtain ⟨m, -, hm⟩ := h
      have hpos : 2 ≤ stepsBehind j (atEnd tx data off) := by
        unfold stepsBehind
        split_ifs <;> omega
      simp only [DueWithin, goto]
      omega
  | fill obytes bytes hpc =>
      rw [filled, hpc] at hfilled
      cases hfilled
  | sentAtEnd hpc heof =>
      rw [hpc] at h
      simp only [heof, if_true] at h
      exact ⟨1, callsAtMost_ldabPcapRewind _, by omega⟩
  | sent hpc heof =>
      rw [hpc] at h
      simp only [heof, Bool.false_eq_true, if_false] at h
      simp only [DueWithin, ahead, Nat.zero_le, if_true]
      omega
  | rewindCall op q hpc =>
      rw [hpc] at h
      obtain ⟨m, hcalls, hm⟩ := h
      cases m with
      | zero => exact hcalls.elim
      | succ m => exact ⟨m, hcalls _, by omega⟩
  | rewound r hpc =>
      rw [hpc] at h hat
      obtain ⟨m, -, hm⟩ := h
      -- The file is at its first packet, which can be read.
      obtain rfl : sizeofPcapFileHeader = off' := hat.2.unique hat'.2
      simp only [DueWithin, ahead, Nat.zero_le, if_true, atEnd_eq_false.2 hfirst,
        stepsBehind_false]
      omega

namespace Replay

variable {c c₁ c₂ : Replay S}

/-- What holds of the thread in every state of a replay. -/
structure Progressing (tx : PacketTx) (data : List Byte) (c : Replay S) : Prop where
  reads : ∃ off, c.thread.At tx data off
  calls : c.thread.CallsLeft

theorem Progressing.step {e : Event} (h : Progressing tx data c) (hfd : 0 < tx.pcapFd)
    (hsize : tx.layout.tpFrameSize ≠ 0) (hstep : Acts tx e c c₁) : Progressing tx data c₁ := by
  obtain ⟨off, hat⟩ := h.reads
  cases e with
  | thread =>
      obtain ⟨o, t, hcomplete, -, hthread, rfl⟩ := hstep
      obtain ⟨off', hat', -⟩ := hat.step hfd hsize hcomplete hthread
      exact ⟨⟨off', hat'⟩, h.calls.step hthread⟩
  | transmit =>
      obtain ⟨-, rfl⟩ := hstep
      exact ⟨⟨off, hat.setStatus _ _⟩, h.calls⟩
  | release i =>
      obtain ⟨-, rfl⟩ := hstep
      exact ⟨⟨off, hat.setStatus _ _⟩, h.calls⟩

theorem Progressing.init {slot : ℕ → Slot} {os : Os S}
    (hos : ReadsFrom tx data sizeofPcapFileHeader os) :
    Progressing tx data (Replay.init slot os) :=
  ⟨⟨_, rfl, hos⟩, trivial⟩

def FilledSince (c c' : Replay S) : Prop := ∃ p ps, c'.filled = c.filled ++ p :: ps

/-- No slot was filled since the state `c`, slot `j` is available, and some slot is filled
within `k` more steps of the thread. -/
structure FillsWithin (tx : PacketTx) (data : List Byte) (c : Replay S) (j k : ℕ)
    (c' : Replay S) : Prop where
  filled : c'.filled = c.filled
  available : (c'.thread.slot j).tpStatus = tpStatusAvailable
  due : ∃ off, c'.thread.At tx data off ∧
    c'.thread.DueWithin tx.layout.tpFrameNr.toNat j (atEnd tx data off) k

theorem FilledSince.step {e : Event} (h : c.FilledSince c₁) (hstep : Acts tx e c₁ c₂) :
    c.FilledSince c₂ := by
  obtain ⟨p, ps, hps⟩ := h
  cases e with
  | thread =>
      obtain ⟨o, t, -, -, -, rfl⟩ := hstep
      refine ⟨p, ps ++ c₁.thread.filled, ?_⟩
      simp only [hps, List.append_assoc, List.cons_append]
  | transmit =>
      obtain ⟨-, rfl⟩ := hstep
      exact ⟨p, ps, hps⟩
  | release i =>
      obtain ⟨-, rfl⟩ := hstep
      exact ⟨p, ps, hps⟩

theorem FillsWithin.setStatus {i : ℕ} (h : FillsWithin tx data c j k c₁)
    (hbusy : (c₁.thread.slot i).tpStatus ≠ tpStatusAvailable) (tpStatus : BitVec 64) :
    FillsWithin tx data c j k (c₁.setStatus i tpStatus) := by
  obtain ⟨off, hat, hdue⟩ := h.due
  have hne : j ≠ i := by
    rintro rfl
    exact hbusy h.available
  refine ⟨h.filled, ?_, off, hat.setStatus _ _, hdue⟩
  rw [setStatus_slot_of_ne c₁ i tpStatus hne]
  exact h.available

theorem FillsWithin.kernel {e : Event} (h : FillsWithin tx data c j k c₁) (he : e ≠ .thread)
    (hstep : Acts tx e c₁ c₂) : FillsWithin tx data c j k c₂ := by
  cases e with
  | thread => exact absurd rfl he
  | transmit =>
      obtain ⟨hsend, rfl⟩ := hstep
      obtain ⟨hfilled, havailable, hdue⟩ :=
        h.setStatus (hsend.2.trans_ne sendRequest_ne_available) tpStatusSending
      exact ⟨hfilled, havailable, hdue⟩
  | release i =>
      obtain ⟨hsending, rfl⟩ := hstep
      exact h.setStatus (hsending.trans_ne sending_ne_available) _

/-- A step of the thread fills a slot, or comes closer to it. -/
theorem FillsWithin.thread (h : FillsWithin tx data c j (k + 1) c₁) (hfd : 0 < tx.pcapFd)
    (hsize : tx.layout.tpFrameSize ≠ 0) (hj : j < tx.layout.tpFrameNr.toNat)
    (hfirst : (nextPacket tx data sizeofPcapFileHeader).1 ≠ [])
    (hstep : Acts tx .thread c₁ c₂) :
    c.FilledSince c₂ ∨ FillsWithin tx data c j k c₂ := by
  obtain ⟨o, t, hcomplete, -, hthread, rfl⟩ := hstep
  obtain ⟨off, hat, hdue⟩ := h.due
  obtain ⟨off', hat', hmoves⟩ := hat.step hfd hsize hcomplete hthread
  cases hfilled : c₁.thread.filled with
  | nil =>
      refine .inr ⟨by rw [List.append_nil, h.filled], ?_, off', hat', ?_⟩
      · rw [slot_eq_of_filled_eq_nil hfilled hthread]
        exact h.available
      · exact hdue.step hat hat' hmoves hfirst hj h.available hfilled hthread
  | cons p ps => exact .inl ⟨p, ps, by rw [h.filled]⟩

/-- While a slot is available, some slot is filled within two walks. -/
theorem FilledSince.of_runs {history : List Event} {c' : Replay S} (hfd : 0 < tx.pcapFd)
    (hsize : tx.layout.tpFrameSize ≠ 0)
    (hfirst : (nextPacket tx data sizeofPcapFileHeader).1 ≠ []) (hc : Progressing tx data c)
    (hj : j < tx.layout.tpFrameNr.toNat)
    (havailable : (c.thread.slot j).tpStatus = tpStatusAvailable)
    (hrun : Runs (Acts tx) history c c')
    (hcount : 2 * tx.layout.tpFrameNr.toNat + 12 ≤ history.count .thread) :
    c.FilledSince c' := by
  obtain ⟨off, hat⟩ := hc.reads
  have hinv : ∀ e (c₁ c₂ : Replay S), Progressing tx data c₁ → Acts tx e c₁ c₂ →
      Progressing tx data c₂ := fun _ _ _ h hstep => h.step hfd hsize hstep
  refine Runs.done_of_le_count (FillsWithin tx data c j) hinv
    (fun _ _ _ h hstep => h.step hstep) ?_ ?_ ?_ hrun hc
    ⟨rfl, havailable, off, hat, State.dueWithin_of_callsLeft hc.calls hj⟩ hcount
  · intro e k c₁ c₂ he _ hdue hstep
    exact .inr (hdue.kernel he hstep)
  · intro k c₁ c₂ _ hdue hstep
    exact (hdue.thread hfd hsize hj hfirst hstep).imp_right fun h => ⟨k, le_rfl, h⟩
  · rintro c₁ ⟨-, -, off, -, hdue⟩
    exact absurd hdue.pos (lt_irrefl 0)

/-- The thread is at the first packet of its file, and has filled no slot. -/
def AtStart (tx : PacketTx) (data : List Byte) (c : Replay S) : Prop :=
  c.thread.At tx data sizeofPcapFileHeader ∧ c.filled = []

theorem AtStart.step (h : AtStart tx data c) (hfd : 0 < tx.pcapFd)
    (hsize : tx.layout.tpFrameSize ≠ 0)
    (hfirst : (nextPacket tx data sizeofPcapFileHeader).1 = []) (hstep : Step tx c c₁) :
    AtStart tx data c₁ := by
  obtain ⟨hat, hfilled⟩ := h
  cases hstep with
  | thread o t hcomplete hsend hstep =>
      obtain ⟨off', hat', hmoves⟩ := hat.step hfd hsize hcomplete hstep
      cases hmoves with
      | stays hnone => exact ⟨hat', by rw [hfilled, hnone, List.append_nil]⟩
      | fills hmore _ => exact absurd hfirst hmore
      | rewinds _ hnone => exact ⟨hat', by rw [hfilled, hnone, List.append_nil]⟩
  | transmit hsend => exact ⟨hat.setStatus _ _, hfilled⟩
  | release i hsending => exact ⟨hat.setStatus _ _, hfilled⟩

theorem reaches_of_runs {history : List Event} (h : Runs (Acts tx) history c c₁) :
    Reaches (Step tx) c c₁ :=
  h.reaches.lift id fun _ _ ⟨_, hacts⟩ => hacts.step

theorem acts_of_apply {e : Event} (h : c.apply tx e = some c₁) : Acts tx e c c₁ := by
  cases e with
  | thread =>
      rw [apply] at h
      split_ifs at h with hok
      obtain ⟨t, ht, rfl⟩ := Option.map_eq_some_iff.1 h
      exact ⟨.ok 0, t, hok.1, hok.2, ht, rfl⟩
  | transmit =>
      rw [apply] at h
      split_ifs at h with hsend
      exact ⟨hsend, (Option.some.inj h).symm⟩
  | release i =>
      rw [apply] at h
      split_ifs at h with hsending
      exact ⟨hsending, (Option.some.inj h).symm⟩

theorem runs_of_follow {P : Replay S → Prop} [DecidablePred P] {es : List Event}
    (h : follow tx P es c = some c₁) : Runs (Acts tx) es c c₁ := by
  induction es generalizing c with
  | nil =>
      obtain rfl := Option.some.inj h
      exact .nil c
  | cons e es ih =>
      rw [follow] at h
      split_ifs at h with hP
      obtain ⟨c₂, hc₂, hrest⟩ := Option.bind_eq_some_iff.1 h
      exact (ih hrest).cons (acts_of_apply hc₂)

end Replay

/-- For every ring and every file: a replay whose first packet can be read fills a slot
within two walks of the thread whenever one is available, at the end of the file as
anywhere else, whatever the kernel does in between. Otherwise it never fills one. -/
theorem ldabPacketTx_fills_within (hfd : 0 < tx.pcapFd) (hsize : tx.layout.tpFrameSize ≠ 0)
    {slot : ℕ → Slot} {os : Os S} (hos : ReadsFrom tx data sizeofPcapFileHeader os)
    {before : List Event} {c : Replay S}
    (hbefore : Runs (Replay.Acts tx) before (Replay.init slot os) c) :
    ((nextPacket tx data sizeofPcapFileHeader).1 = [] → c.filled = []) ∧
      ((nextPacket tx data sizeofPcapFileHeader).1 ≠ [] →
        ∀ j < tx.layout.tpFrameNr.toNat, (c.thread.slot j).tpStatus = tpStatusAvailable →
        ∀ (after : List Event) (c' : Replay S), Runs (Replay.Acts tx) after c c' →
          2 * tx.layout.tpFrameNr.toNat + 12 ≤ after.count .thread →
          ∃ p ps, c'.filled = c.filled ++ p :: ps) := by
  refine ⟨fun hfirst => ?_, fun hfirst j hj havailable after c' hafter hcount => ?_⟩
  · have hstep : ∀ c c' : Replay S, c.AtStart tx data → Replay.Step tx c c' →
        c'.AtStart tx data := fun _ _ h hstep => h.step hfd hsize hfirst hstep
    exact (inv_of_reaches hstep (Replay.reaches_of_runs hbefore) ⟨⟨rfl, hos⟩, rfl⟩).2
  · have hc : Replay.Progressing tx data c :=
      hbefore.inv_of_runs (fun _ _ _ h hstep => h.step hfd hsize hstep) (.init hos)
    exact Replay.FilledSince.of_runs hfd hsize hfirst hc hj havailable hafter hcount

def laterWalks : List Event := secondWalk ++ List.replicate 11 .thread

/-- At the end of the file the third slot is available, and it is filled with the second
packet, behind a first one in the second slot. -/
theorem ldabPacketTx_fills_within_twoPackets :
    ∃ c c' : Replay Unit, c.filled = [[1], [2]] ∧ c'.filled = [[1], [2], [1], [2], [1]] ∧
      ∃ p ps, c'.filled = c.filled ++ p :: ps := by
  obtain ⟨c, hbefore⟩ : ∃ c, Replay.follow smallTx (fun _ => True) firstWalk
      (Replay.init (fun _ => Slot.zero) (replayedOs twoPackets)) = some c :=
    Option.isSome_iff_exists.1 rfl
  have hrun : (Replay.follow smallTx (fun _ => True) firstWalk
      (Replay.init (fun _ => Slot.zero) (replayedOs twoPackets))).bind
      (fun c => (Replay.follow smallTx (fun _ => True) laterWalks c).map fun c' =>
        (c.filled, (c.thread.slot 2).tpStatus, c'.filled)) =
          some ([[1], [2]], 0, [[1], [2], [1], [2], [1]]) := rfl
  rw [hbefore, Option.bind_some] at hrun
  obtain ⟨c', hafter, hlog⟩ := Option.map_eq_some_iff.1 hrun
  simp only [Prod.mk.injEq] at hlog
  obtain ⟨hfilled, hslot, hfilled'⟩ := hlog
  have hfirst : (nextPacket smallTx twoPackets sizeofPcapFileHeader).1 ≠ [] := by decide
  have hwithin := ldabPacketTx_fills_within (by decide) (by decide)
    (readsFrom_replayedOs twoPackets) (Replay.runs_of_follow hbefore)
  exact ⟨c, c', hfilled, hfilled', hwithin.2 hfirst 2 (by decide) hslot laterWalks c'
    (Replay.runs_of_follow hafter) (by decide)⟩

end Tx
