import Dabba.PacketRx.Conservation
import Dabba.Program.Calls
import Dabba.Transition.Labeled

/-!
# How long a packet waits

The capture loop spends a bounded number of steps at each slot, and comes back to every
slot. A poll that fails may make it pass a slot in the moment in which the kernel fills
it, but not a second time: from then on the status of the slot is not the kernel's. So
every packet that was delivered is written within two rounds of the thread, whatever the
kernel does in between.
-/

namespace Rx

open Posix Program Pcap Tpacket Transition

variable {S : Type} {rx : PacketRx} {i : ℕ} {base : List Byte}

inductive Actor
  | kernel
  | thread
deriving DecidableEq

/-- One step of the kernel or of the thread, by who takes it. -/
def Capture.Acts (rx : PacketRx) : Actor → Capture S → Capture S → Prop
  | .kernel, c, c' => ∃ tpStatus f, (c.thread.slot c.head).tpStatus = tpStatusKernel ∧
      tpStatus &&& tpStatusUser = tpStatusUser ∧ f.Deliverable rx.layout.tpFrameSize ∧
      c' = c.deliver rx tpStatus f
  | .thread, c, c' => ∃ o t, c.thread.Complete o ∧ c.thread.ldabPacketRx rx o = some t ∧
      c' = { c with thread := t, written := c.written ++ c.thread.written }

theorem Capture.Acts.step {actor : Actor} {c c' : Capture S} (h : Acts rx actor c c') :
    Step rx c c' := by
  cases actor with
  | kernel =>
      obtain ⟨tpStatus, f, hkernel, huser, hframe, rfl⟩ := h
      exact .kernel tpStatus f hkernel huser hframe
  | thread =>
      obtain ⟨o, t, hcomplete, hstep, rfl⟩ := h
      exact .thread o t hcomplete hstep

/-- The steps of the longest visit of a slot: the status, the poll, the test, two writes,
their end, and the handing back. -/
abbrev visitSteps : ℕ := 7

def Pc.isPoll : Pc → Bool
  | .poll => true
  | _ => false

/-- The visit of the slot ends within `l` more steps. -/
def Pc.EndsWithin : Pc → ℕ → Prop
  | .status, l => visitSteps ≤ l
  | .poll, l => 6 ≤ l
  | .user, l => 5 ≤ l
  | .write p, l => ∃ k, p.CallsAtMost k ∧ k + 2 ≤ l
  | .release, l => 1 ≤ l

theorem Pc.EndsWithin.pos {pc : Pc} {l : ℕ} (h : pc.EndsWithin l) : 1 ≤ l := by
  cases pc with
  | write p =>
      obtain ⟨k, -, hk⟩ := h
      omega
  | _ => exact le_trans (by decide) h

namespace State

theorem callsAtMost_writeFrame (rx : PacketRx) (f : Frame) :
    (writeFrame rx f).CallsAtMost 2 := by
  unfold writeFrame ldabPcapWrite
  refine Prog.CallsAtMost.assert_bind (Prog.CallsAtMost.assert_bind fun header => ?_)
  simp only [Prog.bind_eq, Prog.ret_bind]
  split_ifs with hheader
  · trivial
  · refine fun payload => ?_
    simp only [Prog.ret_bind]
    split_ifs <;> trivial

/-- The slots that the thread begins to visit before it looks at slot `j` of `n`. A poll
that waits at the slot itself may still fail. -/
def ahead (n j : ℕ) (t : State S) : ℕ :=
  if t.index < j ∨ (t.index = j ∧ t.pc.isPoll = false) then j - t.index
  else n - t.index + 1 + j

/-- The thread has dealt with slot `j` within `k` more steps. -/
def DueWithin (n j k : ℕ) (t : State S) : Prop :=
  ∃ l, t.pc.EndsWithin l ∧ visitSteps * t.ahead n j + l ≤ k

/-- The visit of each slot ends within the steps of the longest one. -/
theorem endsWithin_step {t t' : State S} {o : Outcome} (h : t.pc.EndsWithin visitSteps)
    (hstep : t.ldabPacketRx rx o = some t') : t'.pc.EndsWithin visitSteps := by
  cases steps_of_ldabPacketRx hstep with
  | kernelSlot hpc => exact show 6 ≤ 7 by decide
  | otherSlot hpc => exact show 5 ≤ 7 by decide
  | wrap hpc =>
      rw [hpc]
      exact le_refl 7
  | pollFailed hpc => exact le_refl 7
  | polled hpc => exact show 5 ≤ 7 by decide
  | capture hpc => exact ⟨2, callsAtMost_writeFrame rx _, by decide⟩
  | discard hpc => exact show 1 ≤ 7 by decide
  | notReady hpc => exact le_refl 7
  | writeCall op k hpc =>
      rw [hpc] at h
      obtain ⟨n, hp, hn⟩ := h
      cases n with
      | zero => exact hp.elim
      | succ n => exact ⟨n, hp _, by omega⟩
  | writeEnd n hpc => exact show 1 ≤ 7 by decide
  | handBack hpc => exact le_refl 7

/-- From everywhere the thread comes to every slot within two rounds. -/
theorem dueWithin_of_endsWithin {n j : ℕ} {t : State S} (h : t.pc.EndsWithin visitSteps)
    (hj : j < n) : t.DueWithin n j (visitSteps * (n + 2)) := by
  refine ⟨visitSteps, h, ?_⟩
  have hahead : t.ahead n j ≤ n + 1 := by
    unfold ahead
    split_ifs with hbefore
    · omega
    · have hge : j ≤ t.index := by
        by_contra hlt
        exact hbefore (.inl (not_le.1 hlt))
      omega
  rw [visitSteps]
  omega

theorem DueWithin.stays {n j k : ℕ} {t t' : State S} (h : t.DueWithin n j k)
    (hends : ∀ l, t.pc.EndsWithin l → ∃ l', l' + 1 ≤ l ∧ t'.pc.EndsWithin l')
    (hahead : t'.ahead n j ≤ t.ahead n j) : ∃ k', k' + 1 ≤ k ∧ t'.DueWithin n j k' := by
  obtain ⟨l, hl, hk⟩ := h
  obtain ⟨l', hle, hl'⟩ := hends l hl
  refine ⟨visitSteps * t'.ahead n j + l', ?_, l', hl', le_rfl⟩
  rw [visitSteps] at hk ⊢
  omega

theorem DueWithin.goesOn {n j k : ℕ} {t t' : State S} (h : t.DueWithin n j k)
    (hpc : t'.pc = .status) (hahead : t'.ahead n j + 1 ≤ t.ahead n j) :
    ∃ k', k' + 1 ≤ k ∧ t'.DueWithin n j k' := by
  obtain ⟨l, hl, hk⟩ := h
  have hpos := hl.pos
  refine ⟨visitSteps * t'.ahead n j + visitSteps, ?_, visitSteps, ?_, le_rfl⟩
  · rw [visitSteps] at hk ⊢
    omega
  · rw [hpc]
    exact le_refl visitSteps

theorem ahead_next {n j : ℕ} {t : State S} (hj : j < n) (hlt : t.index < n)
    (hne : t.index = j → t.pc.isPoll = true) : t.next.ahead n j + 1 ≤ t.ahead n j := by
  have hindex : t.next.index = t.index + 1 := rfl
  have hpoll : t.next.pc.isPoll = false := rfl
  unfold ahead
  simp only [hindex, hpoll, and_true]
  by_cases hidx : t.index = j
  · rw [if_neg (by omega), if_neg (by simp [hidx, hne hidx])]
    omega
  · split_ifs <;> omega

theorem pc_of_written_ne_nil {t : State S} (h : t.written ≠ []) :
    ∃ m, t.pc = .write (.ret m) := by
  by_contra hret
  exact h (written_eq_nil_of_ne_ret fun m hpc => hret ⟨m, hpc⟩)

/-- While the packet of slot `j` waits, every step of the thread brings it closer to
being written, or writes it. -/
theorem DueWithin.step {j k : ℕ} {t t' : State S} {o : Outcome} {bytes : List Byte}
    {x : ℕ × Frame} (h : t.DueWithin rx.layout.tpFrameNr.toNat j k) (hfd : 0 < rx.pcapFd)
    (hj : j < rx.layout.tpFrameNr.toNat) (hx : t.waiting j = some x)
    (hconsistent : t.Consistent rx i bytes) (hstep : t.ldabPacketRx rx o = some t') :
    x ∈ t.written ∨ t'.waiting j = some x ∧
      ∃ k', k' + 1 ≤ k ∧ t'.DueWithin rx.layout.tpFrameNr.toNat j k' := by
  have hwaits : (t.slot j).IsUser ∧ ¬ t.Releasing j := by
    by_contra hnot
    rw [waiting, if_neg hnot] at hx
    cases hx
  have hkernel : (t.slot j).tpStatus ≠ tpStatusKernel :=
    fun hk => Slot.not_isUser_of_kernel hk hwaits.1
  rcases waiting_step hfd hconsistent hstep with
    ⟨hwaiting, -⟩ | ⟨y, hlt, hy, hwritten, hwaiting⟩
  · -- The packets that wait are the same, and the thread is closer to slot `j`.
    refine .inr ⟨by rw [hwaiting, hx], ?_⟩
    unfold Consistent at hconsistent
    cases steps_of_ldabPacketRx hstep with
    | kernelSlot hpc hlt hslot =>
        have hne : t.index ≠ j := fun hidx => hkernel (hidx ▸ hslot)
        refine h.stays (fun l hl => ⟨6, ?_, le_refl 6⟩) ?_
        · rw [hpc] at hl
          exact hl
        · simp [ahead, goto, hpc, Pc.isPoll, hne]
    | otherSlot hpc hlt hslot =>
        refine h.stays (fun l hl => ⟨5, ?_, le_refl 5⟩) ?_
        · rw [hpc] at hl
          exact le_trans (by decide) hl
        · simp [ahead, goto, hpc, Pc.isPoll]
    | wrap hpc hge =>
        refine h.goesOn hpc ?_
        have hge' : rx.layout.tpFrameNr.toNat ≤ t.index := not_lt.1 hge
        have hahead : ahead rx.layout.tpFrameNr.toNat j { t with index := 0 } = j := by
          simp [ahead, hpc, Pc.isPoll, Nat.pos_iff_ne_zero, eq_comm, em']
        rw [hahead, ahead, if_neg (by omega)]
        omega
    | pollFailed hpc e ho =>
        rw [hpc] at hconsistent
        exact h.goesOn rfl (ahead_next hj hconsistent.1 fun _ => by rw [hpc]; rfl)
    | polled hpc m ho =>
        refine h.stays (fun l hl => ⟨5, ?_, le_refl 5⟩) ?_
        · rw [hpc] at hl
          exact hl
        · simp only [ahead, goto, hpc, Pc.isPoll, and_true, Bool.true_eq_false, and_false,
            or_false]
          split_ifs <;> omega
    | capture hpc huser hfd =>
        refine h.stays (fun l hl => ⟨4, ?_, 2, callsAtMost_writeFrame rx _, le_refl 4⟩) ?_
        · rw [hpc] at hl
          exact hl
        · simp [ahead, goto, hpc, Pc.isPoll]
    | discard hpc huser hnofd => exact absurd hfd hnofd
    | notReady hpc huser =>
        rw [hpc] at hconsistent
        have hne : t.index ≠ j := fun hidx => huser (hidx ▸ hwaits.1)
        exact h.goesOn rfl (ahead_next hj hconsistent.1 fun hidx => absurd hidx hne)
    | writeCall op q hpc =>
        refine h.stays (fun l hl => ?_) ?_
        · rw [hpc] at hl
          obtain ⟨m, hp, hm⟩ := hl
          cases m with
          | zero => exact hp.elim
          | succ m => exact ⟨m + 2, by omega, m, hp _, le_rfl⟩
        · simp [ahead, hpc, Pc.isPoll]
    | writeEnd m hpc =>
        refine h.stays (fun l hl => ⟨1, ?_, le_refl 1⟩) ?_
        · rw [hpc] at hl
          obtain ⟨m, -, hm⟩ := hl
          omega
        · simp [ahead, goto, hpc, Pc.isPoll]
    | handBack hpc =>
        rw [hpc] at hconsistent
        have hne : t.index ≠ j := fun hidx =>
          hwaits.2 ⟨by rw [hpc]; rfl, hidx.symm⟩
        exact h.goesOn rfl (ahead_next hj hconsistent.1 fun hidx => absurd hidx hne)
  · by_cases hidx : j = t.index
    · -- The packet of the slot is the one that is written.
      rw [← hidx, hx] at hy
      exact .inl (by rw [hwritten, Option.some.inj hy]; exact List.mem_singleton_self y)
    · refine .inr ⟨by rw [hwaiting, Function.update_of_ne hidx, hx], ?_⟩
      obtain ⟨m, hpc⟩ := pc_of_written_ne_nil (by rw [hwritten]; exact List.cons_ne_nil y [])
      have hgoto : t' = t.goto .release := by
        unfold ldabPacketRx at hstep
        rw [hpc] at hstep
        exact (Option.some.inj hstep).symm
      subst hgoto
      refine h.stays (fun l hl => ⟨1, ?_, le_refl 1⟩) ?_
      · rw [hpc] at hl
        obtain ⟨m, -, hm⟩ := hl
        omega
      · simp [ahead, goto, hpc, Pc.isPoll]

end State

/-- The invariant of a capture and a bound on the rest of the visit of a slot. -/
structure Capture.Progressing (rx : PacketRx) (i : ℕ) (base : List Byte) (c : Capture S) :
    Prop where
  inv : Capture.Inv rx i base c
  ends : c.thread.pc.EndsWithin visitSteps

theorem Capture.Progressing.step {actor : Actor} {c c' : Capture S} (hfd : 0 < rx.pcapFd)
    (hsize : 0 < rx.layout.tpFrameSize.toNat) (h : Progressing rx i base c)
    (hstep : Capture.Acts rx actor c c') : Progressing rx i base c' := by
  refine ⟨h.inv.step hfd hsize hstep.step, ?_⟩
  cases actor with
  | kernel =>
      obtain ⟨tpStatus, f, -, -, -, rfl⟩ := hstep
      exact h.ends
  | thread =>
      obtain ⟨o, t, -, hthread, rfl⟩ := hstep
      exact State.endsWithin_step h.ends hthread

namespace Capture

/-- What was written since the state `c` has the packet `x` in it. -/
def WrittenSince (c : Capture S) (x : ℕ × Frame) (c' : Capture S) : Prop :=
  ∃ ps, c'.written = c.written ++ ps ∧ x ∈ ps

/-- The packet `x` waits in the slot `j`, and the thread has dealt with the slot within
`k` more steps. -/
structure WaitsFor (rx : PacketRx) (c : Capture S) (j : ℕ) (x : ℕ × Frame) (k : ℕ)
    (c' : Capture S) : Prop where
  since : c.written <+: c'.written
  waits : c'.thread.waiting j = some x
  due : c'.thread.DueWithin rx.layout.tpFrameNr.toNat j k

variable {c c₁ c₂ : Capture S} {j k : ℕ} {x : ℕ × Frame}

theorem Acts.written_prefix {actor : Actor} (h : Acts rx actor c₁ c₂) :
    c₁.written <+: c₂.written := by
  cases actor with
  | kernel =>
      obtain ⟨tpStatus, f, -, -, -, rfl⟩ := h
      exact List.prefix_rfl
  | thread =>
      obtain ⟨o, t, -, -, rfl⟩ := h
      exact List.prefix_append _ _

theorem WrittenSince.step {actor : Actor} (h : c.WrittenSince x c₁)
    (hstep : Acts rx actor c₁ c₂) : c.WrittenSince x c₂ := by
  obtain ⟨ps, hps, hx⟩ := h
  obtain ⟨qs, hqs⟩ := hstep.written_prefix
  exact ⟨ps ++ qs, by rw [← hqs, hps, List.append_assoc], List.mem_append_left qs hx⟩

theorem WaitsFor.kernel (h : WaitsFor rx c j x k c₁) (hstep : Acts rx .kernel c₁ c₂) :
    WaitsFor rx c j x k c₂ := by
  obtain ⟨tpStatus, f, hkernel, -, -, rfl⟩ := hstep
  have hne : j ≠ c₁.head := by
    rintro rfl
    have hwaits := h.waits
    rw [State.waiting_of_kernel hkernel] at hwaits
    cases hwaits
  refine ⟨h.since, ?_, h.due⟩
  rw [← h.waits]
  have hslot : (c₁.thread.fill c₁.head ⟨tpStatus, f⟩).slot j = c₁.thread.slot j :=
    State.fill_slot_of_ne c₁.thread _ hne
  simp only [deliver, State.waiting, hslot]
  rfl

theorem WaitsFor.thread (h : WaitsFor rx c j x (k + 1) c₁) (hfd : 0 < rx.pcapFd)
    (hj : j < rx.layout.tpFrameNr.toNat) (hinv : Capture.Inv rx i base c₁)
    (hstep : Acts rx .thread c₁ c₂) :
    c.WrittenSince x c₂ ∨ ∃ k' ≤ k, WaitsFor rx c j x k' c₂ := by
  have hgrown := hstep.written_prefix
  obtain ⟨o, t, -, hthread, rfl⟩ := hstep
  rcases h.due.step hfd hj h.waits hinv.consistent hthread with
    hwritten | ⟨hwaits, k', hk', hdue⟩
  · obtain ⟨ps, hps⟩ := h.since
    refine .inl ⟨ps ++ c₁.thread.written, ?_, List.mem_append_right ps hwritten⟩
    rw [← List.append_assoc, hps]
  · exact .inr ⟨k', by omega, h.since.trans hgrown, hwaits, hdue⟩

/-- A packet that waits is written within two rounds of the thread. -/
theorem WrittenSince.of_runs {history : List Actor} {c' : Capture S} (hfd : 0 < rx.pcapFd)
    (hsize : 0 < rx.layout.tpFrameSize.toNat) (hc : Progressing rx i base c)
    (hj : j < rx.layout.tpFrameNr.toNat) (hx : c.thread.waiting j = some x)
    (hrun : Runs (Acts rx) history c c')
    (hcount : visitSteps * (rx.layout.tpFrameNr.toNat + 2) ≤ history.count .thread) :
    c.WrittenSince x c' := by
  have hinv : ∀ a (c₁ c₂ : Capture S), Progressing rx i base c₁ → Acts rx a c₁ c₂ →
      Progressing rx i base c₂ := fun _ _ _ h hstep => h.step hfd hsize hstep
  refine Runs.done_of_le_count (WaitsFor rx c j x) hinv
    (fun _ _ _ h hstep => h.step hstep) ?_ ?_ ?_ hrun hc
    ⟨List.prefix_rfl, hx, State.dueWithin_of_endsWithin hc.ends hj⟩ hcount
  · rintro (_ | _) k c₁ c₂ hactor hc₁ hdue hstep
    · exact .inr (hdue.kernel hstep)
    · exact absurd rfl hactor
  · intro k c₁ c₂ hc₁ hdue hstep
    exact hdue.thread hfd hj hc₁.inv hstep
  · rintro c₁ ⟨-, -, l, hl, hle⟩
    have hpos := hl.pos
    omega

theorem nodup_content_waiting (n : ℕ) (t : State S) :
    (SlotRing.content n t.waiting).Nodup := by
  have htag : ∀ j x, t.waiting j = some x → x.1 = j := by
    intro j x hx
    rw [State.waiting] at hx
    split_ifs at hx
    exact (Option.some.inj hx) ▸ rfl
  exact SlotRing.nodup_content fun j k x hj hk => (htag j x hj).symm.trans (htag k x hk)

theorem Progressing.init (hnr : 0 < rx.layout.tpFrameNr.toNat) {slot : ℕ → Slot} {os : Os S}
    (hslot : ∀ j, (slot j).tpStatus = tpStatusKernel) (hos : AtEnd os rx.pcapFd i base) :
    Progressing rx i base (Capture.init slot os) :=
  ⟨.init hnr hslot hos, le_refl visitSteps⟩

theorem written_prefix_of_runs {history : List Actor} (h : Runs (Acts rx) history c c₁) :
    c.written <+: c₁.written := by
  induction h with
  | nil => exact List.prefix_rfl
  | snoc _ hlast ih => exact ih.trans hlast.written_prefix

theorem reaches_of_runs {history : List Actor} (h : Runs (Acts rx) history c c₁) :
    Reaches (Step rx) c c₁ :=
  h.reaches.lift id fun _ _ ⟨_, hacts⟩ => hacts.step

end Capture

/-- Every packet that was delivered is in the file after two more rounds of the thread,
whatever the kernel does in between. -/
theorem ldabPacketRx_writes_within (hfd : 0 < rx.pcapFd)
    (hnr : 0 < rx.layout.tpFrameNr.toNat) (hsize : 0 < rx.layout.tpFrameSize.toNat)
    {slot : ℕ → Slot} {os : Os S} (hslot : ∀ j, (slot j).tpStatus = tpStatusKernel)
    (hos : AtEnd os rx.pcapFd i base) {before after : List Actor} {c c' : Capture S}
    (hbefore : Runs (Capture.Acts rx) before (Capture.init slot os) c)
    (hafter : Runs (Capture.Acts rx) after c c')
    (hcount : visitSteps * (rx.layout.tpFrameNr.toNat + 2) ≤ after.count .thread) :
    (c.delivered : Multiset (ℕ × Frame)) ≤ c'.written ∧
      ((∀ p, c'.thread.pc ≠ .write p) →
        c'.thread.os.data i = base ++ recordsOf rx c'.written) := by
  have hstep : ∀ c c' : Capture S, Capture.Inv rx i base c → Capture.Step rx c c' →
      Capture.Inv rx i base c' := fun _ _ hinv => hinv.step hfd hsize
  have hinit := Capture.Progressing.init hnr hslot hos
  have hc : Capture.Progressing rx i base c :=
    hbefore.inv_of_runs (fun _ _ _ h => h.step hfd hsize) hinit
  have hc' : Capture.Progressing rx i base c' :=
    hafter.inv_of_runs (fun _ _ _ h => h.step hfd hsize) hc
  -- What was delivered is written already, or waits in its slot.
  have hring : SlotRing.Conserved rx.layout.tpFrameNr.toNat c.ring := by
    refine (Capture.simulates hfd).inv_of_reaches hstep (fun _ _ => SlotRing.Conserved.step)
      (Capture.reaches_of_runs hbefore) hinit.inv ?_
    rw [Capture.ring_init hslot]
    exact SlotRing.Conserved.empty hnr
  have heq : (c.delivered : Multiset (ℕ × Frame)) =
      c.written + SlotRing.content _ c.thread.waiting := hring.delivered_eq
  obtain ⟨rest, hrest⟩ := Capture.written_prefix_of_runs hafter
  refine ⟨?_, fun hwrite => ?_⟩
  · rw [heq, ← hrest, ← Multiset.coe_add]
    refine add_le_add_right ?_ _
    rw [Multiset.le_iff_subset (Capture.nodup_content_waiting _ _)]
    intro x hx
    obtain ⟨j, hj, hwaits⟩ := SlotRing.mem_content.1 hx
    obtain ⟨ps, hps, hmem⟩ :=
      Capture.WrittenSince.of_runs hfd hsize hc hj hwaits hafter hcount
    rw [← hrest] at hps
    rw [List.append_cancel_left hps]
    exact hmem
  · obtain ⟨f, -, rfl, -, -, -, hdata⟩ := hc'.inv.consistent.atEnd hwrite
    exact hdata

theorem Capture.runs_of_goOn {k : ℕ} {c c' : Capture S} (h : c.goOn rx k = some c') :
    Runs (Acts rx) (List.replicate k .thread) c c' := by
  induction k generalizing c' with
  | zero =>
      obtain rfl := Option.some.inj h
      exact .nil c
  | succ k ih =>
      rw [goOn] at h
      obtain ⟨c₁, hc₁, h⟩ := Option.bind_eq_some_iff.1 h
      obtain ⟨t, hthread, h⟩ := Option.bind_eq_some_iff.1 h
      split_ifs at h with hcomplete
      obtain rfl := Option.some.inj h
      rw [List.replicate_succ']
      exact (ih hc₁).snoc ⟨.ok 0, t, hcomplete, hthread, rfl⟩

def tinyRx : PacketRx where
  layout := ⟨2048, 1, 2048, 1⟩
  pcapFd := 5

theorem ldabPacketRx_writes_within_smallFrame :
    ∃ c c' : Capture Unit,
      Runs (Capture.Acts tinyRx) [.kernel] (Capture.init (fun _ => Slot.zero) writableOs) c ∧
      Runs (Capture.Acts tinyRx) (List.replicate 21 .thread) c c' ∧
      ((c.delivered : Multiset (ℕ × Frame)) ≤ c'.written ∧
        ((∀ p, c'.thread.pc ≠ .write p) →
          c'.thread.os.data 0 = [] ++ recordsOf tinyRx c'.written)) := by
  let c : Capture Unit :=
    (Capture.init (fun _ => Slot.zero) writableOs).deliver tinyRx 1 smallFrame
  have hkernel : Runs (Capture.Acts tinyRx) [.kernel]
      (Capture.init (fun _ => Slot.zero) writableOs) c :=
    .single ⟨1, smallFrame, rfl, rfl, smallFrame_deliverable, rfl⟩
  have hsome : (c.goOn tinyRx 21).isSome = true := by decide +kernel
  obtain ⟨c', hc'⟩ := Option.isSome_iff_exists.1 hsome
  have hthread := Capture.runs_of_goOn hc'
  exact ⟨c, c', hkernel, hthread, ldabPacketRx_writes_within (by decide) (by decide)
    (by decide) (fun _ => rfl) writableOs_atEnd hkernel hthread (by decide)⟩

end Rx
