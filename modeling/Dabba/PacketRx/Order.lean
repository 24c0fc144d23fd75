import Dabba.PacketRx.Conservation

/-!
# The order of a capture

The packets are written in the order of their delivery as long as the loop stays
aligned with the kernel's cursor, that is, as long as it leaves every slot only
after taking a packet out of it. It leaves a slot without one when `poll(2)`
fails, and when `poll(2)` returns while the slot is still the kernel's. From
then on a packet may be delivered behind the loop's back, and later packets are
written before it.
-/

namespace Rx

open Posix Program Pcap Tpacket

variable {S : Type} {rx : PacketRx} {i : ℕ} {base : List Byte}

/-- The thread does not leave a slot that still belongs to the kernel: its poll
succeeds, and a slot whose status it tests after that is its own. -/
def State.StaysInTurn (t : State S) (o : Outcome) : Prop :=
  (t.pc = .poll → ∃ n, o = .ok n) ∧
    (t.pc = .user → (t.slot t.index).IsUser)

namespace Capture

/-- The steps of the kernel, and those of the thread that stay in turn. -/
inductive TurnStep (rx : PacketRx) : Capture S → Capture S → Prop
  | kernel {c : Capture S} (tpStatus : BitVec 64) (f : Frame)
      (hkernel : (c.thread.slot c.head).tpStatus = tpStatusKernel)
      (huser : tpStatus &&& tpStatusUser = tpStatusUser)
      (hframe : f.Deliverable rx.layout.tpFrameSize) :
      TurnStep rx c (c.deliver rx tpStatus f)
  | thread {c : Capture S} (o : Outcome) (t : State S)
      (hcomplete : c.thread.Complete o) (hturn : c.thread.StaysInTurn o)
      (hstep : c.thread.ldabPacketRx rx o = some t) :
      TurnStep rx c
        { c with thread := t, written := c.written ++ c.thread.written }

theorem TurnStep.step {c c' : Capture S} (h : TurnStep rx c c') :
    Step rx c c' := by
  cases h with
  | kernel tpStatus f hkernel huser hframe => exact .kernel _ _ hkernel huser hframe
  | thread o t hcomplete hturn hstep => exact .thread o t hcomplete hstep

end Capture

def State.position (t : State S) : ℕ :=
  if t.pc.isRelease then t.index + 1 else t.index

/-- The loop is aligned: it stands at the slot after the last one it took a packet
from. -/
structure Capture.Aligned (rx : PacketRx) (c : Capture S) : Prop where
  index_le : c.thread.index ≤ rx.layout.tpFrameNr.toNat
  position_eq : c.thread.position % rx.layout.tpFrameNr.toNat =
    c.written.length % rx.layout.tpFrameNr.toNat

namespace State

theorem position_eq_index {t : State S} (h : t.pc.isRelease = false) :
    t.position = t.index := by
  rw [position, h]
  rfl

theorem position_eq_succ {t : State S} (h : t.pc.isRelease = true) :
    t.position = t.index + 1 := by
  rw [position, h]
  rfl

theorem isRelease_of_written {t : State S} {x : ℕ × Frame}
    (h : t.written = [x]) : t.pc.isRelease = false := by
  cases hpc : t.pc with
  | release =>
      rw [written, hpc] at h
      cases h
  | _ => rfl

/-- A step in turn moves the position by the number of packets it takes, up to
the wrap at the end of the ring. -/
theorem position_step {t t' : State S} {bytes : List Byte} {o : Outcome}
    (hfd : 0 < rx.pcapFd) (h : t.Consistent rx i bytes)
    (hturn : t.StaysInTurn o) (hle : t.index ≤ rx.layout.tpFrameNr.toNat)
    (hstep : t.ldabPacketRx rx o = some t') :
    t'.index ≤ rx.layout.tpFrameNr.toNat ∧
      t'.position % rx.layout.tpFrameNr.toNat =
        (t.position + t.written.length) % rx.layout.tpFrameNr.toNat := by
  have hstay : ∀ pc, t.pc = pc → pc.isRelease = false →
      (∀ n, pc ≠ .write (.ret n)) → t'.index = t.index →
      t'.pc.isRelease = false →
      t'.index ≤ rx.layout.tpFrameNr.toNat ∧
        t'.position % rx.layout.tpFrameNr.toNat =
          (t.position + t.written.length) % rx.layout.tpFrameNr.toNat := by
    intro pc hpc hrel hret hindex hrel'
    rw [position_eq_index hrel', position_eq_index (by rw [hpc, hrel]), hindex,
      written_eq_nil_of_ne_ret (by rwa [hpc])]
    exact ⟨hle, rfl⟩
  unfold Consistent at h
  cases steps_of_ldabPacketRx hstep with
  | kernelSlot hpc => exact hstay _ hpc rfl (by simp) rfl rfl
  | otherSlot hpc => exact hstay _ hpc rfl (by simp) rfl rfl
  | wrap hpc hge =>
      have hindex : t.index = rx.layout.tpFrameNr.toNat := le_antisymm hle (not_lt.1 hge)
      have hrel : t.pc.isRelease = false := by rw [hpc]; rfl
      refine ⟨Nat.zero_le _, ?_⟩
      rw [position_eq_index (t := { t with index := 0 }) hrel,
        position_eq_index hrel, written_eq_nil_of_ne_ret (by simp [hpc]), hindex]
      simp
  | pollFailed hpc e ho =>
      obtain ⟨n, hn⟩ := hturn.1 hpc
      rw [ho] at hn
      cases hn
  | polled hpc => exact hstay _ hpc rfl (by simp) rfl rfl
  | capture hpc => exact hstay _ hpc rfl (by simp) rfl rfl
  | discard hpc huser hnofd => exact absurd hfd hnofd
  | notReady hpc huser => exact absurd (hturn.2 hpc) huser
  | writeCall op k hpc => exact hstay _ hpc rfl (by simp) rfl rfl
  | writeEnd n hpc =>
      rw [hpc] at h
      obtain ⟨-, -, hn, -⟩ := h
      have hw : t.written.length = 1 := by
        rw [written, hpc]
        exact congrArg List.length (if_neg (not_lt.2 hn))
      rw [hw, position_eq_index (t := t) (by rw [hpc]; rfl)]
      exact ⟨hle, rfl⟩
  | handBack hpc =>
      rw [hpc] at h
      rw [written_eq_nil_of_ne_ret (by simp [hpc]),
        position_eq_succ (t := t) (by rw [hpc]; rfl)]
      exact ⟨h.1, rfl⟩

end State

theorem Capture.Aligned.init {slot : ℕ → Slot} {os : Os S} :
    Capture.Aligned rx (Capture.init slot os) :=
  ⟨Nat.zero_le _, rfl⟩

theorem Capture.Aligned.step {c c' : Capture S} (hfd : 0 < rx.pcapFd)
    (hinv : Capture.Inv rx i base c) (h : Capture.Aligned rx c)
    (hstep : Capture.TurnStep rx c c') : Capture.Aligned rx c' := by
  cases hstep with
  | kernel tpStatus f => exact ⟨h.index_le, h.position_eq⟩
  | thread o t hcomplete hturn hstep =>
      obtain ⟨hle, hposition⟩ :=
        State.position_step hfd hinv.consistent hturn h.index_le hstep
      refine ⟨hle, ?_⟩
      rw [hposition, List.length_append, Nat.add_mod, h.position_eq, ← Nat.add_mod]

def Capture.TurnInv (rx : PacketRx) (i : ℕ) (base : List Byte) (c : Capture S) :
    Prop :=
  Capture.Inv rx i base c ∧ Capture.Aligned rx c

/-- A capture that stays in turn is a ring whose items are taken from
consecutive slots. -/
theorem Capture.turn_simulates (hfd : 0 < rx.pcapFd) :
    Transition.Simulates (Capture.TurnStep rx (S := S))
      (SlotRing.FifoStep rx.layout.tpFrameNr.toNat) (Capture.TurnInv rx i base)
      Capture.ring := by
  rintro c c' ⟨hinv, haligned⟩ hstep
  cases hstep with
  | kernel tpStatus f hkernel huser hframe =>
      rw [ring_deliver hkernel huser hinv]
      exact .single (.deliver _ (State.waiting_of_kernel hkernel))
  | thread o t hcomplete hturn hstep =>
      rcases State.waiting_step hfd hinv.consistent hstep with
        ⟨hwaiting, hwritten⟩ | ⟨x, hlt, hfull, hwritten, hwaiting⟩
      · rw [ring_of_waiting_eq hwaiting hwritten]
      · have hrel := State.isRelease_of_written hwritten
        have hindex : c.thread.index =
            c.ring.taken.length % rx.layout.tpFrameNr.toNat := by
          have hposition := haligned.position_eq
          rw [State.position_eq_index hrel, Nat.mod_eq_of_lt hlt] at hposition
          exact hposition
        rw [ring_of_waiting_take hwaiting hwritten, hindex]
        rw [hindex] at hfull
        exact .single (.take hfull)

/-- In a run of the kernel and the thread in which the thread stays in turn, the
written packets are at every moment the first of the delivered ones, in order,
and the file holds their records in that order. -/
theorem ldabPacketRx_keeps_order (hfd : 0 < rx.pcapFd)
    (hnr : 0 < rx.layout.tpFrameNr.toNat)
    (hsize : 0 < rx.layout.tpFrameSize.toNat) {slot : ℕ → Slot} {os : Os S}
    (hslot : ∀ j, (slot j).tpStatus = tpStatusKernel)
    (hos : AtEnd os rx.pcapFd i base) {c : Capture S}
    (hreach : Transition.Reaches (Capture.TurnStep rx)
      (Capture.init slot os) c) :
    c.written <+: c.delivered ∧
      ((∀ p, c.thread.pc ≠ .write p) →
        c.thread.os.data i = base ++ recordsOf rx c.written) := by
  have hinit : Capture.TurnInv rx i base (Capture.init slot os) :=
    ⟨Capture.Inv.init hnr hslot hos, Capture.Aligned.init⟩
  have hstep : ∀ c c' : Capture S, Capture.TurnInv rx i base c →
      Capture.TurnStep rx c c' → Capture.TurnInv rx i base c' :=
    fun _ _ hinv hturn =>
      ⟨hinv.1.step hfd hsize hturn.step, hinv.2.step hfd hinv.1 hturn⟩
  have hfifo : SlotRing.Fifo rx.layout.tpFrameNr.toNat c.ring := by
    refine (Capture.turn_simulates hfd).inv_of_reaches hstep
      (fun _ _ hfifo => hfifo.step hnr) hreach hinit ?_
    rw [Capture.ring_init hslot]
    exact SlotRing.Fifo.empty _
  refine ⟨hfifo.taken_prefix, fun hwrite => ?_⟩
  have hinv := (Transition.inv_of_reaches hstep hreach hinit).1
  obtain ⟨f, -, rfl, -, -, -, hdata⟩ := hinv.consistent.atEnd hwrite
  exact hdata

theorem Capture.turns_of_goOn {k : ℕ} {c c' : Capture S} (h : c.goOn rx k = some c')
    (huser : ∀ n < k, ∀ x ∈ c.goOn rx n, (x.thread.slot x.thread.index).IsUser) :
    Transition.Reaches (TurnStep rx) c c' := by
  induction k generalizing c' with
  | zero =>
      obtain rfl := Option.some.inj h
      exact .refl
  | succ k ih =>
      rw [goOn] at h
      obtain ⟨c₁, hc₁, h⟩ := Option.bind_eq_some_iff.1 h
      obtain ⟨t, hthread, h⟩ := Option.bind_eq_some_iff.1 h
      split_ifs at h with hcomplete
      obtain rfl := Option.some.inj h
      have hturn : c₁.thread.StaysInTurn (.ok 0) :=
        ⟨fun _ => ⟨0, rfl⟩, fun _ => huser k (Nat.lt_succ_self k) c₁ hc₁⟩
      exact (ih hc₁ fun n hn => huser n (Nat.lt_succ_of_lt hn)).tail
        (.thread (.ok 0) t hcomplete hturn hthread)

theorem ldabPacketRx_keeps_order_smallFrame :
    ∃ c : Capture Unit,
      Transition.Reaches (Capture.TurnStep smallRx)
        (Capture.init (fun _ => Slot.zero) writableOs) c ∧
      c.delivered = [(0, smallFrame), (1, otherFrame)] ∧ c.written.length = 2 ∧
      (c.written <+: c.delivered ∧ ((∀ p, c.thread.pc ≠ .write p) →
        c.thread.os.data 0 = [] ++ recordsOf smallRx c.written)) := by
  obtain ⟨c, hrun, hlog⟩ := Option.map_eq_some_iff.1 log_twoDelivered
  simp only [Prod.mk.injEq] at hlog
  obtain ⟨hdelivered, hwritten, -, -⟩ := hlog
  have hfirst : Transition.Reaches (Capture.TurnStep smallRx)
      (Capture.init (fun _ => Slot.zero) writableOs) _ :=
    .single (.kernel 1 smallFrame rfl rfl smallFrame_deliverable)
  have hreach := (hfirst.tail (.kernel 1 otherFrame rfl rfl otherFrame_deliverable)).trans
    (Capture.turns_of_goOn hrun (by decide +kernel))
  exact ⟨c, hreach, hdelivered, congrArg List.length hwritten, ldabPacketRx_keeps_order
    (by decide) (by decide) (by decide) (fun _ => rfl) writableOs_atEnd hreach⟩

/-- A poll that fails at the first slot before the first packet arrives there:
the second packet is written first. -/
theorem exists_written_not_prefix :
    ∃ c : Capture Unit,
      Transition.Reaches (Capture.Step smallRx)
        (Capture.init (fun _ => Slot.zero) writableOs) c ∧
      ¬ c.written <+: c.delivered := by
  -- The first slot is empty, and the poll on it is interrupted.
  have h₁ := (Relation.ReflTransGen.refl (r := Capture.Step smallRx)
    (a := Capture.init (fun _ => Slot.zero) writableOs)).tail
    (Capture.Step.thread (.ok 0) _ trivial (by rfl))
  have h₂ := h₁.tail (Capture.Step.thread (.fail eintr) _ trivial (by rfl))
  -- Two packets arrive, the first one in the slot just left.
  have h₃ := h₂.tail (Capture.Step.kernel 1 smallFrame rfl rfl smallFrame_deliverable)
  have h₄ := h₃.tail (Capture.Step.kernel 1 otherFrame rfl rfl otherFrame_deliverable)
  -- The loop goes on with the second slot.
  have h₅ := h₄.tail (Capture.Step.thread (.ok 0) _ trivial (by rfl))
  have h₆ := h₅.tail (Capture.Step.thread (.ok 0) _ trivial (by rfl))
  have h₇ := h₆.tail (Capture.Step.thread (.ok 0) _ rfl (by rfl))
  have h₈ := h₇.tail (Capture.Step.thread (.ok 0) _ rfl (by rfl))
  have h₉ := h₈.tail (Capture.Step.thread (.ok 0) _ trivial (by rfl))
  refine ⟨_, h₉, ?_⟩
  have hwritten : ¬ [(1, otherFrame)] <+: [(0, smallFrame), (1, otherFrame)] := by
    decide
  exact hwritten

end Rx
