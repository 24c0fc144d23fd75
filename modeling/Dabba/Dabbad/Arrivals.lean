import Dabba.Dabbad.OpenPcap

/-!
# Packets that arrive while a capture starts

Until the socket of a capture is bound it has the packets of all interfaces, and what
the kernel puts into its ring then stays there for the thread. The environment here is
the kernel, which may deliver a packet between any two calls of the start, and the
thread that the start creates. If no packet of another interface arrives in that window,
the ring holds only packets the request asks for, and only those are written.
-/

namespace Dabbad

open Posix Program Tpacket SockFilter Pcap Transition

/-- The calls with any outcome; a call that fails leaves an error number. -/
def World.errnoSem : Sem Call World := handle.sem fun _ o _ => o ≠ .fail 0

section Requested

variable (accepts : List Bpf.SockFilter → Frame → Bool) (r : CaptureRequest) (w₀ : World)

/-- The packet arrived on the interface of the request and was accepted by its filter,
if it has one. -/
structure Requested (f : Frame) : Prop where
  interface : w₀.iface (r.interface.getD []) = some f.sllIfindex
  filter : ∀ p ps, r.sfp = some (p :: ps) →
    ∃ sfp : SockFprog, sfp.Agrees (p :: ps) ∧ accepts sfp.program f = true

/-- The thread that a start from `w₀` creates has written requested packets only. -/
def OnlyRequested (w : World) : Prop :=
  ∀ t, w.threads[w₀.threads.length]? = some t → ∀ f ∈ t.written, Requested accepts r w₀ f

/-- A packet may arrive at any socket between any two steps, and the thread that a start
from `w₀` creates runs. -/
inductive StartEnv (allowed : World → ℕ → Frame → Prop) : World → World → Prop
  | arrival {w : World} {s : ℕ} {ring : Ring} {tpStatus : BitVec 64} {f : Frame}
      (h : w.Arrives accepts s ring tpStatus f) (hallowed : allowed w s f) :
      StartEnv allowed w (w.putRing s (ring.deliver tpStatus f))
  | thread {w : World} {t t' : Thread} {slot : ℕ → Slot} {os : Os SockRef} (o : Outcome)
      (ht : w.threads[w₀.threads.length]? = some t) (hmay : t.mayStep = true)
      (hstep : w.stepThread t o = some (t', slot, os)) :
      StartEnv allowed w ((w.putSlots t slot).putThread w₀.threads.length t' os)

/-- The packet does not come from another interface while the socket of the start, the
next one of `w₀`, is not bound. -/
def OutsideWindow (w : World) (s : ℕ) (f : Frame) : Prop :=
  s = w₀.nextSock → (w.sock s).ifindex = 0 →
    w₀.iface (r.interface.getD []) = some f.sllIfindex

instance (r : CaptureRequest) (w₀ w : World) (s : ℕ) (f : Frame) :
    Decidable (OutsideWindow r w₀ w s f) :=
  inferInstanceAs (Decidable (_ → _ → _))

def attachedFilter : Option (List Bpf.SockFilter) :=
  match r.sfp with
  | some (p :: ps) => some (SockFprog.ofPbuf (p :: ps)).program
  | _ => none

def HoldsRequested (x : PacketSock) : Prop :=
  ∀ ring, x.ring = some ring → ∀ j, (ring.slot j).IsUser →
    Requested accepts r w₀ (ring.slot j).frame

structure Unringed (filter : Option (List Bpf.SockFilter)) (x : PacketSock) : Prop where
  ring : x.ring = none
  filter : x.filter = filter
  ifindex : x.ifindex = 0

/-- The socket has its filter, and is bound as given. -/
structure Ringed (bound : ℤ → Prop) (x : PacketSock) : Prop where
  filter : x.filter = attachedFilter r
  ifindex : bound x.ifindex
  holds : HoldsRequested accepts r w₀ x

def Unbound (ifindex : ℤ) : Prop := ifindex = 0

def Bound (ifindex : ℤ) : Prop := w₀.iface (r.interface.getD []) = some ifindex

def Absorbs (K : PacketSock → Prop) : Prop :=
  ∀ x ring tpStatus f, K x → x.ring = some ring → x.receives accepts f = true →
    (x.ifindex = 0 → w₀.iface (r.interface.getD []) = some f.sllIfindex) →
    K { x with ring := some (ring.deliver tpStatus f) }

variable {accepts r w₀}

theorem absorbs_unringed (filter : Option (List Bpf.SockFilter)) :
    Absorbs accepts r w₀ (Unringed filter) := by
  intro x ring tpStatus f h hring
  rw [h.ring] at hring
  cases hring

theorem HoldsRequested.deliver {x : PacketSock} {ring : Ring} {tpStatus : BitVec 64}
    {f : Frame} (h : HoldsRequested accepts r w₀ x) (hring : x.ring = some ring)
    (hf : Requested accepts r w₀ f) :
    HoldsRequested accepts r w₀ { x with ring := some (ring.deliver tpStatus f) } := by
  rintro ring' ⟨⟩ j hj
  by_cases hjhead : j = ring.head
  · subst hjhead
    simpa [Ring.deliver] using hf
  · simp only [Ring.deliver, Function.update_of_ne hjhead] at hj ⊢
    exact h ring hring j hj

variable (hfits : ∀ ps, r.sfp = some ps → MessageFits ps)
include hfits

theorem requested_of_receives {x : PacketSock} {f : Frame}
    (hfilter : x.filter = attachedFilter r) (hreceives : x.receives accepts f = true)
    (hiface : w₀.iface (r.interface.getD []) = some f.sllIfindex) :
    Requested accepts r w₀ f where
  interface := hiface
  filter p ps hsfp := by
    simp only [PacketSock.receives, hfilter, attachedFilter, hsfp, Option.all_some,
      Bool.and_eq_true] at hreceives
    exact ⟨_, (agrees_ofPbuf_iff _).2 (hfits _ hsfp), hreceives.2⟩

theorem absorbs_ringed {bound : ℤ → Prop}
    (hbound : ∀ i, bound i → i = 0 ∨ w₀.iface (r.interface.getD []) = some i) :
    Absorbs accepts r w₀ (Ringed accepts r w₀ bound) := by
  intro x ring tpStatus f h hring hreceives hwindow
  refine ⟨h.filter, h.ifindex, h.holds.deliver hring ?_⟩
  refine requested_of_receives hfits h.filter hreceives ?_
  have hor : x.ifindex = 0 ∨ x.ifindex = f.sllIfindex := by
    have hleft := (Bool.and_eq_true _ _ ▸ hreceives :
      (x.ifindex == 0 || x.ifindex == f.sllIfindex) = true ∧ _).1
    simpa using hleft
  rcases hor with hzero | heq
  · exact hwindow hzero
  · rcases hbound _ h.ifindex with hzero | hiface
    · exact hwindow hzero
    · rw [hiface, heq]

end Requested

section Assertions

variable (accepts : List Bpf.SockFilter → Frame → Bool) (r : CaptureRequest) (w₀ : World)

/-- The start has made its socket and has not yet created its thread. `facts` are about
what an arrival does not touch. -/
structure Setup (K : PacketSock → Prop) (facts : World → Prop) (fd : ℤ) (w : World) :
    Prop where
  iface : w.iface = w₀.iface
  length : w.threads.length = w₀.threads.length
  ident : w.os.ident fd = some (.inr (.packet w₀.nextSock))
  sock : K (w.sock w₀.nextSock)
  facts : facts w

/-- The thread captures from the ring of its socket, or from nowhere, and what it has
written so far is requested. -/
structure Thread.Captures (w : World) (t : Thread) : Prop where
  body : ∃ index pc, t.body = .rx index pc
  map : ∃ m, t.task.pktMmap.buf = some m ∧
    (w.map m = some w₀.nextSock ∨ w.map m = none)
  written : ∀ f ∈ t.written, Requested accepts r w₀ f

/-- The socket is bound and the thread is there. -/
structure Capturing (w : World) : Prop where
  sock : Ringed accepts r w₀ (Bound r w₀) (w.sock w₀.nextSock)
  thread : ∃ t, w.threads[w₀.threads.length]? = some t ∧ t.Captures accepts r w₀ w

/-- No thread was created, or it writes requested packets only. -/
def Harmless (w : World) : Prop :=
  w.threads.length = w₀.threads.length ∨ Capturing accepts r w₀ w

/-- The steps between those of the start, where no packet of another interface arrives
in the window. -/
abbrev QuietEnv : World → World → Prop := StartEnv accepts w₀ (OutsideWindow r w₀)

variable {accepts r w₀} {w w' : World}

theorem onlyRequested_of_length (h : w.threads.length = w₀.threads.length) :
    OnlyRequested accepts r w₀ w := by
  intro t ht
  rw [← h, List.getElem?_length] at ht
  cases ht

theorem Harmless.onlyRequested (h : Harmless accepts r w₀ w) :
    OnlyRequested accepts r w₀ w := by
  rcases h with hlength | hcapturing
  · exact onlyRequested_of_length hlength
  · intro t ht
    obtain ⟨t', ht', hcaptures⟩ := hcapturing.thread
    obtain rfl := Option.some.inj (ht'.symm.trans ht)
    exact hcaptures.written

theorem absorbs_arrival {K : PacketSock → Prop} (hK : Absorbs accepts r w₀ K) {s : ℕ}
    {ring : Ring} {tpStatus : BitVec 64} {f : Frame} (h : K (w.sock w₀.nextSock))
    (harrives : w.Arrives accepts s ring tpStatus f)
    (hwindow : OutsideWindow r w₀ w s f) :
    K ((w.putRing s (ring.deliver tpStatus f)).sock w₀.nextSock) := by
  by_cases hs : s = w₀.nextSock
  · subst hs
    simp only [World.putRing, World.setSock, Function.update_self]
    exact hK _ ring tpStatus f h harrives.ring harrives.receives (hwindow rfl)
  · simp only [World.putRing, World.setSock, Function.update_of_ne (Ne.symm hs)]
    exact h

theorem assertion_setup {K : PacketSock → Prop} (hK : Absorbs accepts r w₀ K)
    {facts : World → Prop} (hfacts : ∀ w s x, facts w → facts (w.setSock s x)) (fd : ℤ) :
    Assertion (QuietEnv accepts r w₀) (OnlyRequested accepts r w₀)
      (Setup w₀ K facts fd) where
  stable w w' h henv := by
    cases henv with
    | arrival harrives hwindow =>
        exact ⟨h.iface, h.length, h.ident, absorbs_arrival hK h.sock harrives hwindow,
          hfacts _ _ _ h.facts⟩
    | thread o ht hmay hstep =>
        rw [← h.length, List.getElem?_length] at ht
        cases ht
  inv_of w h := onlyRequested_of_length h.length

/-- A step of the capture loop leaves a slot that still belongs to the program alone. -/
theorem rx_step_slot {rx : Rx.PacketRx} {o : Outcome} {s s' : Rx.State SockRef}
    (h : s.ldabPacketRx rx o = some s') {j : ℕ} (hj : (s'.slot j).IsUser) :
    s'.slot j = s.slot j := by
  cases Rx.State.steps_of_ldabPacketRx h with
  | handBack hpc =>
      by_cases hindex : j = s.index
      · subst hindex
        exact absurd hj (Slot.not_isUser_of_kernel (by simp [Rx.State.release, Rx.State.next]))
      · exact s.fill_slot_of_ne _ hindex
  | _ => rfl

theorem Thread.Captures.ringOf {t : Thread} (h : t.Captures accepts r w₀ w) :
    w.ringOf t = (w.sock w₀.nextSock).ring.map (w₀.nextSock, ·) ∨ w.ringOf t = none := by
  obtain ⟨m, hbuf, hmap | hmap⟩ := h.map
  · left
    simp only [World.ringOf, hbuf, hmap, Option.bind_eq_bind, Option.bind_some]
    cases (w.sock w₀.nextSock).ring <;> rfl
  · right
    simp only [World.ringOf, hbuf, hmap, Option.bind_eq_bind, Option.bind_some,
      Option.bind_none]

theorem Capturing.requested_slot (h : Capturing accepts r w₀ w) {t : Thread}
    (ht : t.Captures accepts r w₀ w) {j : ℕ} (hj : (w.slots t j).IsUser) :
    Requested accepts r w₀ (w.slots t j).frame := by
  rcases ht.ringOf with hring | hnone
  · cases hsock : (w.sock w₀.nextSock).ring with
    | none =>
        rw [hsock, Option.map_none] at hring
        simp only [World.slots, hring] at hj
        exact absurd hj (Slot.not_isUser_of_kernel rfl)
    | some ring =>
        rw [hsock, Option.map_some] at hring
        simp only [World.slots, hring] at hj ⊢
        exact h.sock.holds ring hsock j hj
  · simp only [World.slots, hnone] at hj
    exact absurd hj (Slot.not_isUser_of_kernel rfl)

theorem Capturing.putSlots (h : Capturing accepts r w₀ w) {t : Thread}
    (ht : t.Captures accepts r w₀ w) {slot : ℕ → Slot}
    (hslot : ∀ j, (slot j).IsUser → slot j = w.slots t j) :
    Ringed accepts r w₀ (Bound r w₀) ((w.putSlots t slot).sock w₀.nextSock) := by
  rcases ht.ringOf with hring | hnone
  · cases hsock : (w.sock w₀.nextSock).ring with
    | none =>
        rw [hsock, Option.map_none] at hring
        simpa only [World.putSlots, hring] using h.sock
    | some ring =>
        rw [hsock, Option.map_some] at hring
        simp only [World.putSlots, hring, World.putRing, World.setSock, Function.update_self]
        refine ⟨h.sock.filter, h.sock.ifindex, ?_⟩
        rintro ring' ⟨⟩ j hj
        have hsame := hslot j hj
        dsimp only at hj ⊢
        rw [hsame] at hj ⊢
        exact h.requested_slot ht hj
  · simpa only [World.putSlots, hnone] using h.sock

theorem requested_of_mem_toWrite {rx : Rx.PacketRx} {s : Rx.State SockRef}
    (hslot : ∀ j, (s.slot j).IsUser → Requested accepts r w₀ (s.slot j).frame) {f : Frame}
    (hf : f ∈ toWrite rx s) : Requested accepts r w₀ f := by
  unfold toWrite at hf
  split at hf
  · split_ifs at hf with huser
    · rw [List.mem_singleton.1 hf]
      exact hslot _ huser.1
    · cases hf
  · cases hf

/-- A step of the thread keeps what it has written requested. -/
theorem Capturing.thread_step (h : Capturing accepts r w₀ w) {t t' : Thread}
    (hget : w.threads[w₀.threads.length]? = some t) (ht : t.Captures accepts r w₀ w)
    {slot : ℕ → Slot} {os : Os SockRef} {o : Outcome}
    (hstep : w.stepThread t o = some (t', slot, os)) :
    Capturing accepts r w₀ ((w.putSlots t slot).putThread w₀.threads.length t' os) := by
  obtain ⟨index, pc, hbody⟩ := ht.body
  rw [World.stepThread, hbody] at hstep
  obtain ⟨s', hs', heq⟩ := Option.map_eq_some_iff.1 hstep
  obtain ⟨ht', rfl, rfl⟩ := by simpa only [Prod.mk.injEq] using heq
  have hlt : w₀.threads.length < w.threads.length := (List.getElem?_eq_some_iff.1 hget).1
  obtain ⟨sock, hput⟩ := w.putSlots_eq t s'.slot
  refine ⟨h.putSlots ht fun j hj => rx_step_slot hs' hj, t', ?_, ?_, ?_, ?_⟩
  · rw [hput]
    exact List.getElem?_set_self hlt
  · rw [← ht']
    exact ⟨_, _, rfl⟩
  · rw [hput, ← ht']
    exact ht.map
  · rw [← ht']
    intro f hf
    rcases List.mem_append.1 hf with hf | hf
    · exact ht.written f hf
    · exact requested_of_mem_toWrite (fun j hj => h.requested_slot ht hj) hf

theorem assertion_harmless (hfits : ∀ ps, r.sfp = some ps → MessageFits ps) :
    Assertion (QuietEnv accepts r w₀) (OnlyRequested accepts r w₀)
      (Harmless accepts r w₀) where
  stable w w' h henv := by
    cases henv with
    | arrival harrives hwindow =>
        rcases h with hlength | hcapturing
        · exact .inl hlength
        · have habsorbs : Absorbs accepts r w₀ (Ringed accepts r w₀ (Bound r w₀)) :=
            absorbs_ringed hfits fun _ => .inr
          obtain ⟨t, hget, ht⟩ := hcapturing.thread
          exact .inr ⟨absorbs_arrival habsorbs hcapturing.sock harrives hwindow,
            t, hget, ht.body, ht.map, ht.written⟩
    | thread o ht hmay hstep =>
        rcases h with hlength | hcapturing
        · rw [← hlength, List.getElem?_length] at ht
          cases ht
        · obtain ⟨t, hget, hcaptures⟩ := hcapturing.thread
          obtain rfl := Option.some.inj (hget.symm.trans ht)
          exact .inr (hcapturing.thread_step ht hcaptures hstep)
  inv_of _ h := h.onlyRequested

end Assertions

/-- The calls that neither set up a capture nor create a thread. -/
def Call.TakesDown : ∀ β : Type, Call β → Prop
  | _, .file _ => True
  | _, .calloc => True
  | _, .free _ => True
  | _, .setRing _ _ layout => layout.tpBlockNr = 0
  | _, .munmap _ _ => True
  | _, .pthreadDetach _ => True
  | _, .getQueues => True
  | _, .setQueues _ => True
  | _, _ => False

section TakesDown

variable {accepts : List Bpf.SockFilter → Frame → Bool} {r : CaptureRequest} {w₀ : World}
variable {w w' : World}

theorem Harmless.of_less (h : Harmless accepts r w₀ w) (hthreads : w'.threads = w.threads)
    (hmap : ∀ m, w'.map m = w.map m ∨ w'.map m = none)
    (hsock : w'.sock w₀.nextSock = w.sock w₀.nextSock ∨
      w'.sock w₀.nextSock = { w.sock w₀.nextSock with ring := none }) :
    Harmless accepts r w₀ w' := by
  rcases h with hlength | hcapturing
  · exact .inl (by rw [hthreads, hlength])
  obtain ⟨t, hget, ht⟩ := hcapturing.thread
  refine .inr ⟨?_, t, by rw [hthreads, hget], ht.body, ?_, ht.written⟩
  · rcases hsock with hsame | hnone
    · rw [hsame]
      exact hcapturing.sock
    · rw [hnone]
      refine ⟨hcapturing.sock.filter, hcapturing.sock.ifindex, ?_⟩
      intro ring hring
      cases hring
  · obtain ⟨m, hbuf, hm⟩ := ht.map
    refine ⟨m, hbuf, ?_⟩
    rcases hmap m with hsame | hnone
    · rwa [hsame]
    · exact .inr hnone

theorem Harmless.takesDown {β : Type} {op : Call β} (hop : Call.TakesDown β op)
    (h : Harmless accepts r w₀ w) (o : Outcome) :
    Harmless accepts r w₀ (World.handle op o w).2 := by
  cases op with
  | setRing fd type layout =>
      have hzero : layout.tpBlockNr = 0 := hop
      cases o with
      | fail e => exact h.of_less rfl (fun _ => .inl rfl) (.inl rfl)
      | ok n =>
          simp only [World.handle, hzero, if_true]
          split
          · rename_i s _
            refine h.of_less rfl (fun _ => .inl rfl) ?_
            by_cases hs : s = w₀.nextSock
            · subst hs
              exact .inr (Function.update_self _ _ _)
            · exact .inl (Function.update_of_ne (Ne.symm hs) _ _)
          · exact h.of_less rfl (fun _ => .inl rfl) (.inl rfl)
  | munmap buf length =>
      refine h.of_less rfl (fun m => ?_) (.inl rfl)
      by_cases hm : m = buf
      · subst hm
        exact .inr (Function.update_self _ _ _)
      · exact .inl (Function.update_of_ne hm _ _)
  | free b => cases b <;> exact h.of_less rfl (fun _ => .inl rfl) (.inl rfl)
  | calloc | pthreadDetach =>
      cases o <;> exact h.of_less rfl (fun _ => .inl rfl) (.inl rfl)
  | file | getQueues | setQueues => exact h.of_less rfl (fun _ => .inl rfl) (.inl rfl)
  | _ => exact hop.elim

end TakesDown

end Dabbad
