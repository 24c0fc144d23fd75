import Dabba.Dabbad.SafeStart
import Dabba.Dabbad.SafeStop

/-!
# No thread outlives its resources

The handlers of the daemon run one after the other, interleaved with the threads and
the kernel. As long as the daemon releases things only when the threads it has
cancelled have come to rest, what a thread is about to use has not been released.
The handlers do not wait for that, and the last part shows what happens then.
-/

namespace Dabbad

open Posix Program Tpacket SockFilter Pcap Transition

variable {accepts : List Bpf.SockFilter → Frame → Bool} {w w' : World}

/-- A step of the daemon among its threads and the kernel. -/
abbrev DaemonStep (S : Sem Call World)
    (accepts : List Bpf.SockFilter → Frame → Bool) :=
  Step S (World.Env accepts) IsHandler

/-- What a thread is about to use nobody has released. -/
def World.Intact (w : World) : Prop :=
  ∀ t ∈ w.threads, t.mayStep = true → ∀ r ∈ t.body.uses, w.Holds t r

/-- Every RPC keeps what running threads use. -/
theorem safe_handler (rpc : Rpc) (h : Linked w) :
    SafeIn accepts rpc.handler (fun _ => Linked) w := by
  cases rpc with
  | captureStart r => exact safe_startTask (safeParts_capture r) _ _ _ h
  | captureStop id => exact safe_stopTask safeUnfilter_capture _ id h
  | captureStopAll => exact safe_stopAllTasks safeUnfilter_capture _ h
  | replayStart r => exact safe_startTask safeParts_replay _ _ _ h
  | replayStop id => exact safe_stopTask safeUnfilter_replay _ id h
  | replayStopAll => exact safe_stopAllTasks safeUnfilter_replay _ h

theorem linked_empty (hqueues : w.queues = .empty) (hthreads : w.threads = []) :
    Linked w := by
  constructor <;> simp [World.Tame, hqueues, hthreads, Queues.empty, Tailq.Queue.empty]

/-- A running thread has everything it may use. -/
theorem Linked.holds (h : Linked w) {t : Thread} (ht : t ∈ w.threads)
    (hmay : t.mayStep = true) (r : Resource) : w.Holds t r := by
  obtain ⟨hvec, hbuf⟩ := h.mapped t ht hmay
  cases r with
  | record =>
      exact (h.alive t ht hmay (.block t.task.thread.addr) (.inl rfl)).1
  | vector =>
      obtain ⟨v, hv⟩ := Option.isSome_iff_exists.1 hvec
      exact ⟨v, hv, (h.alive t ht hmay (.block v) (.inr (.inl hv))).1⟩
  | ring =>
      obtain ⟨m, hm⟩ := Option.isSome_iff_exists.1 hbuf
      exact ⟨m, hm, (h.alive t ht hmay (.mapping m) hm).1⟩
  | pcap =>
      have hident := h.pcap t ht hmay
      rw [Os.ident, Option.map_eq_some_iff] at hident
      obtain ⟨d, hd, hid⟩ := hident
      cases d with
      | file f => simpa [World.Holds, World.fileId, hd, Descriptor.ident] using hid
      | socket s => cases hid

theorem Linked.intact (h : Linked w) : w.Intact :=
  fun _ ht hmay r _ => h.holds ht hmay r

/-- In every orderly run of the daemon, with any RPCs in any order, any outcomes of
their calls, and any steps of the threads and the kernel in between, nothing that a
thread is about to use has been released. -/
theorem intact_of_reaches {w₀ w : World} {p : Option (Prog Call ℤ)}
    (hqueues : w₀.queues = .empty) (hthreads : w₀.threads = [])
    (hrun : Reaches (DaemonStep World.orderlySem accepts) (none, w₀) (p, w))
    (hp : p ≠ some .abort) : w.Intact := by
  have hsafe : SafeConfig World.orderlySem (World.Env accepts) Linked Linked
      ((none : Option (Prog Call ℤ)), w₀) := linked_empty hqueues hthreads
  refine (SafeConfig.inv_of_reaches drifting_linked.assertion ?_ hsafe hrun hp).intact
  rintro p ⟨rpc, rfl⟩ s hs
  exact safe_handler rpc hs

section Example

def outcomes (script : ℕ → Outcome) (n : ℕ) : List Outcome := (List.range n).map script

instance (w : World) : Decidable w.Settled :=
  inferInstanceAs (Decidable (∀ t ∈ w.threads, _))

def isOrderly : {β : Type} → Call β → Outcome → World → Bool
  | _, .free (some _), _, w => decide w.Settled
  | _, .munmap _ _, _, w => decide w.Settled
  | _, .file (.close _), _, w => decide w.Settled
  | _, .pthreadDetach _, .fail _, _ => false
  | _, _, _, _ => true

theorem orderlySem_of_isOrderly {β : Type} (op : Call β) (o : Outcome) (w : World)
    (h : isOrderly op o w = true) :
    World.orderlySem op w (World.handle op o w).1 (World.handle op o w).2 := by
  refine ⟨o, ?_, rfl⟩
  cases op with
  | file op =>
      cases op with
      | close fd => exact of_decide_eq_true (p := w.Settled) h
      | _ => trivial
  | free b =>
      cases b with
      | none => trivial
      | some b => exact of_decide_eq_true (p := w.Settled) h
  | munmap buf n => exact of_decide_eq_true (p := w.Settled) h
  | pthreadDetach id =>
      cases o with
      | ok n => trivial
      | fail e => cases h
  | _ => trivial

theorem reaches_of_rpc {S : Sem Call World}
    {allowed : ∀ {β : Type}, Call β → Outcome → World → Bool}
    (hS : ∀ {β : Type} (op : Call β) o (w : World), allowed op o w = true →
      S op w (World.handle op o w).1 (World.handle op o w).2)
    (rpc : Rpc) {script : List Outcome} {rc : ℤ}
    (h : rpc.handler.advance World.handle allowed script w = some (.ret rc, w')) :
    Reaches (DaemonStep S accepts) (none, w) (none, w') :=
  .head (.start ⟨rpc, rfl⟩) (.tail (reaches_of_advance hS h) .finish)

/-- Two captures are started, the thread of the first goes on to `poll`, and then the first
is stopped. -/
theorem intact_of_reaches_anyRequest : ∃ w,
    Reaches (DaemonStep World.orderlySem fun _ _ => true) (none, .boot) (none, w) ∧
      w.threads.map (fun t => (t.id, t.mayStep)) = [(11, false), (31, true)] ∧
      (w.queues.task .capture).nodes.map (fun task => task.thread.id) = [31] ∧
      w.Intact := by
  obtain ⟨w₁, w₂, w, t, t', slot, os, hfirst, hsecond, ht, hmay, hstep, hstop, hthreads,
      hqueue⟩ : ∃ (w₁ w₂ w : World) (t t' : Thread) (slot : ℕ → Slot) (os : Os SockRef),
      (dabbadCaptureStart anyRequest).advance World.handle isOrderly
        (outcomes goodScript 14) .boot = some (.ret 0, w₁) ∧
      (dabbadCaptureStart otherRequest).advance World.handle isOrderly
        (outcomes (laterScript 23) 14) w₁ = some (.ret 0, w₂) ∧
      w₂.threads[0]? = some t ∧ t.mayStep = true ∧
      w₂.stepThread t (.ok 0) = some (t', slot, os) ∧
      (dabbadCaptureStop 11).advance World.handle isOrderly (outcomes goodScript 14)
        ((w₂.putSlots t slot).putThread 0 t' os) = some (.ret 0, w) ∧
      w.threads.map (fun t => (t.id, t.mayStep)) = [(11, false), (31, true)] ∧
      (w.queues.task .capture).nodes.map (fun task => task.thread.id) = [31] :=
    ⟨_, _, _, _, _, _, _, rfl, rfl, rfl, rfl, rfl, rfl, rfl, rfl⟩
  have hstarted : Reaches (DaemonStep World.orderlySem fun _ _ => true) (none, .boot)
      (none, w₂) :=
    (reaches_of_rpc orderlySem_of_isOrderly (.captureStart anyRequest) hfirst).trans
      (reaches_of_rpc orderlySem_of_isOrderly (.captureStart otherRequest) hsecond)
  have hpoll : Reaches (DaemonStep World.orderlySem fun _ _ => true) (none, w₂)
      (none, (w₂.putSlots t slot).putThread 0 t' os) :=
    .single (.env nofun (.thread (.ok 0) ht hmay hstep))
  have hrun := (hstarted.trans hpoll).trans
    (reaches_of_rpc orderlySem_of_isOrderly (.captureStop 11) hstop)
  exact ⟨w, hrun, hthreads, hqueue, intact_of_reaches rfl rfl hrun nofun⟩

/-- A capture is started and stopped again while its thread is at the head of its loop.
After the stop the thread goes on there, and looks at the record, the vector and the
ring, which are gone. -/
theorem not_intact_of_stopped : ∃ w t,
    Reaches (DaemonStep World.anySem fun _ _ => true) (none, .boot) (none, w) ∧
      t ∈ w.threads ∧ t.mayStep = true ∧ (w.stepThread t (.ok 0)).isSome ∧
      ∀ r ∈ t.body.uses, ¬ w.Holds t r := by
  obtain ⟨w₁, w, t, hstart, hstop, ht, hbody, hstep, hrecord, hvec, hbuf,
      hmay⟩ : ∃ w₁ w t,
      (dabbadCaptureStart anyRequest).advance World.handle (fun _ _ _ => true)
        (outcomes goodScript 14) .boot = some (.ret 0, w₁) ∧
      (dabbadCaptureStop 11).advance World.handle (fun _ _ _ => true)
        (outcomes goodScript 14) w₁ = some (.ret 0, w) ∧
      w.threads = [t] ∧ t.body = .rx 0 .status ∧ (w.stepThread t (.ok 0)).isSome ∧
      w.heap t.task.thread.addr = false ∧ t.task.pktMmap.vec.map w.heap = some false ∧
      t.task.pktMmap.buf.map w.map = some none ∧ t.mayStep = true :=
    ⟨_, _, _, rfl, rfl, rfl, rfl, rfl, rfl, rfl, rfl, rfl⟩
  have hany : ∀ {β : Type} (op : Call β) o (w : World), true = true →
      World.anySem op w (World.handle op o w).1 (World.handle op o w).2 :=
    fun op o w _ => ⟨o, trivial, rfl⟩
  refine ⟨w, t, (reaches_of_rpc hany (.captureStart anyRequest) hstart).trans
    (reaches_of_rpc hany (.captureStop 11) hstop), by simp [ht], hmay, hstep, fun r hr => ?_⟩
  cases r with
  | record => simp [World.Holds, hrecord]
  | vector =>
      rintro ⟨v, hv, halive⟩
      rw [hv, Option.map_some, Option.some_inj, halive] at hvec
      cases hvec
  | ring =>
      rintro ⟨m, hm, halive⟩
      rw [hm, Option.map_some, Option.some_inj] at hbuf
      rw [hbuf] at halive
      cases halive
  | pcap => simp [hbody, Body.uses] at hr

end Example

end Dabbad
