import Dabba.Dabbad.Concurrent
import Dabba.Posix.OpenFds

/-!
# What the threads leave alone

The threads and the kernel move offsets, file contents, slots and the points the
threads have reached. Everything the handlers decide on stays: what descriptors
stand for, the heap, the mappings, the queues, and of every thread all but its own
progress. The same is true of most calls of the handlers.
-/

namespace Dabbad

open Posix Program Tpacket SockFilter Pcap Transition

/-- The program a thread is in the middle of neither opens nor closes a
descriptor. -/
def Body.Tame : Body → Prop
  | .rx _ (.write p) => p.Uses FileCall.KeepsFds
  | .tx _ _ (.read p) => p.Uses FileCall.KeepsFds
  | .tx _ _ (.rewind p) => p.Uses FileCall.KeepsFds
  | _ => True

def World.Tame (w : World) : Prop := ∀ t ∈ w.threads, t.body.Tame

/-- The thread at a later time: its record is the same, it stays cancelled, and it does
not start again. -/
structure Thread.Later (t t' : Thread) : Prop where
  id : t'.id = t.id
  task : t'.task = t.task
  pcapId : t'.pcapId = t.pcapId
  cancelled : t.cancelled = true → t'.cancelled = true
  mayStep : t'.mayStep = true → t.mayStep = true

theorem Thread.Later.refl (t : Thread) : t.Later t := ⟨rfl, rfl, rfl, fun h => h, fun h => h⟩

theorem Thread.mayStep_of_cancelled {t : Thread}
    (h : ({ t with cancelled := true } : Thread).mayStep = true) : t.mayStep = true := by
  simp only [Thread.mayStep, Bool.true_and, Bool.and_eq_true, Bool.not_eq_true'] at h ⊢
  exact ⟨h.1, by rw [h.2, Bool.and_false]⟩

/-- The worlds agree on everything the handlers decide on. -/
structure Drift (w w' : World) : Prop where
  ident : w'.os.ident = w.os.ident
  heap : w'.heap = w.heap
  nextBlock : w'.nextBlock = w.nextBlock
  map : w'.map = w.map
  nextMap : w'.nextMap = w.nextMap
  queues : w'.queues = w.queues
  iface : w'.iface = w.iface
  nextSock : w'.nextSock = w.nextSock
  length : w'.threads.length = w.threads.length
  threads : ∀ (n : ℕ) (t' : Thread), w'.threads[n]? = some t' →
    ∃ t : Thread, w.threads[n]? = some t ∧ t.Later t'

namespace Drift

variable {w w' : World}

theorem refl (w : World) : Drift w w :=
  ⟨rfl, rfl, rfl, rfl, rfl, rfl, rfl, rfl, rfl, fun _ t h => ⟨t, h, .refl t⟩⟩

theorem mem_threads (h : Drift w w') {t' : Thread} (ht' : t' ∈ w'.threads) :
    ∃ t ∈ w.threads, t.Later t' := by
  obtain ⟨n, hn⟩ := List.mem_iff_getElem?.1 ht'
  obtain ⟨t, ht, hlater⟩ := h.threads n t' hn
  exact ⟨t, List.mem_of_getElem? ht, hlater⟩

theorem threads_set {l : List Thread} {n : ℕ} {t t₁ : Thread} (ht : l[n]? = some t)
    (hlater : t.Later t₁) (m : ℕ) (t' : Thread) (h : (l.set n t₁)[m]? = some t') :
    ∃ t, l[m]? = some t ∧ t.Later t' := by
  rw [List.getElem?_set] at h
  split_ifs at h with hm hlt
  · obtain rfl := Option.some.inj h
    exact ⟨t, hm ▸ ht, hlater⟩
  · exact ⟨t', h, .refl t'⟩

end Drift

section Threads

variable {w : World} {t t' : Thread} {o : Outcome} {slot : ℕ → Slot} {os : Os SockRef}

theorem uses_writeFrame (rx : Rx.PacketRx) (f : Frame) :
    (Rx.State.writeFrame rx f).Uses FileCall.KeepsFds := by
  refine Prog.uses_bind (Prog.uses_assert _) fun _ => ?_
  refine Prog.uses_bind (Prog.uses_assert _) fun _ => ⟨trivial, fun written => ?_⟩
  simp [FileCall.KeepsFds]

theorem uses_ldabPcapRead (fd : ℤ) (pktLen : BitVec 32) :
    (ldabPcapRead fd pktLen).Uses FileCall.KeepsFds := by
  refine Prog.uses_bind (Prog.uses_assert _) fun _ => ?_
  refine Prog.uses_bind (Prog.uses_assert _) fun _ => ⟨trivial, fun got => ?_⟩
  cases got with
  | none => trivial
  | some hdr =>
      simp only [Prog.ret_bind]
      split_ifs
      · trivial
      · refine ⟨trivial, fun got => ?_⟩
        cases got <;> simp

theorem uses_ldabPcapRewind (fd : ℤ) :
    (ldabPcapRewind fd).Uses FileCall.KeepsFds := by
  simp [ldabPcapRewind, FileCall.KeepsFds]

theorem rx_step_tame {rx : Rx.PacketRx} {s s' : Rx.State SockRef}
    (h : s.ldabPacketRx rx o = some s') (hs : (Body.rx s.index s.pc).Tame) :
    (Body.rx s'.index s'.pc).Tame ∧ s'.os.ident = s.os.ident := by
  cases Rx.State.steps_of_ldabPacketRx h with
  | capture hpc huser hfd => exact ⟨uses_writeFrame rx _, rfl⟩
  | writeCall op k hpc =>
      rw [hpc] at hs
      exact ⟨hs.2 _, Os.ident_handle hs.1 o⟩
  | wrap hpc hge =>
      refine ⟨?_, rfl⟩
      simp only [hpc]
      trivial
  | _ => exact ⟨trivial, rfl⟩

/-- A step of the replay loop. -/
theorem tx_step_tame {tx : Tx.PacketTx} {s s' : Tx.State SockRef}
    (h : s.ldabPacketTx tx o = some s') (hs : (Body.tx s.a s.eof s.pc).Tame) :
    (Body.tx s'.a s'.eof s'.pc).Tame ∧ s'.os.ident = s.os.ident := by
  unfold Tx.State.ldabPacketTx at h
  split at h
  · split_ifs at h <;> obtain rfl := Option.some.inj h
    · exact ⟨uses_ldabPcapRead _ _, rfl⟩
    · exact ⟨trivial, rfl⟩
    · exact ⟨trivial, rfl⟩
  · split_ifs at h <;> obtain rfl := Option.some.inj h <;> exact ⟨trivial, rfl⟩
  · cases h
  · rename_i hpc
    obtain rfl := Option.some.inj h
    rw [hpc] at hs
    exact ⟨hs.2 _, Os.ident_handle hs.1 o⟩
  · obtain rfl := Option.some.inj h
    exact ⟨trivial, rfl⟩
  · split_ifs at h <;> obtain rfl := Option.some.inj h
    · exact ⟨uses_ldabPcapRewind _, rfl⟩
    · exact ⟨trivial, rfl⟩
  · obtain rfl := Option.some.inj h
    exact ⟨trivial, rfl⟩
  · cases h
  · rename_i hpc
    obtain rfl := Option.some.inj h
    rw [hpc] at hs
    exact ⟨hs.2 _, Os.ident_handle hs.1 o⟩

theorem stepThread_spec (h : w.stepThread t o = some (t', slot, os))
    (hmay : t.mayStep = true) (ht : t.body.Tame) :
    t.Later t' ∧ t'.body.Tame ∧ os.ident = w.os.ident := by
  unfold World.stepThread at h
  cases hbody : t.body with
  | rx index pc =>
      rw [hbody] at h ht
      obtain ⟨s', hs', heq⟩ := Option.map_eq_some_iff.1 h
      obtain ⟨rfl, rfl, rfl⟩ := by simpa only [Prod.mk.injEq] using heq
      have htame := rx_step_tame hs' ht
      exact ⟨⟨rfl, rfl, rfl, id, fun _ => hmay⟩, htame.1, htame.2⟩
  | tx a eof pc =>
      rw [hbody] at h ht
      obtain ⟨s', hs', heq⟩ := Option.map_eq_some_iff.1 h
      obtain ⟨rfl, rfl, rfl⟩ := by simpa only [Prod.mk.injEq] using heq
      have htame := tx_step_tame hs' ht
      exact ⟨⟨rfl, rfl, rfl, id, fun _ => hmay⟩, htame.1, htame.2⟩

end Threads

namespace World

variable {accepts : List Bpf.SockFilter → Frame → Bool} {w w' : World}

theorem drift_setSock (w : World) (s : ℕ) (x : PacketSock) : Drift w (w.setSock s x) :=
  ⟨rfl, rfl, rfl, rfl, rfl, rfl, rfl, rfl, rfl, fun _ t h => ⟨t, h, .refl t⟩⟩

theorem drift_failed (w : World) (e : ℕ) : Drift w (w.failed e) :=
  ⟨rfl, rfl, rfl, rfl, rfl, rfl, rfl, rfl, rfl, fun _ t h => ⟨t, h, .refl t⟩⟩

theorem drift_os {w : World} {os : Os SockRef} (h : os.ident = w.os.ident) :
    Drift w { w with os := os } :=
  ⟨h, rfl, rfl, rfl, rfl, rfl, rfl, rfl, rfl, fun _ t ht => ⟨t, ht, .refl t⟩⟩

theorem drift_cancel (w : World) (id : ℕ) : Drift w (w.cancel id) := by
  refine ⟨rfl, rfl, rfl, rfl, rfl, rfl, rfl, rfl, by simp [cancel], fun n t' ht' => ?_⟩
  rw [cancel, List.getElem?_map, Option.map_eq_some_iff] at ht'
  obtain ⟨t, ht, rfl⟩ := ht'
  refine ⟨t, ht, ?_⟩
  split_ifs with hid
  · exact ⟨rfl, rfl, rfl, fun _ => rfl, Thread.mayStep_of_cancelled⟩
  · exact .refl t

theorem Tame.cancel (h : w.Tame) (id : ℕ) : (w.cancel id).Tame := by
  intro t' ht'
  obtain ⟨t, ht, rfl⟩ := List.mem_map.1 ht'
  have htame := h t ht
  split_ifs <;> exact htame

theorem putSlots_eq (w : World) (t : Thread) (slot : ℕ → Slot) :
    ∃ sock, w.putSlots t slot = { w with sock := sock } := by
  unfold putSlots
  split
  · exact ⟨_, rfl⟩
  · exact ⟨w.sock, rfl⟩

theorem Tame.set {n : ℕ} {t : Thread} (h : w.Tame) (ht : t.body.Tame) {t₁ : Thread}
    (h₁ : t₁ ∈ w.threads.set n t) : t₁.body.Tame := by
  rcases List.mem_or_eq_of_mem_set h₁ with h₁ | rfl
  · exact h t₁ h₁
  · exact ht

/-- The environment drifts. -/
theorem Env.drift (h : Env accepts w w') (ht : w.Tame) : Drift w w' ∧ w'.Tame := by
  cases h with
  | arrival h => exact ⟨drift_setSock w _ _, ht⟩
  | transmit j hring htx hslot => exact ⟨drift_setSock w _ _, ht⟩
  | @thread n t t' slot os o hn hmay hstep =>
      obtain ⟨hlater, htame, hident⟩ :=
        stepThread_spec hstep hmay (ht t (List.mem_of_getElem? hn))
      obtain ⟨sock, heq⟩ := w.putSlots_eq t slot
      rw [heq]
      refine ⟨⟨hident, rfl, rfl, rfl, rfl, rfl, rfl, rfl, by simp [putThread], ?_⟩, ?_⟩
      · exact fun m t₁ hm => Drift.threads_set hn hlater m t₁ hm
      · exact fun t₁ h₁ => Tame.set ht htame h₁
  | @exit n t hn hcancelled hpoint =>
      have hlater : t.Later { t with exited := true } :=
        ⟨rfl, rfl, rfl, id, fun h => by simp [Thread.mayStep] at h⟩
      refine ⟨⟨rfl, rfl, rfl, rfl, rfl, rfl, rfl, rfl, by simp, ?_⟩, ?_⟩
      · exact fun m t₁ hm => Drift.threads_set hn hlater m t₁ hm
      · intro t₁ h₁
        have htame : ({ t with exited := true } : Thread).body.Tame :=
          ht t (List.mem_of_getElem? hn)
        exact Tame.set ht htame h₁

end World

/-- The calls that leave alone what the handlers decide on. -/
def Call.IsStill : ∀ β : Type, Call β → Prop
  | _, .file op => FileCall.KeepsFds _ op
  | _, .setFilter _ _ => True
  | _, .setRing _ _ _ => True
  | _, .bind _ _ => True
  | _, .siocgifindex _ _ => True
  | _, .pthreadDetach _ => True
  | _, .getQueues => True
  | _, _ => False

theorem Call.IsStill.drift {β : Type} {op : Call β} (h : Call.IsStill β op)
    (o : Outcome) (w : World) :
    Drift w (World.handle op o w).2 ∧ (World.handle op o w).2.threads = w.threads := by
  cases op with
  | file op =>
      exact ⟨⟨Os.ident_handle h o, rfl, rfl, rfl, rfl, rfl, rfl, rfl, rfl,
        fun _ t h => ⟨t, h, .refl t⟩⟩, rfl⟩
  | socketPacket | socketInet | calloc | free | mmap | munmap => exact h.elim
  | pthreadCreate | pthreadCancel | setQueues => exact h.elim
  | pthreadDetach id => cases o <;> exact ⟨.refl w, rfl⟩
  | getQueues => exact ⟨.refl w, rfl⟩
  | _ =>
      cases o <;> simp only [World.handle] <;> try split
      all_goals
        first
          | exact ⟨.refl w, rfl⟩
          | exact ⟨w.drift_failed _, rfl⟩
          | exact ⟨w.drift_setSock _ _, rfl⟩

end Dabbad
