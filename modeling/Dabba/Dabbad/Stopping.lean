import Dabba.Dabbad.Run
import Dabba.Program.Guarded

/-!
# What every stop keeps

Stopping a record asks its thread to end and releases the record; stopping everything
repeats that along the queue. What one release keeps, both handlers keep, whatever the
outcomes of their calls.
-/

namespace Dabbad

open Posix Program

def Call.KeepsMemory : ∀ β : Type, Call β → Prop
  | _, .calloc => False
  | _, .free _ => False
  | _, .mmap _ _ => False
  | _, .munmap _ _ => False
  | _, _ => True

/-- A property that implies a registry in order, and that releasing a queued record of
the given kind keeps after its thread was asked to end. The release makes its calls where
their guards hold; only calls about memory have one. -/
structure StopKeeps (G : Guard Call World) (type : PacketThreadType)
    (unfilter : PacketTask → Prog Call Unit) (J : World → Prop) : Prop where
  guard : ∀ {β : Type} (op : Call β) w, Call.KeepsMemory β op → G op w
  steady : ∀ task, (unfilter task).Uses Call.IsSteady
  registered : ∀ {w}, J w → Registered w
  released : ∀ {w task}, J w → task ∈ (w.queues.task type).nodes →
    task.thread.type = type → (releaseTask unfilter task).guarded World.anySem G
      (fun _ w' => Steady (w.stopped task task.thread) w' → J w')
      { w.cancel task.thread.id with queues := w.queues.removeThread task.thread }

namespace StopKeeps

variable {G : Guard Call World} {unfilter : PacketTask → Prog Call Unit} {J : World → Prop}
variable {w : World} {type : PacketThreadType} {task : PacketTask}

theorem keepsMemory_dabbadThreadStop (pktThread : PacketThread) :
    (dabbadThreadStop pktThread).Uses Call.KeepsMemory := by
  simp only [dabbadThreadStop, Prog.bind_eq, Prog.liftM_eq, Prog.perform_bind, Prog.uses_call]
  refine ⟨trivial, fun q => ?_⟩
  split
  · trivial
  · refine ⟨trivial, fun rc => ?_⟩
    dsimp only
    split_ifs
    · trivial
    · refine Prog.uses_bind ?_ fun _ => trivial
      simp only [dabbadThreadRemove, Prog.bind_eq, Prog.liftM_eq, Prog.perform_bind, Prog.uses_call]
      exact ⟨trivial, fun _ => Prog.uses_bind (Prog.uses_assert _) fun _ => by
        simp [Call.KeepsMemory]⟩

/-- The part of a stop that ends a thread and releases its record. -/
theorem endTask (hJ : StopKeeps G type unfilter J) {Q : ℤ → World → Prop}
    {k k' : ℤ → Prog Call ℤ} (h : J w)
    (htask : task ∈ (w.queues.task type).nodes)
    (hfail : ∀ rc, rc ≠ 0 → (k' rc).guarded World.anySem G Q w)
    (hok : ∀ w', J w' → Steady (w.stopped task task.thread) w' →
      (k 0).guarded World.anySem G Q w') :
    ((dabbadThreadStop task.thread).bind fun rc =>
      if rc = 0 then (releaseTask unfilter task).bind fun _ => k rc
      else k' rc).guarded World.anySem G Q w := by
  refine (Prog.guarded_bind _ _ _).2 (Prog.guarded_of_uses
    (keepsMemory_dabbadThreadStop task.thread) hJ.guard (wlp_dabbadThreadStop ?_ ?_))
  · intro rc hrc
    rw [if_neg hrc]
    exact hfail rc hrc
  · intro node hnode
    have htype := (hJ.registered h).task_type type task htask
    obtain rfl := (hJ.registered h).findThread_eq htask hnode
    rw [if_pos rfl]
    refine Prog.guarded_bind_of ((hJ.released h htask htype).and
      (wlp_releaseTask hJ.steady task)) ?_
    rintro _ w' ⟨hkept, hsteady⟩
    exact hok w' (hkept hsteady) hsteady

theorem getQueues (hJ : StopKeeps G type unfilter J) {α : Type} {Q : α → World → Prop}
    {f : Queues → Prog Call α} (hf : (f w.queues).guarded World.anySem G Q w) :
    ((Prog.perform .getQueues).bind f).guarded World.anySem G Q w :=
  (Prog.guarded_bind _ _ _).2 (Prog.guarded_of_uses (P := Call.KeepsMemory)
    ((Prog.uses_perform _).2 trivial) hJ.guard (wlp_getQueues.2 hf))

theorem stopTask (hJ : StopKeeps G type unfilter J) (h : J w) (id : ℕ) :
    (stopTask type unfilter id).guarded World.anySem G (fun _ w' => J w') w := by
  refine hJ.getQueues ?_
  cases hfind : (w.queues.task type).nodes.find? fun n => n.thread.id == id with
  | none => exact h
  | some task =>
      obtain ⟨hmem, -, -⟩ := Stopped.mem_of_findTask (hJ.registered h) hfind
      exact hJ.endTask h hmem (fun rc _ => h) fun w' h' _ => h'

theorem stopAllLoop (hJ : StopKeeps G type unfilter J) (h : J w) {tasks : List PacketTask}
    (hnodes : (w.queues.task type).nodes = tasks) :
    (stopAllLoop unfilter tasks).guarded World.anySem G (fun _ w' => J w') w := by
  induction tasks generalizing w with
  | nil => exact h
  | cons task tasks ih =>
      obtain ⟨htail, -⟩ := StoppedAll.nodes_stopped_head (hJ.registered h) hnodes
      have hmem : task ∈ (w.queues.task type).nodes := hnodes ▸ List.mem_cons_self
      simp only [Dabbad.stopAllLoop, Prog.bind_eq, ne_eq, ite_not]
      refine hJ.endTask h hmem (fun _ _ => h) fun w' h' hsteady => ?_
      exact ih h' (by rw [hsteady.queues_eq, htail])

theorem stopAllTasks (hJ : StopKeeps G type unfilter J) (h : J w) :
    (stopAllTasks type unfilter).guarded World.anySem G (fun _ w' => J w') w :=
  hJ.getQueues (hJ.stopAllLoop h rfl)

end StopKeeps

end Dabbad
