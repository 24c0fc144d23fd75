import Dabba.Dabbad.Get
import Dabba.Dabbad.Registry

/-!
# Runs of the daemon

The daemon answers one RPC after the other. Every RPC keeps the registry, so it
holds in all reachable states, and there each handler does to the queues what its
caller may expect: a start that fails changes nothing, a stop unlinks the record
it was asked for and no other, and stopping everything unlinks the records of one
kind from the front.
-/

namespace Dabbad

open Posix Program Tpacket SockFilter Pcap Transition

/-- The RPCs that start and stop packet threads. -/
inductive Rpc
  | captureStart (r : CaptureRequest)
  | captureStop (id : ℕ)
  | captureStopAll
  | replayStart (r : Settings)
  | replayStop (id : ℕ)
  | replayStopAll

def Rpc.handler : Rpc → Prog Call ℤ
  | .captureStart r => dabbadCaptureStart r
  | .captureStop id => dabbadCaptureStop id
  | .captureStopAll => dabbadCaptureStopAll
  | .replayStart r => dabbadReplayStart r
  | .replayStop id => dabbadReplayStop id
  | .replayStopAll => dabbadReplayStopAll

/-- One RPC, its calls ending in any way. -/
def RpcStep (w w' : World) : Prop :=
  ∃ rpc rc, (Rpc.handler rpc).Exec World.anySem w rc w'

variable {w w' : World} {type : PacketThreadType} {id : ℕ} {rc : ℤ}

theorem exec_of_run {α : Type} {p : Prog Call α} {script : ℕ → Outcome} {a : α}
    (h : p.run World.handle script w = some (a, w')) : p.Exec World.anySem w a w' := by
  unfold World.anySem
  exact Prog.exec_of_run (fun _ _ _ _ => trivial) h

/-- There is a running capture or replay of the kind with the thread id. -/
def World.Running (w : World) (type : PacketThreadType) (id : ℕ) : Prop :=
  ∃ task ∈ (w.queues.task type).nodes, task.thread.id = id

/-- What a start does to the queues. -/
structure StartSpec (type : PacketThreadType) (w : World) (rc : ℤ) (w' : World) :
    Prop where
  failure : rc ≠ 0 → w'.queues = w.queues
  success : w'.queues = w.queues ∨ ∃ task, task.thread.type = type ∧
    w'.queues = (w.queues.insertThread task.thread).insertTask task

/-- What stopping one capture or replay does to the queues. -/
structure StopSpec (type : PacketThreadType) (id : ℕ) (w : World) (rc : ℤ)
    (w' : World) : Prop where
  success : rc = 0 → ∃ task ∈ (w.queues.task type).nodes,
    task.thread.id = id ∧ Removed w task w'
  failure : rc ≠ 0 → w'.queues = w.queues
  unknown : ¬ w.Running type id → rc = einval
  other : ∀ type', type' ≠ type → w.Running type' id → rc = einval

/-- What stopping all captures or replays does to the queues: a part of them, from
the front, is unlinked with its threads. -/
structure StopAllSpec (type : PacketThreadType) (w : World) (rc : ℤ) (w' : World) :
    Prop where
  stopped : ∃ stopped,
    (w.queues.task type).nodes = stopped ++ (w'.queues.task type).nodes ∧
    (w'.queues.packetThread.nodes =
      w.queues.packetThread.nodes.filter fun n => n ∉ stopped.map (·.thread)) ∧
    (stopped = [] → w'.queues = w.queues)
  other : ∀ type', type' ≠ type → w'.queues.task type' = w.queues.task type'
  success : rc = 0 → (w'.queues.task type).nodes = []

namespace Started

theorem registered (hstart : Started type w rc w') (h : Registered w) :
    Registered w' := by
  cases hstart with
  | nothing hsteady => exact h.steady hsteady
  | orphan hrc h₁ id task hfresh hid hsteady =>
      have hlt := h.lt_addr_of_fresh h₁ hfresh
      exact ((h.steady h₁).withThread hlt hfresh.2.1 hid).steady hsteady
  | started h₁ id task hfresh hid =>
      exact (h.steady h₁).started (h.lt_addr_of_fresh h₁ hfresh) hfresh.2.1 hid

theorem spec (hstart : Started type w rc w') : StartSpec type w rc w' := by
  cases hstart with
  | nothing hsteady => exact ⟨fun _ => hsteady.queues_eq, .inl hsteady.queues_eq⟩
  | orphan hrc h₁ id task hfresh hid hsteady =>
      have heq : w'.queues = w.queues := hsteady.queues_eq.trans h₁.queues_eq
      exact ⟨fun _ => heq, .inl heq⟩
  | @started w₁ h₁ id task hfresh hid =>
      refine ⟨fun hrc => absurd rfl hrc,
        .inr ⟨{ task with thread := World.node id task }, hfresh.2.2, ?_⟩⟩
      rw [World.started, h₁.queues_eq]

end Started

namespace Stopped

theorem mem_of_findTask (h : Registered w) {task : PacketTask}
    (htask : w.findTask type id = some task) :
    task ∈ (w.queues.task type).nodes ∧ task.thread.id = id ∧
      task.thread.type = type := by
  have hmem := List.mem_of_find?_eq_some htask
  have hid : task.thread.id = id := by simpa using List.find?_some htask
  exact ⟨hmem, hid, h.task_type type task hmem⟩

theorem registered (hstop : Stopped type id w rc w') (h : Registered w) :
    Registered w' := by
  cases hstop with
  | unknown _ => exact h
  | failed _ _ => exact h
  | stopped htask hnode hsteady =>
      obtain ⟨hmem, -, rfl⟩ := mem_of_findTask h htask
      obtain rfl := h.findThread_eq hmem hnode
      exact (h.stopped hmem).steady hsteady

theorem unknown_of_not_running (hstop : Stopped type id w rc w')
    (h : Registered w) (hrunning : ¬ w.Running type id) : rc = einval := by
  have hnone : ∀ task, w.findTask type id ≠ some task := by
    intro task htask
    obtain ⟨hmem, hid, -⟩ := mem_of_findTask h htask
    exact hrunning ⟨task, hmem, hid⟩
  cases hstop with
  | unknown _ => rfl
  | failed htask _ => exact absurd htask (hnone _)
  | stopped htask _ _ => exact absurd htask (hnone _)

theorem not_running_of_ne (h : Registered w) {type' : PacketThreadType}
    (htype : type' ≠ type) (hrunning : w.Running type' id) :
    ¬ w.Running type id := by
  rintro ⟨task, htask, hid⟩
  obtain ⟨task', htask', hid'⟩ := hrunning
  have heq := h.node_eq_of_id (h.thread_mem htask') (h.thread_mem htask)
    (hid'.trans hid.symm)
  apply htype
  rw [← h.task_type type' task' htask', heq, h.task_type type task htask]

theorem spec (hstop : Stopped type id w rc w') (h : Registered w) :
    StopSpec type id w rc w' where
  success hrc := by
    cases hstop with
    | unknown _ => cases hrc
    | failed _ hne => exact absurd hrc hne
    | stopped htask hnode hsteady =>
        obtain ⟨hmem, hid, rfl⟩ := mem_of_findTask h htask
        obtain rfl := h.findThread_eq hmem hnode
        exact ⟨_, hmem, hid, (h.removed_stopped hmem).of_queues_eq hsteady.queues_eq⟩
  failure hrc := by
    cases hstop with
    | unknown _ => rfl
    | failed _ _ => rfl
    | stopped _ _ _ => exact absurd rfl hrc
  unknown := hstop.unknown_of_not_running h
  other _ htype hrunning :=
    hstop.unknown_of_not_running h (not_running_of_ne h htype hrunning)

end Stopped

namespace StoppedAll

variable {tasks rest : List PacketTask}

theorem nodes_stopped_head (h : Registered w) {task : PacketTask}
    (hnodes : (w.queues.task type).nodes = task :: tasks) :
    ((w.stopped task task.thread).queues.task type).nodes = tasks ∧
      task ∈ (w.queues.task task.thread.type).nodes := by
  have hmem : task ∈ (w.queues.task type).nodes := by
    rw [hnodes]
    exact List.mem_cons_self
  obtain rfl := h.task_type type task hmem
  refine ⟨?_, hmem⟩
  have htaskq := Queues.removeTask_task_self
    (w.queues.removeThread task.thread) task
  rw [World.stopped, htaskq]
  have hqueue : (w.queues.removeThread task.thread).task = w.queues.task := rfl
  simp [hqueue, Tailq.Queue.remove, hnodes]

/-- Stopping the records of a queue one by one keeps the registry and leaves the
rest of the queue. -/
theorem registered (hstop : StoppedAll w tasks rc w' rest) (h : Registered w)
    (hnodes : (w.queues.task type).nodes = tasks) :
    Registered w' ∧ StopAllSpec type w rc w' := by
  induction hstop with
  | done =>
      refine ⟨h, ⟨[], by simp⟩, fun _ _ => rfl, fun _ => hnodes⟩
  | failed hrc =>
      exact ⟨h, ⟨[], by simp⟩, fun _ _ => rfl, fun hrc' => absurd hrc' hrc⟩
  | @stopped w w₁ w' task tasks rest rc node hnode hsteady hrest ih =>
      obtain ⟨htail, hmem⟩ := nodes_stopped_head h hnodes
      obtain rfl := h.findThread_eq hmem hnode
      have h₁ := (h.stopped hmem).steady hsteady
      have hnodes₁ : (w₁.queues.task type).nodes = tasks := by
        rw [hsteady.queues_eq, htail]
      obtain ⟨hreg, ⟨stopped, hstopped, hthread, -⟩, hother, hsuccess⟩ :=
        ih h₁ hnodes₁
      refine ⟨hreg, ⟨task :: stopped, ?_, ?_, by simp⟩, ?_, hsuccess⟩
      · rw [hnodes, ← hnodes₁, hstopped, List.cons_append]
      · have hthread₁ : w₁.queues.packetThread.nodes =
            w.queues.packetThread.nodes.filter fun n => n ≠ task.thread := by
          rw [hsteady.queues_eq]
          exact (h.nodes_removeThread task.thread).trans
            (h.filter_addr_eq_filter hmem)
        rw [hthread, hthread₁, List.filter_filter]
        refine List.filter_congr fun n _ => ?_
        simp only [List.map_cons, List.mem_cons, not_or, Bool.decide_and,
          Bool.and_comm, ne_eq]
      · intro type' htype
        rw [hother type' htype, hsteady.queues_eq]
        have htype' : task.thread.type = type := h.task_type type task (by
          rw [hnodes]
          exact List.mem_cons_self)
        exact Queues.removeTask_task_of_ne _ _ (htype' ▸ htype)

end StoppedAll

/-- What an RPC does to the queues. -/
def Rpc.Spec : Rpc → World → ℤ → World → Prop
  | .captureStart _ => StartSpec .capture
  | .captureStop id => StopSpec .capture id
  | .captureStopAll => StopAllSpec .capture
  | .replayStart _ => StartSpec .replay
  | .replayStop id => StopSpec .replay id
  | .replayStopAll => StopAllSpec .replay

theorem startTask_spec {openPcap : Path → Prog Call ℤ}
    {attach : ℤ → Prog Call (ℤ × Sfp)} {sfpDestroy : Sfp → Prog Call Unit}
    (hsteady : SteadyStart openPcap attach sfpDestroy) {ringType : PacketMmapType}
    {s : Settings} (h : Registered w)
    (hrun : (startTask type ringType s openPcap attach sfpDestroy).Exec
      World.anySem w rc w') :
    Registered w' ∧ StartSpec type w rc w' := by
  have hstart := hrun.of_wlp _ (wlp_startTask hsteady type ringType s w)
  exact ⟨hstart.registered h, hstart.spec⟩

theorem stopTask_spec {unfilter : PacketTask → Prog Call Unit}
    (hunfilter : ∀ task, (unfilter task).Uses Call.IsSteady) (h : Registered w)
    (hrun : (stopTask type unfilter id).Exec World.anySem w rc w') :
    Registered w' ∧ StopSpec type id w rc w' := by
  have hstop := hrun.of_wlp _ (wlp_stopTask hunfilter type id w)
  exact ⟨hstop.registered h, hstop.spec h⟩

theorem stopAllTasks_spec {unfilter : PacketTask → Prog Call Unit}
    (hunfilter : ∀ task, (unfilter task).Uses Call.IsSteady) (h : Registered w)
    (hrun : (stopAllTasks type unfilter).Exec World.anySem w rc w') :
    Registered w' ∧ StopAllSpec type w rc w' := by
  obtain ⟨rest, hstop⟩ := hrun.of_wlp _ (wlp_stopAllTasks hunfilter type w)
  exact hstop.registered h rfl

theorem steady_captureUnfilter (task : PacketTask) :
    (captureUnfilter task).Uses Call.IsSteady :=
  (uses_captureUnfilter task).mono Call.IsPlain.isSteady

theorem steady_replayUnfilter (_ : PacketTask) :
    (pure () : Prog Call Unit).Uses Call.IsSteady := trivial

theorem Rpc.spec_of_exec {rpc : Rpc} (h : Registered w)
    (hrun : rpc.handler.Exec World.anySem w rc w') :
    Registered w' ∧ rpc.Spec w rc w' := by
  cases rpc with
  | captureStart r => exact startTask_spec (steadyStart_capture r) h hrun
  | captureStop id => exact stopTask_spec steady_captureUnfilter h hrun
  | captureStopAll => exact stopAllTasks_spec steady_captureUnfilter h hrun
  | replayStart r => exact startTask_spec steadyStart_replay h hrun
  | replayStop id => exact stopTask_spec steady_replayUnfilter h hrun
  | replayStopAll => exact stopAllTasks_spec steady_replayUnfilter h hrun

/-- The replies of the get handlers are the queues. -/
structure Listed (names : Names) (q : Queues) (idList : List ℕ) : Prop where
  capture : (dabbadCaptureGet q idList).wp names.sem (fun reply _ =>
    reply = if (q.task .capture).nodes = [] then none
      else some ((q.task .capture).nodes.map
        (names.taskEntry Names.captureFilter))) ()
  replay : (dabbadReplayGet q idList).wp names.sem (fun reply _ =>
    reply = if (q.task .replay).nodes = [] then none
      else some ((q.task .replay).nodes.map (names.taskEntry fun _ => []))) ()
  thread : (dabbadThreadGet q idList).wp names.sem (fun reply _ =>
    reply = if q.packetThread.nodes = [] then none
      else some (q.packetThread.nodes.map names.threadEntry)) ()

theorem Registered.listed (h : Registered w) (names : Names) (idList : List ℕ) :
    Listed names w.queues idList where
  capture := names.wp_getList (names.wp_fillTask names.wp_captureSfp)
    (h.task_counted .capture)
  replay := by
    have hsfp : ∀ (_ : SockFprog) u, (pure [] : Prog GetCall (List PbufSockFilter)).wp
        names.sem (fun r _ => r = []) u := fun _ _ => rfl
    exact names.wp_getList (names.wp_fillTask hsfp) (h.task_counted .replay)
  thread := names.wp_getList names.wp_fillThread h.thread_counted

theorem registered_of_reaches {w₀ w : World} (hqueues : w₀.queues = .empty)
    (hthreads : w₀.threads = []) (hrun : Reaches RpcStep w₀ w) : Registered w := by
  refine inv_of_reaches ?_ hrun (Registered.empty hqueues hthreads)
  rintro s s' hs ⟨rpc, rc, hexec⟩
  exact (rpc.spec_of_exec hs hexec).1

/-- In every state that a daemon without captures and replays reaches, the queues
fit together without duplicates and in the order of the starts, every RPC does to
them what it should, and the get handlers list them. -/
theorem registry_of_reaches {w₀ w : World} (hqueues : w₀.queues = .empty)
    (hthreads : w₀.threads = []) (hrun : Reaches RpcStep w₀ w) :
    Registered w ∧ w.queues.packetThread.nodes.Nodup ∧
      (∀ (rpc : Rpc) rc w', rpc.handler.Exec World.anySem w rc w' →
        rpc.Spec w rc w') ∧
      ∀ names idList, Listed names w.queues idList := by
  have hinv := registered_of_reaches hqueues hthreads hrun
  exact ⟨hinv, List.Nodup.of_map _ hinv.thread_addr_nodup,
    fun rpc rc w' hexec => (rpc.spec_of_exec hinv hexec).2, hinv.listed⟩

section Example

def eth0 : Path := [0x65, 0x74, 0x68, 0x30]

/-- A daemon that was just started, on a machine with one interface. -/
def World.boot : World where
  os := ⟨0, fun _ => none, fun path => path, fun _ => none, fun _ => [], 0⟩
  sock := fun _ => ⟨0, none, none⟩
  nextSock := 0
  heap := fun _ => false
  nextBlock := 0
  map := fun _ => none
  nextMap := 0
  threads := []
  queues := .empty
  iface := fun name => if name = eth0 then some 2 else none

def anyRequest : CaptureRequest where
  pcap := some [0x61]
  interface := some anyInterface
  frameNr := 8
  frameSize := 2048
  append := false
  sfp := none

def eth0Replay : Settings where
  pcap := some [0x61]
  interface := some eth0
  frameNr := 8
  frameSize := 2048

def otherRequest : CaptureRequest := { anyRequest with pcap := some [0x62] }

/-- Calls that all succeed: the fourth reads or writes the file header, and new descriptors
and thread ids are numbered by the calls, from `k` on. -/
def laterScript (k n : ℕ) : Outcome := if n = 3 then .ok 0 else .ok (n + k)

def goodScript : ℕ → Outcome := laterScript 3

/-- A capture, a replay of its file and another capture are started, and the first one is
stopped. -/
theorem registry_of_reaches_anyRequest : ∃ w, Reaches RpcStep .boot w ∧
    w.queues.packetThread.nodes.map PacketThread.id = [34, 51] ∧ Registered w ∧
    w.queues.packetThread.nodes.Nodup ∧
    (∀ (rpc : Rpc) rc w', rpc.handler.Exec World.anySem w rc w' → rpc.Spec w rc w') ∧
    ∀ names idList, Listed names w.queues idList := by
  obtain ⟨w₁, w₂, w₃, w, hcapture, hreplay, hother, hstop, hids⟩ : ∃ w₁ w₂ w₃ w : World,
      (dabbadCaptureStart anyRequest).run World.handle goodScript .boot = some (0, w₁) ∧
        (dabbadReplayStart eth0Replay).run World.handle (laterScript 23) w₁ = some (0, w₂) ∧
        (dabbadCaptureStart otherRequest).run World.handle (laterScript 43) w₂ = some (0, w₃) ∧
        (dabbadCaptureStop 11).run World.handle (fun _ => .ok 0) w₃ = some (0, w) ∧
        w.queues.packetThread.nodes.map PacketThread.id = [34, 51] :=
    ⟨_, _, _, _, rfl, rfl, rfl, rfl, rfl⟩
  have hstarted : Reaches RpcStep .boot w₃ :=
    ((Relation.ReflTransGen.single
      ⟨.captureStart anyRequest, 0, exec_of_run hcapture⟩).tail
      ⟨.replayStart eth0Replay, 0, exec_of_run hreplay⟩).tail
      ⟨.captureStart otherRequest, 0, exec_of_run hother⟩
  have hreach := hstarted.tail ⟨.captureStop 11, 0, exec_of_run hstop⟩
  exact ⟨w, hreach, hids, registry_of_reaches rfl rfl hreach⟩

end Example

end Dabbad
