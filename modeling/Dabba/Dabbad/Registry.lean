import Dabba.Dabbad.Handlers
import Dabba.Transition.Basic
import Mathlib.Data.List.Nodup

/-!
# The registry of packet threads

Every running capture or replay is in two queues: its record in the queue of its
kind, and the thread embedded in the record in the thread queue. The invariant
says that these three queues and their counters always fit together, whatever
handlers ran before and however their calls ended. Threads that were started are
numbered by their records, whose addresses grow, so the order of the threads of
the process is the order in which they were started.
-/

namespace Dabbad

open Posix Program Tpacket SockFilter Pcap

def World.startOrder (w : World) : List ℕ := w.threads.map (·.task.thread.addr)

/-- The queues fit together. -/
structure Registered (w : World) : Prop where
  thread_counted : w.queues.packetThread.Counted
  task_counted : ∀ type, (w.queues.task type).Counted
  task_type : ∀ type, ∀ task ∈ (w.queues.task type).nodes,
    task.thread.type = type
  mem_thread_iff : ∀ node, node ∈ w.queues.packetThread.nodes ↔
    ∃ type, ∃ task ∈ (w.queues.task type).nodes, task.thread = node
  thread_order : (w.queues.packetThread.nodes.map (·.addr)).Sublist w.startOrder
  task_order : ∀ type,
    ((w.queues.task type).nodes.map (·.thread.addr)).Sublist w.startOrder
  running : ∀ node ∈ w.queues.packetThread.nodes, ∃ t ∈ w.threads,
    t.cancelled = false ∧ t.id = node.id ∧ t.task.thread.addr = node.addr
  increasing : w.startOrder.Pairwise (· < ·)
  allocated : ∀ addr ∈ w.startOrder, addr < w.nextBlock
  id_injective : ∀ t ∈ w.threads, ∀ t' ∈ w.threads, t.cancelled = false →
    t'.cancelled = false → t.id = t'.id →
    t.task.thread.addr = t'.task.thread.addr

/-- A stop unlinks one record and its thread, and changes no other queue. -/
structure Removed (w : World) (task : PacketTask) (w' : World) : Prop where
  thread : Tailq.Unlinked w.queues.packetThread.nodes task.thread
    w'.queues.packetThread.nodes
  record : Tailq.Unlinked (w.queues.task task.thread.type).nodes task
    (w'.queues.task task.thread.type).nodes
  other : ∀ type, type ≠ task.thread.type →
    w'.queues.task type = w.queues.task type

theorem Removed.of_queues_eq {w w₁ w' : World} {task : PacketTask}
    (h : Removed w task w₁) (hqueues : w'.queues = w₁.queues) :
    Removed w task w' where
  thread := hqueues ▸ h.thread
  record := hqueues ▸ h.record
  other type htype := hqueues ▸ h.other type htype

namespace Registered

variable {w w' : World}

theorem empty (hqueues : w.queues = .empty) (hthreads : w.threads = []) :
    Registered w := by
  have horder : w.startOrder = [] := by rw [World.startOrder, hthreads, List.map_nil]
  constructor <;> simp [hqueues, hthreads, horder, Queues.empty, Tailq.Queue.empty,
    Tailq.Queue.Counted]

theorem steady (h : Registered w) (hsteady : Steady w w') : Registered w' := by
  obtain ⟨hqueues, hthreads, hle⟩ := hsteady
  have horder : w'.startOrder = w.startOrder := by
    rw [World.startOrder, hthreads, World.startOrder]
  constructor
  · rw [hqueues]; exact h.thread_counted
  · rw [hqueues]; exact h.task_counted
  · rw [hqueues]; exact h.task_type
  · rw [hqueues]; exact h.mem_thread_iff
  · rw [hqueues, horder]; exact h.thread_order
  · rw [hqueues, horder]; exact h.task_order
  · rw [hqueues, hthreads]; exact h.running
  · rw [horder]; exact h.increasing
  · rw [horder]; exact fun addr ha => lt_of_lt_of_le (h.allocated addr ha) hle
  · rw [hthreads]; exact h.id_injective

theorem startOrder_nodup (h : Registered w) : w.startOrder.Nodup :=
  h.increasing.imp fun hlt => hlt.ne

theorem thread_addr_nodup (h : Registered w) :
    (w.queues.packetThread.nodes.map (·.addr)).Nodup :=
  h.thread_order.nodup h.startOrder_nodup

theorem task_addr_nodup (h : Registered w) (type : PacketThreadType) :
    ((w.queues.task type).nodes.map (·.thread.addr)).Nodup :=
  (h.task_order type).nodup h.startOrder_nodup

theorem thread_mem (h : Registered w) {type : PacketThreadType} {task : PacketTask}
    (htask : task ∈ (w.queues.task type).nodes) :
    task.thread ∈ w.queues.packetThread.nodes :=
  (h.mem_thread_iff _).2 ⟨type, task, htask, rfl⟩

theorem node_eq_of_addr (h : Registered w) {node node' : PacketThread}
    (hnode : node ∈ w.queues.packetThread.nodes)
    (hnode' : node' ∈ w.queues.packetThread.nodes)
    (haddr : node.addr = node'.addr) : node = node' :=
  List.inj_on_of_nodup_map h.thread_addr_nodup hnode hnode' haddr

theorem node_eq_of_id (h : Registered w) {node node' : PacketThread}
    (hnode : node ∈ w.queues.packetThread.nodes)
    (hnode' : node' ∈ w.queues.packetThread.nodes)
    (hid : node.id = node'.id) : node = node' := by
  obtain ⟨t, ht, hrun, htid, htaddr⟩ := h.running node hnode
  obtain ⟨t', ht', hrun', htid', htaddr'⟩ := h.running node' hnode'
  have haddr := h.id_injective t ht t' ht' hrun hrun' (by rw [htid, hid, htid'])
  exact h.node_eq_of_addr hnode hnode' (by rw [← htaddr, haddr, htaddr'])

theorem findThread_eq (h : Registered w) {type : PacketThreadType}
    {task : PacketTask} (htask : task ∈ (w.queues.task type).nodes)
    {node : PacketThread} (hnode : w.findThread task.thread = some node) :
    node = task.thread := by
  have hid : node.id = task.thread.id := by
    simpa using List.find?_some hnode
  exact h.node_eq_of_id (List.mem_of_find?_eq_some hnode) (h.thread_mem htask) hid

theorem startOrder_withThread (w : World) (id : ℕ) (task : PacketTask) :
    (w.withThread id task).startOrder = w.startOrder ++ [task.thread.addr] := by
  simp [World.startOrder, World.withThread, World.newThread]

theorem lt_addr_of_fresh {w₀ : World} {type : PacketThreadType} {task : PacketTask}
    (h : Registered w₀) (hsteady : Steady w₀ w)
    (hfresh : FreshRecord type w₀ w task) :
    ∀ addr ∈ w.startOrder, addr < task.thread.addr := by
  intro addr haddr
  rw [World.startOrder, hsteady.threads_eq] at haddr
  exact lt_of_lt_of_le (h.allocated addr haddr) hfresh.1

/-- A new thread leaves the queues as they are. -/
theorem withThread (h : Registered w) {id : ℕ} {task : PacketTask}
    (hlt : ∀ addr ∈ w.startOrder, addr < task.thread.addr)
    (halloc : task.thread.addr < w.nextBlock) (hid : ¬ w.Taken id) :
    Registered (w.withThread id task) := by
  have horder := startOrder_withThread w id task
  have hsub : w.startOrder.Sublist (w.withThread id task).startOrder := by
    rw [horder]
    exact List.sublist_append_left _ _
  constructor
  · exact h.thread_counted
  · exact h.task_counted
  · exact h.task_type
  · exact h.mem_thread_iff
  · exact h.thread_order.trans hsub
  · exact fun type => (h.task_order type).trans hsub
  · intro node hnode
    obtain ⟨t, ht, hrest⟩ := h.running node hnode
    exact ⟨t, List.mem_append_left _ ht, hrest⟩
  · rw [horder, List.pairwise_append]
    refine ⟨h.increasing, List.pairwise_singleton _ _, ?_⟩
    intro addr haddr addr' haddr'
    rw [List.mem_singleton.1 haddr']
    exact hlt addr haddr
  · intro addr haddr
    rw [horder, List.mem_append, List.mem_singleton] at haddr
    rcases haddr with haddr | rfl
    · exact h.allocated addr haddr
    · exact halloc
  · have hfree : ∀ t ∈ w.threads, t.cancelled = false → t.id ≠ id :=
      fun t ht hrun htid => hid ⟨t, ht, htid, hrun⟩
    intro t ht t' ht' hrun hrun' htid
    rcases List.mem_append.1 ht with ht | ht <;>
      rcases List.mem_append.1 ht' with ht' | ht'
    · exact h.id_injective t ht t' ht' hrun hrun' htid
    · rw [List.mem_singleton.1 ht'] at htid
      exact absurd htid (hfree t ht hrun)
    · rw [List.mem_singleton.1 ht] at htid
      exact absurd htid.symm (hfree t' ht' hrun')
    · rw [List.mem_singleton.1 ht, List.mem_singleton.1 ht']

/-- A start appends the new thread and the new record. -/
theorem started (h : Registered w) {id : ℕ} {task : PacketTask}
    (hlt : ∀ addr ∈ w.startOrder, addr < task.thread.addr)
    (halloc : task.thread.addr < w.nextBlock) (hid : ¬ w.Taken id) :
    Registered (w.started id task) := by
  have hthread := h.withThread hlt halloc hid
  have horder : (w.started id task).startOrder =
      w.startOrder ++ [task.thread.addr] := startOrder_withThread w id task
  have hnodes : (w.started id task).queues.packetThread.nodes =
      w.queues.packetThread.nodes ++ [World.node id task] := rfl
  have htaskq : ∀ type, ((w.started id task).queues.task type).nodes =
      (w.queues.task type).nodes ++ if type = task.thread.type then
        [{ task with thread := World.node id task }] else [] :=
    fun _ => Queues.nodes_insertTask _ _
  have hmem : ∀ {type x}, x ∈ ((w.started id task).queues.task type).nodes ↔
      x ∈ (w.queues.task type).nodes ∨
        (type = task.thread.type ∧ x = { task with thread := World.node id task }) :=
    Queues.mem_insertTask _ _
  exact {
    thread_counted := h.thread_counted.insertTail _
    task_counted := Queues.counted_insertTask h.task_counted
    task_type := by
      intro type x hx
      rcases hmem.1 hx with hx | ⟨htype, rfl⟩
      · exact h.task_type type x hx
      · exact htype.symm
    mem_thread_iff := by
      intro node
      rw [hnodes, List.mem_append, List.mem_singleton, h.mem_thread_iff]
      constructor
      · rintro (⟨type, x, hx, rfl⟩ | rfl)
        · exact ⟨type, x, hmem.2 (.inl hx), rfl⟩
        · exact ⟨_, _, hmem.2 (.inr ⟨rfl, rfl⟩), rfl⟩
      · rintro ⟨type, x, hx, rfl⟩
        rcases hmem.1 hx with hx | ⟨-, rfl⟩
        · exact .inl ⟨type, x, hx, rfl⟩
        · exact .inr rfl
    thread_order := by
      rw [horder, hnodes, List.map_append]
      exact h.thread_order.append (List.Sublist.refl _)
    task_order := by
      intro type
      rw [horder, htaskq, List.map_append]
      refine (h.task_order type).append ?_
      split_ifs
      · exact List.Sublist.refl _
      · exact List.nil_sublist _
    running := by
      intro node hnode
      rcases List.mem_append.1 hnode with hnode | hnode
      · exact hthread.running node hnode
      · rw [List.mem_singleton.1 hnode]
        exact ⟨w.newThread id task,
          List.mem_append_right _ (List.mem_singleton_self _), rfl, rfl, rfl⟩
    increasing := hthread.increasing
    allocated := hthread.allocated
    id_injective := hthread.id_injective }

theorem startOrder_cancel (w : World) (id : ℕ) :
    (w.cancel id).startOrder = w.startOrder := by
  rw [World.startOrder, World.startOrder, World.cancel, List.map_map]
  refine List.map_congr_left fun t _ => ?_
  simp only [Function.comp_apply]
  split_ifs <;> rfl

theorem mem_cancel {id : ℕ} {t : Thread} (ht : t ∈ (w.cancel id).threads)
    (hrun : t.cancelled = false) : t ∈ w.threads ∧ t.id ≠ id := by
  obtain ⟨t₀, ht₀, rfl⟩ := List.mem_map.1 ht
  by_cases hid : t₀.id = id
  · rw [if_pos hid] at hrun
    cases hrun
  · rw [if_neg hid]
    exact ⟨ht₀, hid⟩

theorem nodes_removeThread (h : Registered w) (node : PacketThread) :
    (w.queues.removeThread node).packetThread.nodes =
      w.queues.packetThread.nodes.filter fun n => n.addr ≠ node.addr :=
  Tailq.Queue.eraseP_key_eq_filter PacketThread.addr node.addr h.thread_addr_nodup

theorem filter_addr_eq_filter (h : Registered w) {type : PacketThreadType}
    {task : PacketTask} (htask : task ∈ (w.queues.task type).nodes) :
    (w.queues.packetThread.nodes.filter fun n => n.addr ≠ task.thread.addr) =
      w.queues.packetThread.nodes.filter fun n => n ≠ task.thread := by
  refine List.filter_congr fun n hn => decide_eq_decide.2 (not_congr ⟨?_, ?_⟩)
  · exact h.node_eq_of_addr hn (h.thread_mem htask)
  · rintro rfl
    rfl

theorem addr_ne_of_type_ne (h : Registered w) {type : PacketThreadType}
    {task task' : PacketTask} (htask : task ∈ (w.queues.task task.thread.type).nodes)
    (htask' : task' ∈ (w.queues.task type).nodes) (htype : type ≠ task.thread.type) :
    task'.thread.addr ≠ task.thread.addr := by
  intro haddr
  have heq := h.node_eq_of_addr (h.thread_mem htask') (h.thread_mem htask) haddr
  exact htype (by rw [← h.task_type type task' htask', heq])

theorem nodes_removeTask (h : Registered w) {task : PacketTask}
    (htask : task ∈ (w.queues.task task.thread.type).nodes)
    (type : PacketThreadType) :
    ((w.queues.removeTask task).task type).nodes =
      (w.queues.task type).nodes.filter fun n =>
        n.thread.addr ≠ task.thread.addr := by
  by_cases htype : type = task.thread.type
  · subst htype
    rw [Queues.removeTask_task_self]
    exact Tailq.Queue.eraseP_key_eq_filter (fun n : PacketTask => n.thread.addr)
      task.thread.addr (h.task_addr_nodup _)
  · rw [Queues.removeTask_task_of_ne _ _ htype, eq_comm, List.filter_eq_self]
    exact fun task' htask' => decide_eq_true (h.addr_ne_of_type_ne htask htask' htype)

/-- A stop takes the thread and the record off their queues. -/
theorem stopped (h : Registered w) {task : PacketTask}
    (htask : task ∈ (w.queues.task task.thread.type).nodes) :
    Registered (w.stopped task task.thread) := by
  have horder : (w.stopped task task.thread).startOrder = w.startOrder :=
    startOrder_cancel w task.thread.id
  have hthreadq : (w.stopped task task.thread).queues.packetThread.nodes =
      w.queues.packetThread.nodes.filter fun n => n.addr ≠ task.thread.addr :=
    h.nodes_removeThread task.thread
  have htaskq : ∀ type, ((w.stopped task task.thread).queues.task type).nodes =
      (w.queues.task type).nodes.filter fun n =>
        n.thread.addr ≠ task.thread.addr :=
    h.nodes_removeTask htask
  constructor
  · exact h.thread_counted.remove (h.thread_mem htask) (beq_self_eq_true _)
  · exact Queues.counted_removeTask h.task_counted htask
  · intro type x hx
    rw [htaskq] at hx
    exact h.task_type type x (List.mem_of_mem_filter hx)
  · intro node
    rw [hthreadq, List.mem_filter, h.mem_thread_iff]
    constructor
    · rintro ⟨⟨type, x, hx, rfl⟩, haddr⟩
      refine ⟨type, x, ?_, rfl⟩
      rw [htaskq]
      exact List.mem_filter.2 ⟨hx, haddr⟩
    · rintro ⟨type, x, hx, rfl⟩
      rw [htaskq, List.mem_filter] at hx
      exact ⟨⟨type, x, hx.1, rfl⟩, hx.2⟩
  · rw [horder, hthreadq]
    exact (List.filter_sublist.map _).trans h.thread_order
  · intro type
    rw [horder, htaskq]
    exact (List.filter_sublist.map _).trans (h.task_order type)
  · intro node hnode
    rw [hthreadq, List.mem_filter] at hnode
    obtain ⟨hnode, haddr⟩ := hnode
    obtain ⟨t, ht, hrun, hid, htaddr⟩ := h.running node hnode
    have hne : t.id ≠ task.thread.id := by
      intro heq
      have hsame := h.node_eq_of_id hnode (h.thread_mem htask) (hid.symm.trans heq)
      rw [hsame] at haddr
      simp at haddr
    refine ⟨t, List.mem_map.2 ⟨t, ht, if_neg hne⟩, hrun, hid, htaddr⟩
  · rw [horder]
    exact h.increasing
  · rw [horder]
    exact h.allocated
  · intro t ht t' ht' hrun hrun' hid
    exact h.id_injective t (mem_cancel ht hrun).1 t' (mem_cancel ht' hrun').1 hrun
      hrun' hid

theorem removed_stopped (h : Registered w) {task : PacketTask}
    (htask : task ∈ (w.queues.task task.thread.type).nodes) :
    Removed w task (w.stopped task task.thread) where
  thread := Tailq.Queue.unlinked_eraseP_key PacketThread.addr h.thread_addr_nodup
    (h.thread_mem htask)
  record := by
    have htaskq := Queues.removeTask_task_self
      (w.queues.removeThread task.thread) task
    rw [World.stopped, htaskq]
    exact Tailq.Queue.unlinked_eraseP_key (fun n : PacketTask => n.thread.addr)
      (h.task_addr_nodup _) htask
  other type htype := Queues.removeTask_task_of_ne _ _ htype

end Registered

end Dabbad
