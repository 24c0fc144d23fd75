import Dabba.Dabbad.SafeCall

/-!
# Stops are safe among running threads

A stop asks the thread of a record to end, takes the record off the queues, and
releases what was acquired for it. From the request on every running thread was
asked to end or has nothing of the record, so in an orderly run no running thread
has what is released.
-/

namespace Dabbad

open Posix Program Tpacket SockFilter Pcap Transition

variable {accepts : List Bpf.SockFilter → Frame → Bool} {w w' : World}
variable {α : Type} {Q : α → World → Prop}
variable {type : PacketThreadType} {nodes : List PacketTask} {task : PacketTask}
variable {unfilter : PacketTask → Prog Call Unit}

/-- The queue of the kind has these records. -/
structure Queued (type : PacketThreadType) (nodes : List PacketTask) (w : World) :
    Prop where
  linked : Linked w
  nodes_eq : (w.queues.task type).nodes = nodes

/-- Every running thread was asked to end or has nothing of the record. -/
structure Cancelled (type : PacketThreadType) (nodes : List PacketTask)
    (task : PacketTask) (w : World) : Prop where
  queued : Queued type nodes w
  cancelled : ∀ t ∈ w.threads, t.mayStep = true →
    t.cancelled = true ∨ t.task.Apart task

/-- The record was taken off its queue, and no other record has its descriptor. -/
structure Retired (type : PacketThreadType) (nodes : List PacketTask)
    (task : PacketTask) (w : World) : Prop where
  cancelled : Cancelled type nodes task w
  lacks : w.queues.Lacks (.fd task.pcapFd)

theorem Queued.drift (h : Queued type nodes w) (hd : Drift w w') (htame : w'.Tame) :
    Queued type nodes w' where
  linked := h.linked.drift hd htame
  nodes_eq := by rw [hd.queues, h.nodes_eq]

theorem Cancelled.drift (h : Cancelled type nodes task w) (hd : Drift w w')
    (htame : w'.Tame) : Cancelled type nodes task w' where
  queued := h.queued.drift hd htame
  cancelled t' ht' hmay := by
    obtain ⟨t, ht, hlater⟩ := hd.mem_threads ht'
    rw [hlater.task]
    rcases h.cancelled t ht (hlater.mayStep hmay) with hc | hapart
    · exact .inl (hlater.cancelled hc)
    · exact .inr hapart

theorem drifting_queued (type : PacketThreadType) (nodes : List PacketTask) :
    Drifting (Queued type nodes) where
  linked _ h := h.linked
  drift _ _ h hd htame := h.drift hd htame

theorem drifting_cancelled (type : PacketThreadType) (nodes : List PacketTask)
    (task : PacketTask) : Drifting (Cancelled type nodes task) where
  linked _ h := h.queued.linked
  drift _ _ h hd htame := h.drift hd htame

theorem drifting_retired (type : PacketThreadType) (nodes : List PacketTask)
    (task : PacketTask) : Drifting (Retired type nodes task) where
  linked _ h := h.cancelled.queued.linked
  drift _ _ h hd htame := ⟨h.cancelled.drift hd htame, by
    rw [hd.queues]
    exact h.lacks⟩

theorem Queued.cancel (h : Queued type nodes w) (htask : task ∈ nodes) :
    Cancelled type nodes task (w.cancel task.thread.id) where
  queued := h.drift (w.drift_cancel _) (h.linked.tame.cancel _)
  cancelled t' ht' hmay := by
    obtain ⟨t, ht, rfl⟩ := List.mem_map.1 ht'
    by_cases hid : t.id = task.thread.id
    · rw [if_pos hid]
      exact .inl rfl
    · rw [if_neg hid] at hmay ⊢
      have hmem : task ∈ (w.queues.task type).nodes := by
        rw [h.nodes_eq]
        exact htask
      exact .inr ((h.linked.apart type task hmem t ht hmay).resolve_left hid)

theorem Cancelled.removeThread (h : Cancelled type nodes task w) (node : PacketThread) :
    Cancelled type nodes task { w with queues := w.queues.removeThread node } where
  queued := ⟨h.queued.linked.setQueues_of_task rfl, h.queued.nodes_eq⟩
  cancelled := h.cancelled

/-- Taking the record off its queue. -/
theorem Cancelled.removeTask (h : Cancelled type nodes task w) (htask : task ∈ nodes) :
    Retired type (nodes.eraseP fun n => n.thread.addr == task.thread.addr) task
      { w with queues := w.queues.removeTask task } := by
  have hlinked := h.queued.linked
  have hmem : task ∈ (w.queues.task type).nodes := by
    rw [h.queued.nodes_eq]
    exact htask
  obtain rfl := hlinked.task_type type task hmem
  have hself : ((w.queues.removeTask task).task task.thread.type).nodes =
      nodes.eraseP fun n => n.thread.addr == task.thread.addr := by
    rw [Queues.removeTask_task_self, Tailq.Queue.remove, h.queued.nodes_eq]
  have hsub : ∀ type', ((w.queues.removeTask task).task type').nodes.Sublist
      (w.queues.task type').nodes := by
    intro type'
    by_cases htype : type' = task.thread.type
    · subst htype
      rw [hself, h.queued.nodes_eq]
      exact List.eraseP_sublist
    · rw [Queues.removeTask_task_of_ne _ _ htype]
  refine ⟨⟨⟨hlinked.setQueues hsub, hself⟩, h.cancelled⟩, ?_⟩
  -- A record with the same descriptor would be the one that was taken off.
  rintro type' task' htask' hhas
  obtain ⟨rfl, haddr⟩ := hlinked.pcapFd_inj _ type' task task' hmem
    ((hsub type').mem htask') hhas
  have hnodup := hlinked.addr_nodup task.thread.type
  rw [h.queued.nodes_eq] at hnodup
  rw [hself, Tailq.Queue.eraseP_key_eq_filter (fun n : PacketTask => n.thread.addr) _ hnodup,
    List.mem_filter] at htask'
  exact of_decide_eq_true htask'.2 haddr.symm

section Release

/-- A call that releases something of the record when no cancelled thread may take
another step. -/
theorem Retired.release {x : Atom} (h : Retired type nodes task w) (hx : task.Has x)
    (ht : Touches x w w') (hsettled : w.Settled)
    (hreserved : (w.Reserved x → w'.Reserved x) ∨ x = .fd task.pcapFd) :
    Retired type nodes task w' := by
  have hidle : w.Idle x := by
    intro t hmem hmay hhas
    rcases h.cancelled.cancelled t hmem hmay with hc | hapart
    · rw [hsettled t hmem hc] at hmay
      cases hmay
    · exact hapart x hhas hx
  have hqueued : ∀ type', ∀ task' ∈ (w.queues.task type').nodes, task'.Has x →
      w'.Reserved x := by
    intro type' task' htask' hhas
    rcases hreserved with hreserved | rfl
    · exact hreserved (h.cancelled.queued.linked.reserved type' task' htask' x hhas)
    · exact absurd hhas (h.lacks type' task' htask')
  refine ⟨⟨⟨h.cancelled.queued.linked.touches ht hidle hqueued, ?_⟩, ?_⟩, ?_⟩
  · rw [ht.queues, h.cancelled.queued.nodes_eq]
  · rw [ht.threads]
    exact h.cancelled.cancelled
  · rw [ht.queues]
    exact h.lacks

theorem retired_free {b : Option ℕ} {k : Unit → Prog Call α}
    (h : Retired type nodes task w) (hb : ∀ b', b = some b' → task.Has (.block b'))
    (hk : ∀ w', Retired type nodes task w' → SafeIn accepts (k ()) Q w') :
    SafeIn accepts ((Prog.perform (.free b)).bind k) Q w := by
  refine Prog.Safe.call (drifting_retired _ _ _).assertion h fun s r s' hs hsem => ?_
  obtain ⟨o, ho, heq⟩ := orderly_of_sem hsem
  cases b with
  | none =>
      obtain ⟨rfl, rfl⟩ := Prod.mk.inj heq
      exact hk _ hs
  | some b =>
      obtain ⟨rfl, rfl⟩ := Prod.mk.inj heq
      exact hk _ (hs.release (hb b rfl) (touches_block le_rfl) ho (.inl id))

theorem retired_munmap {m length : ℕ} {k : ℤ → Prog Call α} (h : Retired type nodes task w)
    (hm : task.pktMmap.buf = some m)
    (hk : ∀ w', Retired type nodes task w' → SafeIn accepts (k 0) Q w') :
    SafeIn accepts ((Prog.perform (.munmap m length)).bind k) Q w := by
  refine Prog.Safe.call (drifting_retired _ _ _).assertion h fun s r s' hs hsem => ?_
  obtain ⟨o, ho, heq⟩ := orderly_of_sem hsem
  obtain ⟨rfl, rfl⟩ := Prod.mk.inj heq
  have hhas : task.Has (.mapping m) := hm
  exact hk _ (hs.release hhas (touches_mapping le_rfl) ho (.inl id))

theorem retired_close {k : ℤ → Prog Call α} (h : Retired type nodes task w)
    (hk : ∀ rc w', Retired type nodes task w' → SafeIn accepts (k rc) Q w') :
    SafeIn accepts ((close task.pcapFd).bind k) Q w := by
  refine Prog.Safe.call (drifting_retired _ _ _).assertion h fun s r s' hs hsem => ?_
  obtain ⟨o, ho, heq⟩ := orderly_of_sem hsem
  obtain ⟨rfl, rfl⟩ := Prod.mk.inj heq
  have hhas : task.Has (.fd task.pcapFd) := rfl
  exact hk _ _ (hs.release hhas (touches_fd (Os.ident_close o)) ho (.inr rfl))

theorem retired_destroy {f : Unit → Prog Call α} (h : Retired type nodes task w)
    (hf : ∀ w', Retired type nodes task w' → SafeIn accepts (f ()) Q w') :
    SafeIn accepts ((ldabPacketMmapDestroy task.pktMmap).bind f) Q w := by
  have hunregister : (packetMmapUnregister task.pktMmap).Uses Call.IsStill := by
    simp [packetMmapUnregister, Call.IsStill]
  unfold ldabPacketMmapDestroy
  simp only [Prog.bind_eq, Prog.liftM_eq, Prog.bind_assoc]
  refine retired_free h (fun b hb => .inr (.inl hb)) fun w₁ h₁ => ?_
  unfold packetMmapMunmap
  split
  · simp only [Prog.pure_eq, Prog.ret_bind]
    exact (drifting_retired _ _ _).safe_still hunregister h₁ fun _ => hf
  · simp only [Prog.bind_eq, Prog.liftM_eq, Prog.bind_assoc]
    refine retired_munmap h₁ ‹_› fun w₂ h₂ => ?_
    simp only [Prog.pure_eq, Prog.ret_bind]
    exact (drifting_retired _ _ _).safe_still hunregister h₂ fun _ => hf

end Release

/-- Undoing the filter of a record frees at most its array. -/
def SafeUnfilter (accepts : List Bpf.SockFilter → Frame → Bool)
    (unfilter : PacketTask → Prog Call Unit) : Prop :=
  ∀ {type nodes task w}, Retired type nodes task w →
    SafeIn accepts (unfilter task) (fun _ => Retired type nodes task) w

theorem safeUnfilter_capture : SafeUnfilter accepts captureUnfilter := by
  intro type nodes task w h
  have hcall : (Prog.perform (Call.setFilter task.pktMmap.pfSock none)).Uses
      Call.IsStill := by simp [Call.IsStill]
  refine (drifting_retired _ _ _).safe_still hcall h fun _ w₁ h₁ => ?_
  exact retired_free (k := .ret) h₁ (fun b hb => .inr (.inr hb)) fun w₂ h₂ =>
    Prog.Safe.ret (drifting_retired _ _ _).assertion h₂ fun _ h => h

theorem safeUnfilter_replay : SafeUnfilter accepts fun _ => pure () :=
  fun h => Prog.Safe.ret (drifting_retired _ _ _).assertion h fun _ h => h

/-- Asking the thread of a record to end. -/
theorem safe_dabbadThreadStop (h : Queued type nodes w) (htask : task ∈ nodes) :
    SafeIn accepts (dabbadThreadStop task.thread) (fun rc w' =>
      (rc ≠ 0 ∧ Queued type nodes w') ∨ (rc = 0 ∧ Cancelled type nodes task w')) w := by
  have hret : ∀ (rc : ℤ) {w}, rc ≠ 0 → Queued type nodes w →
      SafeIn accepts (Prog.ret rc) (fun rc w' => (rc ≠ 0 ∧ Queued type nodes w') ∨
        (rc = 0 ∧ Cancelled type nodes task w')) w := fun rc w hrc h =>
    Prog.Safe.ret (drifting_queued _ _).assertion h fun _ h => .inl ⟨hrc, h⟩
  refine (drifting_queued _ _).safe_getQueues h fun w₁ h₁ => ?_
  cases hfind : w₁.queues.packetThread.nodes.find? fun n => n.id == task.thread.id with
  | none => exact hret _ (by decide) h₁
  | some node =>
      have hid : node.id = task.thread.id := by simpa using List.find?_some hfind
      refine Prog.Safe.call (drifting_queued _ _).assertion h₁ fun s r s' hs hsem => ?_
      obtain ⟨o, -, heq⟩ := orderly_of_sem hsem
      cases o with
      | fail e =>
          obtain ⟨rfl, rfl⟩ := Prod.mk.inj heq
          simp only [Prog.ret_bind, ne_eq, errnum_ne_zero, not_false_eq_true, if_true]
          exact hret _ (Int.natCast_ne_zero.2 (errnum_ne_zero e)) hs
      | ok n =>
          obtain ⟨rfl, rfl⟩ := Prod.mk.inj heq
          have hs' := hid ▸ hs.cancel htask
          simp only [Prog.ret_bind, ne_eq, not_true_eq_false, if_false, dabbadThreadRemove,
            Prog.bind_eq, Prog.liftM_eq, Prog.bind_assoc]
          refine (drifting_cancelled _ _ _).safe_getQueues hs' fun w₂ h₂ => ?_
          refine Prog.Safe.assert_bind fun _ => ?_
          refine (drifting_cancelled _ _ _).safe_setQueues (f := (·.removeThread node)) h₂
            fun w₃ h₃ => ?_
          exact Prog.Safe.ret (drifting_cancelled _ _ _).assertion (h₃.removeThread node)
            fun _ h => .inr ⟨rfl, h⟩

theorem safe_releaseTask (hunfilter : SafeUnfilter accepts unfilter)
    (h : Cancelled type nodes task w) (htask : task ∈ nodes) :
    SafeIn accepts (releaseTask unfilter task) (fun _ =>
      Queued type (nodes.eraseP fun n => n.thread.addr == task.thread.addr)) w := by
  simp only [releaseTask, dabbadTaskRemove, Prog.bind_eq, Prog.liftM_eq, Prog.bind_assoc]
  refine (drifting_cancelled _ _ _).safe_getQueues h fun w₁ h₁ => ?_
  refine Prog.Safe.assert_bind fun _ => ?_
  refine (drifting_cancelled _ _ _).safe_setQueues (f := (·.removeTask task)) h₁
    fun w₂ h₂ => ?_
  refine (hunfilter (h₂.removeTask htask)).bind fun _ w₃ h₃ => ?_
  refine retired_close h₃ fun _ w₄ h₄ => ?_
  refine retired_destroy h₄ fun w₅ h₅ => ?_
  exact retired_free (k := .ret) h₅ (fun b hb => .inl (Option.some.inj hb).symm)
    fun w₆ h₆ => Prog.Safe.ret (drifting_retired _ _ _).assertion h₆
      fun _ h => h.cancelled.queued

/-- A stop keeps what running threads use. -/
theorem safe_stopTask (hunfilter : SafeUnfilter accepts unfilter)
    (type : PacketThreadType) (id : ℕ) (h : Linked w) :
    SafeIn accepts (stopTask type unfilter id) (fun _ => Linked) w := by
  have hret : ∀ (rc : ℤ) {nodes w}, Queued type nodes w →
      SafeIn accepts (Prog.ret rc) (fun _ => Linked) w := fun rc _ _ h =>
    Prog.Safe.ret (drifting_queued _ _).assertion h fun _ h => h.linked
  refine drifting_linked.safe_getQueues h fun w₁ h₁ => ?_
  cases hfind : (w₁.queues.task type).nodes.find? fun n => n.thread.id == id with
  | none => exact hret _ ⟨h₁, rfl⟩
  | some task =>
      have hmem := List.mem_of_find?_eq_some hfind
      refine (safe_dabbadThreadStop ⟨h₁, rfl⟩ hmem).bind fun rc w₂ h₂ => ?_
      rcases h₂ with ⟨hrc, h₂⟩ | ⟨rfl, h₂⟩
      · rw [if_neg hrc]
        exact hret rc h₂
      · rw [if_pos rfl]
        exact (safe_releaseTask hunfilter h₂ hmem).bind fun _ w₃ h₃ => hret 0 h₃

theorem safe_stopAllLoop (hunfilter : SafeUnfilter accepts unfilter)
    {tasks : List PacketTask} (h : Queued type tasks w) :
    SafeIn accepts (stopAllLoop unfilter tasks) (fun _ => Linked) w := by
  induction tasks generalizing w with
  | nil => exact Prog.Safe.ret (drifting_queued _ _).assertion h fun _ h => h.linked
  | cons task tasks ih =>
      refine (safe_dabbadThreadStop h List.mem_cons_self).bind fun rc w₁ h₁ => ?_
      rcases h₁ with ⟨hrc, h₁⟩ | ⟨rfl, h₁⟩
      · rw [if_pos hrc]
        exact Prog.Safe.ret (drifting_queued _ _).assertion h₁ fun _ h => h.linked
      · rw [if_neg (not_not.2 rfl)]
        refine (safe_releaseTask hunfilter h₁ List.mem_cons_self).bind fun _ w₂ h₂ => ?_
        have htail : ((task :: tasks).eraseP fun n => n.thread.addr == task.thread.addr) =
            tasks := by simp
        rw [htail] at h₂
        exact ih h₂

theorem safe_stopAllTasks (hunfilter : SafeUnfilter accepts unfilter)
    (type : PacketThreadType) (h : Linked w) :
    SafeIn accepts (stopAllTasks type unfilter) (fun _ => Linked) w :=
  drifting_linked.safe_getQueues h fun _ h₁ => safe_stopAllLoop hunfilter ⟨h₁, rfl⟩

end Dabbad
