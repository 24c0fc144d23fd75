import Dabba.Dabbad.Steady

/-!
# What a run of a handler does to the queues

Each handler either leaves the queues alone, or makes one change to them, apart
from steady calls before and after. A start that reports success appends one
thread and one record; a stop that reports success takes one thread and one
record off; and a handler that stops everything repeats that for the records in
the order of their queue, up to the first failure.
-/

namespace Dabbad

open Posix Program Tpacket SockFilter Pcap

section Calls

variable {α : Type} {Q : α → World → Prop} {w : World}

theorem steady_of_anySem {β : Type} {op : Call β} {r : β} {w' : World}
    (hop : Call.IsSteady β op) (h : World.anySem op w r w') : Steady w w' := by
  obtain ⟨o, -, heq⟩ := h
  have hsteady := hop.steady o w
  rw [heq] at hsteady
  exact hsteady

theorem wlp_bind_plain {β : Type} {p : Prog Call β} {f : β → Prog Call α}
    (hp : p.Uses Call.IsPlain)
    (h : ∀ b w', Steady w w' → (f b).wlp World.anySem Q w') :
    (p.bind f).wlp World.anySem Q w :=
  Prog.wlp_bind_of _ (wlp_steady (hp.mono Call.IsPlain.isSteady) w) h

theorem wlp_bind_steady {β : Type} {p : Prog Call β} {f : β → Prog Call α}
    (hp : p.Uses Call.IsSteady)
    (h : ∀ b w', Steady w w' → (f b).wlp World.anySem Q w') :
    (p.bind f).wlp World.anySem Q w :=
  Prog.wlp_bind_of _ (wlp_steady hp w) h

theorem wlp_call_steady {β : Type} {op : Call β} {k : β → Prog Call α}
    (hop : Call.IsSteady β op)
    (h : ∀ b w', Steady w w' → (k b).wlp World.anySem Q w') :
    ((Prog.perform op).bind k).wlp World.anySem Q w :=
  fun b w' hs => h b w' (steady_of_anySem hop hs)

@[simp] theorem wlp_getQueues {Q : Queues → World → Prop} :
    (Prog.perform Call.getQueues).wlp World.anySem Q w ↔ Q w.queues w := by
  constructor
  · exact fun h => h _ _ ⟨.ok 0, trivial, rfl⟩
  · rintro h r w' ⟨o, -, heq⟩
    obtain ⟨rfl, rfl⟩ := Prod.mk.inj heq
    exact h

@[simp] theorem wlp_setQueues {q : Queues} {Q : Unit → World → Prop} :
    (Prog.perform (Call.setQueues q)).wlp World.anySem Q w ↔
      Q () { w with queues := q } := by
  constructor
  · exact fun h => h _ _ ⟨.ok 0, trivial, rfl⟩
  · rintro h r w' ⟨o, -, heq⟩
    obtain ⟨rfl, rfl⟩ := Prod.mk.inj heq
    exact h

theorem wlp_calloc {k : Option ℕ → Prog Call α}
    (hnone : ∀ w', Steady w w' → (k none).wlp World.anySem Q w')
    (hsome : ∀ w', Steady w w' → w.nextBlock < w'.nextBlock →
      (k (some w.nextBlock)).wlp World.anySem Q w') :
    ((Prog.perform .calloc).bind k).wlp World.anySem Q w := by
  rintro r w' ⟨o, -, heq⟩
  cases o <;> obtain ⟨rfl, rfl⟩ := Prod.mk.inj heq
  · exact hsome _ ⟨rfl, rfl, Nat.le_succ _⟩ (Nat.lt_succ_self _)
  · exact hnone _ ⟨rfl, rfl, le_rfl⟩

theorem errnum_ne_zero (e : ℕ) : World.errnum e ≠ 0 := by
  unfold World.errnum
  split_ifs with h
  · decide
  · exact h

theorem wlp_pthreadCreate {task : PacketTask} {k : ℕ × ℕ → Prog Call α}
    (hfail : ∀ rc id, rc ≠ 0 → (k (rc, id)).wlp World.anySem Q w)
    (hok : ∀ id, ¬ w.Taken id →
      (k (0, id)).wlp World.anySem Q (w.withThread id task)) :
    ((Prog.perform (.pthreadCreate task)).bind k).wlp World.anySem Q w := by
  rintro r w' ⟨o, -, heq⟩
  cases o with
  | ok id =>
      simp only [World.handle] at heq
      split_ifs at heq with htaken <;>
        obtain ⟨rfl, rfl⟩ := Prod.mk.inj heq
      · exact hfail eagain id (by decide)
      · exact hok id htaken
  | fail e =>
      obtain ⟨rfl, rfl⟩ := Prod.mk.inj heq
      exact hfail _ _ (errnum_ne_zero e)

theorem wlp_pthreadDetach {id : ℕ} {k : ℕ → Prog Call α}
    (hfail : ∀ rc, rc ≠ 0 → (k rc).wlp World.anySem Q w)
    (hok : (k 0).wlp World.anySem Q w) :
    ((Prog.perform (.pthreadDetach id)).bind k).wlp World.anySem Q w := by
  rintro r w' ⟨o, -, heq⟩
  cases o <;> obtain ⟨rfl, rfl⟩ := Prod.mk.inj heq
  · exact hok
  · exact hfail _ (errnum_ne_zero _)

theorem wlp_pthreadCancel {id : ℕ} {k : ℕ → Prog Call α}
    (hfail : ∀ rc, rc ≠ 0 → (k rc).wlp World.anySem Q w)
    (hok : (k 0).wlp World.anySem Q (w.cancel id)) :
    ((Prog.perform (.pthreadCancel id)).bind k).wlp World.anySem Q w := by
  rintro r w' ⟨o, -, heq⟩
  cases o <;> obtain ⟨rfl, rfl⟩ := Prod.mk.inj heq
  · exact hok
  · exact hfail _ (errnum_ne_zero _)

end Calls

namespace World

def node (id : ℕ) (task : PacketTask) : PacketThread := { task.thread with id := id }

def started (w : World) (id : ℕ) (task : PacketTask) : World :=
  { w.withThread id task with
    queues := (w.queues.insertThread (node id task)).insertTask
      { task with thread := node id task } }

def stopped (w : World) (task : PacketTask) (node : PacketThread) : World :=
  { w.cancel node.id with
    queues := (w.queues.removeThread node).removeTask task }

def findThread (w : World) (pktThread : PacketThread) : Option PacketThread :=
  w.queues.packetThread.nodes.find? fun n => n.id == pktThread.id

def findTask (w : World) (type : PacketThreadType) (id : ℕ) : Option PacketTask :=
  (w.queues.task type).nodes.find? fun n => n.thread.id == id

end World

def FreshRecord (type : PacketThreadType) (w w' : World) (task : PacketTask) :
    Prop :=
  w.nextBlock ≤ task.thread.addr ∧ task.thread.addr < w'.nextBlock ∧
    task.thread.type = type

/-- What a start does to the queues and the threads: nothing, or it creates a
thread that it then loses, or it succeeds. -/
inductive Started (type : PacketThreadType) (w : World) : ℤ → World → Prop
  | nothing {rc : ℤ} {w' : World} (h : Steady w w') : Started type w rc w'
  | orphan {rc : ℤ} {w₁ w' : World} (hrc : rc ≠ 0) (h₁ : Steady w w₁) (id : ℕ)
      (task : PacketTask) (hfresh : FreshRecord type w w₁ task)
      (hid : ¬ w₁.Taken id) (h : Steady (w₁.withThread id task) w') :
      Started type w rc w'
  | started {w₁ : World} (h₁ : Steady w w₁) (id : ℕ) (task : PacketTask)
      (hfresh : FreshRecord type w w₁ task) (hid : ¬ w₁.Taken id) :
      Started type w 0 (w₁.started id task)

variable {w : World} {type : PacketThreadType}
variable {openPcap : Path → Prog Call ℤ} {attach : ℤ → Prog Call (ℤ × Sfp)}
variable {sfpDestroy : Sfp → Prog Call Unit} {unfilter : PacketTask → Prog Call Unit}

/-- The first part of a start is steady, and the record it acquires is new. -/
theorem wlp_openTask (hopen : ∀ pcap, (openPcap pcap).Uses Call.IsSteady)
    (s : Settings) :
    (openTask s openPcap).wlp World.anySem (fun r w' => Steady w w' ∧
      ∀ sock addr fd, r = .inr (sock, addr, fd) →
        w.nextBlock ≤ addr ∧ addr < w'.nextBlock) w := by
  unfold openTask
  split_ifs
  · exact ⟨.refl w, fun _ _ _ h => by cases h⟩
  · refine wlp_call_steady trivial fun sock w₁ h₁ => ?_
    split_ifs
    · refine wlp_bind_plain uses_errno fun rc w₂ h₂ => ?_
      exact ⟨h₁.trans h₂, fun _ _ _ h => by cases h⟩
    · refine wlp_calloc (fun w₂ h₂ => ?_) fun w₂ h₂ hlt => ?_
      · refine wlp_bind_steady (uses_close sock) fun _ w₃ h₃ => ?_
        exact ⟨(h₁.trans h₂).trans h₃, fun _ _ _ h => by cases h⟩
      · refine wlp_bind_steady (hopen _) fun fd w₃ h₃ => ?_
        have hsteady := (h₁.trans h₂).trans h₃
        split_ifs
        · refine wlp_bind_plain uses_errno fun rc w₄ h₄ => ?_
          refine wlp_call_steady trivial fun _ w₅ h₅ => ?_
          refine wlp_bind_steady (uses_close sock) fun _ w₆ h₆ => ?_
          exact ⟨((hsteady.trans h₄).trans h₅).trans h₆, fun _ _ _ h => by cases h⟩
        · refine ⟨hsteady, ?_⟩
          rintro _ _ _ ⟨⟩
          exact ⟨h₁.nextBlock_le, lt_of_lt_of_le hlt h₃.nextBlock_le⟩

theorem wlp_dabbadThreadStart {task : PacketTask}
    {Q : ℤ × PacketThread → World → Prop}
    (hfail : ∀ rc node, rc ≠ 0 → Q (rc, node) w)
    (horphan : ∀ rc node id, rc ≠ 0 → ¬ w.Taken id →
      Q (rc, node) (w.withThread id task))
    (hok : ∀ id, ¬ w.Taken id → Q (0, World.node id task)
      { w.withThread id task with
        queues := w.queues.insertThread (World.node id task) }) :
    (dabbadThreadStart task).wlp World.anySem Q w := by
  refine wlp_pthreadCreate (fun rc id hrc => ?_) fun id hid => ?_
  · simp only [ne_eq, hrc, not_false_eq_true, if_true]
    exact hfail _ _ (by exact_mod_cast hrc)
  · refine wlp_pthreadDetach (fun rc hrc => ?_) ?_
    · simp only [ne_eq, hrc, not_false_eq_true, if_true]
      exact horphan _ _ id (by exact_mod_cast hrc) hid
    · simp only [ne_eq, not_true_eq_false, if_false, dabbadThreadInsert,
        Prog.bind_eq, Prog.liftM_eq, Prog.wlp_bind, wlp_getQueues, wlp_setQueues]
      exact hok id hid

section Stages

variable {S : Sem Call World} {ringType : PacketMmapType} {s : Settings} {sock : ℤ}
variable {addr : ℕ} {fd : ℤ} {A : Sfp → World → Prop} {M : PacketTask → World → Prop}
variable {E : World → Prop} {Q : ℤ → World → Prop}

/-- The second part of a start, stage by stage: `A` holds with the filter, `M` with the
ring, and `E` from an error on, where everything is released. The calls may have fewer
outcomes than all. -/
theorem wlp_runTask_in
    (hS : ∀ {β : Type} (op : Call β) w r w', S op w r w' → World.anySem op w r w')
    (hattach : (attach sock).wlp S
      (fun r w' => if r.1 ≠ 0 then E w' else A r.2 w') w)
    (hcreate : ∀ sfp w', A sfp w' →
      (ldabPacketMmapCreate (s.interface.getD []) sock ringType (s.frameSize.setWidth 32)
        s.frameNr).wlp S (fun r w'' =>
          if r.1 ≠ 0 then E w'' else M ⟨r.2, sfp, fd, ⟨addr, 0, type⟩⟩ w'') w')
    (hfail : ∀ task w', M task w' → E w')
    (horphan : ∀ task w' id, M task w' → ¬ w'.Taken id → E (w'.withThread id task))
    (hdestroy : ∀ m w', E w' → (ldabPacketMmapDestroy m).wlp S (fun _ => E) w')
    (hsfpDestroy : ∀ sfp w', E w' → (sfpDestroy sfp).wlp S (fun _ => E) w')
    (hrelease : ∀ rc w', rc ≠ 0 → E w' →
      (do
        Call.free (some addr)
        let _ ← close sock
        return rc : Prog Call ℤ).wlp S Q w')
    (hok : ∀ task w' id, M task w' → ¬ w'.Taken id → Q 0 (w'.started id task)) :
    (runTask type ringType s attach sfpDestroy sock addr fd).wlp S Q w := by
  unfold runTask
  refine Prog.wlp_bind_of _ hattach ?_
  rintro ⟨rc, sfp⟩ w₁ h₁
  dsimp only at h₁ ⊢
  split_ifs at h₁ ⊢ with hrc
  · exact hrelease rc w₁ hrc h₁
  refine Prog.wlp_bind_of _ (hcreate sfp w₁ h₁) ?_
  rintro ⟨rc, pktMmap⟩ w₂ h₂
  dsimp only at h₂ ⊢
  split_ifs at h₂ ⊢ with hrc
  · exact Prog.wlp_bind_of _ (hsfpDestroy sfp w₂ h₂) fun _ w₃ h₃ => hrelease rc w₃ hrc h₃
  -- The thread could not be started, or was lost.
  have herror : ∀ {rc : ℤ} {node : PacketThread} {w₃ : World}, rc ≠ 0 → E w₃ →
      (if rc ≠ 0 then do
        ldabPacketMmapDestroy pktMmap
        sfpDestroy sfp
        Call.free (some addr)
        let _ ← close sock
        return rc
      else do
        dabbadTaskInsert ⟨pktMmap, sfp, fd, node⟩
        return 0 : Prog Call ℤ).wlp S Q w₃ := by
    intro rc node w₃ hrc h₃
    rw [if_pos hrc]
    refine Prog.wlp_bind_of _ (hdestroy pktMmap w₃ h₃) fun _ w₄ h₄ => ?_
    exact Prog.wlp_bind_of _ (hsfpDestroy sfp w₄ h₄) fun _ w₅ h₅ => hrelease rc w₅ hrc h₅
  refine (Prog.wlp_bind _ _ _ _ _).2 (Prog.wlp_of_le S hS (wlp_dabbadThreadStart ?_ ?_ ?_))
  · exact fun rc node hrc => herror hrc (hfail _ _ h₂)
  · exact fun rc node id hrc hid => herror hrc (horphan _ _ id h₂ hid)
  · intro id hid
    refine Prog.wlp_of_le S hS ?_
    simp only [ne_eq, not_true_eq_false, if_false, dabbadTaskInsert,
      Prog.bind_eq, Prog.liftM_eq, Prog.wlp_bind, wlp_getQueues, wlp_setQueues]
    exact hok _ _ id h₂ hid

end Stages

theorem Started.steady {w₀ w' : World} {rc : ℤ} (h : Started type w₀ rc w) (hrc : rc ≠ 0)
    (hsteady : Steady w w') : Started type w₀ rc w' := by
  cases h with
  | nothing h => exact .nothing (h.trans hsteady)
  | orphan hrc h₁ id task hfresh hid h =>
      exact .orphan hrc h₁ id task hfresh hid (h.trans hsteady)
  | started => exact absurd rfl hrc

/-- The second part of a start makes at most one change to the queues. -/
theorem wlp_runTask (hsteady : SteadyStart openPcap attach sfpDestroy)
    (ringType : PacketMmapType) (s : Settings) (sock : ℤ) {w₀ : World} {addr : ℕ}
    (h₀ : Steady w₀ w) (hle : w₀.nextBlock ≤ addr) (hlt : addr < w.nextBlock)
    (fd : ℤ) :
    (runTask type ringType s attach sfpDestroy sock addr fd).wlp World.anySem
      (Started type w₀) w := by
  -- What is left to do after an error is steady.
  have herror : ∀ {p : Prog Call Unit} w₁, p.Uses Call.IsSteady →
      (∀ rc, rc ≠ 0 → Started type w₀ rc w₁) →
      p.wlp World.anySem (fun _ w' => ∀ rc, rc ≠ 0 → Started type w₀ rc w') w₁ :=
    fun w₁ hp h => Prog.wlp_mono _ (wlp_steady hp w₁)
      fun _ _ h₂ rc hrc => (h rc hrc).steady hrc h₂
  apply wlp_runTask_in (S := World.anySem) (fun _ _ _ _ h => h)
    (A := fun _ w' => Steady w w')
    (M := fun task w' => Steady w w' ∧ FreshRecord type w₀ w' task)
    (E := fun w' => ∀ rc, rc ≠ 0 → Started type w₀ rc w')
  case hattach =>
    refine Prog.wlp_mono _ (wlp_steady (hsteady.attach sock) w) fun r w₁ h₁ => ?_
    split_ifs
    · exact fun rc _ => .nothing (h₀.trans h₁)
    · exact h₁
  case hcreate =>
    intro sfp w₁ h₁
    refine Prog.wlp_mono _ (wlp_steady (uses_ldabPacketMmapCreate _ _ _ _ _) w₁)
      fun r w₂ h₂ => ?_
    split_ifs
    · exact fun rc _ => .nothing ((h₀.trans h₁).trans h₂)
    · exact ⟨h₁.trans h₂, hle, lt_of_lt_of_le hlt (h₁.trans h₂).nextBlock_le, rfl⟩
  case hfail => exact fun task w₁ h rc _ => .nothing (h₀.trans h.1)
  case horphan =>
    exact fun task w₁ id h hid rc hrc => .orphan hrc (h₀.trans h.1) id task h.2 hid (.refl _)
  case hdestroy => exact fun m w₁ => herror w₁ ((uses_destroy m).mono Call.IsPlain.isSteady)
  case hsfpDestroy => exact fun sfp w₁ => herror w₁ (hsteady.sfpDestroy sfp)
  case hrelease =>
    intro rc w₁ hrc h₁
    refine wlp_call_steady trivial fun _ w₂ h₂ => ?_
    refine wlp_bind_steady (uses_close sock) fun _ w₃ h₃ => ?_
    exact (h₁ rc hrc).steady hrc (h₂.trans h₃)
  case hok => exact fun task w₁ id h hid => .started (h₀.trans h.1) id task h.2 hid

/-- A start makes at most one change to the queues. -/
theorem wlp_startTask (hsteady : SteadyStart openPcap attach sfpDestroy)
    (type : PacketThreadType) (ringType : PacketMmapType) (s : Settings)
    (w : World) :
    (startTask type ringType s openPcap attach sfpDestroy).wlp World.anySem
      (Started type w) w := by
  refine Prog.wlp_bind_of _ (wlp_openTask hsteady.openPcap s) ?_
  rintro r w₁ ⟨h₁, hfresh⟩
  cases r with
  | inl rc => exact .nothing h₁
  | inr acquired =>
      obtain ⟨sock, addr, fd⟩ := acquired
      obtain ⟨hle, hlt⟩ := hfresh sock addr fd rfl
      exact wlp_runTask hsteady ringType s sock h₁ hle hlt fd

theorem wlp_dabbadThreadStop {pktThread : PacketThread} {Q : ℤ → World → Prop}
    (hfail : ∀ rc, rc ≠ 0 → Q rc w)
    (hok : ∀ node, w.findThread pktThread = some node → Q 0
      { w.cancel node.id with queues := w.queues.removeThread node }) :
    (dabbadThreadStop pktThread).wlp World.anySem Q w := by
  simp only [dabbadThreadStop, Prog.bind_eq, Prog.liftM_eq, Prog.wlp_bind,
    wlp_getQueues]
  cases hfind : w.queues.packetThread.nodes.find? fun n => n.id == pktThread.id with
  | none => exact hfail _ (by decide)
  | some node =>
      refine wlp_pthreadCancel (fun rc hrc => ?_) ?_
      · simp only [ne_eq, hrc, not_false_eq_true, if_true]
        exact hfail _ (by exact_mod_cast hrc)
      · simp only [ne_eq, not_true_eq_false, if_false, dabbadThreadRemove,
          Prog.bind_eq, Prog.liftM_eq, Prog.wlp_bind, wlp_getQueues, wlp_setQueues,
          Prog.wlp_assert]
        exact fun _ => hok node hfind

theorem wlp_releaseTask (hunfilter : ∀ task, (unfilter task).Uses Call.IsSteady)
    (task : PacketTask) :
    (releaseTask unfilter task).wlp World.anySem
      (fun _ w' => Steady { w with queues := w.queues.removeTask task } w') w := by
  simp only [releaseTask, dabbadTaskRemove, Prog.bind_eq, Prog.liftM_eq,
    Prog.wlp_bind, wlp_getQueues, wlp_setQueues, Prog.wlp_assert]
  intro _
  simp only [← Prog.wlp_bind]
  refine wlp_bind_steady (hunfilter task) fun _ w₁ h₁ => ?_
  refine wlp_bind_steady (uses_close _) fun _ w₂ h₂ => ?_
  refine wlp_bind_plain (uses_destroy _) fun _ w₃ h₃ => ?_
  intro r w' hs
  have hfree : Call.IsSteady Unit (.free (some task.thread.addr)) := trivial
  exact ((h₁.trans h₂).trans h₃).trans (steady_of_anySem hfree hs)

/-- What a stop does to the queues and the threads: nothing if it fails, and
otherwise it takes the record it found, and a thread with the same id, off the
queues. -/
inductive Stopped (type : PacketThreadType) (id : ℕ) (w : World) :
    ℤ → World → Prop
  | unknown (h : w.findTask type id = none) : Stopped type id w einval w
  | failed {rc : ℤ} {task : PacketTask}
      (htask : w.findTask type id = some task) (hrc : rc ≠ 0) :
      Stopped type id w rc w
  | stopped {task : PacketTask} {node : PacketThread} {w' : World}
      (htask : w.findTask type id = some task)
      (hnode : w.findThread task.thread = some node)
      (h : Steady (w.stopped task node) w') : Stopped type id w 0 w'

/-- A stop makes at most one change to the queues. -/
theorem wlp_stopTask (hunfilter : ∀ task, (unfilter task).Uses Call.IsSteady)
    (type : PacketThreadType) (id : ℕ) (w : World) :
    (stopTask type unfilter id).wlp World.anySem (Stopped type id w) w := by
  simp only [stopTask, Prog.bind_eq, Prog.liftM_eq, Prog.wlp_bind, wlp_getQueues]
  cases hfind : (w.queues.task type).nodes.find? fun n => n.thread.id == id with
  | none => exact .unknown hfind
  | some task =>
      simp only [Prog.wlp_bind]
      refine wlp_dabbadThreadStop (fun rc hrc => ?_) fun node hnode => ?_
      · rw [if_neg hrc]
        exact .failed hfind hrc
      · rw [if_pos rfl, Prog.wlp_bind]
        refine Prog.wlp_mono _ (wlp_releaseTask hunfilter task) fun _ w' h => ?_
        exact .stopped hfind hnode h

/-- What stopping the given records does: it stops them one by one, up to the
first that cannot be stopped. The last index is the list of the records that
are left. -/
inductive StoppedAll : World → List PacketTask → ℤ → World → List PacketTask → Prop
  | done {w : World} : StoppedAll w [] 0 w []
  | failed {w : World} {task : PacketTask} {tasks : List PacketTask} {rc : ℤ}
      (hrc : rc ≠ 0) : StoppedAll w (task :: tasks) rc w (task :: tasks)
  | stopped {w w₁ w' : World} {task : PacketTask} {tasks rest : List PacketTask}
      {rc : ℤ} {node : PacketThread}
      (hnode : w.findThread task.thread = some node)
      (h : Steady (w.stopped task node) w₁)
      (hrest : StoppedAll w₁ tasks rc w' rest) :
      StoppedAll w (task :: tasks) rc w' rest

theorem wlp_stopAllLoop (hunfilter : ∀ task, (unfilter task).Uses Call.IsSteady)
    (tasks : List PacketTask) (w : World) :
    (stopAllLoop unfilter tasks).wlp World.anySem
      (fun rc w' => ∃ rest, StoppedAll w tasks rc w' rest) w := by
  induction tasks generalizing w with
  | nil => exact ⟨[], .done⟩
  | cons task tasks ih =>
      simp only [stopAllLoop, Prog.bind_eq, Prog.wlp_bind]
      refine wlp_dabbadThreadStop (fun rc hrc => ?_) fun node hnode => ?_
      · rw [if_pos hrc]
        exact ⟨_, .failed hrc⟩
      · rw [if_neg (by simp), Prog.wlp_bind]
        refine Prog.wlp_mono _ (wlp_releaseTask hunfilter task) fun _ w₁ h => ?_
        refine Prog.wlp_mono _ (ih w₁) fun rc w' hrest => ?_
        obtain ⟨rest, hrest⟩ := hrest
        exact ⟨rest, .stopped hnode h hrest⟩

theorem wlp_stopAllTasks (hunfilter : ∀ task, (unfilter task).Uses Call.IsSteady)
    (type : PacketThreadType) (w : World) :
    (stopAllTasks type unfilter).wlp World.anySem (fun rc w' =>
      ∃ rest, StoppedAll w (w.queues.task type).nodes rc w' rest) w := by
  simp only [stopAllTasks, Prog.bind_eq, Prog.liftM_eq, Prog.wlp_bind, wlp_getQueues]
  exact wlp_stopAllLoop hunfilter _ w

end Dabbad
