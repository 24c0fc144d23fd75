import Dabba.Dabbad.FailedStart
import Dabba.Dabbad.Geometry
import Dabba.Dabbad.Stopping
import Dabba.Resource.Ledger

/-!
# What starting opens and stopping closes

A start that succeeds opens a packet socket and the PCAP file of its record. A
stop closes the PCAP file, but never the socket. The ledger of the descriptors
follows both over any run: the open descriptors are those of the queued captures
and replays exactly as long as no stop has taken a record out of its queue.
-/

namespace Dabbad

open Posix Program Tpacket SockFilter Pcap Transition Resource

def World.records (w : World) : List PacketTask :=
  (w.queues.task .capture).nodes ++ (w.queues.task .replay).nodes

def PacketTask.fds (task : PacketTask) : List ℤ := [task.pktMmap.pfSock, task.pcapFd]

def World.taskFds (w : World) : Set ℤ := {fd | ∃ task ∈ w.records, fd ∈ task.fds}

def World.ledger (w : World) (lost : List ℤ) : Ledger ℤ where
  opened := w.openFds
  held := w.records.map PacketTask.fds
  lost := lost

section Start

variable {type : PacketThreadType} {ringType : PacketMmapType} {s : Settings}
variable {openPcap : Path → Prog Call ℤ} {attach : ℤ → Prog Call (ℤ × Sfp)}
variable {sfpDestroy : Sfp → Prog Call Unit} {w w' : World} {rc : ℤ}

theorem wlp_ldabPacketMmapCreate_pfSock (dev : Path) (pfSock : ℤ)
    (type : PacketMmapType) (frameSize : BitVec 32) (frameNr : BitVec 64) (w : World) :
    (ldabPacketMmapCreate dev pfSock type frameSize frameNr).wlp World.anySem
      (fun r _ => r.1 = 0 → r.2.pfSock = pfSock) w := by
  refine Prog.wlp_mono _ (wlp_ldabPacketMmapCreate dev pfSock type frameSize frameNr w) ?_
  intro r w' h hrc
  obtain ⟨-, ifindex, hsame, -⟩ := h hrc
  exact hsame.pfSock_eq

/-- What a start that reports success leaves open and queued: nothing new, or a
record with a socket and a file that were not open before. -/
def StartedFds (w : World) (rc : ℤ) (w' : World) : Prop :=
  rc = 0 → (w'.queues = w.queues ∧ w'.openFds = w.openFds) ∨
    ∃ task, w'.queues = (w.queues.insertThread task.thread).insertTask task ∧
      task.fds.Nodup ∧ (∀ fd ∈ task.fds, fd ∉ w.openFds) ∧
      w'.openFds = {fd | fd ∈ task.fds} ∪ w.openFds

theorem wlp_plain {α : Type} {p : Prog Call α} (hp : p.Uses Call.IsPlain) (w : World) :
    p.wlp World.anySem (fun _ w' => w'.queues = w.queues ∧ w'.openFds = w.openFds) w :=
  Prog.wlp_mono _ (Prog.wlp_and _ (wlp_steady (hp.mono Call.IsPlain.isSteady) w)
    (wlp_plain_openFds hp w)) fun _ _ h => ⟨h.1.queues_eq, h.2⟩

theorem wlp_return {α : Type} {p : Prog Call α} {rc : ℤ} {Q : ℤ → World → Prop}
    (h : ∀ w', Q rc w') (w : World) :
    (p.bind fun _ => (pure rc : Prog Call ℤ)).wlp World.anySem Q w :=
  Prog.wlp_bind_of _ (Prog.wlp_true _ _ _) fun _ w' _ => h w'

/-- The second part of a start that succeeds queues the record it was given. -/
theorem wlp_runTask_inserts (hstart : FdStart openPcap attach sfpDestroy)
    (sock : ℤ) (addr : ℕ) (fd : ℤ) (w : World) :
    (runTask type ringType s attach sfpDestroy sock addr fd).wlp World.anySem
      (fun rc w' => rc = 0 → ∃ task : PacketTask, task.thread.type = type ∧
        task.fds = [sock, fd] ∧
        w'.queues = (w.queues.insertThread task.thread).insertTask task ∧
        w'.openFds = w.openFds) w := by
  apply wlp_runTask_in (S := World.anySem) (fun _ _ _ _ h => h)
    (A := fun _ w' => w'.queues = w.queues ∧ w'.openFds = w.openFds)
    (M := fun task w' => task.thread.type = type ∧ task.fds = [sock, fd] ∧
      w'.queues = w.queues ∧ w'.openFds = w.openFds) (E := fun _ => True)
  case hattach =>
    refine Prog.wlp_mono _ (wlp_plain (hstart.attach sock) w) fun r w₁ h₁ => ?_
    split_ifs
    exact h₁
  case hcreate =>
    rintro sfp w₁ ⟨hqueues, hfds⟩
    have hcreate := Prog.wlp_and World.anySem
      (wlp_ldabPacketMmapCreate_pfSock (s.interface.getD []) sock ringType
        (s.frameSize.setWidth 32) s.frameNr w₁)
      (Prog.wlp_and _ (wlp_steady (uses_ldabPacketMmapCreate _ _ _ _ _) w₁)
        (wlp_ldabPacketMmapCreate_openFds _ _ _ _ _ w₁))
    refine Prog.wlp_mono _ hcreate ?_
    rintro ⟨rc, pktMmap⟩ w₂ ⟨hsock, hsteady, hfds₂⟩
    split_ifs with hrc
    have hpfSock : pktMmap.pfSock = sock := hsock (not_not.1 hrc)
    exact ⟨rfl, by rw [PacketTask.fds, hpfSock], hsteady.queues_eq.trans hqueues,
      hfds₂.trans hfds⟩
  case hfail => exact fun _ _ _ => trivial
  case horphan => exact fun _ _ _ _ _ => trivial
  case hdestroy => exact fun _ w₁ _ => Prog.wlp_true _ _ w₁
  case hsfpDestroy => exact fun _ w₁ _ => Prog.wlp_true _ _ w₁
  case hrelease =>
    intro rc w₁ hrc _
    exact Prog.wlp_bind_of _ (Prog.wlp_true _ _ _) fun _ w₂ _ =>
      wlp_return (fun _ hzero => absurd hzero hrc) w₂
  case hok =>
    rintro task w₁ id ⟨htype, hfds, hqueues, hopen⟩ -
    refine fun _ => ⟨{ task with thread := World.node id task }, htype, hfds, ?_, hopen⟩
    rw [← hqueues]
    rfl

theorem wlp_openTask_fds (hstart : FdStart openPcap attach sfpDestroy) (w : World) :
    (openTask s openPcap).wlp World.anySem
      (fun r w' => ∃ fails, OpenSpec fails w r w') w := by
  rw [Prog.wlp_iff_exec]
  intro r w' hrun
  obtain ⟨script, hscript⟩ := Prog.exists_run_of_exec (.ok 0) hrun
  exact ⟨_, openTask_openFds hstart hscript⟩

/-- A start that reports success opened what it queued. -/
theorem wlp_startTask_fds (hsteady : SteadyStart openPcap attach sfpDestroy)
    (hstart : FdStart openPcap attach sfpDestroy) (w : World) :
    (startTask type ringType s openPcap attach sfpDestroy).wlp World.anySem
      (StartedFds w) w := by
  refine Prog.wlp_bind_of _ (Prog.wlp_and _ (wlp_openTask hsteady.openPcap s)
    (wlp_openTask_fds hstart w)) ?_
  rintro r w₁ ⟨⟨hsteady₁, -⟩, fails, hspec⟩
  cases r with
  | inl rc => exact fun _ => .inl ⟨hsteady₁.queues_eq, hspec.2⟩
  | inr acquired =>
      obtain ⟨sock, addr, fd⟩ := acquired
      obtain ⟨-, hsock, hfd, hne, hset⟩ := hspec
      refine Prog.wlp_mono _ (wlp_runTask_inserts hstart sock addr fd w₁) ?_
      intro rc w' h hrc
      obtain ⟨task, -, hfds, hqueues, hopen⟩ := h hrc
      refine .inr ⟨task, by rw [hqueues, hsteady₁.queues_eq], ?_, ?_, ?_⟩
      · rw [hfds]
        simpa using hne
      · rw [hfds]
        simpa using ⟨hsock, hfd⟩
      · rw [hopen, hset, hfds]
        ext x
        simp only [Set.mem_insert_iff, Set.mem_union, Set.mem_ofPred_eq, List.mem_cons,
          List.not_mem_nil, or_false]
        tauto

end Start

section Stop

variable {w w' : World} {unfilter : PacketTask → Prog Call Unit} {base : Set ℤ}
variable {lost : List ℤ} {type : PacketThreadType} {task : PacketTask}

def World.Accounts (base : Set ℤ) (lost : List ℤ) (w : World) : Prop :=
  (w.ledger lost).Valid base

theorem World.Accounts.congr (h : w.Accounts base lost) (hqueues : w'.queues = w.queues)
    (hfds : w'.openFds = w.openFds) : w'.Accounts base lost := by
  have hledger : w'.ledger lost = w.ledger lost := by
    simp only [World.ledger, World.records, hqueues, hfds]
  rw [World.Accounts, hledger]
  exact h

def PacketThreadType.other : PacketThreadType → PacketThreadType
  | .capture => .replay
  | .replay => .capture

theorem PacketThreadType.other_ne (type : PacketThreadType) : type.other ≠ type := by
  cases type <;> decide

theorem records_perm (w : World) (type : PacketThreadType) :
    w.records.Perm ((w.queues.task type).nodes ++ (w.queues.task type.other).nodes) := by
  cases type with
  | capture => exact List.Perm.refl _
  | replay => exact List.perm_append_comm

theorem records_insertTask (hqueues : w'.queues =
    (w.queues.insertThread task.thread).insertTask task) :
    w'.records.Perm (task :: w.records) := by
  have hself : (w'.queues.task task.thread.type).nodes =
      (w.queues.task task.thread.type).nodes ++ [task] := by
    rw [hqueues, Queues.insertTask_task_self]
    rfl
  have hother : w'.queues.task task.thread.type.other =
      w.queues.task task.thread.type.other := by
    rw [hqueues, Queues.insertTask_task_of_ne _ _ (PacketThreadType.other_ne _)]
    rfl
  refine (records_perm w' task.thread.type).trans ?_
  rw [hself, hother, List.append_assoc, List.singleton_append]
  exact List.perm_middle.trans ((records_perm w task.thread.type).symm.cons task)

theorem records_removed (h : Removed w task w') : w.records.Perm (task :: w'.records) := by
  obtain ⟨pre, post, hnodes, hnodes'⟩ := h.record
  have hother := h.other _ task.thread.type.other_ne
  refine (records_perm w task.thread.type).trans ?_
  rw [hnodes, ← hother, List.append_assoc, List.cons_append]
  refine List.perm_middle.trans (List.Perm.cons task ?_)
  rw [← List.append_assoc, ← hnodes']
  exact (records_perm w' task.thread.type).symm

theorem World.Accounts.started (h : w.Accounts base lost) {rc : ℤ}
    (hstart : StartedFds w rc w') (hrc : rc = 0) : w'.Accounts base lost := by
  rcases hstart hrc with ⟨hqueues, hfds⟩ | ⟨task, hqueues, hnodup, hfresh, hfds⟩
  · exact h.congr hqueues hfds
  · refine (h.acquire hnodup hfresh).of_perm hfds ?_
    have hperm := (records_insertTask hqueues).map PacketTask.fds
    exact (hperm.flatten).append_right lost

/-- A stop loses the socket of its record. -/
theorem World.Accounts.removed (h : w.Accounts base lost) (hremoved : Removed w task w')
    (hfds : w'.openFds = w.openFds \ {task.pcapFd}) :
    w'.Accounts base (task.pktMmap.pfSock :: lost) := by
  have hperm := ((records_removed hremoved).map PacketTask.fds).flatten
  have hentered : (⟨w.openFds, ([task.pktMmap.pfSock] ++ [task.pcapFd]) ::
      w'.records.map PacketTask.fds, lost⟩ : Ledger ℤ).Valid base :=
    Ledger.Valid.of_perm h rfl (hperm.symm.append_right lost)
  refine hentered.release.of_perm ?_ (List.Perm.refl _)
  rw [World.ledger, hfds]
  simp

theorem wlp_releaseTask_fds (hunfilter : ∀ task, (unfilter task).Uses Call.IsPlain)
    (task : PacketTask) (w : World) :
    (releaseTask unfilter task).wlp World.anySem
      (fun _ w' => w'.openFds = w.openFds \ {task.pcapFd}) w := by
  have hremove : (dabbadTaskRemove task).Uses Call.KeepsFds := by
    simp only [dabbadTaskRemove, Prog.bind_eq, Prog.liftM_eq, Prog.perform_bind,
      Prog.uses_call]
    exact ⟨trivial, fun _ => Prog.uses_bind (Prog.uses_assert _) fun _ => by
      simp [Call.KeepsFds]⟩
  refine Prog.wlp_bind_of _ (wlp_keepsFds hremove w) fun _ w₁ h₁ => ?_
  refine Prog.wlp_bind_of _ (wlp_plain_openFds (hunfilter task) w₁) fun _ w₂ h₂ => ?_
  refine Prog.wlp_bind_of _ (wlp_daemonClose w₂) fun _ w₃ h₃ => ?_
  refine Prog.wlp_bind_of _ (wlp_plain_openFds (uses_destroy _) w₃) fun _ w₄ h₄ => ?_
  have hfree : (Prog.perform (Call.free (some task.thread.addr))).Uses Call.KeepsFds :=
    ⟨trivial, fun _ => trivial⟩
  refine Prog.wlp_mono _ (wlp_keepsFds hfree w₄) fun _ w₅ h₅ => ?_
  rw [h₅, h₄, h₃, h₂, h₁]

/-- The registry and the ledger of the daemon are in order. -/
structure World.Accounted (base : Set ℤ) (lost : List ℤ) (w : World) : Prop where
  registered : Registered w
  accounts : w.Accounts base lost

/-- The daemon is in order, with `total` records queued or lost. -/
def World.Balanced (base : Set ℤ) (total : ℕ) (w : World) : Prop :=
  ∃ lost, w.Accounted base lost ∧ lost.length + w.records.length = total

theorem World.Balanced.registered {total : ℕ} (h : w.Balanced base total) :
    Registered w := by
  obtain ⟨lost, haccounted, -⟩ := h
  exact haccounted.registered

theorem World.Balanced.released {total : ℕ} (h : w.Balanced base total)
    (htask : task ∈ (w.queues.task task.thread.type).nodes)
    (hsteady : Steady (w.stopped task task.thread) w')
    (hfds : w'.openFds = w.openFds \ {task.pcapFd}) : w'.Balanced base total := by
  obtain ⟨lost, ⟨hreg, hacc⟩, htotal⟩ := h
  have hremoved : Removed w task w' :=
    (hreg.removed_stopped htask).of_queues_eq hsteady.queues_eq
  refine ⟨task.pktMmap.pfSock :: lost, ⟨(hreg.stopped htask).steady hsteady,
    hacc.removed hremoved hfds⟩, ?_⟩
  have hlength := (records_removed hremoved).length_eq
  rw [List.length_cons] at hlength ⊢
  omega

/-- Stopping keeps the number of records that are queued or lost. -/
theorem stopKeeps_balanced {total : ℕ} (hunfilter : ∀ task, (unfilter task).Uses Call.IsPlain) :
    StopKeeps (fun _ _ => True) type unfilter (World.Balanced base total) where
  guard _ _ _ := trivial
  steady task := (hunfilter task).mono Call.IsPlain.isSteady
  registered h := h.registered
  released h htask htype := by
    subst htype
    refine Prog.guarded_of_wlp (fun _ _ => trivial) (Prog.wlp_mono _
      (wlp_releaseTask_fds hunfilter _ _) ?_)
    exact fun _ w' hfds hsteady => h.released htask hsteady hfds

end Stop

def Rpc.IsStart : Rpc → Prop
  | .captureStart _ => True
  | .replayStart _ => True
  | _ => False

/-- One RPC of a run of successful starts and any stops. The number counts the
records that stops have taken out of the queues. -/
inductive CycleStep : World × ℤ → World × ℤ → Prop
  | start {w w' : World} {k : ℤ} (rpc : Rpc) (hrpc : rpc.IsStart)
      (hrun : rpc.handler.Exec World.anySem w 0 w') : CycleStep (w, k) (w', k)
  | stop {w w' : World} {k rc : ℤ} (rpc : Rpc) (hrpc : ¬ rpc.IsStart)
      (hrun : rpc.handler.Exec World.anySem w rc w') :
      CycleStep (w, k) (w', k + (w.records.length - w'.records.length))

/-- The invariant of such a run: as many descriptors are lost as records were
stopped. -/
def Counted (base : Set ℤ) (x : World × ℤ) : Prop :=
  ∃ lost, x.1.Accounted base lost ∧ lost.length = x.2

theorem Counted.step {base : Set ℤ} {x x' : World × ℤ} (h : Counted base x)
    (hstep : CycleStep x x') : Counted base x' := by
  obtain ⟨lost, ⟨hreg, hacc⟩, hcount⟩ := h
  cases hstep with
  | start rpc hrpc hrun =>
      refine ⟨lost, ⟨(rpc.spec_of_exec hreg hrun).1, ?_⟩, hcount⟩
      cases rpc with
      | captureStart r =>
          exact hacc.started (hrun.of_wlp _
            (wlp_startTask_fds (steadyStart_capture r) (fdStart_capture r) _)) rfl
      | replayStart r =>
          exact hacc.started (hrun.of_wlp _
            (wlp_startTask_fds steadyStart_replay fdStart_replay _)) rfl
      | captureStop id => exact hrpc.elim
      | captureStopAll => exact hrpc.elim
      | replayStop id => exact hrpc.elim
      | replayStopAll => exact hrpc.elim
  | @stop w w' k rc rpc hrpc hrun =>
      have hbalanced : w.Balanced base (lost.length + w.records.length) :=
        ⟨lost, ⟨hreg, hacc⟩, rfl⟩
      have hreplay : ∀ task : PacketTask, (pure () : Prog Call Unit).Uses Call.IsPlain :=
        fun _ => trivial
      have hbalanced' : w'.Balanced base (lost.length + w.records.length) := by
        cases rpc with
        | captureStart r => exact absurd trivial hrpc
        | replayStart r => exact absurd trivial hrpc
        | captureStop id =>
            exact hrun.of_wlp _
              ((stopKeeps_balanced uses_captureUnfilter).stopTask hbalanced id).wlp
        | captureStopAll =>
            exact hrun.of_wlp _
              ((stopKeeps_balanced uses_captureUnfilter).stopAllTasks hbalanced).wlp
        | replayStop id =>
            exact hrun.of_wlp _ ((stopKeeps_balanced hreplay).stopTask hbalanced id).wlp
        | replayStopAll =>
            exact hrun.of_wlp _ ((stopKeeps_balanced hreplay).stopAllTasks hbalanced).wlp
      obtain ⟨lost', haccounted, htotal⟩ := hbalanced'
      refine ⟨lost', haccounted, ?_⟩
      dsimp only at hcount ⊢
      omega

/-- In every run of successful starts and any stops, from a daemon without captures
and replays, the descriptors that were opened since and not closed are those of
the queued records exactly as long as no stop has taken a record out. -/
theorem openFds_eq_taskFds_iff {w₀ w : World} {k : ℤ} (hqueues : w₀.queues = .empty)
    (hthreads : w₀.threads = []) (hrun : Reaches CycleStep (w₀, 0) (w, k)) :
    w.openFds \ w₀.openFds = w.taskFds ↔ k = 0 := by
  have hempty : w₀.ledger [] = ⟨w₀.openFds, [], []⟩ := by
    simp [World.ledger, World.records, hqueues, Queues.empty, Tailq.Queue.empty]
  have hinit : Counted w₀.openFds (w₀, 0) :=
    ⟨[], ⟨Registered.empty hqueues hthreads, by
      rw [World.Accounts, hempty]
      exact Ledger.Valid.empty _⟩, rfl⟩
  obtain ⟨lost, ⟨-, hacc⟩, hcount⟩ :=
    inv_of_reaches (fun _ _ h hstep => h.step hstep) hrun hinit
  have htask : w.taskFds = {fd | fd ∈ (w.ledger lost).held.flatten} := by
    ext fd
    simp [World.taskFds, World.ledger]
  have hlost : lost = [] ↔ k = 0 := by
    rw [← List.length_eq_zero_iff]
    dsimp only at hcount
    omega
  rw [htask, ← hlost]
  exact hacc.opened_diff_eq_iff

section Example

/-- A capture and a replay of its file are started, and a thread that does not exist is to
be stopped. -/
theorem openFds_eq_taskFds_iff_anyRequest : ∃ w,
    Reaches CycleStep (.boot, 0) (w, 0) ∧ w.records.length = 2 ∧
      (w.openFds \ World.boot.openFds = w.taskFds ↔ (0 : ℤ) = 0) := by
  obtain ⟨w₁, w, hcapture, hreplay, hstop, hlength⟩ : ∃ w₁ w : World,
      (dabbadCaptureStart anyRequest).run World.handle goodScript .boot = some (0, w₁) ∧
        (dabbadReplayStart eth0Replay).run World.handle (laterScript 23) w₁ = some (0, w) ∧
        (dabbadCaptureStop 7).run World.handle (fun _ => .ok 0) w = some ((einval : ℤ), w) ∧
        w.records.length = 2 :=
    ⟨_, _, rfl, rfl, rfl, rfl⟩
  have hreach : Reaches CycleStep (.boot, 0) (w, 0 + (w.records.length - w.records.length : ℤ)) :=
    ((Relation.ReflTransGen.single
      (.start (.captureStart anyRequest) trivial (exec_of_run hcapture))).tail
      (.start (.replayStart eth0Replay) trivial (exec_of_run hreplay))).tail
      (.stop (.captureStop 7) id (exec_of_run hstop))
  rw [sub_self, add_zero] at hreach
  exact ⟨w, hreach, hlength, openFds_eq_taskFds_iff rfl rfl hreach⟩

/-- A capture is started and stopped again, and its socket is still open. -/
theorem exists_openFds_ne_taskFds : ∃ w k, Reaches CycleStep (.boot, 0) (w, k) ∧
    w.records = [] ∧ w.openFds \ World.boot.openFds ≠ w.taskFds := by
  obtain ⟨w₁, hstart, w₂, hstop, hrecords, hsock⟩ : ∃ w₁ : World,
      (dabbadCaptureStart anyRequest).run World.handle goodScript .boot = some (0, w₁) ∧
      ∃ w₂ : World, (dabbadCaptureStop 11).run World.handle (fun _ => .ok 0) w₁ =
          some (0, w₂) ∧
        w₂.records = [] ∧ w₂.os.fds 3 = some (.socket (.packet 0)) :=
    ⟨_, rfl, _, rfl, rfl, rfl⟩
  have hreach : Reaches CycleStep (.boot, 0)
      (w₂, 0 + (w₁.records.length - w₂.records.length : ℤ)) :=
    .tail (.single (.start (.captureStart anyRequest) trivial (exec_of_run hstart)))
      (.stop (.captureStop 11) id (exec_of_run hstop))
  refine ⟨w₂, _, hreach, hrecords, fun heq => ?_⟩
  have hopen : (3 : ℤ) ∈ w₂.openFds \ World.boot.openFds := by
    refine ⟨fun hnone => ?_, fun hboot => hboot rfl⟩
    rw [hsock] at hnone
    cases hnone
  rw [heq] at hopen
  obtain ⟨task, htask, -⟩ := hopen
  rw [hrecords] at htask
  cases htask

end Example

end Dabbad
