import Mathlib.Data.List.TakeDrop
import Dabba.Dabbad.Refusal
import Dabba.Transition.Labeled

/-!
# What is listed is what was asked for

For its clients the daemon is a list of captures and a list of replays, each with the
thread id and the settings of the request that started it. Starting appends to a list,
stopping takes one out of it, and stopping everything takes them out from the front.
The handlers that list the captures and the replays show exactly this state, after any
RPCs and whatever the outcomes of their calls.

A setting is shown as far as the daemon keeps it: a name as long as the kernel's, and
the numbers of a filter as wide as the native ones.
-/

namespace Dabbad

open Posix Program Tpacket SockFilter Pcap Transition Interface

/-- The settings a client can read back. -/
structure Asked where
  interface : Path
  frameNr : BitVec 64
  frameSize : BitVec 64
  sfp : List PbufSockFilter

/-- The captures and the replays a client sees, each with its thread id. -/
abbrev Active := PacketThreadType → List (ℕ × Asked)

def Active.none : Active := fun _ => []

def nativeFilter (sfp : List PbufSockFilter) : List PbufSockFilter :=
  (SockFprog.ofPbuf sfp).program.map widen

/-- What a request asks for, as far as it is kept. -/
def Settings.asked (s : Settings) (sfp : List PbufSockFilter) : Asked where
  interface := deviceName (s.interface.getD [])
  frameNr := s.frameNr
  frameSize := s.frameSize
  sfp := nativeFilter sfp

def Rpc.starts : Rpc → Option (PacketThreadType × Asked)
  | .captureStart r => some (.capture, r.toSettings.asked (r.sfp.getD []))
  | .replayStart s => some (.replay, s.asked [])
  | _ => none

def Rpc.stops : Rpc → Option (PacketThreadType × ℕ)
  | .captureStop id => some (.capture, id)
  | .replayStop id => some (.replay, id)
  | _ => none

def Rpc.stopsAll : Rpc → Option PacketThreadType
  | .captureStopAll => some .capture
  | .replayStopAll => some .replay
  | _ => none

def Active.set (a : Active) (type : PacketThreadType) (l : List (ℕ × Asked)) : Active :=
  Function.update a type l

/-- What an RPC with its reply may do to the state its clients see. -/
inductive Active.Answers : Rpc × ℤ → Active → Active → Prop
  | nothing {rpc : Rpc} {rc : ℤ} {a : Active} (h : rc ≠ 0) : Answers (rpc, rc) a a
  | started {rpc : Rpc} {type : PacketThreadType} {asked : Asked} {a : Active} (id : ℕ)
      (h : rpc.starts = some (type, asked)) (hid : ∀ type, id ∉ (a type).map Prod.fst) :
      Answers (rpc, 0) a (a.set type (a type ++ [(id, asked)]))
  | stopped {rpc : Rpc} {type : PacketThreadType} {id : ℕ} {a : Active}
      {pre post : List (ℕ × Asked)} (asked : Asked) (h : rpc.stops = some (type, id))
      (hlist : a type = pre ++ (id, asked) :: post) :
      Answers (rpc, 0) a (a.set type (pre ++ post))
  | stoppedAll {rpc : Rpc} {rc : ℤ} {type : PacketThreadType} {a : Active}
      {stopped rest : List (ℕ × Asked)} (h : rpc.stopsAll = some type)
      (hlist : a type = stopped ++ rest) (hrc : rc = 0 → rest = []) :
      Answers (rpc, rc) a (a.set type rest)

/-- No thread id is listed twice. -/
structure Active.Distinct (a : Active) : Prop where
  nodup : ∀ type, ((a type).map Prod.fst).Nodup
  apart : ∀ type type', type ≠ type' → ∀ e ∈ a type, ∀ e' ∈ a type', e.1 ≠ e'.1

namespace Active.Distinct

variable {a a' : Active} {type : PacketThreadType}

/-- Only the list of one kind changes, and what is in it is apart from the other. -/
theorem set (h : a.Distinct) {l : List (ℕ × Asked)} (hnodup : (l.map Prod.fst).Nodup)
    (hapart : ∀ type', type' ≠ type → ∀ e ∈ l, ∀ e' ∈ a type', e.1 ≠ e'.1) :
    (a.set type l).Distinct := by
  have hself : a.set type l type = l := Function.update_self _ _ _
  have hother : ∀ type', type' ≠ type → a.set type l type' = a type' :=
    fun type' hne => Function.update_of_ne hne _ _
  constructor
  · intro type'
    rcases eq_or_ne type' type with rfl | hne
    · rwa [hself]
    · rw [hother type' hne]
      exact h.nodup type'
  · intro type₁ type₂ hne e he e' he'
    rcases eq_or_ne type₁ type with rfl | h₁
    · rw [hself] at he
      rw [hother type₂ hne.symm] at he'
      exact hapart type₂ hne.symm e he e' he'
    · rw [hother type₁ h₁] at he
      rcases eq_or_ne type₂ type with rfl | h₂
      · rw [hself] at he'
        exact (hapart type₁ h₁ e' he' e he).symm
      · rw [hother type₂ h₂] at he'
        exact h.apart type₁ type₂ hne e he e' he'

theorem sublist (h : a.Distinct) {l : List (ℕ × Asked)} (hsub : l.Sublist (a type)) :
    (a.set type l).Distinct :=
  h.set ((hsub.map _).nodup (h.nodup type)) fun type' hne e he e' he' =>
    h.apart type type' hne.symm e (hsub.subset he) e' he'

/-- Every answer keeps the ids distinct. -/
theorem step {e : Rpc × ℤ} (h : a.Distinct) (hstep : Active.Answers e a a') :
    a'.Distinct := by
  cases hstep with
  | nothing _ => exact h
  | @started rpc type asked a id _ hid =>
      refine h.set ?_ fun type' hne e he e' he' => ?_
      · rw [List.map_append, List.map_singleton, ← List.concat_eq_append]
        exact List.Nodup.concat (hid type) (h.nodup type)
      · rcases List.mem_append.1 he with he | he
        · exact h.apart type type' hne.symm e he e' he'
        · rw [List.mem_singleton.1 he]
          exact fun heq => hid type' (List.mem_map.2 ⟨e', he', heq.symm⟩)
  | stopped asked _ hlist =>
      refine h.sublist ?_
      rw [hlist]
      exact (List.Sublist.refl _).append (List.sublist_cons_self _ _)
  | stoppedAll _ hlist _ =>
      refine h.sublist ?_
      rw [hlist]
      exact List.sublist_append_right _ _

theorem filter_eq (h : a.Distinct) {pre post : List (ℕ × Asked)} {id : ℕ} {asked : Asked}
    (hlist : a type = pre ++ (id, asked) :: post) :
    (a type).filter (fun e => e.1 ≠ id) = pre ++ post := by
  have hnodup := h.nodup type
  rw [hlist, List.map_append, List.map_cons, List.nodup_middle, List.nodup_cons,
    ← List.map_append] at hnodup
  have hother : ∀ e ∈ pre ++ post, decide (e.1 ≠ id) = true := fun e he =>
    decide_eq_true fun heq => hnodup.1 (List.mem_map.2 ⟨e, he, heq⟩)
  rw [hlist, List.filter_append, List.filter_cons_of_neg (by simp), ← List.filter_append,
    List.filter_eq_self.2 hother]

/-- An id that is asked to be stopped is taken out, if the answer is zero, and then it was
listed. -/
theorem stopped (h : a.Distinct) {rpc : Rpc} {rc : ℤ} {id : ℕ}
    (hrpc : rpc.stops = some (type, id)) (hstep : Active.Answers (rpc, rc) a a') :
    (rc ≠ 0 ∧ a' = a) ∨ (rc = 0 ∧ id ∈ (a type).map Prod.fst ∧
      a' = a.set type ((a type).filter fun e => e.1 ≠ id)) := by
  cases hstep with
  | nothing hrc => exact .inl ⟨hrc, rfl⟩
  | started _ hstarts _ => cases rpc <;> cases hrpc <;> cases hstarts
  | stopped asked hstops hlist =>
      obtain ⟨rfl, rfl⟩ := Prod.mk.inj (Option.some.inj (hstops.symm.trans hrpc))
      refine .inr ⟨rfl, ?_, ?_⟩
      · rw [hlist]
        exact List.mem_map.2 ⟨_, List.mem_append_right _ List.mem_cons_self, rfl⟩
      · rw [h.filter_eq hlist]
  | stoppedAll hall _ _ => cases rpc <;> cases hrpc <;> cases hall

end Active.Distinct

/-- The filter an entry shows; a replay has none. -/
def shownFilter : PacketThreadType → SockFprog → List PbufSockFilter
  | .capture => Names.captureFilter
  | .replay => fun _ => []

def TaskEntry.shown (e : TaskEntry) : ℕ × Asked :=
  (e.id, ⟨e.interface, e.frameNr, e.frameSize, e.sfp⟩)

def Names.shows (names : Names) (type : PacketThreadType) (task : PacketTask) : ℕ × Asked :=
  (names.taskEntry (shownFilter type) task).shown

def World.active (names : Names) (w : World) : Active := fun type =>
  (w.queues.task type).nodes.map (names.shows type)

/-- The kernel names the interface with an index by what it reads of a name it has the index
of, and zero stands for all of them. -/
structure Names.Inverts (names : Names) (iface : Path → Option ℤ) : Prop where
  any : names.devname 0 = anyInterface
  named : ∀ dev i, iface dev = some i → names.devname i = kernelName dev

theorem Names.Inverts.devname_eq {names : Names} {iface : Path → Option ℤ}
    (h : names.Inverts iface) {dev : Path} {i : ℤ} (hnamed : Named iface dev i) :
    names.devname i = deviceName dev := by
  rcases hnamed with ⟨rfl, rfl⟩ | hiface
  · exact h.any
  · exact h.named _ i hiface

section Start

variable {w : World} {names : Names} {dev : Path}

theorem PassesChecks.setWidth_frameNr {frameSize : BitVec 32} {frameNr : BitVec 64}
    (h : PassesChecks frameSize frameNr) :
    (frameNr.setWidth 32).setWidth 64 = frameNr := by
  apply BitVec.eq_of_toNat_eq
  rw [BitVec.toNat_setWidth, BitVec.toNat_setWidth, Nat.mod_eq_of_lt h.frameNr_bounds.1,
    Nat.mod_eq_of_lt frameNr.isLt]

theorem Settings.setWidth_frameSize {s : Settings} (h : s.areValid = true) :
    (s.frameSize.setWidth 32).setWidth 64 = s.frameSize := by
  have hsize : packetMmapFrameSizeIsValid s.frameSize = true := by
    unfold Settings.areValid at h
    split_ifs at h with _ _ hsize
    exact Bool.not_eq_false _ ▸ hsize
  simp only [packetMmapFrameSizeIsValid, Bool.or_eq_true, beq_iff_eq] at hsize
  rcases hsize with (hsize | hsize) | hsize <;> rw [hsize] <;> decide

/-- A ring shows what it was asked for. -/
structure RingShows (iface : Path → Option ℤ) (dev : Path) (frameSize : BitVec 32)
    (frameNr : BitVec 64) (m : PacketMmap) : Prop where
  interface : Named iface dev m.ifindex
  frameNr : m.layout.tpFrameNr.setWidth 64 = frameNr
  frameSize : m.layout.tpFrameSize = frameSize

theorem wlp_ldabPacketMmapCreate_shows (dev : Path) (pfSock : ℤ) (type : PacketMmapType)
    (frameSize : BitVec 32) (frameNr : BitVec 64) :
    (ldabPacketMmapCreate dev pfSock type frameSize frameNr).wlp World.errnoSem
      (fun r _ => r.1 = 0 → RingShows w.iface dev frameSize frameNr r.2) w := by
  unfold ldabPacketMmapCreate
  split_ifs with hpower
  · exact fun hrc => absurd hrc (by decide)
  · refine Prog.wlp_bind_of _ (wlp_ldabDevnameToIfindex_named dev) ?_
    rintro ⟨rc, ifindex⟩ w₁ hnamed
    dsimp only
    split_ifs with hrc hzero
    · exact fun hrc' => absurd hrc' hrc
    · exact fun hrc' => absurd hrc' (by simp)
    · refine Prog.wlp_of_le _ anySem_of_errnoSem (Prog.wlp_mono _ wlp_runStages ?_)
      intro r w₂ h hrc'
      obtain ⟨hsame, -⟩ := h hrc'
      simp only [Bool.or_eq_true, Bool.not_eq_true', not_or, Bool.not_eq_false] at hpower
      obtain ⟨hframeNr, hblockNr⟩ := not_or.1 hzero
      have hchecks : PassesChecks frameSize frameNr :=
        ⟨hpower.1, hpower.2, hframeNr, hblockNr⟩
      refine ⟨?_, ?_, ?_⟩
      · rw [hsame]
        exact hnamed (not_not.1 hrc)
      · rw [hsame.layout_eq]
        exact hchecks.setWidth_frameNr
      · rw [hsame.layout_eq]
        rfl

variable {type : PacketThreadType} {ringType : PacketMmapType} {s : Settings}
variable {openPcap : Path → Prog Call ℤ} {attach : ℤ → Prog Call (ℤ × Sfp)}
variable {sfpDestroy : Sfp → Prog Call Unit} {sfp : List PbufSockFilter} {rc : ℤ}
variable {w' : World}

/-- What a start does to the queues: nothing, and its code is that of a failure, or it queues
a record that shows what was asked for. -/
def StartsAsked (names : Names) (failed : ℤ → Prop) (type : PacketThreadType) (asked : Asked)
    (w : World) (rc : ℤ) (w' : World) : Prop :=
  failed rc ∧ w'.queues = w.queues ∨
    rc = 0 ∧ ∃ task : PacketTask, task.thread.type = type ∧
      names.shows type task = (task.thread.id, asked) ∧
      w'.queues = (w.queues.insertThread task.thread).insertTask task

theorem wlp_runTask_shows (hsteady : SteadyStart openPcap attach sfpDestroy)
    (hattach : ∀ sock w, (attach sock).wlp World.anySem
      (fun r _ => r.1 = 0 → shownFilter type r.2.prog = nativeFilter sfp) w)
    (hnames : names.Inverts w.iface) (hvalid : s.areValid = true) (sock : ℤ) (addr : ℕ)
    (fd : ℤ) :
    (runTask type ringType s attach sfpDestroy sock addr fd).wlp World.errnoSem
      (StartsAsked names (· ≠ 0) type (s.asked sfp) w) w := by
  have hqueues : ∀ {p : Prog Call Unit}, p.Uses Call.IsSteady → ∀ w',
      w'.queues = w.queues →
      p.wlp World.errnoSem (fun _ w'' => w''.queues = w.queues) w' :=
    fun hp w' h' => Prog.wlp_mono _ (wlp_steady_iface hp w') fun _ _ h => h.1.trans h'
  apply wlp_runTask_in anySem_of_errnoSem
    (A := fun x w' => w'.queues = w.queues ∧ w'.iface = w.iface ∧
      shownFilter type x.prog = nativeFilter sfp)
    (M := fun task w' => w'.queues = w.queues ∧ task.thread.type = type ∧
      (names.shows type task).2 = s.asked sfp)
    (E := fun w' => w'.queues = w.queues)
  case hattach =>
    refine Prog.wlp_mono _ (Prog.wlp_and _ (wlp_steady_iface (hsteady.attach sock) w)
      (Prog.wlp_of_le _ anySem_of_errnoSem (hattach sock w))) ?_
    rintro r w₁ ⟨h₁, hshown⟩
    split_ifs with hrc
    · exact h₁.1
    · exact ⟨h₁.1, h₁.2, hshown (not_not.1 hrc)⟩
  case hcreate =>
    rintro x w₁ ⟨hqueues₁, hiface₁, hshown⟩
    refine Prog.wlp_mono _ (Prog.wlp_and _ (wlp_ldabPacketMmapCreate_shows _ sock ringType _ _)
      (wlp_steady_iface (uses_ldabPacketMmapCreate _ _ _ _ _) w₁)) ?_
    rintro r w₂ ⟨hring, hqueues₂, -⟩
    split_ifs with hrc
    · exact hqueues₂.trans hqueues₁
    · have hring := hring (not_not.1 hrc)
      rw [hiface₁] at hring
      refine ⟨hqueues₂.trans hqueues₁, rfl, ?_⟩
      simp only [Names.shows, TaskEntry.shown, Names.taskEntry, Settings.asked,
        hnames.devname_eq hring.interface, hring.frameNr, hring.frameSize, hshown,
        Settings.setWidth_frameSize hvalid]
  case hfail => exact fun _ _ h => h.1
  case horphan => exact fun _ _ _ h _ => h.1
  case hdestroy => exact fun m => hqueues ((uses_destroy m).mono Call.IsPlain.isSteady)
  case hsfpDestroy => exact fun x => hqueues (hsteady.sfpDestroy x)
  case hrelease =>
    intro rc w₁ hrc h₁
    have hfree : (Prog.perform (Call.free (some addr))).Uses Call.IsSteady :=
      (Prog.uses_perform _).2 trivial
    refine Prog.wlp_bind_of _ (hqueues hfree w₁ h₁) fun _ w₂ h₂ => ?_
    refine Prog.wlp_bind_of _ (wlp_steady_iface (uses_close sock) w₂) fun _ w₃ h₃ => ?_
    exact .inl ⟨hrc, h₃.1.trans h₂⟩
  case hok =>
    rintro task w₁ id ⟨hqueues₁, htype, hshows⟩ -
    refine .inr ⟨rfl, { task with thread := World.node id task }, htype, ?_, ?_⟩
    · rw [← hshows]
      rfl
    · rw [← hqueues₁]
      rfl

/-- A start queues a record that shows what was asked for, or changes nothing. -/
theorem wlp_startTask_shows {S : Sem Call World} {failed : ℤ → Prop}
    (hS : ∀ {β : Type} (op : Call β) w r w', S op w r w' → World.errnoSem op w r w')
    (hfailed : ∀ rc, rc ≠ 0 → failed rc)
    (hopen : (openTask s openPcap).wlp S (fun r _ => ∀ rc, r = .inl rc → failed rc) w)
    (hsteady : SteadyStart openPcap attach sfpDestroy)
    (hattach : ∀ sock w, (attach sock).wlp World.anySem
      (fun r _ => r.1 = 0 → shownFilter type r.2.prog = nativeFilter sfp) w)
    (hnames : names.Inverts w.iface) :
    (startTask type ringType s openPcap attach sfpDestroy).wlp S
      (StartsAsked names failed type (s.asked sfp) w) w := by
  by_cases hvalid : s.areValid = true
  · have hsteadyOpen : (openTask s openPcap).wlp S
        (fun _ w' => w'.queues = w.queues ∧ w'.iface = w.iface) w := by
      refine Prog.wlp_of_le _ hS (Prog.wlp_mono _ (Prog.wlp_and _
        (Prog.wlp_of_le _ anySem_of_errnoSem (wlp_openTask hsteady.openPcap s))
        (wlp_iface _ w)) fun _ _ h => ?_)
      exact ⟨h.1.1.queues_eq, h.2⟩
    refine Prog.wlp_bind_of _ (Prog.wlp_and _ hopen hsteadyOpen) ?_
    rintro r w₁ ⟨hrefused, hqueues, hiface⟩
    cases r with
    | inl rc => exact .inl ⟨hrefused rc rfl, hqueues⟩
    | inr acquired =>
        obtain ⟨sock, addr, fd⟩ := acquired
        refine Prog.wlp_of_le _ hS (Prog.wlp_mono _ (wlp_runTask_shows (w := w₁) hsteady
          hattach (hiface ▸ hnames) hvalid sock addr fd) fun rc w' h => ?_)
        rw [StartsAsked, hqueues] at h
        exact h.imp_left (And.imp_left (hfailed rc))
  · have hrefused : openTask s openPcap = pure (.inl (einval : ℤ)) := by
      rw [openTask, if_pos (Bool.eq_false_of_not_eq_true hvalid)]
    rw [startTask, hrefused]
    exact .inl ⟨hfailed _ (by decide), rfl⟩

theorem wlp_attachCaptureFilter_shows (pbufSfp : Option (List PbufSockFilter)) (sock : ℤ)
    (w : World) :
    (attachCaptureFilter pbufSfp sock).wlp World.anySem (fun r _ => r.1 = 0 →
      shownFilter .capture r.2.prog = nativeFilter (pbufSfp.getD [])) w := by
  rcases pbufSfp with _ | (_ | ⟨p, ps⟩)
  · exact fun _ => rfl
  · exact fun _ => rfl
  · refine Prog.wlp_bind_of _ (Prog.wlp_true _ _ _) fun filter w₁ _ => ?_
    generalize hconvert : dabbadPbufSfp2Sfp filter.isSome (p :: ps) = converted
    obtain ⟨rc, prog⟩ := converted
    dsimp only
    split_ifs with hrc
    · refine Prog.wlp_bind_of _ (Prog.wlp_true _ _ _) fun _ w₂ _ hzero => ?_
      exact absurd (Int.ofNat_eq_zero.1 hzero) hrc
    · obtain rfl := not_not.1 hrc
      obtain ⟨rfl, -⟩ := eq_ofPbuf_of_dabbadPbufSfp2Sfp hconvert
      refine Prog.wlp_bind_of _ (Prog.wlp_true _ _ _) fun rc w₂ _ => ?_
      split_ifs with hrc
      · exact Prog.wlp_bind_of _ (Prog.wlp_true _ _ _) fun _ w₃ _ h => absurd h hrc
      · exact fun _ => rfl

end Start

section Run

variable {w w' : World} {names : Names} {rpc : Rpc} {rc : ℤ}

theorem active_congr (h : w'.queues = w.queues) : w'.active names = w.active names := by
  funext type
  rw [World.active, World.active, h]

theorem active_eq_set {type : PacketThreadType} {l : List PacketTask}
    (hself : (w'.queues.task type).nodes = l)
    (hother : ∀ type', type' ≠ type → w'.queues.task type' = w.queues.task type') :
    w'.active names = (w.active names).set type (l.map (names.shows type)) := by
  funext type'
  rcases eq_or_ne type' type with rfl | hne
  · rw [World.active, hself, Active.set, Function.update_self]
  · rw [World.active, hother type' hne, Active.set, Function.update_of_ne hne]
    rfl

/-- The id of a new record is not shown yet. -/
theorem id_notMem_active {task : PacketTask} (h : Registered w')
    (hqueues : w'.queues = (w.queues.insertThread task.thread).insertTask task)
    (hw : Registered w) (type : PacketThreadType) :
    task.thread.id ∉ (w.active names type).map Prod.fst := by
  intro hmem
  obtain ⟨shown, hshown, hid⟩ := List.mem_map.1 hmem
  obtain ⟨other, hother, rfl⟩ := List.mem_map.1 hshown
  have hthreads : w'.queues.packetThread.nodes =
      w.queues.packetThread.nodes ++ [task.thread] := by
    rw [hqueues]
    rfl
  have hnode : other.thread ∈ w.queues.packetThread.nodes := hw.thread_mem hother
  have heq : other.thread = task.thread := by
    refine h.node_eq_of_id ?_ ?_ hid
    · rw [hthreads]
      exact List.mem_append_left _ hnode
    · rw [hthreads]
      exact List.mem_append_right _ (List.mem_singleton_self _)
  have hnodup := h.thread_addr_nodup
  rw [hthreads, List.map_append, List.nodup_append] at hnodup
  exact hnodup.2.2 _ (List.mem_map_of_mem hnode) _ (List.mem_singleton_self _)
    (congrArg PacketThread.addr heq)

def Active.Unstarted (failed : ℤ → Prop) (e : Rpc × ℤ) (a a' : Active) : Prop :=
  e.1.starts.isSome ∧ failed e.2 ∧ a' = a

theorem answers_of_started {type : PacketThreadType} {asked : Asked} {failed : ℤ → Prop}
    (hrpc : rpc.starts = some (type, asked)) (hw : Registered w) (hw' : Registered w')
    (h : StartsAsked names failed type asked w rc w') :
    Active.Answers (rpc, rc) (w.active names) (w'.active names) ∨
      Active.Unstarted failed (rpc, rc) (w.active names) (w'.active names) := by
  rcases h with ⟨hfailed, hqueues⟩ | ⟨rfl, task, htype, hshows, hqueues⟩
  · exact .inr ⟨Option.isSome_iff_exists.2 ⟨_, hrpc⟩, hfailed, active_congr hqueues⟩
  · refine .inl ?_
    have hself : (w'.queues.task type).nodes = (w.queues.task type).nodes ++ [task] := by
      rw [hqueues, Queues.nodes_insertTask, if_pos htype.symm]
      rfl
    have hother : ∀ type', type' ≠ type → w'.queues.task type' = w.queues.task type' := by
      intro type' hne
      rw [hqueues, Queues.insertTask_task_of_ne _ _ (htype ▸ hne)]
      rfl
    rw [active_eq_set hself hother, List.map_append, List.map_singleton, hshows]
    exact .started task.thread.id hrpc (id_notMem_active hw' hqueues hw)

theorem answers_of_stopped {type : PacketThreadType} {id : ℕ}
    (hrpc : rpc.stops = some (type, id)) (hw : Registered w)
    (h : StopSpec type id w rc w') :
    Active.Answers (rpc, rc) (w.active names) (w'.active names) := by
  rcases eq_or_ne rc 0 with rfl | hrc
  · obtain ⟨task, htask, rfl, hremoved⟩ := h.success rfl
    have htype : task.thread.type = type := hw.task_type type task htask
    obtain ⟨pre, post, hnodes, hnodes'⟩ := htype ▸ hremoved.record
    rw [active_eq_set hnodes' (htype ▸ hremoved.other), List.map_append]
    refine .stopped (names.shows type task).2 hrpc ?_
    rw [World.active, hnodes, List.map_append, List.map_cons]
    rfl
  · rw [active_congr (h.failure hrc)]
    exact .nothing hrc

theorem answers_of_stoppedAll {type : PacketThreadType} (hrpc : rpc.stopsAll = some type)
    (h : StopAllSpec type w rc w') :
    Active.Answers (rpc, rc) (w.active names) (w'.active names) := by
  obtain ⟨stopped, hnodes, -, -⟩ := h.stopped
  rw [active_eq_set rfl h.other]
  have hlist : w.active names type =
      stopped.map (names.shows type) ++ (w'.queues.task type).nodes.map (names.shows type) := by
    rw [World.active, hnodes, List.map_append]
  refine .stoppedAll hrpc hlist fun hrc => ?_
  rw [h.success hrc, List.map_nil]

def AnswerStep (S : Sem Call World) (e : Rpc × ℤ) (w w' : World) : Prop :=
  e.1.handler.Exec S w e.2 w'

/-- The registry is in order, and the names are those of the kernel. -/
structure World.Shown (names : Names) (w : World) : Prop where
  registered : Registered w
  inverts : names.Inverts w.iface

theorem AnswerStep.exec {S : Sem Call World} {e : Rpc × ℤ} (h : AnswerStep S e w w') :
    e.1.handler.Exec S w e.2 w' := h

theorem AnswerStep.mono {S S' : Sem Call World} {e : Rpc × ℤ}
    (hS : ∀ {β : Type} (op : Call β) w r w', S op w r w' → S' op w r w')
    (h : AnswerStep S e w w') : AnswerStep S' e w w' :=
  Prog.Exec.mono S hS h

theorem World.Shown.step {e : Rpc × ℤ} (h : w.Shown names)
    (hstep : AnswerStep World.errnoSem e w w') : w'.Shown names := by
  have hiface : w'.iface = w.iface := hstep.exec.of_wlp _ (wlp_iface _ w)
  have hexec := (hstep.mono anySem_of_errnoSem).exec
  exact ⟨(e.1.spec_of_exec h.registered hexec).1, hiface ▸ h.inverts⟩

/-- Every RPC is seen as an answer to its request, or as a start that has failed. -/
theorem answers_or_unstarted {S : Sem Call World} {failed : ℤ → Prop}
    (hS : ∀ {β : Type} (op : Call β) w r w', S op w r w' → World.errnoSem op w r w')
    (hfailed : ∀ rc, rc ≠ 0 → failed rc)
    (hopen : ∀ {openPcap : Path → Prog Call ℤ}, TellsErrno openPcap → ∀ s (w : World),
      (openTask s openPcap).wlp S (fun r _ => ∀ rc, r = .inl rc → failed rc) w)
    (h : w.Shown names) (hstep : AnswerStep S (rpc, rc) w w') :
    Active.Answers (rpc, rc) (w.active names) (w'.active names) ∨
      Active.Unstarted failed (rpc, rc) (w.active names) (w'.active names) := by
  have herrno : AnswerStep World.errnoSem (rpc, rc) w w' := hstep.mono hS
  have hw' := (h.step herrno).registered
  have hspec := (rpc.spec_of_exec h.registered (herrno.mono anySem_of_errnoSem).exec).2
  cases rpc with
  | captureStart r =>
      refine answers_of_started rfl h.registered hw' (hstep.exec.of_wlp _ ?_)
      exact wlp_startTask_shows hS hfailed (hopen (tellsErrno_capture r.append) _ w)
        (steadyStart_capture r) (wlp_attachCaptureFilter_shows r.sfp) h.inverts
  | captureStop id => exact .inl (answers_of_stopped rfl h.registered hspec)
  | captureStopAll => exact .inl (answers_of_stoppedAll rfl hspec)
  | replayStart s =>
      refine answers_of_started rfl h.registered hw' (hstep.exec.of_wlp _ ?_)
      exact wlp_startTask_shows hS hfailed (hopen tellsErrno_replay _ w)
        steadyStart_replay (fun _ _ _ => rfl) h.inverts
  | replayStop id => exact .inl (answers_of_stopped rfl h.registered hspec)
  | replayStopAll => exact .inl (answers_of_stoppedAll rfl hspec)

/-- A short write may leave a start without a record and without an error number. -/
theorem answers_of_errnoStep {e : Rpc × ℤ} (h : w.Shown names)
    (hstep : AnswerStep World.errnoSem e w w') :
    Active.Answers e (w.active names) (w'.active names) ∨
      Active.Unstarted (fun _ => True) e (w.active names) (w'.active names) :=
  answers_or_unstarted (fun _ _ _ _ => id) (fun _ _ => trivial)
    (fun _ _ _ => Prog.wlp_mono _ (Prog.wlp_true _ _ _) fun _ _ _ _ _ => trivial) h hstep

theorem Active.Distinct.errnoStep {e : Rpc × ℤ} (hdistinct : (w.active names).Distinct)
    (h : w.Shown names) (hstep : AnswerStep World.errnoSem e w w') :
    (w'.active names).Distinct := by
  rcases answers_of_errnoStep h hstep with hanswers | ⟨-, -, heq⟩
  · exact hdistinct.step hanswers
  · exact heq ▸ hdistinct

/-- The reply of a get handler shows this part of the state, whatever ids are named. -/
def Shows (names : Names) (get : List ℕ → Prog GetCall (Option (List TaskEntry)))
    (shown : List (ℕ × Asked)) : Prop :=
  ∀ idList, (get idList).wp names.sem
    (fun reply _ => (reply.getD []).map TaskEntry.shown = shown) ()

theorem shows_of_listed {type : PacketThreadType}
    {get : List ℕ → Prog GetCall (Option (List TaskEntry))}
    (h : ∀ idList, (get idList).wp names.sem (fun reply _ =>
      reply = if (w.queues.task type).nodes = [] then none
        else some ((w.queues.task type).nodes.map (names.taskEntry (shownFilter type)))) ()) :
    Shows names get (w.active names type) := by
  intro idList
  refine Prog.wp_mono _ (h idList) ?_
  rintro _ _ rfl
  split_ifs with hnodes
  · rw [World.active, hnodes]
    rfl
  · rw [World.active, Option.getD_some, List.map_map]
    rfl

theorem World.Shown.shows (h : w.Shown names) :
    Shows names (dabbadCaptureGet w.queues) (w.active names .capture) ∧
      Shows names (dabbadReplayGet w.queues) (w.active names .replay) :=
  ⟨shows_of_listed fun idList => (h.registered.listed names idList).capture,
    shows_of_listed fun idList => (h.registered.listed names idList).replay⟩

theorem Active.Distinct.none : Active.Distinct .none :=
  ⟨fun _ => List.nodup_nil, fun _ _ _ _ he => absurd he List.not_mem_nil⟩

theorem active_of_empty (hqueues : w.queues = .empty) : w.active names = .none := by
  funext type
  rw [World.active, hqueues]
  rfl

end Run

section Example

def bootNames : Names where
  path := fun _ => []
  devname := fun i => if i = 0 then anyInterface else eth0
  schedParam := fun _ => (0, 0)
  affinity := fun _ => (0, [])

theorem bootNames_inverts : bootNames.Inverts World.boot.iface := by
  refine ⟨rfl, fun dev i hdev => ?_⟩
  simp only [World.boot] at hdev
  split_ifs at hdev with heth
  obtain rfl := Option.some.inj hdev
  rw [heth]
  rfl

end Example

end Dabbad
