import Dabba.Dabbad.PcapFiles

/-!
# The files of the running captures

A start without append empties the file its path names, whoever writes to it, and a
capture that appends goes on at an offset of its own. The file of a running capture is
safe as long as no other request empties it, and no capture that appends writes to it.
-/

namespace Dabbad

open Posix Program Tpacket SockFilter Pcap Transition

/-- What a capture was started with, and the packets it has written since. -/
structure Recording where
  path : Path
  append : Bool
  packets : List Packet

/-- The daemon, and for every record address its recording. -/
abbrev Recorded := World × (ℕ → Recording)

/-- What happens to the daemon: a request, or a running capture writes a packet. -/
inductive CaptureAction
  | start (r : CaptureRequest)
  | stop (id : ℕ)
  | stopAll
  | write (task : PacketTask) (p : Packet)

def Recorded.begin (x : Recorded) (r : CaptureRequest) (addr : ℕ) : Recording :=
  if addr ∈ x.1.captures.map (·.thread.addr) then x.2 addr else ⟨r.path, r.append, []⟩

def Recorded.add (x : Recorded) (addr : ℕ) (p : Packet) : ℕ → Recording :=
  Function.update x.2 addr { x.2 addr with packets := (x.2 addr).packets ++ [p] }

/-- One step. The calls of the requests have any outcome; the writes succeed. -/
inductive CaptureStep : CaptureAction → Recorded → Recorded → Prop
  | start {x : Recorded} {r : CaptureRequest} {rc : ℤ} {w' : World}
      (hrun : (dabbadCaptureStart r).Exec World.anySem x.1 rc w') :
      CaptureStep (.start r) x (w', x.begin r)
  | stop {x : Recorded} {id : ℕ} {rc : ℤ} {w' : World}
      (hrun : (dabbadCaptureStop id).Exec World.anySem x.1 rc w') :
      CaptureStep (.stop id) x (w', x.2)
  | stopAll {x : Recorded} {rc : ℤ} {w' : World}
      (hrun : dabbadCaptureStopAll.Exec World.anySem x.1 rc w') :
      CaptureStep .stopAll x (w', x.2)
  | write {x : Recorded} {task : PacketTask} {p : Packet} {rc : ℤ} {os' : Os SockRef}
      (htask : task ∈ x.1.captures)
      (hrun : (ldabPcapWrite task.pcapFd p.payload p.pktLen p.pktSnaplen p.tvSec
        p.tvUsec).Exec Os.completeSem x.1.os rc os') :
      CaptureStep (.write task p) x ({ x.1 with os := os' }, x.add task.thread.addr p)

/-- The running capture was started without append, and its file has this number. -/
def Recorded.Owns (x : Recorded) (task : PacketTask) (i : ℕ) : Prop :=
  task ∈ x.1.captures ∧ (x.2 task.thread.addr).append = false ∧
    x.1.os.inode task.pcapFd = some i

/-- A valid start without append does not name the file of a running capture that was
started without append, and a capture that appends does not write to such a file. -/
def CaptureAction.Spares : CaptureAction → Recorded → Prop
  | .start r, x => r.Creates → ∀ task i, x.Owns task i → x.1.os.dir r.path ≠ some i
  | .write task _, x => (x.2 task.thread.addr).append = true →
      ∀ task' i, x.Owns task' i → x.1.os.inode task.pcapFd ≠ some i
  | .stop _, _ => True
  | .stopAll, _ => True

/-- A step that meets the condition. -/
def SparingStep (x x' : Recorded) : Prop :=
  ∃ a : CaptureAction, a.Spares x ∧ CaptureStep a x x'

def Recording.bytes (c : Recording) : List Byte :=
  (createdHeader linktypeEn10mb).bytes ++ recordsBytes (records c.packets)

/-- The PCAP descriptor of a running capture is open; without append, it is at the end of
the file that the path names, which holds the packets. -/
structure Recording.Kept (c : Recording) (os : Os SockRef) (fd : ℤ) : Prop where
  opened : os.fds fd ≠ none
  stored : c.append = false → ∃ i, os.dir c.path = some i ∧ AtEnd os fd i c.bytes

theorem Recording.Kept.within {c : Recording} {os os' : Os SockRef} {fd : ℤ} {F : Set ℤ}
    {I : Set ℕ} {P : Set Path} (h : c.Kept os fd) (hwithin : Os.Within F I P os os')
    (hF : fd ∉ F) (hI : c.append = false → ∀ i, os.inode fd = some i → i ∉ I)
    (hP : c.append = false → os.resolve c.path ∉ P) : c.Kept os' fd := by
  have hsame := hwithin.fds fd hF
  refine ⟨hsame ▸ h.opened, fun happend => ?_⟩
  obtain ⟨i, hdir, f, hf, rfl, hw, hflags, hoff, hdata⟩ := h.stored happend
  have hinode : os.inode fd = some f.inode := by simp only [Os.inode, hf]
  refine ⟨f.inode, ?_, f, hsame.trans hf, rfl, hw, hflags, hoff, ?_⟩
  · rw [hwithin.dir (hP happend), hdir]
  · rw [hwithin.data _ (hI happend _ hinode), hdata]

theorem Recording.Kept.inode {c : Recording} {os : Os SockRef} {fd : ℤ} (h : c.Kept os fd)
    (happend : c.append = false) : os.inode fd = os.dir c.path := by
  obtain ⟨i, hdir, f, hf, rfl, -⟩ := h.stored happend
  simp only [Os.inode, hf, hdir]

/-- The invariant: every running capture is kept, no two of them share a descriptor, and
no two that were started without append share a file. -/
structure Recorded.Intact (x : Recorded) : Prop where
  registered : Registered x.1
  numbered : x.1.os.Numbered
  kept : ∀ task ∈ x.1.captures, (x.2 task.thread.addr).Kept x.1.os task.pcapFd
  pcapFd_inj : ∀ task ∈ x.1.captures, ∀ task' ∈ x.1.captures,
    task.pcapFd = task'.pcapFd → task = task'
  apart : ∀ task task' i, x.Owns task i → x.Owns task' i → task = task'

namespace Recorded

variable {x : Recorded} {w' : World} {g : ℕ → Recording} {r : CaptureRequest}
variable {task task' : PacketTask} {i : ℕ}

theorem Intact.empty {w : World} (hqueues : w.queues = .empty) (hthreads : w.threads = [])
    (hnumbered : w.os.Numbered) (g : ℕ → Recording) : Intact (w, g) := by
  have hnone : w.captures = [] := by rw [World.captures, hqueues]; rfl
  refine ⟨.empty hqueues hthreads, hnumbered, ?_, ?_, ?_⟩
  · exact fun task htask => absurd (hnone ▸ htask) List.not_mem_nil
  · exact fun task htask => absurd (hnone ▸ htask) List.not_mem_nil
  · exact fun task task' i howns => absurd (hnone ▸ howns.1) List.not_mem_nil

namespace Intact

theorem eq_of_addr (h : x.Intact) (htask : task ∈ x.1.captures)
    (htask' : task' ∈ x.1.captures) (haddr : task.thread.addr = task'.thread.addr) :
    task = task' :=
  List.inj_on_of_nodup_map (h.registered.task_addr_nodup .capture) htask htask' haddr

theorem inode_lt (h : x.Intact) {fd : ℤ} (hi : x.1.os.inode fd = some i) :
    i < x.1.os.next := by
  unfold Os.inode at hi
  split at hi
  · rename_i f hf
    cases hi
    exact h.numbered.file fd f hf
  · cases hi

/-- The step of a capture that ends: its record leaves the queue and its descriptor is
closed. -/
theorem removed (h : x.Intact) (hreg : Registered w') (hnumbered : w'.os.Numbered)
    (htask : task ∈ x.1.captures)
    (hleft : ∀ task' ∈ w'.captures, task' ∈ x.1.captures ∧ task' ≠ task)
    (hwithin : Os.Within {task.pcapFd} ∅ ∅ x.1.os w'.os) : Intact (w', x.2) := by
  have hfd : ∀ task' ∈ w'.captures, task'.pcapFd ∉ ({task.pcapFd} : Set ℤ) :=
    fun task' htask' heq => (hleft task' htask').2
      (h.pcapFd_inj task' (hleft task' htask').1 task htask heq)
  have howns : ∀ task' i, Owns (w', x.2) task' i → x.Owns task' i := by
    rintro task' i ⟨htask', happend, hinode⟩
    have hsame := hwithin.fds _ (hfd task' htask')
    refine ⟨(hleft task' htask').1, happend, ?_⟩
    rw [← hinode]
    simp only [Os.inode, hsame]
  refine ⟨hreg, hnumbered, fun task' htask' => ?_, ?_, ?_⟩
  · exact (h.kept task' (hleft task' htask').1).within hwithin (hfd task' htask')
      (fun _ _ _ => Set.notMem_empty _) fun _ => Set.notMem_empty _
  · exact fun t ht t' ht' => h.pcapFd_inj t (hleft t ht).1 t' (hleft t' ht').1
  · exact fun t t' i ht ht' => h.apart t t' i (howns t i ht) (howns t' i ht')

theorem stopKeeps (g : ℕ → Recording) :
    StopKeeps (fun _ _ => True) .capture captureUnfilter fun w => Intact (w, g) where
  guard _ _ _ := trivial
  steady task := (uses_captureUnfilter task).mono Call.IsPlain.isSteady
  registered h := h.registered
  released := by
    intro w task h htask htype
    refine Prog.guarded_of_wlp (fun _ _ => trivial) (Prog.wlp_mono _
      (Prog.wlp_and _ (wlp_releaseTask_within task _) (wlp_numbered _ h.numbered)) ?_)
    rintro _ w' ⟨hwithin, hnumbered⟩ hsteady
    have hmem : task ∈ (w.queues.task task.thread.type).nodes := by rwa [htype]
    refine h.removed ((h.registered.stopped hmem).steady hsteady) hnumbered htask ?_ hwithin
    intro task' htask'
    have hnodes : w'.captures =
        w.captures.filter fun n => n.thread.addr ≠ task.thread.addr := by
      rw [World.captures, hsteady.queues_eq]
      exact h.registered.nodes_removeTask hmem .capture
    rw [hnodes, List.mem_filter] at htask'
    refine ⟨htask'.1, fun heq => ?_⟩
    simp [heq] at htask'

/-- The files of running captures that were started without append are none that a
request with the condition empties. -/
theorem not_mem_emptied (h : x.Intact) (hspares : (CaptureAction.start r).Spares x)
    (howns : x.Owns task i) : i ∉ r.emptied x.1.os := by
  rintro ⟨hcreates, hdir | hle⟩
  · exact hspares hcreates task i howns hdir
  · exact absurd (h.inode_lt howns.2.2) (not_lt.2 hle)

theorem kept_start (h : x.Intact) (hspares : (CaptureAction.start r).Spares x)
    (hstart : r.Spares x.1.os w'.os) (htask : task ∈ x.1.captures) :
    (x.begin r task.thread.addr).Kept w'.os task.pcapFd ∧
      w'.os.inode task.pcapFd = x.1.os.inode task.pcapFd := by
  have hkept := h.kept task htask
  have hsame := hstart.fds _ hkept.opened
  have hrecording : x.begin r task.thread.addr = x.2 task.thread.addr :=
    if_pos (List.mem_map_of_mem htask)
  rw [hrecording]
  refine ⟨hkept.within hstart hkept.opened ?_ ?_, by simp only [Os.inode, hsame]⟩
  · exact fun happend i hi => h.not_mem_emptied hspares ⟨htask, happend, hi⟩
  · rintro happend ⟨hcreates, hpath⟩
    obtain ⟨i, hdir, -⟩ := hkept.stored happend
    have hinode := hkept.inode happend
    rw [hdir] at hinode
    refine hspares hcreates task i ⟨htask, happend, hinode⟩ ?_
    rwa [Os.dir, ← hpath]

theorem start (h : x.Intact) (hspares : (CaptureAction.start r).Spares x)
    (hreg : Registered w') (hnumbered : w'.os.Numbered)
    (hstart : StartedCapture r x.1 w') : Intact (w', x.begin r) := by
  have hold : ∀ task i, task ∈ x.1.captures → Owns (w', x.begin r) task i →
      x.Owns task i := by
    rintro task i htask ⟨-, happend, hinode⟩
    have hrecording : x.begin r task.thread.addr = x.2 task.thread.addr :=
      if_pos (List.mem_map_of_mem htask)
    refine ⟨htask, hrecording ▸ happend, ?_⟩
    rw [← (h.kept_start hspares hstart.spares htask).2]
    exact hinode
  rcases hstart.queued with hsame | ⟨new, hcaptures, hopened⟩
  · refine ⟨hreg, hnumbered, fun task htask => ?_, ?_, ?_⟩
    · exact (h.kept_start hspares hstart.spares (hsame ▸ htask)).1
    · exact fun t ht t' ht' => h.pcapFd_inj t (hsame ▸ ht) t' (hsame ▸ ht')
    · intro t t' i ht ht'
      exact h.apart t t' i (hold t i (hsame ▸ ht.1) ht) (hold t' i (hsame ▸ ht'.1) ht')
  -- The descriptor of the new record was free, and its file nobody's.
  have hmem : ∀ task ∈ w'.captures, task ∈ x.1.captures ∨ task = new := by
    intro task htask
    simpa [hcaptures] using htask
  have hfd : ∀ task ∈ x.1.captures, task.pcapFd ≠ new.pcapFd :=
    fun task htask heq => (h.kept task htask).opened (heq ▸ hopened.free)
  have hnew : new.thread.addr ∉ x.1.captures.map (·.thread.addr) := by
    have hnodup : (w'.captures.map (·.thread.addr)).Nodup := hreg.task_addr_nodup .capture
    rw [hcaptures, List.map_append, List.nodup_append] at hnodup
    exact fun hin => hnodup.2.2 _ hin _ List.mem_cons_self rfl
  have hrecording : x.begin r new.thread.addr = ⟨r.path, r.append, []⟩ := if_neg hnew
  have hfile : ∀ i, Owns (w', x.begin r) new i → i ∈ r.emptied x.1.os := by
    rintro i ⟨-, happend, hinode⟩
    have hnotappend : r.append = false := by
      dsimp only at happend
      rwa [hrecording] at happend
    obtain ⟨j, hj, -, f, hf, rfl, -⟩ := hopened.header hnotappend
    simp only [Os.inode, hf] at hinode
    cases hinode
    exact hj
  refine ⟨hreg, hnumbered, fun task htask => ?_, ?_, ?_⟩
  · rcases hmem task htask with htask | rfl
    · exact (h.kept_start hspares hstart.spares htask).1
    · dsimp only
      rw [hrecording]
      refine ⟨hopened.opened, fun happend => ?_⟩
      obtain ⟨i, -, hdir, hend⟩ := hopened.header happend
      refine ⟨i, hdir, ?_⟩
      rwa [Recording.bytes, records, List.map_nil, recordsBytes_nil, List.append_nil]
  · intro t ht t' ht' heq
    rcases hmem t ht with ht | rfl <;> rcases hmem t' ht' with ht' | rfl
    · exact h.pcapFd_inj t ht t' ht' heq
    · exact absurd heq (hfd t ht)
    · exact absurd heq.symm (hfd t' ht')
    · rfl
  · intro t t' i ht ht'
    rcases hmem t ht.1 with hin | rfl <;> rcases hmem t' ht'.1 with hin' | rfl
    · exact h.apart t t' i (hold t i hin ht) (hold t' i hin' ht')
    · exact absurd (hfile i ht') (h.not_mem_emptied hspares (hold t i hin ht))
    · exact absurd (hfile i ht) (h.not_mem_emptied hspares (hold t' i hin' ht'))
    · rfl

/-- A packet is written to the file of the capture that writes it, and to no other file of
a capture that was started without append. -/
theorem write (h : x.Intact) {p : Packet} {rc : ℤ} {os' : Os SockRef}
    (hspares : (CaptureAction.write task p).Spares x) (htask : task ∈ x.1.captures)
    (hrun : (ldabPcapWrite task.pcapFd p.payload p.pktLen p.pktSnaplen p.tvSec
      p.tvUsec).Exec Os.completeSem x.1.os rc os') :
    Intact ({ x.1 with os := os' }, x.add task.thread.addr p) := by
  have hany : (ldabPcapWrite task.pcapFd p.payload p.pktLen p.pktSnaplen p.tvSec
      p.tvUsec).Exec Os.anySem x.1.os rc os' :=
    hrun.mono _ fun op s r s' hs => hs.imp fun _ ho => ⟨trivial, ho.2⟩
  have hwrote : Os.WroteTo task.pcapFd x.1.os os' :=
    hany.of_wlp _ (Os.wlp_writesTo (uses_ldabPcapWrite _ _ _ _ _ _) x.1.os)
  have hnumbered : os'.Numbered := hany.of_wlp _ (Os.wlp_numbered _ h.numbered)
  have hself : x.add task.thread.addr p task.thread.addr =
      { x.2 task.thread.addr with packets := (x.2 task.thread.addr).packets ++ [p] } :=
    Function.update_self _ _ _
  have hother : ∀ task' ∈ x.1.captures, task' ≠ task →
      x.add task.thread.addr p task'.thread.addr = x.2 task'.thread.addr := by
    intro task' htask' hne
    exact Function.update_of_ne (fun haddr => hne (h.eq_of_addr htask' htask haddr)) _ _
  have hfd : ∀ task' ∈ x.1.captures, task' ≠ task → task'.pcapFd ∉ ({task.pcapFd} : Set ℤ) :=
    fun task' htask' hne heq => hne (h.pcapFd_inj task' htask' task htask heq)
  have howns : ∀ task' i, Owns ({ x.1 with os := os' }, x.add task.thread.addr p) task' i →
      x.Owns task' i := by
    rintro task' i ⟨htask', happend, hinode⟩
    dsimp only at happend hinode
    by_cases heq : task' = task
    · subst heq
      rw [hself] at happend
      exact ⟨htask', happend, by rw [← hinode, hwrote.inode]⟩
    · rw [hother task' htask' heq] at happend
      refine ⟨htask', happend, ?_⟩
      rw [← hinode]
      simp only [Os.inode, hwrote.within.fds _ (hfd task' htask' heq)]
  refine ⟨h.registered.steady ⟨rfl, rfl, le_rfl⟩, hnumbered, fun task' htask' => ?_,
    h.pcapFd_inj, fun t t' i ht ht' => h.apart t t' i (howns t i ht) (howns t' i ht')⟩
  have hkept := h.kept task' htask'
  dsimp only
  by_cases heq : task' = task
  · subst heq
    rw [hself]
    refine ⟨hwrote.opened hkept.opened, fun happend => ?_⟩
    obtain ⟨i, hdir, hend⟩ := hkept.stored happend
    have hpos : 0 < task'.pcapFd := pos_of_exec_ldabPcapWrite hany
    obtain ⟨-, hend'⟩ := hrun.of_wp _ (hend.wp_ldabPcapWrite hpos p)
    refine ⟨i, by rw [hwrote.within.dir_eq, hdir], ?_⟩
    rw [Recording.bytes, List.append_assoc] at hend'
    rw [Recording.bytes, records_append, recordsBytes_append]
    simpa [records, recordsBytes] using hend'
  · rw [hother task' htask' heq]
    refine hkept.within hwrote.within (hfd task' htask' heq) ?_ fun _ => Set.notMem_empty _
    intro happend i hinode hwritten
    -- The file that is written is not that of another capture.
    have htask'_owns : x.Owns task' i := ⟨htask', happend, hinode⟩
    by_cases happend' : (x.2 task.thread.addr).append = true
    · exact hspares happend' task' i htask'_owns hwritten
    · exact heq (h.apart task' task i htask'_owns ⟨htask, by simpa using happend', hwritten⟩)

/-- The step lemma. -/
theorem step {a : CaptureAction} {x' : Recorded} (h : x.Intact) (hspares : a.Spares x)
    (hstep : CaptureStep a x x') : x'.Intact := by
  cases hstep with
  | @start _ r rc w' hrun =>
      have hspec : Registered w' ∧ Rpc.Spec (.captureStart r) x.1 rc w' :=
        Rpc.spec_of_exec h.registered hrun
      exact h.start hspares hspec.1 (hrun.of_wlp _ (wlp_numbered _ h.numbered))
        (hrun.of_wlp _ (wlp_dabbadCaptureStart_files _ _))
  | stop hrun => exact hrun.of_wlp _ ((stopKeeps x.2).stopTask h _).wlp
  | stopAll hrun => exact hrun.of_wlp _ ((stopKeeps x.2).stopAllTasks h).wlp
  | write htask hrun => exact h.write hspares htask hrun

end Intact

/-- The PCAP file of every running capture that was started without append holds what
the capture has written since, and nothing else. -/
def Whole (x : Recorded) : Prop :=
  ∀ task ∈ x.1.captures, (x.2 task.thread.addr).append = false →
    Stores x.1.os (x.2 task.thread.addr).path (records (x.2 task.thread.addr).packets)

theorem Intact.whole (h : x.Intact) : x.Whole := by
  intro task htask happend
  obtain ⟨i, hdir, f, hf, rfl, -, -, -, hdata⟩ := (h.kept task htask).stored happend
  exact ⟨f.inode, hdir, hdata⟩

end Recorded

/-- In every run from a daemon without captures and replays in which no start without
append names the file of a running capture that was started without append, and no capture
that appends writes to such a file, these files hold what their captures have written. -/
theorem whole_of_reaches {w₀ : World} {g₀ : ℕ → Recording} {x : Recorded}
    (hqueues : w₀.queues = .empty) (hthreads : w₀.threads = [])
    (hnumbered : w₀.os.Numbered)
    (hrun : Reaches SparingStep (w₀, g₀) x) : x.Whole := by
  have hintact : x.Intact := by
    refine inv_of_reaches ?_ hrun (Recorded.Intact.empty hqueues hthreads hnumbered g₀)
    rintro s s' hs ⟨a, hspares, hstep⟩
    exact hs.step hspares hstep
  exact hintact.whole

section Example

def onePacket : Packet := ⟨[0x2a], 1, 0, 0, bytePacket.pos, bytePacket.lt⟩

theorem exec_ldabPcapWrite_of_run {fd : ℤ} {p : Packet} {rc : ℤ} {os os' : Os SockRef}
    (h : (ldabPcapWrite fd p.payload p.pktLen p.pktSnaplen p.tvSec p.tvUsec).run Os.handle
      (fun _ => .ok 0) os = some (rc, os')) :
    (ldabPcapWrite fd p.payload p.pktLen p.pktSnaplen p.tvSec p.tvUsec).Exec
      Os.completeSem os rc os' := by
  refine Prog.exec_of_run_of_uses (uses_ldabPcapWrite _ _ _ _ _ _) ?_ h
  intro n δ op s hop
  cases op with
  | write fd' bytes => exact rfl
  | _ => exact hop.elim

def Recorded.boot : Recorded := (.boot, fun _ => ⟨[], false, []⟩)

theorem exists_recorded_onePacket : ∃ (w₁ : World) (task : PacketTask) (os₂ : Os SockRef),
    (dabbadCaptureStart anyRequest).run World.handle goodScript .boot = some (0, w₁) ∧
      w₁.captures = [task] ∧
      (ldabPcapWrite task.pcapFd onePacket.payload onePacket.pktLen onePacket.pktSnaplen
        onePacket.tvSec onePacket.tvUsec).run Os.handle (fun _ => .ok 0) w₁.os =
          some (1, os₂) ∧
      ∃ w₃ : World, (dabbadCaptureStart unknownRequest).run World.handle
          (fun n => if n = 3 then .ok 0 else .ok (n + 20)) { w₁ with os := os₂ } =
            some ((enodev : ℤ), w₃) ∧ w₃.captures = [task] ∧
        ∀ i, w₃.os.dir [0x61] = some i → (w₃.os.data i).length = sizeofPcapFileHeader :=
  ⟨_, _, _, rfl, rfl, rfl, _, rfl, rfl, fun i hi => by cases hi; rfl⟩

theorem add_begin_boot (w₁ : World) (addr : ℕ) :
    Recorded.add (w₁, Recorded.boot.begin anyRequest) addr onePacket addr =
      ⟨[0x61], false, [onePacket]⟩ :=
  Function.update_self _ _ _

/-- One capture, which writes a packet. -/
theorem whole_of_reaches_onePacket : ∃ (x : Recorded) (task : PacketTask),
    Reaches SparingStep .boot x ∧ x.1.captures = [task] ∧
      (x.2 task.thread.addr).packets = [onePacket] ∧ x.Whole := by
  obtain ⟨w₁, task, os₂, hstart, hcaptures, hwrite, -⟩ := exists_recorded_onePacket
  have hmem : task ∈ w₁.captures := hcaptures ▸ List.mem_cons_self
  let x₁ : Recorded := (w₁, Recorded.boot.begin anyRequest)
  let x₂ : Recorded := ({ w₁ with os := os₂ }, x₁.add task.thread.addr onePacket)
  have hnotappend : (x₁.2 task.thread.addr).append = false := rfl
  have h₁ : SparingStep .boot x₁ :=
    ⟨.start anyRequest, fun _ task i howns => absurd howns.1 List.not_mem_nil,
      .start (exec_of_run hstart)⟩
  have h₂ : SparingStep x₁ x₂ :=
    ⟨.write task onePacket, fun happend => absurd (hnotappend.symm.trans happend)
      Bool.false_ne_true, .write hmem (exec_ldabPcapWrite_of_run hwrite)⟩
  have hreach := (Relation.ReflTransGen.single h₁).tail h₂
  have hrecording : x₂.2 task.thread.addr = ⟨[0x61], false, [onePacket]⟩ :=
    add_begin_boot w₁ task.thread.addr
  refine ⟨x₂, task, hreach, hcaptures, by rw [hrecording], ?_⟩
  exact whole_of_reaches rfl rfl ⟨fun _ _ h => (by cases h), fun _ _ h => (by cases h)⟩ hreach

/-- The capture wrote a packet, and then a start that failed emptied its file. -/
theorem not_whole_of_refused_start : ∃ x : Recorded,
    Reaches (fun x x' => ∃ a : CaptureAction, CaptureStep a x x') .boot x ∧ ¬ x.Whole := by
  obtain ⟨w₁, task, os₂, hstart, hcaptures, hwrite, w₃, hrefused, hcaptures₃, hdata⟩ :=
    exists_recorded_onePacket
  have hmem : task ∈ w₁.captures := hcaptures ▸ List.mem_cons_self
  let x₁ : Recorded := (w₁, Recorded.boot.begin anyRequest)
  let x₂ : Recorded := ({ w₁ with os := os₂ }, x₁.add task.thread.addr onePacket)
  let x₃ : Recorded := (w₃, x₂.begin unknownRequest)
  have h₁ : CaptureStep (.start anyRequest) .boot x₁ := .start (exec_of_run hstart)
  have h₂ : CaptureStep (.write task onePacket) x₁ x₂ :=
    .write hmem (exec_ldabPcapWrite_of_run hwrite)
  have h₃ : CaptureStep (.start unknownRequest) x₂ x₃ := .start (exec_of_run hrefused)
  refine ⟨x₃, ((Relation.ReflTransGen.single ⟨_, h₁⟩).tail ⟨_, h₂⟩).tail ⟨_, h₃⟩,
    fun hwhole => ?_⟩
  have hrecording : x₃.2 task.thread.addr = ⟨[0x61], false, [onePacket]⟩ :=
    (if_pos (List.mem_map_of_mem hmem)).trans (add_begin_boot w₁ task.thread.addr)
  have hmem₃ : task ∈ x₃.1.captures := hcaptures₃ ▸ List.mem_cons_self
  obtain ⟨i, hdir, hstored⟩ := hwhole task hmem₃ (by rw [hrecording])
  rw [hrecording] at hdir hstored
  have hlen := congrArg List.length hstored
  rw [hdata i hdir] at hlen
  simp [records] at hlen

end Example

end Dabbad
