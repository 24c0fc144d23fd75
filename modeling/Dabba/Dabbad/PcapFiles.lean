import Dabba.Dabbad.Balance
import Dabba.Pcap.Opening
import Dabba.Posix.Numbered

/-!
# The files a capture request touches

A start opens descriptors that were free, and changes no file but the one it creates.
A record that is queued has the PCAP descriptor that was opened; if the request does
not append, this descriptor is behind the header of the file that the path names.
-/

namespace Dabbad

open Posix Program Tpacket SockFilter Pcap

def World.captures (w : World) : List PacketTask := (w.queues.task .capture).nodes

def CaptureRequest.path (r : CaptureRequest) : Path := r.pcap.getD []

def CaptureRequest.Creates (r : CaptureRequest) : Prop :=
  r.areValid = true ∧ r.append = false

def CaptureRequest.emptied (r : CaptureRequest) (os : Os SockRef) : Set ℕ :=
  {i | r.Creates ∧ (os.dir r.path = some i ∨ os.next ≤ i)}

def CaptureRequest.named (r : CaptureRequest) (os : Os SockRef) : Set Path :=
  {p | r.Creates ∧ p = os.resolve r.path}

/-- The descriptor was opened for the request. -/
structure CaptureRequest.Opened (r : CaptureRequest) (os : Os SockRef) (fd : ℤ)
    (os' : Os SockRef) : Prop where
  free : os.fds fd = none
  opened : os'.fds fd ≠ none
  header : r.append = false → ∃ i ∈ r.emptied os, os'.dir r.path = some i ∧
    AtEnd os' fd i (createdHeader linktypeEn10mb).bytes

section Calls

variable {α : Type} {w w' : World} {F : Set ℤ} {I : Set ℕ} {P : Set Path}

theorem Call.IsClear.within {β : Type} {op : Call β} (h : Call.IsClear β op) (o : Outcome)
    (w : World) : Os.Within ∅ ∅ ∅ w.os (World.handle op o w).2.os := by
  cases op with
  | file op => exact Os.within_errno h w.os o
  | socketPacket => exact h.elim
  | socketInet => exact h.elim
  | pthreadCreate task => exact h.elim
  | pthreadCancel id => exact h.elim
  | setQueues q => exact h.elim
  | free p => cases p <;> exact .refl _
  | munmap b n => exact .refl _
  | getQueues => exact .refl _
  | _ =>
      cases o <;> simp only [World.handle] <;> repeat' split
      all_goals first
        | exact .refl _
        | exact Os.within_failed _

theorem World.numbered_handle (h : w.os.Numbered) {β : Type} (op : Call β) (o : Outcome) :
    (World.handle op o w).2.os.Numbered := by
  cases op with
  | file op => exact h.handle op o
  | socketPacket | socketInet =>
      cases o with
      | fail e => exact h.failed e
      | ok n =>
          simp only [World.handle]
          split_ifs
          · exact h.install_socket _
          · exact h.failed _
  | free p => cases p <;> exact h
  | munmap b n => exact h
  | getQueues => exact h
  | setQueues q => exact h
  | pthreadCreate task =>
      cases o with
      | fail e => exact h
      | ok id =>
          simp only [World.handle]
          split_ifs <;> exact h
  | _ =>
      cases o <;> simp only [World.handle] <;> repeat' split
      all_goals first
        | exact h
        | exact h.failed _

theorem wlp_clear {p : Prog Call α} (hp : p.Uses Call.IsClear) (w : World) :
    p.wlp World.anySem (fun _ w' => Os.Within ∅ ∅ ∅ w.os w'.os) w := by
  refine Prog.wlp_of_uses _ (R := fun s s' : World => Os.Within ∅ ∅ ∅ s.os s'.os)
    (fun s => .refl s.os) (fun _ _ _ h h' => h.trans h') ?_ hp w
  rintro δ op s r s' hop ⟨o, -, heq⟩
  have hwithin := hop.within o s
  rwa [heq] at hwithin

theorem wlp_daemonClose_within (fd : ℤ) (w : World) :
    (close fd).wlp World.anySem (fun _ w' => Os.Within {fd} ∅ ∅ w.os w'.os) w := by
  rintro r w' ⟨o, -, heq⟩
  obtain ⟨-, rfl⟩ := Prod.mk.inj heq
  exact Os.within_close w.os fd o

def Took (os : Os SockRef) (sock : ℤ) (os' : Os SockRef) : Prop :=
  (sock < 0 ∧ Os.Within ∅ ∅ ∅ os os') ∨
    (¬ sock < 0 ∧ os.fds sock = none ∧ os'.fds sock ≠ none ∧ Os.Within {sock} ∅ ∅ os os')

theorem took_install {n : ℕ} (hfresh : w.os.Fresh n) (d : Descriptor SockRef) :
    Took w.os n (w.os.install n d) := by
  refine .inr ⟨by omega, hfresh.2, ?_, Os.within_install _ _ _⟩
  rw [Os.install_fds_self]
  exact Option.some_ne_none d

theorem took_failed (e : ℕ) : Took w.os (-1) (w.os.failed e) :=
  .inl ⟨by decide, Os.within_failed e⟩

theorem took_socket {op : Call ℤ} (hop : op = .socketPacket ∨ op = .socketInet) {sock : ℤ}
    (h : World.anySem op w sock w') : Took w.os sock w'.os := by
  obtain ⟨o, -, heq⟩ := h
  obtain ⟨e, hfailed⟩ | ⟨n, ref, x, nextSock, hfresh, hok⟩ := World.handle_socket hop o w
  · obtain ⟨rfl, rfl⟩ := Prod.mk.inj (hfailed.symm.trans heq)
    exact took_failed e
  · obtain ⟨rfl, rfl⟩ := Prod.mk.inj (hok.symm.trans heq)
    exact took_install hfresh _

abbrev OpensOnly (os os' : Os SockRef) : Prop := Os.Within {fd | os.fds fd = none} ∅ ∅ os os'

theorem OpensOnly.clear {os os' os'' : Os SockRef} (h : OpensOnly os os')
    (h' : Os.Within ∅ ∅ ∅ os' os'') : OpensOnly os os'' :=
  h.trans (h'.mono (Set.empty_subset _) le_rfl le_rfl)

theorem OpensOnly.close {os os' os'' : Os SockRef} (h : OpensOnly os os') {fd : ℤ}
    (hfd : os.fds fd = none) (h' : Os.Within {fd} ∅ ∅ os' os'') : OpensOnly os os'' :=
  h.trans (h'.mono (Set.singleton_subset_iff.2 hfd) le_rfl le_rfl)

theorem wlp_ifindexRequest_within (name : Path) (w : World) :
    (ifindexRequest name).wlp World.anySem (fun _ w' => OpensOnly w.os w'.os) w := by
  intro sock w₁ hsem
  obtain ⟨hsock, h₁⟩ | ⟨hsock, hfree, -, h₁⟩ := took_socket (.inr rfl) hsem
  · simp only [Prog.ret_bind, if_pos hsock]
    refine Prog.wlp_bind_of _ (wlp_clear clear_errno w₁) fun _ w₂ h₂ => ?_
    exact (OpensOnly.clear (.refl _) h₁).clear h₂
  · simp only [Prog.ret_bind, if_neg hsock]
    have hasks : (Prog.perform (Call.siocgifindex sock name)).Uses Call.IsClear := by
      simp [Call.IsClear, Call.IsPlain]
    refine Prog.wlp_bind_of _ (wlp_clear hasks w₁) fun i w₂ h₂ => ?_
    refine Prog.wlp_bind_of _ (wlp_daemonClose_within sock w₂) fun _ w₃ h₃ => ?_
    have h := ((OpensOnly.close (.refl _) hfree h₁).clear h₂).close hfree h₃
    cases i with
    | some i => exact h
    | none =>
        refine Prog.wlp_bind_of _ (wlp_clear clear_errno w₃) fun _ w₄ h₄ => ?_
        exact h.clear h₄

theorem wlp_ldabPacketMmapCreate_within (dev : Path) (pfSock : ℤ) (type : PacketMmapType)
    (frameSize : BitVec 32) (frameNr : BitVec 64) (w : World) :
    (ldabPacketMmapCreate dev pfSock type frameSize frameNr).wlp World.anySem
      (fun _ w' => OpensOnly w.os w'.os) w := by
  have hname : (ldabDevnameToIfindex dev).wlp World.anySem
      (fun _ w' => OpensOnly w.os w'.os) w := by
    unfold ldabDevnameToIfindex
    split_ifs
    · exact .refl _
    · exact wlp_ifindexRequest_within _ w
  unfold ldabPacketMmapCreate
  split_ifs
  · exact .refl _
  · refine Prog.wlp_bind_of _ hname fun r w₁ h₁ => ?_
    obtain ⟨rc, ifindex⟩ := r
    dsimp only
    split_ifs
    · exact h₁
    · exact h₁
    · refine Prog.wlp_mono _ (wlp_clear (clear_runStages (fun _ h => h) _) w₁) ?_
      exact fun _ w₂ h₂ => h₁.clear h₂

end Calls

section Start

variable {r : CaptureRequest} {w w' : World}

/-- Opening the PCAP file, whatever the outcomes. -/
theorem wlp_openCapturePcap_opened (hvalid : r.areValid = true) (w : World) :
    (openCapturePcap r.append r.path).wlp World.anySem (fun fd w' =>
      Os.Within {fd | w.os.fds fd = none} (r.emptied w.os) (r.named w.os) w.os w'.os ∧
        (¬ fd < 0 → r.Opened w.os fd w'.os)) w := by
  unfold openCapturePcap
  split_ifs with happend
  · refine wlp_fileProg (Prog.wlp_mono _ (Prog.wlp_and _
      (wlp_ldabPcapOpen_append r.path w.os) (wlp_ldabPcapOpen r.path _)) ?_)
    rintro fd os' ⟨hopened, hset⟩
    refine ⟨hopened.within.mono le_rfl (Set.empty_subset _) (Set.empty_subset _),
      fun hfd => ?_⟩
    rw [Os.Opened, if_neg hfd] at hset
    have hmem : fd ∈ os'.openFds := hset.2 ▸ Set.mem_insert _ _
    exact ⟨not_not.1 hset.1, hmem, fun h => by rw [h] at happend; cases happend⟩
  · have hcreates : r.Creates := ⟨hvalid, by simpa using happend⟩
    have hemptied : (w.os.truncated r.path).1 ∈ r.emptied w.os := by
      refine ⟨hcreates, ?_⟩
      unfold Os.truncated
      cases hdir : w.os.dir r.path with
      | none => exact .inr le_rfl
      | some i => exact .inl rfl
    refine wlp_fileProg (Prog.wlp_mono _
      (wlp_ldabPcapCreate_created r.path linktypeEn10mb w.os) ?_)
    intro fd os' hcreated
    refine ⟨hcreated.within.mono le_rfl (Set.singleton_subset_iff.2 hemptied)
      (Set.singleton_subset_iff.2 ⟨hcreates, rfl⟩), fun hfd => ?_⟩
    obtain ⟨hfree, hdir, hend⟩ := hcreated.created (by omega)
    refine ⟨hfree, ?_, fun _ => ⟨_, hemptied, hdir, hend⟩⟩
    obtain ⟨f, hf, -⟩ := hend
    dsimp only
    rw [hf]
    exact Option.some_ne_none _

theorem CaptureRequest.Opened.within {os os' os'' : Os SockRef} {fd : ℤ} {F : Set ℤ}
    (h : r.Opened os fd os') (hwithin : Os.Within F ∅ ∅ os' os'') (hfd : fd ∉ F) :
    r.Opened os fd os'' := by
  have hsame := hwithin.fds fd hfd
  refine ⟨h.free, hsame ▸ h.opened, fun happend => ?_⟩
  obtain ⟨i, hi, hdir, f, hf, hrest⟩ := h.header happend
  refine ⟨i, hi, by rw [hwithin.dir_eq, hdir], f, hsame.trans hf, ?_⟩
  rw [hwithin.data_eq]
  exact hrest

abbrev CaptureRequest.Spares (r : CaptureRequest) (os os' : Os SockRef) : Prop :=
  Os.Within {fd | os.fds fd = none} (r.emptied os) (r.named os) os os'

theorem CaptureRequest.spares_of_opensOnly {os os' : Os SockRef} (h : OpensOnly os os') :
    r.Spares os os' :=
  h.mono le_rfl (Set.empty_subset _) (Set.empty_subset _)

theorem CaptureRequest.emptied_subset {os os' : Os SockRef} (h : OpensOnly os os') :
    r.emptied os' ⊆ r.emptied os := by
  rintro i ⟨hcreates, hi⟩
  rw [h.dir_eq] at hi
  exact ⟨hcreates, hi.imp_right fun hle => le_trans h.next hle⟩

theorem CaptureRequest.named_subset {os os' : Os SockRef} (h : OpensOnly os os') :
    r.named os' ⊆ r.named os := by
  rintro p ⟨hcreates, hp⟩
  exact ⟨hcreates, h.resolve ▸ hp⟩

theorem CaptureRequest.Opened.of_opensOnly {os os' os'' : Os SockRef} {fd : ℤ}
    (hbefore : OpensOnly os os') (h : r.Opened os' fd os'') : r.Opened os fd os'' := by
  refine ⟨hbefore.free_subset h.free, h.opened, fun happend => ?_⟩
  obtain ⟨i, hi, hfile⟩ := h.header happend
  exact ⟨i, CaptureRequest.emptied_subset hbefore hi, hfile⟩

theorem clear_calloc : (Prog.perform Call.calloc).Uses Call.IsClear := ⟨trivial, fun _ => trivial⟩

theorem clear_free (p : Option ℕ) : (Prog.perform (Call.free p)).Uses Call.IsClear :=
  ⟨trivial, fun _ => trivial⟩

/-- The first part of a start. -/
theorem wlp_openTask_files (r : CaptureRequest) (w : World) :
    (openTask r.toSettings (openCapturePcap r.append)).wlp World.anySem (fun x w' =>
      r.Spares w.os w'.os ∧ ∀ sock addr fd, x = .inr (sock, addr, fd) →
        r.Opened w.os fd w'.os ∧ w.os.fds sock = none ∧ fd ≠ sock) w := by
  unfold openTask
  split_ifs with hvalid
  · exact ⟨.refl _, fun _ _ _ h => by cases h⟩
  intro sock w₁ hsem
  obtain ⟨hsock, h₁⟩ | ⟨hsock, hfree, hopen, h₁⟩ := took_socket (.inl rfl) hsem
  · simp only [Prog.ret_bind, if_pos hsock]
    refine Prog.wlp_bind_of _ (wlp_clear clear_errno w₁) fun rc w₂ h₂ => ?_
    exact ⟨CaptureRequest.spares_of_opensOnly ((OpensOnly.clear (.refl _) h₁).clear h₂),
      fun _ _ _ h => by cases h⟩
  simp only [Prog.ret_bind, if_neg hsock]
  refine Prog.wlp_bind_of _ (wlp_clear clear_calloc w₁) fun addr w₂ h₂ => ?_
  have hbefore : OpensOnly w.os w₂.os := (OpensOnly.close (.refl _) hfree h₁).clear h₂
  cases addr with
  | none =>
      refine Prog.wlp_bind_of _ (wlp_daemonClose_within sock w₂) fun _ w₃ h₃ => ?_
      exact ⟨CaptureRequest.spares_of_opensOnly (hbefore.close hfree h₃),
        fun _ _ _ h => by cases h⟩
  | some addr =>
      have hsame : r.areValid = true := by simpa using hvalid
      refine Prog.wlp_bind_of _ (wlp_openCapturePcap_opened hsame w₂) ?_
      rintro fd w₃ ⟨h₃, hfile⟩
      have hspares : r.Spares w.os w₃.os :=
        (CaptureRequest.spares_of_opensOnly hbefore).trans_free h₃
          (CaptureRequest.emptied_subset hbefore) (CaptureRequest.named_subset hbefore)
      split_ifs with hfd
      · refine Prog.wlp_bind_of _ (wlp_clear clear_errno w₃) fun rc w₄ h₄ => ?_
        refine Prog.wlp_bind_of _ (wlp_clear (clear_free _) w₄) fun _ w₅ h₅ => ?_
        refine Prog.wlp_bind_of _ (wlp_daemonClose_within sock w₅) fun _ w₆ h₆ => ?_
        have hclosed : Os.Within {sock} ∅ ∅ w₃.os w₆.os :=
          ((h₄.trans h₅).mono (Set.empty_subset _) le_rfl le_rfl).trans h₆
        exact ⟨hspares.trans (hclosed.mono (Set.singleton_subset_iff.2 hfree)
          (Set.empty_subset _) (Set.empty_subset _)), fun _ _ _ h => by cases h⟩
      · refine ⟨hspares, ?_⟩
        rintro _ _ _ ⟨⟩
        refine ⟨.of_opensOnly hbefore (hfile hfd), hfree, ?_⟩
        -- The socket was open when the descriptor was still free.
        rintro rfl
        rw [← h₂.fds fd (Set.notMem_empty fd)] at hopen
        exact hopen (hfile hfd).free

/-- The second part of a start closes its socket, and opens descriptors. -/
theorem wlp_runTask_within (r : CaptureRequest) (sock : ℤ) (addr : ℕ) (fd : ℤ) (w : World) :
    (runTask .capture .rx r.toSettings (attachCaptureFilter r.sfp) dabbadSfpDestroy sock addr
      fd).wlp World.anySem
      (fun _ w' => Os.Within ({fd | w.os.fds fd = none} ∪ {sock}) ∅ ∅ w.os w'.os) w := by
  have hclear : ∀ {p : Prog Call Unit} w₁, p.Uses Call.IsClear → OpensOnly w.os w₁.os →
      p.wlp World.anySem (fun _ w' => OpensOnly w.os w'.os) w₁ :=
    fun w₁ hp h₁ => Prog.wlp_mono _ (wlp_clear hp w₁) fun _ _ h₂ => h₁.clear h₂
  apply wlp_runTask_in (S := World.anySem) (fun _ _ _ _ h => h)
    (A := fun _ w' => OpensOnly w.os w'.os)
    (M := fun _ w' => OpensOnly w.os w'.os) (E := fun w' => OpensOnly w.os w'.os)
  case hattach =>
    refine Prog.wlp_mono _ (wlp_clear (clear_attachCaptureFilter r.sfp sock) w)
      fun a w₁ h₁ => ?_
    simpa using OpensOnly.clear (.refl _) h₁
  case hcreate =>
    intro sfp w₁ h₁
    refine Prog.wlp_mono _ (wlp_ldabPacketMmapCreate_within _ _ _ _ _ w₁) fun a w₂ h₂ => ?_
    simpa using h₁.trans_free h₂ le_rfl le_rfl
  case hfail => exact fun _ _ h => h
  case horphan => exact fun _ _ _ h _ => h
  case hdestroy => exact fun m w₁ => hclear w₁ (clear_destroy m)
  case hsfpDestroy => exact fun sfp w₁ => hclear w₁ (clear_free sfp.filter)
  case hrelease =>
    intro rc w₁ _ h₁
    refine Prog.wlp_bind_of _ (wlp_clear (clear_free _) w₁) fun _ w₂ h₂ => ?_
    refine Prog.wlp_bind_of _ (wlp_daemonClose_within sock w₂) fun _ w₃ h₃ => ?_
    exact ((h₁.clear h₂).mono Set.subset_union_left le_rfl le_rfl).trans
      (h₃.mono Set.subset_union_right le_rfl le_rfl)
  case hok => exact fun _ _ _ h _ => h.mono Set.subset_union_left le_rfl le_rfl

/-- What a start does to the files and to the queue of the captures. -/
structure StartedCapture (r : CaptureRequest) (w w' : World) : Prop where
  spares : r.Spares w.os w'.os
  queued : w'.captures = w.captures ∨ ∃ task, w'.captures = w.captures ++ [task] ∧
    r.Opened w.os task.pcapFd w'.os

theorem wlp_dabbadCaptureStart_files (r : CaptureRequest) (w : World) :
    (dabbadCaptureStart r).wlp World.anySem (fun _ w' => StartedCapture r w w') w := by
  refine Prog.wlp_mono _ (Q := fun rc w' => (StartSpec .capture w rc w') ∧
    r.Spares w.os w'.os ∧ (rc = 0 → w'.captures = w.captures ∨ ∃ task,
      w'.captures = w.captures ++ [task] ∧ r.Opened w.os task.pcapFd w'.os)) ?_ ?_
  · refine Prog.wlp_and _ (Prog.wlp_mono _ (wlp_startTask (steadyStart_capture r) _ _ _ w)
      fun rc w' h => h.spec) ?_
    refine Prog.wlp_bind_of _ (Prog.wlp_and _ (wlp_openTask
      (steadyStart_capture r).openPcap r.toSettings) (wlp_openTask_files r w)) ?_
    rintro x w₁ ⟨⟨hsteady, -⟩, hspares, hopened⟩
    cases x with
    | inl rc =>
        have hsame : w₁.captures = w.captures := by
          rw [World.captures, hsteady.queues_eq, World.captures]
        exact ⟨hspares, fun _ => .inl hsame⟩
    | inr acquired =>
        obtain ⟨sock, addr, fd⟩ := acquired
        obtain ⟨hfile, hsock, hne⟩ := hopened sock addr fd rfl
        refine Prog.wlp_mono _ (Prog.wlp_and _ (wlp_runTask_within r sock addr fd w₁)
          (wlp_runTask_inserts (fdStart_capture r) sock addr fd w₁)) ?_
        rintro rc w' ⟨hwithin, hinserts⟩
        have hfree : ({fd | w₁.os.fds fd = none} ∪ {sock} : Set ℤ) ⊆
            {fd | w.os.fds fd = none} :=
          Set.union_subset hspares.free_subset (Set.singleton_subset_iff.2 hsock)
        refine ⟨hspares.trans (hwithin.mono hfree (Set.empty_subset _)
          (Set.empty_subset _)), fun hrc => ?_⟩
        obtain ⟨task, htype, hfds, hqueues, -⟩ := hinserts hrc
        obtain ⟨-, rfl⟩ : task.pktMmap.pfSock = sock ∧ task.pcapFd = fd := by
          simpa [PacketTask.fds] using hfds
        refine .inr ⟨task, ?_, hfile.within hwithin ?_⟩
        · rw [World.captures, hqueues, ← htype, Queues.insertTask_task_self, hsteady.queues_eq]
          rw [World.captures, htype]
          rfl
        · rintro (hnone | rfl)
          · exact hfile.opened hnone
          · exact hne rfl
  · rintro rc w' ⟨hspec, hspares, hqueued⟩
    by_cases hrc : rc = 0
    · exact ⟨hspares, hqueued hrc⟩
    · refine ⟨hspares, .inl ?_⟩
      rw [World.captures, hspec.failure hrc, World.captures]

end Start

theorem wlp_releaseTask_within (task : PacketTask) (w : World) :
    (releaseTask captureUnfilter task).wlp World.anySem
      (fun _ w' => Os.Within {task.pcapFd} ∅ ∅ w.os w'.os) w := by
  have hclear : ∀ {w₁ w₂ : World}, Os.Within {task.pcapFd} ∅ ∅ w.os w₁.os →
      Os.Within ∅ ∅ ∅ w₁.os w₂.os → Os.Within {task.pcapFd} ∅ ∅ w.os w₂.os :=
    fun h₁ h₂ => h₁.trans (h₂.mono (Set.empty_subset _) le_rfl le_rfl)
  simp only [releaseTask, dabbadTaskRemove, Prog.bind_eq, Prog.liftM_eq,
    Prog.wlp_bind, wlp_getQueues, wlp_setQueues, Prog.wlp_assert]
  intro _
  simp only [← Prog.wlp_bind]
  refine Prog.wlp_bind_of _ (wlp_clear (clear_captureUnfilter task) _) fun _ w₁ h₁ => ?_
  refine Prog.wlp_bind_of _ (wlp_daemonClose_within _ w₁) fun _ w₂ h₂ => ?_
  have hclosed := (hclear (.refl _) h₁).trans h₂
  refine Prog.wlp_bind_of _ (wlp_clear (clear_destroy _) w₂) fun _ w₃ h₃ => ?_
  refine Prog.wlp_mono _ (wlp_clear (clear_free _) w₃) fun _ w₄ h₄ => ?_
  exact hclear (hclear hclosed h₃) h₄

theorem wlp_numbered {α : Type} (p : Prog Call α) {w : World} (h : w.os.Numbered) :
    p.wlp World.anySem (fun _ w' => w'.os.Numbered) w := by
  refine Prog.wlp_keep _ (I := fun w : World => w.os.Numbered) ?_ p h
  rintro δ op s r s' hs ⟨o, -, heq⟩
  have hnumbered : (World.handle op o s).2.os.Numbered := World.numbered_handle hs op o
  rwa [heq] at hnumbered

end Dabbad
