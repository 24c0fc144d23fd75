import Dabba.Dabbad.Run
import Dabba.Posix.OpenFds

/-!
# Descriptors after a failed start

A start opens a packet socket, the PCAP file, and for a moment a socket to ask
for the interface index. When it fails after the PCAP file was opened, every error
branch closes the packet socket, but none closes the file. So a failed start
leaves the descriptors as they were exactly if the request was refused, or the
socket, the record or the file could not be had.
-/

namespace Dabbad

open Posix Program Tpacket SockFilter Pcap

def World.openFds (w : World) : Set ℤ := w.os.openFds

/-- The calls that neither open nor close a descriptor. -/
def Call.KeepsFds : ∀ β : Type, Call β → Prop
  | _, .file op => FileCall.KeepsFds _ op
  | _, .socketPacket => False
  | _, .socketInet => False
  | _, _ => True

theorem Call.KeepsFds.openFds {β : Type} {op : Call β} (h : Call.KeepsFds β op)
    (o : Outcome) (w : World) : (World.handle op o w).2.openFds = w.openFds := by
  cases op with
  | file op => exact Os.openFds_handle h o
  | socketPacket => exact h.elim
  | socketInet => exact h.elim
  | free p => cases p <;> rfl
  | munmap b n => rfl
  | getQueues => rfl
  | setQueues q => rfl
  | pthreadCreate task =>
      cases o with
      | ok id =>
          simp only [World.handle]
          split_ifs <;> rfl
      | fail e => rfl
  | _ =>
      cases o <;> simp only [World.handle] <;> repeat' split
      all_goals rfl

section Wlp

variable {α : Type} {Q : α → World → Prop} {w : World}

theorem wlp_keepsFds {p : Prog Call α} (hp : p.Uses Call.KeepsFds) (w : World) :
    p.wlp World.anySem (fun _ w' => w'.openFds = w.openFds) w := by
  refine Prog.wlp_of_uses _ (R := fun s s' : World => s'.openFds = s.openFds)
    (fun _ => rfl) (fun _ _ _ h h' => h'.trans h) ?_ hp w
  rintro δ op s r s' hop ⟨o, -, heq⟩
  have hset := hop.openFds o s
  rw [heq] at hset
  exact hset

theorem wlp_fileProg {p : Prog FileCall α}
    (h : p.wlp Os.anySem (fun a os' => Q a { w with os := os' }) w.os) :
    (fileProg p).wlp World.anySem Q w := by
  induction p generalizing w with
  | ret a => exact h
  | abort => trivial
  | call op k ih =>
      rintro r w' ⟨o, -, heq⟩
      obtain ⟨rfl, rfl⟩ := Prod.mk.inj heq
      exact ih _ (h _ _ ⟨o, trivial, rfl⟩)

theorem wlp_daemonClose {fd : ℤ} (w : World) :
    (close fd).wlp World.anySem (fun _ w' => w'.openFds = w.openFds \ {fd}) w := by
  rintro r w' ⟨o, -, heq⟩
  obtain ⟨-, rfl⟩ := Prod.mk.inj heq
  exact Os.openFds_close o

end Wlp

section OpenPcap

variable {S : Type} {os : Os S}

/-- Creating a PCAP file opens its descriptor or none. -/
theorem wlp_ldabPcapCreate (pcapPath : Path) (linktype : BitVec 32) :
    (ldabPcapCreate pcapPath linktype).wlp Os.anySem (Os.Opened os) os := by
  refine Os.wlp_creat fun fd os₁ hopened => ?_
  rw [Os.Opened] at hopened
  split_ifs at hopened ⊢ with hfd
  · exact Os.opened_of_failed hopened
  · refine Prog.wlp_bind_of _ (Os.wlp_keepsFds (uses_pcapFileHeaderWrite _ _ _ _) os₁) ?_
    intro rc os₂ h₂
    split_ifs
    · simp only [ldabPcapDestroy, Prog.bind_eq, Prog.liftM_eq, Prog.wlp_bind,
        Prog.wlp_assert]
      intro _
      simp only [← Prog.wlp_bind]
      refine Os.wlp_close fun _ os₃ h₃ => ?_
      refine Prog.wlp_bind_of _ (Os.wlp_keepsFds (by simp [FileCall.KeepsFds]) os₃) ?_
      intro _ os₄ h₄
      refine Os.opened_of_failed ?_
      rw [h₄, h₃, h₂, hopened.2, Set.insert_sdiff_self_of_notMem hopened.1]
    · rw [Prog.pure_eq, Prog.wlp_ret, Os.Opened, if_neg hfd, h₂]
      exact hopened

/-- Opening a PCAP file opens its descriptor or none. -/
theorem wlp_ldabPcapOpen (pcapPath : Path) (flags : BitVec 32) :
    (ldabPcapOpen pcapPath flags).wlp Os.anySem (Os.Opened os) os := by
  -- Closing the descriptor that was just opened.
  have hclose : ∀ (fd : ℤ) {os' : Os S}, fd ∉ os.openFds →
      os'.openFds = insert fd os.openFds →
      ((ldabPcapClose fd).bind fun _ => (Prog.ret (-1) : Prog FileCall ℤ)).wlp
        Os.anySem (Os.Opened os) os' := by
    intro fd os' hnotin hset
    refine Os.wlp_close fun _ os₁ h₁ => Os.opened_of_failed ?_
    rw [h₁, hset, Set.insert_sdiff_self_of_notMem hnotin]
  refine Os.wlp_openAt fun fd os₁ hopened => ?_
  rw [Os.Opened] at hopened
  split_ifs at hopened ⊢ with hfd happend
  · exact Os.opened_of_failed hopened
  · refine Prog.wlp_bind_of _ (Os.wlp_keepsFds (uses_pcapIsValid fd) os₁) ?_
    intro valid os₂ h₂
    have hset : os₂.openFds = insert fd os.openFds := h₂.trans hopened.2
    split_ifs
    · exact hclose fd hopened.1 hset
    · refine Prog.wlp_bind_of _ (Os.wlp_keepsFds (by simp [FileCall.KeepsFds]) os₂) ?_
      intro off os₃ h₃
      split_ifs
      · exact hclose fd hopened.1 (h₃.trans hset)
      · rw [Prog.pure_eq, Prog.wlp_ret, Os.Opened, if_neg hfd, h₃]
        exact ⟨hopened.1, hset⟩
  · refine Prog.wlp_bind_of _ (Os.wlp_keepsFds (uses_pcapIsValid fd) os₁) ?_
    intro valid os₂ h₂
    have hset : os₂.openFds = insert fd os.openFds := h₂.trans hopened.2
    split_ifs
    · exact hclose fd hopened.1 hset
    · rw [Prog.pure_eq, Prog.wlp_ret, Os.Opened, if_neg hfd]
      exact ⟨hopened.1, hset⟩

end OpenPcap

theorem Call.IsPlain.keepsFds (β : Type) (op : Call β) (h : Call.IsPlain β op) :
    Call.KeepsFds β op := by
  cases op <;> first | exact h | trivial

theorem wlp_plain_openFds {α : Type} {p : Prog Call α} (hp : p.Uses Call.IsPlain)
    (w : World) : p.wlp World.anySem (fun _ w' => w'.openFds = w.openFds) w :=
  wlp_keepsFds (hp.mono Call.IsPlain.keepsFds) w

theorem usesFds_dabbadThreadStart (task : PacketTask) :
    (dabbadThreadStart task).Uses Call.KeepsFds := by
  refine ⟨trivial, fun r => ?_⟩
  simp [dabbadThreadInsert, Call.KeepsFds]

section Start

variable {type : PacketThreadType} {ringType : PacketMmapType} {s : Settings}
variable {openPcap : Path → Prog Call ℤ} {attach : ℤ → Prog Call (ℤ × Sfp)}
variable {sfpDestroy : Sfp → Prog Call Unit} {w w' : World} {rc : ℤ}

theorem opened_socket {op : Call ℤ} (hop : op = .socketPacket ∨ op = .socketInet)
    (o : Outcome) (w : World) :
    Os.Opened w.os (World.handle op o w).1 (World.handle op o w).2.os := by
  obtain ⟨e, heq⟩ | ⟨n, ref, sock, nextSock, hfresh, heq⟩ := World.handle_socket hop o w
  · rw [heq]
    exact Os.opened_of_failed rfl
  · rw [heq]
    exact Os.opened_of_fresh hfresh (Os.openFds_install _)

theorem wlp_socketInet {α : Type} {Q : α → World → Prop} {k : ℤ → Prog Call α}
    (h : ∀ sock w', Os.Opened w.os sock w'.os → (k sock).wlp World.anySem Q w') :
    ((Prog.perform .socketInet).bind k).wlp World.anySem Q w := by
  rintro sock w' ⟨o, -, heq⟩
  have hopened := opened_socket (.inr rfl) o w
  rw [heq] at hopened
  exact h sock w' hopened

/-- The socket for the interface index is closed again. -/
theorem wlp_ifindexRequest (name : Path) (w : World) :
    (ifindexRequest name).wlp World.anySem
      (fun _ w' => w'.openFds = w.openFds) w := by
  refine wlp_socketInet fun sock w₁ hopened => ?_
  rw [Os.Opened] at hopened
  split_ifs at hopened ⊢ with hsock
  · refine Prog.wlp_bind_of _ (wlp_plain_openFds uses_errno w₁) fun _ w₂ h₂ => ?_
    exact h₂.trans hopened
  · refine Prog.wlp_bind_of _ (wlp_plain_openFds (by simp [Call.IsPlain]) w₁) ?_
    intro i w₂ h₂
    refine Prog.wlp_bind_of _ (wlp_daemonClose w₂) fun _ w₃ h₃ => ?_
    have hset : w₃.openFds = w.openFds := by
      rw [h₃, h₂]
      exact (congrArg (· \ {sock}) hopened.2).trans
        (Set.insert_sdiff_self_of_notMem hopened.1)
    cases i with
    | some i => exact hset
    | none =>
        refine Prog.wlp_bind_of _ (wlp_plain_openFds uses_errno w₃) fun _ w₄ h₄ => ?_
        exact h₄.trans hset

theorem wlp_ldabPacketMmapCreate_openFds (dev : Path) (pfSock : ℤ)
    (type : PacketMmapType) (frameSize : BitVec 32) (frameNr : BitVec 64)
    (w : World) :
    (ldabPacketMmapCreate dev pfSock type frameSize frameNr).wlp World.anySem
      (fun _ w' => w'.openFds = w.openFds) w := by
  have hname : (ldabDevnameToIfindex dev).wlp World.anySem
      (fun _ w' => w'.openFds = w.openFds) w := by
    unfold ldabDevnameToIfindex
    split_ifs
    · exact rfl
    · exact wlp_ifindexRequest _ w
  unfold ldabPacketMmapCreate
  split_ifs
  · exact rfl
  · refine Prog.wlp_bind_of _ hname fun r w₁ h₁ => ?_
    obtain ⟨rc, ifindex⟩ := r
    dsimp only
    split_ifs
    · exact h₁
    · exact h₁
    · refine Prog.wlp_mono _ (wlp_plain_openFds (uses_runStages (fun _ h => h) _) w₁) ?_
      exact fun _ w₂ h₂ => h₂.trans h₁

/-- What the two kinds of requests put into a start, as far as descriptors are
concerned. -/
structure FdStart (openPcap : Path → Prog Call ℤ)
    (attach : ℤ → Prog Call (ℤ × Sfp)) (sfpDestroy : Sfp → Prog Call Unit) :
    Prop where
  openPcap : ∀ pcap w, (openPcap pcap).wlp World.anySem
    (fun fd w' => Os.Opened w.os fd w'.os) w
  attach : ∀ sock, (attach sock).Uses Call.IsPlain
  sfpDestroy : ∀ sfp, (sfpDestroy sfp).Uses Call.IsPlain

/-- When the second part of a start fails, only the packet socket is closed. -/
theorem wlp_runTask_openFds (hstart : FdStart openPcap attach sfpDestroy)
    (sock : ℤ) (addr : ℕ) (fd : ℤ) (w : World) :
    (runTask type ringType s attach sfpDestroy sock addr fd).wlp World.anySem
      (fun rc w' => rc ≠ 0 → w'.openFds = w.openFds \ {sock}) w := by
  -- The end of every error branch.
  have hrelease : ∀ (rc : ℤ) {w₁ : World}, w₁.openFds = w.openFds →
      (do
        Call.free (some addr)
        let _ ← close sock
        return rc : Prog Call ℤ).wlp World.anySem
        (fun rc w' => rc ≠ 0 → w'.openFds = w.openFds \ {sock}) w₁ := by
    intro rc w₁ h₁
    refine Prog.wlp_bind_of _ (wlp_plain_openFds (by simp [Call.IsPlain]) w₁) ?_
    intro _ w₂ h₂
    refine Prog.wlp_bind_of _ (wlp_daemonClose w₂) fun _ w₃ h₃ _ => ?_
    rw [h₃, h₂, h₁]
  refine Prog.wlp_bind_of _ (wlp_plain_openFds (hstart.attach sock) w) fun r w₁ h₁ => ?_
  obtain ⟨rc, sfp⟩ := r
  dsimp only
  split_ifs
  · exact hrelease rc h₁
  · refine Prog.wlp_bind_of _ (wlp_ldabPacketMmapCreate_openFds _ _ _ _ _ w₁) ?_
    intro r w₂ h₂
    obtain ⟨rc, pktMmap⟩ := r
    have hset₂ := h₂.trans h₁
    dsimp only
    split_ifs
    · refine Prog.wlp_bind_of _ (wlp_plain_openFds (hstart.sfpDestroy sfp) w₂) ?_
      exact fun _ w₃ h₃ => hrelease rc (h₃.trans hset₂)
    · refine Prog.wlp_bind_of _ (wlp_keepsFds (usesFds_dabbadThreadStart _) w₂) ?_
      intro r w₃ h₃
      obtain ⟨rc, thread⟩ := r
      have hset₃ := h₃.trans hset₂
      dsimp only
      split_ifs
      · refine Prog.wlp_bind_of _ (wlp_plain_openFds (uses_destroy pktMmap) w₃) ?_
        intro _ w₄ h₄
        refine Prog.wlp_bind_of _ (wlp_plain_openFds (hstart.sfpDestroy sfp) w₄) ?_
        exact fun _ w₅ h₅ => hrelease rc (h₅.trans (h₄.trans hset₃))
      · simp [dabbadTaskInsert, Prog.wlp_call]

/-- The request is refused, or the socket, the record or the PCAP file cannot be
had. The calls of the start take their outcomes from the script. -/
def FailsToOpen (s : Settings) (openPcap : Path → Prog Call ℤ)
    (script : ℕ → Outcome) (w : World) : Prop :=
  let (sock, w₁) := World.handle .socketPacket (script 0) w
  let (addr, w₂) := World.handle .calloc (script 1) w₁
  s.areValid = false ∨ sock < 0 ∨ addr = none ∨
    ∃ fd w₃, (openPcap (s.pcap.getD [])).run World.handle
      (fun n => script (n + 2)) w₂ = some (fd, w₃) ∧ fd < 0

def OpenSpec (fails : Prop) (w : World) (r : ℤ ⊕ (ℤ × ℕ × ℤ)) (w' : World) : Prop :=
  match r with
  | .inl _ => fails ∧ w'.openFds = w.openFds
  | .inr (sock, _, fd) => ¬ fails ∧ sock ∉ w.openFds ∧ fd ∉ w.openFds ∧ sock ≠ fd ∧
      w'.openFds = insert fd (insert sock w.openFds)

theorem openFds_of_refused {p : Prog Call Unit} (hp : p.Uses Call.IsPlain) {sock : ℤ}
    {rc : ℤ} {script : ℕ → Outcome} {r : ℤ ⊕ (ℤ × ℕ × ℤ)}
    (hrun : (p.bind fun _ => (close sock).bind fun _ =>
      (pure (.inl rc) : Prog Call _)).run World.handle script w = some (r, w')) :
    r = .inl rc ∧ w'.openFds = w.openFds \ {sock} := by
  refine (exec_of_run hrun).of_wlp _ (Q := fun r w' =>
    r = .inl rc ∧ w'.openFds = w.openFds \ {sock}) ?_
  refine Prog.wlp_bind_of _ (wlp_plain_openFds hp w) fun _ w₁ h₁ => ?_
  refine Prog.wlp_bind_of _ (wlp_daemonClose w₁) fun _ w₂ h₂ => ⟨rfl, ?_⟩
  rw [h₂, h₁]

theorem openTask_openFds (hstart : FdStart openPcap attach sfpDestroy)
    {script : ℕ → Outcome} {r : ℤ ⊕ (ℤ × ℕ × ℤ)}
    (hrun : (openTask s openPcap).run World.handle script w = some (r, w')) :
    OpenSpec (FailsToOpen s openPcap script w) w r w' := by
  unfold openTask at hrun
  by_cases hvalid : s.areValid = false
  · rw [if_pos hvalid] at hrun
    obtain ⟨rfl, rfl⟩ := Prod.mk.inj (Option.some.inj hrun)
    exact ⟨.inl hvalid, rfl⟩
  rw [if_neg hvalid] at hrun
  have hsocket := opened_socket (.inl rfl) (script 0) w
  simp only [Prog.bind_eq, Prog.liftM_eq, Prog.perform_bind, Prog.run] at hrun
  unfold FailsToOpen
  generalize World.handle Call.socketPacket (script 0) w = x at hrun hsocket ⊢
  obtain ⟨sock, w₁⟩ := x
  simp only [Os.Opened] at hrun hsocket ⊢
  by_cases hsock : sock < 0
  · rw [if_pos hsock] at hrun hsocket
    obtain ⟨rc, w₂, n, herrno, hret⟩ := Prog.run_bind hrun
    obtain ⟨rfl, rfl⟩ := Prod.mk.inj (Option.some.inj hret)
    have hset := (exec_of_run herrno).of_wlp _ (wlp_plain_openFds uses_errno w₁)
    exact ⟨.inr (.inl hsock), hset.trans hsocket⟩
  rw [if_neg hsock] at hrun hsocket
  obtain ⟨hnotin, hset₁⟩ := hsocket
  -- Closing the socket gives back the set the start began with.
  have hback : ∀ {w₂ : World}, w₂.openFds = w₁.openFds →
      w₂.openFds \ {sock} = w.openFds := fun h₂ => by
    rw [h₂]
    exact (congrArg (· \ {sock}) hset₁).trans (Set.insert_sdiff_self_of_notMem hnotin)
  have hcalloc : Call.KeepsFds _ Call.calloc := trivial
  have hset₂ := hcalloc.openFds (script 1) w₁
  simp only [Prog.run] at hrun
  generalize World.handle Call.calloc (script 1) w₁ = x at hrun hset₂ ⊢
  obtain ⟨addr, w₂⟩ := x
  cases addr with
  | none =>
      obtain ⟨rfl, hset⟩ := openFds_of_refused (p := pure ()) trivial hrun
      exact ⟨.inr (.inr (.inl rfl)), hset.trans (hback hset₂)⟩
  | some addr =>
      obtain ⟨fd, w₃, n, hopen, hrun⟩ := Prog.run_bind hrun
      have hopened := (exec_of_run hopen).of_wlp _ (hstart.openPcap _ w₂)
      simp only [Os.Opened] at hopened
      by_cases hfd : fd < 0
      · rw [if_pos hfd] at hrun hopened
        obtain ⟨rc, w₄, m, herrno, hrun⟩ := Prog.run_bind hrun
        have hset₄ := (exec_of_run herrno).of_wlp _ (wlp_plain_openFds uses_errno w₃)
        obtain ⟨rfl, hset⟩ := openFds_of_refused
          (p := Prog.perform (Call.free (some addr))) (by simp [Call.IsPlain]) hrun
        refine ⟨.inr (.inr (.inr ⟨fd, w₃, hopen, hfd⟩)), hset.trans (hback ?_)⟩
        exact hset₄.trans (hopened.trans hset₂)
      · rw [if_neg hfd] at hrun hopened
        obtain ⟨rfl, rfl⟩ := Prod.mk.inj (Option.some.inj hrun)
        obtain ⟨hfresh, hset₃⟩ := hopened
        have hset₂' : w₂.os.openFds = insert sock w.openFds := hset₂.trans hset₁
        rw [hset₂', Set.mem_insert_iff, not_or] at hfresh
        refine ⟨?_, hnotin, hfresh.2, Ne.symm hfresh.1, ?_⟩
        · rintro (hrefused | hlt | hnone | ⟨fd', w₃', hopen', hlt⟩)
          · exact hvalid hrefused
          · exact hsock hlt
          · cases hnone
          · have heq := hopen.symm.trans hopen'
            obtain ⟨rfl, -⟩ := Prod.mk.inj (Option.some.inj heq)
            exact hfd hlt
        · rw [← hset₂']
          exact hset₃

/-- After a start that fails the descriptors are the same exactly if it could not
open what it needs. -/
theorem startTask_openFds_iff (hstart : FdStart openPcap attach sfpDestroy)
    {script : ℕ → Outcome} (hrc : rc ≠ 0)
    (hrun : (startTask type ringType s openPcap attach sfpDestroy).run World.handle
      script w = some (rc, w')) :
    w'.openFds = w.openFds ↔ FailsToOpen s openPcap script w := by
  obtain ⟨r, w₁, n, hopen, hrun⟩ := Prog.run_bind hrun
  have hspec := openTask_openFds hstart hopen
  cases r with
  | inl rc' =>
      obtain ⟨-, rfl⟩ := Prod.mk.inj (Option.some.inj hrun)
      exact ⟨fun _ => hspec.1, fun _ => hspec.2⟩
  | inr acquired =>
      obtain ⟨sock, addr, fd⟩ := acquired
      obtain ⟨hfails, hsock, hfd, hne, hset⟩ := hspec
      have hset' := (exec_of_run hrun).of_wlp _
        (wlp_runTask_openFds hstart sock addr fd w₁) hrc
      -- The descriptor of the PCAP file is still open.
      have hmem : fd ∈ w'.openFds := by
        rw [hset', hset]
        exact ⟨Set.mem_insert _ _, Ne.symm hne⟩
      refine ⟨fun heq => ?_, fun h => absurd h hfails⟩
      rw [heq] at hmem
      exact absurd hmem hfd

end Start

theorem fdStart_capture (r : CaptureRequest) :
    FdStart (openCapturePcap r.append) (attachCaptureFilter r.sfp)
      dabbadSfpDestroy where
  openPcap pcap w := by
    unfold openCapturePcap
    split_ifs
    · exact wlp_fileProg (wlp_ldabPcapOpen _ _)
    · exact wlp_fileProg (wlp_ldabPcapCreate _ _)
  attach := uses_attachCaptureFilter r.sfp
  sfpDestroy _ := ⟨trivial, fun _ => trivial⟩

theorem fdStart_replay :
    FdStart openReplayPcap (fun _ => pure (0, .zero)) (fun _ => pure ()) where
  openPcap _ _ := wlp_fileProg (wlp_ldabPcapOpen _ _)
  attach _ := trivial
  sfpDestroy _ := trivial

/-- A start that reports failure leaves the queues and the set of open descriptors
as they were exactly if it failed before the PCAP file was open. -/
theorem failed_start_unchanged_iff (script : ℕ → Outcome) (w w' : World) (rc : ℤ)
    (hrc : rc ≠ 0) :
    (∀ r : CaptureRequest,
      (dabbadCaptureStart r).run World.handle script w = some (rc, w') →
        (w'.queues = w.queues ∧ w'.openFds = w.openFds ↔
          FailsToOpen r.toSettings (openCapturePcap r.append) script w)) ∧
    ∀ r : Settings,
      (dabbadReplayStart r).run World.handle script w = some (rc, w') →
        (w'.queues = w.queues ∧ w'.openFds = w.openFds ↔
          FailsToOpen r openReplayPcap script w) := by
  refine ⟨fun r hrun => ?_, fun r hrun => ?_⟩
  · have hstart := (exec_of_run hrun).of_wlp _
      (wlp_startTask (steadyStart_capture r) _ _ _ _)
    rw [and_iff_right (hstart.spec.failure hrc)]
    exact startTask_openFds_iff (fdStart_capture r) hrc hrun
  · have hstart := (exec_of_run hrun).of_wlp _
      (wlp_startTask steadyStart_replay _ _ _ _)
    rw [and_iff_right (hstart.spec.failure hrc)]
    exact startTask_openFds_iff fdStart_replay hrc hrun

/-- A capture on an interface that the machine does not have. -/
def unknownRequest : CaptureRequest :=
  { anyRequest with interface := some [0x65, 0x74, 0x68, 0x31] }

theorem failed_start_unchanged_iff_unknownRequest : ∃ w',
    (dabbadCaptureStart unknownRequest).run World.handle goodScript .boot =
      some ((enodev : ℤ), w') ∧
    (w'.queues = World.boot.queues ∧ w'.openFds = World.boot.openFds ↔
      FailsToOpen unknownRequest.toSettings (openCapturePcap false) goodScript
        .boot) :=
  ⟨_, rfl, (failed_start_unchanged_iff goodScript .boot _ enodev (by decide)).1
    unknownRequest rfl⟩

/-- The PCAP descriptor of the failed start stays open. -/
theorem failed_start_leaks : ¬ ∀ (r : CaptureRequest) (script : ℕ → Outcome)
    (w w' : World) (rc : ℤ), rc ≠ 0 →
    (dabbadCaptureStart r).run World.handle script w = some (rc, w') →
      w'.queues = w.queues ∧ w'.openFds = w.openFds := by
  intro h
  have hsame := (h unknownRequest goodScript .boot _ enodev (by decide) rfl).2
  have hopen : (5 : ℤ) ∈ World.boot.openFds := by
    rw [← hsame]
    intro hnone
    cases hnone
  exact hopen rfl

end Dabbad
