import Dabba.Dabbad.OpenPcap
import Dabba.Dabbad.SafeRing

/-!
# Starts are safe among running threads

A start acquires one thing after the other and hands them to the new thread. What
the error branches release no thread has yet, so a start never takes anything from
a running thread.
-/

namespace Dabbad

open Posix Program Tpacket SockFilter Pcap Transition

variable {accepts : List Bpf.SockFilter → Frame → Bool} {w w' : World}
variable {A B : List Atom} {α : Type} {Q : α → World → Prop}

section Thread

/-- A thread was created for the record, which is not queued yet. -/
structure Launched (task : PacketTask) (w : World) : Prop where
  linked : Linked w
  reserved : ∀ x, task.Has x → w.Reserved x
  lacks : ∀ x, task.Has x → w.queues.Lacks x
  apart : ∀ t ∈ w.threads, t.mayStep = true →
    t.id = task.thread.id ∨ t.task.Apart task

theorem Launched.drift {task : PacketTask} (h : Launched task w) (hd : Drift w w')
    (htame : w'.Tame) : Launched task w' where
  linked := h.linked.drift hd htame
  reserved x hx := (hd.reserved x).2 (h.reserved x hx)
  lacks x hx := by
    rw [hd.queues]
    exact h.lacks x hx
  apart t' ht' hmay := by
    obtain ⟨t, ht, hlater⟩ := hd.mem_threads ht'
    rw [hlater.id, hlater.task]
    exact h.apart t ht (hlater.mayStep hmay)

theorem drifting_launched (task : PacketTask) : Drifting (Launched task) where
  linked _ h := h.linked
  drift _ _ h hd htame := h.drift hd htame

variable {task : PacketTask}

/-- The new thread is the only one that has what the record has. -/
theorem Held.launch (h : Held A B w) (htask : ∀ x, task.Has x → x ∈ B)
    (hvec : task.pktMmap.vec.isSome) (hbuf : task.pktMmap.buf.isSome) (id : ℕ) :
    Launched { task with thread := World.node id task } (w.withThread id task) := by
  have hA : ∀ x, task.Has x → x ∈ A := fun x hx => h.subset (htask x hx)
  have hthreads : ∀ t ∈ (w.withThread id task).threads,
      t ∈ w.threads ∨ t = w.newThread id task := fun t ht => by
    simpa [World.withThread] using ht
  obtain ⟨i, hi⟩ := h.alive (.fd task.pcapFd) (htask _ rfl)
  have hpcapId : w.fileId task.pcapFd = some i := by
    rw [Os.ident, Option.map_eq_some_iff] at hi
    obtain ⟨d, hd, hident⟩ := hi
    cases d with
    | file f => simpa [World.fileId, hd, Descriptor.ident] using hident
    | socket s => cases hident
  refine ⟨⟨?_, ?_, ?_, ?_, h.linked.reserved, ?_, h.linked.task_type,
    h.linked.addr_nodup, h.linked.pcapFd_inj⟩, fun x hx => h.reserved x (hA x hx),
    fun x hx => h.lacks x (hA x hx), ?_⟩
  · intro t ht
    rcases hthreads t ht with ht | rfl
    · exact h.linked.tame t ht
    · cases htype : task.thread.type <;>
        simp [World.newThread, htype, Body.start, Body.Tame]
  · intro t ht hmay x hx
    rcases hthreads t ht with ht | rfl
    · exact h.linked.alive t ht hmay x hx
    · exact ⟨h.alive x (htask x hx), h.reserved x (hA x hx)⟩
  · intro t ht hmay
    rcases hthreads t ht with ht | rfl
    · exact h.linked.pcap t ht hmay
    · simpa [World.newThread, World.withThread, hpcapId] using hi
  · intro t ht hmay
    rcases hthreads t ht with ht | rfl
    · exact h.linked.mapped t ht hmay
    · exact ⟨hvec, hbuf⟩
  · intro type task' htask' t ht hmay
    rcases hthreads t ht with ht | rfl
    · exact h.linked.apart type task' htask' t ht hmay
    · exact .inr fun x hx => h.lacks x (hA x hx) type task' htask'
  · intro t ht hmay
    rcases hthreads t ht with ht | rfl
    · exact .inr fun x hx hx' => h.idle x (hA x hx') t ht hmay hx
    · exact .inl rfl

/-- The record of the new thread is appended to its queue. -/
theorem Launched.insertTask (h : Launched task w) :
    Linked { w with queues := w.queues.insertTask task } := by
  have hmem : ∀ {type task'}, task' ∈ ((w.queues.insertTask task).task type).nodes →
      task' ∈ (w.queues.task type).nodes ∨ (type = task.thread.type ∧ task' = task) :=
    (Queues.mem_insertTask _ _).1
  -- A queued record shares neither its address nor its descriptor with the new one.
  have haddr : ∀ {type task'}, task' ∈ (w.queues.task type).nodes →
      task'.thread.addr ≠ task.thread.addr := fun htask' heq =>
    h.lacks (.block task.thread.addr) (.inl rfl) _ _ htask' (.inl heq.symm)
  have hfd : ∀ {type task'}, task' ∈ (w.queues.task type).nodes →
      task'.pcapFd ≠ task.pcapFd := fun htask' heq =>
    h.lacks (.fd task.pcapFd) rfl _ _ htask' heq.symm
  refine ⟨h.linked.tame, h.linked.alive, h.linked.pcap, h.linked.mapped, ?_, ?_, ?_,
    ?_, ?_⟩
  · intro type task' htask' x hx
    rcases hmem htask' with htask' | ⟨-, rfl⟩
    · exact h.linked.reserved type task' htask' x hx
    · exact h.reserved x hx
  · intro type task' htask' t ht hmay
    rcases hmem htask' with htask' | ⟨-, rfl⟩
    · exact h.linked.apart type task' htask' t ht hmay
    · exact h.apart t ht hmay
  · intro type task' htask'
    rcases hmem htask' with htask' | ⟨rfl, rfl⟩
    · exact h.linked.task_type type task' htask'
    · rfl
  · intro type
    by_cases htype : type = task.thread.type
    · subst htype
      have hnotin : task.thread.addr ∉
          (w.queues.task task.thread.type).nodes.map (·.thread.addr) := by
        rw [List.mem_map]
        rintro ⟨task', htask', heq⟩
        exact haddr htask' heq
      simpa [Tailq.Queue.insertTail, List.nodup_append] using
        ⟨h.linked.addr_nodup _, fun task' htask' => haddr htask'⟩
    · rw [Queues.insertTask_task_of_ne _ _ htype]
      exact h.linked.addr_nodup type
  · intro type type' task₁ task₂ h₁ h₂ heq
    rcases hmem h₁ with hold₁ | ⟨rfl, rfl⟩ <;> rcases hmem h₂ with hold₂ | ⟨rfl, rfl⟩
    · exact h.linked.pcapFd_inj type type' task₁ task₂ hold₁ hold₂ heq
    · exact absurd heq (hfd hold₁)
    · exact absurd heq.symm (hfd hold₂)
    · exact ⟨rfl, rfl⟩

end Thread

section Start

variable {task : PacketTask}

theorem Launched.insertThread (h : Launched task w) (node : PacketThread) :
    Launched task { w with queues := w.queues.insertThread node } where
  linked := h.linked.setQueues_of_task rfl
  reserved := h.reserved
  lacks := h.lacks
  apart := h.apart

theorem held_pthreadCreate {k : ℕ × ℕ → Prog Call α} (h : Held A B w)
    (htask : ∀ x, task.Has x → x ∈ B) (hvec : task.pktMmap.vec.isSome)
    (hbuf : task.pktMmap.buf.isSome)
    (hfail : ∀ rc id w', rc ≠ 0 → Held A B w' → SafeIn accepts (k (rc, id)) Q w')
    (hok : ∀ id w', Launched { task with thread := World.node id task } w' →
      SafeIn accepts (k (0, id)) Q w') :
    SafeIn accepts ((Prog.perform (.pthreadCreate task)).bind k) Q w := by
  refine Prog.Safe.call (assertion_held A B) h fun s r s' hs hsem => ?_
  obtain ⟨o, -, heq⟩ := orderly_of_sem hsem
  cases o with
  | ok id =>
      simp only [World.handle] at heq
      split_ifs at heq with htaken <;> obtain ⟨rfl, rfl⟩ := Prod.mk.inj heq
      · exact hfail eagain id _ (by decide) hs
      · exact hok id _ (hs.launch htask hvec hbuf id)
  | fail e =>
      obtain ⟨rfl, rfl⟩ := Prod.mk.inj heq
      exact hfail _ _ _ (errnum_ne_zero e) hs

theorem launched_pthreadDetach {id : ℕ} {k : ℕ → Prog Call α} (h : Launched task w)
    (hok : ∀ w', Launched task w' → SafeIn accepts (k 0) Q w') :
    SafeIn accepts ((Prog.perform (.pthreadDetach id)).bind k) Q w := by
  refine Prog.Safe.call (drifting_launched task).assertion h fun s r s' hs hsem => ?_
  obtain ⟨o, ho, heq⟩ := orderly_of_sem hsem
  cases o with
  | ok n =>
      obtain ⟨rfl, rfl⟩ := Prod.mk.inj heq
      exact hok _ hs
  | fail e => exact ho.elim

theorem safe_dabbadThreadStart (h : Held A B w) (htask : ∀ x, task.Has x → x ∈ B)
    (hvec : task.pktMmap.vec.isSome) (hbuf : task.pktMmap.buf.isSome) :
    SafeIn accepts (dabbadThreadStart task) (fun r w' =>
      (r.1 ≠ 0 ∧ Held A B w') ∨
        (r.1 = 0 ∧ Launched { task with thread := r.2 } w')) w := by
  refine held_pthreadCreate h htask hvec hbuf (fun rc id w₁ hrc h₁ => ?_) fun id w₁ h₁ => ?_
  · simp only [ne_eq, hrc, not_false_eq_true, if_true]
    exact safe_ret_held _ h₁ fun _ h => .inl ⟨Int.natCast_ne_zero.2 hrc, h⟩
  · simp only [ne_eq, not_true_eq_false, if_false, Prog.bind_eq, Prog.liftM_eq]
    refine launched_pthreadDetach h₁ fun w₂ h₂ => ?_
    simp only [not_true_eq_false, if_false, dabbadThreadInsert, Prog.bind_eq,
      Prog.liftM_eq, Prog.bind_assoc]
    refine (drifting_launched _).safe_getQueues h₂ fun w₃ h₃ => ?_
    refine (drifting_launched _).safe_setQueues (f := (·.insertThread _)) h₃ fun w₄ h₄ => ?_
    exact Prog.Safe.ret (drifting_launched _).assertion (h₄.insertThread _)
      fun _ h => .inr ⟨rfl, h⟩

theorem held_closeSock {sock : ℤ} {k : ℤ → Prog Call α} (h : Held A B w)
    (hsock : .fd sock ∈ A) (hk : ∀ rc w', Held [] [] w' → SafeIn accepts (k rc) Q w') :
    SafeIn accepts ((close sock).bind k) Q w := by
  have hone : Held [.fd sock] [] w := h.forget (by simpa using hsock)
  exact held_close hone List.not_mem_nil (List.nil_subset _) hk

/-- The things a handler holds before and while a PCAP file is open. -/
theorem openFrame_held (hBA : B ⊆ A) :
    OpenFrame World.orderlySem (World.Env accepts) Linked (Held A B)
      fun fd w => .fd fd ∉ A ∧ Held (.fd fd :: A) (.fd fd :: B) w where
  before := assertion_held A B
  after fd := by
    have hheld : Assertion (World.Env accepts) Linked (Held (.fd fd :: A) (.fd fd :: B)) :=
      assertion_held _ _
    exact ⟨fun w w' h henv => ⟨h.1, hheld.stable w w' h.2 henv⟩,
      fun w h => hheld.inv_of w h.2⟩
  quiet hop h hsem := by
    obtain ⟨hd, htame⟩ := drift_of_still (hop.isStill _ _) hsem h.linked.tame
    exact h.drift hd htame
  quiet_after hop h hsem := by
    obtain ⟨hd, htame⟩ := drift_of_still (hop.isStill _ _) hsem h.2.linked.tame
    exact ⟨h.1, h.2.drift hd htame⟩
  opening {op w fd w'} hopening h hsem := by
    obtain ⟨o, -, heq⟩ := orderly_of_sem hsem
    obtain ⟨rfl, rfl⟩ := Prod.mk.inj heq
    have hopened := hopening o w.os
    rw [Os.OpenedFile] at hopened
    split_ifs at hopened with hfd
    · exact .inl ⟨hfd, h.drift (World.drift_os hopened) h.linked.tame⟩
    · obtain ⟨hfree, i, hident⟩ := hopened
      obtain ⟨hnotin, hheld⟩ := h.install hfree hident
      refine .inr ⟨hfd, hnotin, hheld.learn List.mem_cons_self ⟨i, ?_⟩⟩
      simp [hident]
  close {fd w rc w'} h hsem := by
    obtain ⟨o, -, heq⟩ := orderly_of_sem hsem
    obtain ⟨rfl, rfl⟩ := Prod.mk.inj heq
    have hforget := h.2.mono (List.Subset.refl _) (List.subset_cons_self _ B)
      (List.subset_cons_of_subset _ hBA)
    exact hforget.closed (touches_fd (Os.ident_close o)) h.1 hBA

/-- The parts of a start in which captures and replays differ are safe. -/
structure SafeParts (accepts : List Bpf.SockFilter → Frame → Bool)
    (openPcap : Path → Prog Call ℤ) (attach : ℤ → Prog Call (ℤ × Sfp))
    (sfpDestroy : Sfp → Prog Call Unit) : Prop where
  openPcap : ∀ {A B w} pcap, B ⊆ A → Held A B w →
    SafeIn accepts (openPcap pcap) (OpenFrame.Post (Held A B)
      fun fd w => .fd fd ∉ A ∧ Held (.fd fd :: A) (.fd fd :: B) w) w
  attach : ∀ {A B w} sock, Held A B w → SafeIn accepts (attach sock) (Attached A B) w
  sfpDestroy : ∀ {A B w} sfp, sfp.atoms ⊆ A → Held A B w →
    SafeIn accepts (sfpDestroy sfp) (fun _ => Held A []) w

theorem safeParts_capture (r : CaptureRequest) :
    SafeParts accepts (openCapturePcap r.append) (attachCaptureFilter r.sfp)
      dabbadSfpDestroy where
  openPcap pcap hBA h := (openFrame_held hBA).openCapturePcap r.append pcap h
  attach sock h := safe_attachCaptureFilter r.sfp sock h
  sfpDestroy sfp hsfp h :=
    held_free (k := .ret) h (fun b hb => hsfp (by simp [Sfp.atoms, hb]))
      fun _ h => safe_ret_held _ h fun _ h => h

theorem safeParts_replay :
    SafeParts accepts openReplayPcap (fun _ => pure (0, .zero)) (fun _ => pure ()) where
  openPcap pcap hBA h := (openFrame_held hBA).ldabPcapOpen pcap oRdonly h
  attach _ h := safe_ret_held _ h fun _ h => .inr ⟨rfl, h⟩
  sfpDestroy _ _ h := safe_ret_held _ h fun _ h => h.forget (List.Subset.refl _)

variable {openPcap : Path → Prog Call ℤ} {attach : ℤ → Prog Call (ℤ × Sfp)}
variable {sfpDestroy : Sfp → Prog Call Unit}

/-- What the first part of a start leaves: nothing new when it fails, and otherwise
the three things it acquired. -/
def Acquired : ℤ ⊕ (ℤ × ℕ × ℤ) → World → Prop
  | .inl _ => Held [] []
  | .inr (sock, addr, fd) => Held [.fd fd, .block addr, .fd sock] [.fd fd, .block addr]

theorem held_nil (h : Linked w) : Held [] [] w :=
  ⟨h, by simp, by simp, by simp, by simp, List.Subset.refl _⟩

/-- The first part of a start holds what it acquired. -/
theorem safe_openTask (hparts : SafeParts accepts openPcap attach sfpDestroy)
    (s : Settings) (h : Linked w) :
    SafeIn accepts (openTask s openPcap) Acquired w := by
  have h₀ := held_nil h
  unfold openTask
  split_ifs
  · exact safe_ret_held _ h₀ fun _ h => h
  · refine held_socket (.inl rfl) h₀ (fun sock w₁ hsock h₁ => ?_) fun sock w₁ hsock _ h₁ => ?_
    · rw [if_pos hsock]
      refine held_still still_errno h₁ fun rc w₂ h₂ => ?_
      exact safe_ret_held _ h₂ fun _ h => h
    · rw [if_neg hsock]
      refine held_calloc h₁ (fun w₂ h₂ => ?_) fun addr w₂ haddr h₂ => ?_
      · refine held_closeSock h₂ List.mem_cons_self fun _ w₃ h₃ => ?_
        exact safe_ret_held _ h₃ fun _ h => h
      · refine (hparts.openPcap _ (by simp) h₂).bind fun fd w₃ hpost => ?_
        rcases hpost with ⟨hfd, h₃⟩ | ⟨hfd, -, h₃⟩
        · rw [if_pos hfd]
          refine held_still still_errno h₃ fun rc w₄ h₄ => ?_
          have haddr : ∀ b, some addr = some b → Atom.block b ∈ [Atom.block addr, .fd sock] := by
            rintro b ⟨⟩
            exact List.mem_cons_self
          refine held_free h₄ haddr fun w₅ h₅ => ?_
          refine held_closeSock h₅ (by simp) fun _ w₆ h₆ => ?_
          exact safe_ret_held _ h₆ fun _ h => h
        · rw [if_neg hfd]
          exact safe_ret_held _ h₃ fun _ h => h

theorem safe_abandon {addr : ℕ} {sock : ℤ} (h : Held A B w) (haddr : .block addr ∈ A)
    (hsock : .fd sock ∈ A) (rc : ℤ) :
    SafeIn accepts ((Prog.perform (.free (some addr))).bind fun _ =>
      (close sock).bind fun _ => Prog.ret rc) (fun _ => Linked) w := by
  refine held_free h (fun b hb => Option.some.inj hb ▸ haddr) fun w₁ h₁ => ?_
  refine held_closeSock h₁ hsock fun _ w₂ h₂ => ?_
  exact safe_ret_held _ h₂ fun _ h => h.linked

/-- The second part of a start hands what was acquired to the new thread, or releases
it. -/
theorem safe_runTask (hparts : SafeParts accepts openPcap attach sfpDestroy)
    (type : PacketThreadType) (ringType : PacketMmapType) (s : Settings) {sock fd : ℤ}
    {addr : ℕ}
    (h : Held [.fd fd, .block addr, .fd sock] [.fd fd, .block addr] w) :
    SafeIn accepts (runTask type ringType s attach sfpDestroy sock addr fd)
      (fun _ => Linked) w := by
  refine (hparts.attach sock h).bind ?_
  rintro ⟨rc, sfp⟩ w₁ h₁
  dsimp only [Attached] at h₁ ⊢
  rcases h₁ with ⟨hrc, h₁⟩ | ⟨rfl, h₁⟩
  · rw [if_pos hrc]
    exact safe_abandon h₁ (by simp) (by simp) rc
  rw [if_neg (not_not.2 rfl)]
  refine (safe_ldabPacketMmapCreate _ _ _ _ _ h₁
    (mem_append_left_of_subset (by simp))).bind ?_
  rintro ⟨rc, pktMmap⟩ w₂ h₂
  dsimp only [SetUp] at h₂ ⊢
  rcases h₂ with ⟨hrc, h₂⟩ | ⟨rfl, h₂, hvec, hbuf⟩
  · rw [if_pos hrc]
    refine (hparts.sfpDestroy sfp (List.subset_append_left _ _) h₂).bind fun _ w₃ h₃ => ?_
    exact safe_abandon h₃ (by simp) (by simp) rc
  rw [if_neg (not_not.2 rfl)]
  have htask : ∀ x, (PacketTask.mk pktMmap sfp fd ⟨addr, 0, type⟩).Has x →
      x ∈ pktMmap.atoms ++ (sfp.atoms ++ [.fd fd, .block addr]) := by
    intro x hx
    cases x with
    | block b =>
        rcases hx with rfl | hx | hx
        · simp
        · simp [PacketMmap.atoms, show pktMmap.vec = some b from hx]
        · simp [Sfp.atoms, show sfp.filter = some b from hx]
    | mapping m => simp [PacketMmap.atoms, show pktMmap.buf = some m from hx]
    | fd n => simp [show n = fd from hx]
  refine (safe_dabbadThreadStart h₂ htask hvec hbuf).bind ?_
  rintro ⟨rc, thread⟩ w₃ h₃
  dsimp only at h₃ ⊢
  rcases h₃ with ⟨hrc, h₃⟩ | ⟨rfl, h₃⟩
  · rw [if_pos hrc]
    refine held_destroy h₃ (List.subset_append_left _ _) fun w₄ h₄ => ?_
    have hsfp : sfp.atoms ⊆ pktMmap.atoms ++ (sfp.atoms ++ [Atom.fd fd, .block addr, .fd sock]) :=
      List.subset_append_of_subset_right _ (List.subset_append_left _ _)
    refine (hparts.sfpDestroy sfp hsfp h₄).bind fun _ w₅ h₅ => ?_
    exact safe_abandon h₅ (by simp) (by simp) rc
  · rw [if_neg (not_not.2 rfl)]
    refine (drifting_launched _).safe_getQueues h₃ fun w₄ h₄ => ?_
    refine (drifting_launched _).safe_setQueues (f := (·.insertTask _)) h₄ fun w₅ h₅ => ?_
    exact safe_ret_held _ (held_nil h₅.insertTask) fun _ h => h.linked

/-- A start keeps what running threads use. -/
theorem safe_startTask (hparts : SafeParts accepts openPcap attach sfpDestroy)
    (type : PacketThreadType) (ringType : PacketMmapType) (s : Settings) (h : Linked w) :
    SafeIn accepts (startTask type ringType s openPcap attach sfpDestroy)
      (fun _ => Linked) w := by
  refine (safe_openTask hparts s h).bind fun r w₁ h₁ => ?_
  cases r with
  | inl rc => exact safe_ret_held _ h₁ fun _ h => h.linked
  | inr acquired =>
      obtain ⟨sock, addr, fd⟩ := acquired
      exact safe_runTask hparts type ringType s h₁

end Start

end Dabbad
