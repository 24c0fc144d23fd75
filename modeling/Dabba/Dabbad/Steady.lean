import Dabba.Dabbad.Rpc
import Dabba.Posix.Footprint
import Dabba.Posix.OpenFds

/-!
# What the handlers do to the queues

Most calls of the handlers leave the queues and the threads alone. The others
are gathered here into a few changes of the world: a thread that is created, a
task that is started, a thread that is cancelled, and a task that is taken off
the queues. The lemmas about the handlers say which of these a run makes.
-/

namespace Dabbad

open Posix Program Tpacket SockFilter Pcap

/-- The queues and the threads are the same, and no block number is taken
back. -/
structure Steady (w w' : World) : Prop where
  queues_eq : w'.queues = w.queues
  threads_eq : w'.threads = w.threads
  nextBlock_le : w.nextBlock ≤ w'.nextBlock

namespace Steady

theorem refl (w : World) : Steady w w := ⟨rfl, rfl, le_rfl⟩

theorem trans {w₁ w₂ w₃ : World} (h : Steady w₁ w₂) (h' : Steady w₂ w₃) :
    Steady w₁ w₃ :=
  ⟨h'.queues_eq.trans h.queues_eq, h'.threads_eq.trans h.threads_eq,
    h.nextBlock_le.trans h'.nextBlock_le⟩

end Steady

/-- The calls that touch neither the queues nor the threads. -/
def Call.IsSteady : ∀ β : Type, Call β → Prop
  | _, .pthreadCreate _ => False
  | _, .pthreadCancel _ => False
  | _, .setQueues _ => False
  | _, _ => True

/-- The calls that touch neither the queues nor the threads, and that neither open
nor close a descriptor. -/
def Call.IsPlain : ∀ β : Type, Call β → Prop
  | _, .file op => FileCall.KeepsFds _ op
  | _, .socketPacket => False
  | _, .socketInet => False
  | _, .pthreadCreate _ => False
  | _, .pthreadCancel _ => False
  | _, .setQueues _ => False
  | _, _ => True

/-- The plain calls that touch no file and no descriptor. -/
def Call.IsClear : ∀ β : Type, Call β → Prop
  | _, .file op => FileCall.Errno _ op
  | _, op => Call.IsPlain _ op

theorem Call.IsClear.isPlain (β : Type) (op : Call β) (h : Call.IsClear β op) :
    Call.IsPlain β op := by
  cases op with
  | file op => cases op <;> first | exact h.elim | trivial
  | _ => exact h

theorem Call.IsPlain.isSteady (β : Type) (op : Call β) (h : Call.IsPlain β op) :
    Call.IsSteady β op := by
  cases op <;> trivial

theorem Call.IsSteady.steady {β : Type} {op : Call β} (h : Call.IsSteady β op)
    (o : Outcome) (w : World) : Steady w (World.handle op o w).2 := by
  cases op with
  | pthreadCreate task => exact h.elim
  | pthreadCancel id => exact h.elim
  | setQueues q => exact h.elim
  | free p => cases p <;> exact ⟨rfl, rfl, le_rfl⟩
  | file op => exact ⟨rfl, rfl, le_rfl⟩
  | munmap b n => exact ⟨rfl, rfl, le_rfl⟩
  | getQueues => exact ⟨rfl, rfl, le_rfl⟩
  | calloc =>
      cases o
      · exact ⟨rfl, rfl, Nat.le_succ _⟩
      · exact ⟨rfl, rfl, le_rfl⟩
  | _ =>
      cases o <;> simp only [World.handle]
      all_goals
        try split
        all_goals first
          | exact ⟨rfl, rfl, le_rfl⟩
          | (split <;> exact ⟨rfl, rfl, le_rfl⟩)

theorem wlp_steady {α : Type} {p : Prog Call α} (hp : p.Uses Call.IsSteady)
    (w : World) : p.wlp World.anySem (fun _ w' => Steady w w') w := by
  refine Prog.wlp_of_uses _ Steady.refl (fun _ _ _ => Steady.trans) ?_ hp w
  rintro δ op s r s' hop ⟨o, -, heq⟩
  have hsteady := hop.steady o s
  rw [heq] at hsteady
  exact hsteady

section Uses

theorem uses_fileProg {α : Type} (p : Prog FileCall α) :
    (fileProg p).Uses Call.IsSteady :=
  Prog.uses_hoist (fun _ _ => trivial) p

theorem uses_pcapFileHeaderWrite (fd : ℤ) (linktype thiszone snaplen : BitVec 32) :
    (pcapFileHeaderWrite fd linktype thiszone snaplen).Uses FileCall.KeepsFds := by
  refine Prog.uses_bind (Prog.uses_assert _) fun _ => ⟨trivial, fun written => ?_⟩
  simp

theorem uses_pcapIsValid (fd : ℤ) : (pcapIsValid fd).Uses FileCall.KeepsFds := by
  unfold pcapIsValid
  split_ifs
  · simp [FileCall.KeepsFds]
  · refine ⟨trivial, fun got => ?_⟩
    cases got <;> simp [FileCall.KeepsFds]

theorem clear_errno : errno.Uses Call.IsClear := by
  simp [errno, Call.IsClear, FileCall.Errno]

theorem uses_errno : errno.Uses Call.IsPlain := clear_errno.mono Call.IsClear.isPlain

theorem uses_close (fd : ℤ) : (close fd).Uses Call.IsSteady := by
  simp [close, Call.IsSteady]

theorem clear_packetMmapMunmap (pktMmap : PacketMmap) :
    (packetMmapMunmap pktMmap).Uses Call.IsClear := by
  unfold packetMmapMunmap
  split <;> simp [Call.IsClear, Call.IsPlain]

theorem clear_destroy (pktMmap : PacketMmap) :
    (ldabPacketMmapDestroy pktMmap).Uses Call.IsClear := by
  simp only [ldabPacketMmapDestroy, Prog.bind_eq, Prog.liftM_eq,
    Prog.perform_bind, Prog.uses_call]
  refine ⟨trivial, fun _ => Prog.uses_bind (clear_packetMmapMunmap pktMmap) ?_⟩
  simp [packetMmapUnregister, Call.IsClear, Call.IsPlain]

theorem uses_destroy (pktMmap : PacketMmap) :
    (ldabPacketMmapDestroy pktMmap).Uses Call.IsPlain :=
  (clear_destroy pktMmap).mono Call.IsClear.isPlain

theorem uses_ldabDevnameToIfindex (dev : Path) :
    (ldabDevnameToIfindex dev).Uses Call.IsSteady := by
  unfold ldabDevnameToIfindex ifindexRequest Interface.devKernelRequest
  split_ifs
  · exact trivial
  · refine ⟨trivial, fun sock => ?_⟩
    by_cases hsock : sock < 0
    · simp [hsock, errno, Call.IsSteady]
    · simp only [hsock, if_false, Prog.bind_eq, Prog.liftM_eq, Prog.ret_bind,
        Prog.perform_bind, close]
      refine ⟨trivial, fun i => ⟨trivial, fun _ => ?_⟩⟩
      cases i <;> simp [errno, Call.IsSteady]

theorem clear_stage {fn : Stage} (h : fn ∈ pktMmapFn) (pktMmap : PacketMmap) :
    (fn pktMmap).Uses Call.IsClear := by
  simp only [pktMmapFn, List.mem_cons, List.not_mem_nil, or_false] at h
  rcases h with rfl | rfl | rfl | rfl
  · simp [packetMmapRegister, errno, Call.IsClear, Call.IsPlain, FileCall.Errno]
  · refine ⟨trivial, fun buf => ?_⟩
    cases buf <;> simp
  · refine Prog.uses_bind (Prog.uses_assert _) fun _ => ⟨trivial, fun vec => ?_⟩
    cases vec <;> simp
  · simp [packetMmapBind, errno, Call.IsClear, Call.IsPlain, FileCall.Errno]

theorem clear_runStages {fns : List Stage} (h : ∀ fn ∈ fns, fn ∈ pktMmapFn)
    (pktMmap : PacketMmap) : (runStages fns pktMmap).Uses Call.IsClear := by
  induction fns generalizing pktMmap with
  | nil => exact trivial
  | cons fn fns ih =>
      refine Prog.uses_bind (clear_stage (h fn List.mem_cons_self) pktMmap) ?_
      rintro ⟨rc, pktMmap'⟩
      dsimp only
      split_ifs
      · exact Prog.uses_bind (clear_destroy _) fun _ => trivial
      · exact ih (fun fn' hfn => h fn' (List.mem_cons_of_mem fn hfn)) pktMmap'

theorem uses_runStages {fns : List Stage} (h : ∀ fn ∈ fns, fn ∈ pktMmapFn)
    (pktMmap : PacketMmap) : (runStages fns pktMmap).Uses Call.IsPlain :=
  (clear_runStages h pktMmap).mono Call.IsClear.isPlain

theorem uses_ldabPacketMmapCreate (dev : Path) (pfSock : ℤ)
    (type : PacketMmapType) (frameSize : BitVec 32) (frameNr : BitVec 64) :
    (ldabPacketMmapCreate dev pfSock type frameSize frameNr).Uses
      Call.IsSteady := by
  unfold ldabPacketMmapCreate
  split_ifs
  · exact trivial
  · refine Prog.uses_bind (uses_ldabDevnameToIfindex dev) ?_
    rintro ⟨rc, ifindex⟩
    dsimp only
    split_ifs
    · exact trivial
    · exact trivial
    · exact (uses_runStages (fun _ h => h) _).mono Call.IsPlain.isSteady

theorem clear_attachCaptureFilter (sfp : Option (List PbufSockFilter))
    (sock : ℤ) : (attachCaptureFilter sfp sock).Uses Call.IsClear := by
  rcases sfp with _ | (_ | ⟨p, ps⟩)
  · exact trivial
  · exact trivial
  · simp [attachCaptureFilter, Call.IsClear, Call.IsPlain]

theorem uses_attachCaptureFilter (sfp : Option (List PbufSockFilter))
    (sock : ℤ) : (attachCaptureFilter sfp sock).Uses Call.IsPlain :=
  (clear_attachCaptureFilter sfp sock).mono Call.IsClear.isPlain

theorem uses_openCapturePcap (append : Bool) (pcap : Path) :
    (openCapturePcap append pcap).Uses Call.IsSteady := by
  unfold openCapturePcap
  split_ifs
  · exact uses_fileProg _
  · exact uses_fileProg _

theorem clear_captureUnfilter (task : PacketTask) :
    (captureUnfilter task).Uses Call.IsClear := by
  simp [captureUnfilter, dabbadSfpDestroy, Call.IsClear, Call.IsPlain]

theorem uses_captureUnfilter (task : PacketTask) :
    (captureUnfilter task).Uses Call.IsPlain :=
  (clear_captureUnfilter task).mono Call.IsClear.isPlain

end Uses

/-- What the two kinds of requests put into a start: all of it is steady. -/
structure SteadyStart (openPcap : Path → Prog Call ℤ)
    (attach : ℤ → Prog Call (ℤ × Sfp)) (sfpDestroy : Sfp → Prog Call Unit) :
    Prop where
  openPcap : ∀ pcap, (openPcap pcap).Uses Call.IsSteady
  attach : ∀ sock, (attach sock).Uses Call.IsSteady
  sfpDestroy : ∀ sfp, (sfpDestroy sfp).Uses Call.IsSteady

theorem steadyStart_capture (r : CaptureRequest) :
    SteadyStart (openCapturePcap r.append) (attachCaptureFilter r.sfp)
      dabbadSfpDestroy where
  openPcap := uses_openCapturePcap r.append
  attach sock :=
    (uses_attachCaptureFilter r.sfp sock).mono Call.IsPlain.isSteady
  sfpDestroy _ := ⟨trivial, fun _ => trivial⟩

theorem steadyStart_replay :
    SteadyStart openReplayPcap (fun _ => pure (0, .zero)) (fun _ => pure ()) where
  openPcap _ := uses_fileProg _
  attach _ := trivial
  sfpDestroy _ := trivial

end Dabbad
