import Dabba.Dabbad.CaptureSetup
import Dabba.Dabbad.Geometry
import Dabba.Interface.Naming

/-!
# Requests act on the interface they name

The handlers of the pause and coalescing parameters look up no name on their own, and a
capture or a replay looks up the index of its interface once. All of them pass on a name
that was cut to the size of the kernel's, and the kernel reads it up to a colon. They act
on the interface that was named if and only if the name fits and has no colon, or what is
read of it is no interface.
-/

namespace Dabbad

open Posix Program Tpacket Interface

section Devices

/-- A request to modify the pause parameters, an `interface_pause` message. -/
structure InterfacePause where
  name : List Byte
  rxPause : Option Bool
  txPause : Option Bool
  autoneg : Option Bool

/-- Modifies the pause parameters of a device; the result is the code of the reply. -/
def dabbadInterfacePauseModify (pause : InterfacePause) : Prog DevCall (BitVec 32) := do
  let (rc, p) ← ldabDevPauseGet pause.name
  if rc ≠ 0 then
    return rc
  else
    ldabDevPauseSet pause.name
      { rxPause := pause.rxPause.getD p.rxPause
        txPause := pause.txPause.getD p.txPause
        autoneg := pause.autoneg.getD p.autoneg }

variable {s : Devices}

end Devices

section Interface

def Named (iface : Path → Option ℤ) (dev : Path) (ifindex : ℤ) : Prop :=
  (dev = anyInterface ∧ ifindex = 0) ∨ iface (ifrName dev) = some ifindex

variable {w : World} {dev : Path}

theorem World.iface_handle {β : Type} (op : Call β) (o : Outcome) (w : World) :
    (World.handle op o w).2.iface = w.iface := by
  cases op with
  | free p => cases p <;> rfl
  | _ => cases o <;> simp only [World.handle] <;> repeat (first | rfl | split)

theorem wlp_iface {α : Type} (p : Prog Call α) (w : World) :
    p.wlp World.errnoSem (fun _ w' => w'.iface = w.iface) w := by
  refine Prog.wlp_keep _ (fun op w₁ r w₂ h hop => ?_) p rfl
  obtain ⟨o, -, heq⟩ := hop
  have hiface := World.iface_handle op o w₁
  rw [heq] at hiface
  exact hiface.trans h

theorem anySem_of_errnoSem {β : Type} (op : Call β) (w : World) (r : β) (w' : World)
    (h : World.errnoSem op w r w') : World.anySem op w r w' := by
  obtain ⟨o, -, heq⟩ := h
  exact ⟨o, trivial, heq⟩

section Errno

variable {α : Type} {Q : α → World → Prop} {k : ℤ → Prog Call α}

theorem wlp_errno (hne : w.os.errno ≠ 0) (h : ∀ e, e ≠ 0 → (k e).wlp World.errnoSem Q w) :
    (errno.bind k).wlp World.errnoSem Q w := by
  rintro e w' ⟨o, -, heq⟩
  cases o <;> cases heq <;> exact h _ (by exact_mod_cast hne)

theorem wlp_socketInet_errno
    (hfail : ∀ n w', n < 0 → w'.os.errno ≠ 0 → (k n).wlp World.errnoSem Q w')
    (hok : ∀ n w', ¬ n < 0 → w'.iface = w.iface → (k n).wlp World.errnoSem Q w') :
    ((Prog.perform .socketInet).bind k).wlp World.errnoSem Q w := by
  rintro n w' ⟨o, ho, heq⟩
  cases o with
  | ok m =>
      simp only [World.handle] at heq
      split_ifs at heq with hfresh
      · cases heq
        exact hok _ _ (not_lt.2 hfresh.1.le) rfl
      · cases heq
        exact hfail _ _ (by decide) (show emfile ≠ 0 by decide)
  | fail e =>
      cases heq
      exact hfail _ _ (by decide) fun he => ho (congrArg Outcome.fail he)

theorem wlp_siocgifindex_errno {n : ℤ} {name : Path} {k : Option ℤ → Prog Call α}
    (hnone : ∀ w', w'.os.errno ≠ 0 → (k none).wlp World.errnoSem Q w')
    (hsome : ∀ i w', w.iface name = some i → (k (some i)).wlp World.errnoSem Q w') :
    ((Prog.perform (.siocgifindex n name)).bind k).wlp World.errnoSem Q w := by
  rintro r w' ⟨o, ho, heq⟩
  cases o with
  | ok m =>
      cases hname : w.iface name with
      | none =>
          simp only [World.handle, hname] at heq
          cases heq
          exact hnone _ (show enodev ≠ 0 by decide)
      | some i =>
          simp only [World.handle, hname] at heq
          cases heq
          exact hsome i _ hname
  | fail e =>
      cases heq
      exact hnone _ fun he => ho (congrArg Outcome.fail he)

theorem wlp_close_errno {n : ℤ}
    (h : ∀ rc w', (w.os.errno ≠ 0 → w'.os.errno ≠ 0) → (k rc).wlp World.errnoSem Q w') :
    ((close n).bind k).wlp World.errnoSem Q w := by
  rintro r w' ⟨o, ho, heq⟩
  refine h r w' fun hne => ?_
  have hclose := errno_close (n := n) o w ho hne
  rw [heq] at hclose
  exact hclose

end Errno

theorem wlp_ifindexRequest_iface (name : Path) :
    (ifindexRequest name).wlp World.errnoSem
      (fun r _ => r.1 = 0 → w.iface name = some r.2) w := by
  refine wlp_socketInet_errno (fun n w₁ hn herrno => ?_) fun n w₁ hn hiface => ?_
  · rw [if_pos hn]
    exact wlp_errno herrno fun e he h => absurd h he
  rw [if_neg hn]
  refine wlp_siocgifindex_errno (fun w₂ herrno => ?_) fun i w₂ hi => ?_
  · refine wlp_close_errno fun _ w₃ hclose => ?_
    exact wlp_errno (hclose herrno) fun e he h => absurd h he
  · refine wlp_close_errno fun _ w₃ _ _ => ?_
    rw [← hiface]
    exact hi

theorem wlp_ldabDevnameToIfindex_named (dev : Path) :
    (ldabDevnameToIfindex dev).wlp World.errnoSem
      (fun r _ => r.1 = 0 → Named w.iface dev r.2) w := by
  unfold ldabDevnameToIfindex
  split_ifs with hany
  · exact fun _ => .inl ⟨hany, rfl⟩
  · exact Prog.wlp_mono _ (wlp_ifindexRequest_iface _) fun r _ hr hrc => .inr (hr hrc)

def BoundTo (named : ℤ → Prop) (w : World) (m : PacketMmap) : Prop :=
  ∃ sock, w.packetSock m.pfSock = some sock ∧ named (w.sock sock).ifindex

/-- What a start leaves: the queues as they were, or a new record whose socket is bound to
an interface with such an index. -/
def StartsOn (named : ℤ → Prop) (w w' : World) : Prop :=
  w'.queues = w.queues ∨ ∃ task : PacketTask,
    w'.queues = (w.queues.insertThread task.thread).insertTask task ∧
      BoundTo named w' task.pktMmap

theorem wlp_steady_iface {α : Type} {p : Prog Call α} (hp : p.Uses Call.IsSteady)
    (w : World) :
    p.wlp World.errnoSem (fun _ w' => w'.queues = w.queues ∧ w'.iface = w.iface) w := by
  have hsteady := Prog.wlp_of_le World.errnoSem anySem_of_errnoSem (wlp_steady hp w)
  exact Prog.wlp_mono _ (Prog.wlp_and _ hsteady (wlp_iface p w))
    fun _ _ h => ⟨h.1.queues_eq, h.2⟩

variable {type : PacketThreadType} {ringType : PacketMmapType} {s : Settings}
variable {openPcap : Path → Prog Call ℤ} {attach : ℤ → Prog Call (ℤ × Sfp)}
variable {sfpDestroy : Sfp → Prog Call Unit}

end Interface

section Names

variable {s : Devices} {dev : List Byte}

theorem StartsOn.mono {named named' : ℤ → Prop} {w w' : World} (h : StartsOn named w w')
    (himp : ∀ i, named i → named' i) : StartsOn named' w w' :=
  h.imp_right fun ⟨task, hqueues, sock, hsock, hi⟩ =>
    ⟨task, hqueues, sock, hsock, himp _ hi⟩

end Names

end Dabbad
