import Dabba.Dabbad.CaptureSetup
import Dabba.Dabbad.ThreadSafety

/-!
# A capture keeps to its interface outside the window

The socket gets its filter before its ring, so no packet gets past the filter, and it is
bound last. As long as no packet of another interface arrives between the registration
of the ring and the binding, the thread writes only what was asked for. A packet that
does is captured.
-/

namespace Dabbad

open Posix Program Tpacket SockFilter Pcap Transition

variable {accepts : List Bpf.SockFilter → Frame → Bool} {r : CaptureRequest} {w₀ : World}
variable {w w' : World} {α : Type} {Q : α → World → Prop}
variable {K : PacketSock → Prop} {facts facts' : World → Prop} {fd sock : ℤ}

section Ring

variable {m : PacketMmap}

def MapsTo (w₀ : World) (b : ℕ) (w : World) : Prop := w.map b = some w₀.nextSock

theorem absorbs_unbound (hfits : ∀ ps, r.sfp = some ps → MessageFits ps) :
    Absorbs accepts r w₀ (Ringed accepts r w₀ Unbound) :=
  absorbs_ringed hfits fun _ => .inl

theorem absorbs_bound (hfits : ∀ ps, r.sfp = some ps → MessageFits ps) :
    Absorbs accepts r w₀ (Ringed accepts r w₀ (Bound r w₀)) :=
  absorbs_ringed hfits fun _ => .inr

theorem takesDown_destroy (m : PacketMmap) :
    (ldabPacketMmapDestroy m).Uses Call.TakesDown := by
  refine Prog.uses_bind (by simp [Call.TakesDown]) fun _ => ?_
  refine Prog.uses_bind ?_ fun _ => by simp [packetMmapUnregister, Call.TakesDown]
  unfold packetMmapMunmap
  split <;> simp [Call.TakesDown]

theorem Setup.safe_failed (hfits : ∀ ps, r.sfp = some ps → MessageFits ps)
    (hK : Absorbs accepts r w₀ K) {P : ℤ × α → World → Prop} {x : α}
    (h : Setup w₀ K (fun w => w.os.errno ≠ 0) fd w) :
    Watched accepts r w₀ (errno.bind fun e => .ret (e, x)) (Results accepts r w₀ Prod.fst P)
      w :=
  h.safe_errno hK fun _ _ hrc h₁ => h₁.safe_ret hfits fun _ h => .inl ⟨hrc, h⟩

theorem Setup.failed (h : Setup w₀ K facts fd w) {e : ℕ} (he : Outcome.fail e ≠ .fail 0) :
    Setup w₀ K (fun w => w.os.errno ≠ 0) fd (w.failed e) :=
  ⟨h.iface, h.length, h.ident, h.sock, fun h => he (congrArg Outcome.fail h)⟩

theorem Setup.safe_setRing {type : PacketMmapType} {layout : TpacketReq} {k : ℤ → Prog Call α}
    (h : Setup w₀ (Unringed (attachedFilter r)) (fun _ => True) fd w)
    (hfail : ∀ w', Setup w₀ (Unringed (attachedFilter r)) (fun w => w.os.errno ≠ 0) fd w' →
      Watched accepts r w₀ (k (-1)) Q w')
    (hok : ∀ w', Setup w₀ (Ringed accepts r w₀ Unbound) (fun _ => True) fd w' →
      Watched accepts r w₀ (k 0) Q w') :
    Watched accepts r w₀ ((Prog.perform (.setRing fd type layout)).bind k) Q w := by
  refine h.safe_call (absorbs_unringed _) (fun _ _ _ _ => trivial) fun o w₁ ho h₁ => ?_
  cases o with
  | ok n =>
      simp only [World.handle, h₁.packetSock]
      refine hok _ (h₁.setSock ⟨h₁.sock.filter, h₁.sock.ifindex, ?_⟩ trivial)
      intro ring hring j hj
      dsimp only at hring
      split_ifs at hring
      obtain rfl := Option.some.inj hring
      exact absurd hj (Slot.not_isUser_of_kernel rfl)
  | fail e => exact hfail _ (h₁.failed ho)

theorem safe_packetMmapRegister_capture (hfits : ∀ ps, r.sfp = some ps → MessageFits ps)
    (h : Setup w₀ (Unringed (attachedFilter r)) (fun _ => True) m.pfSock w) :
    Watched accepts r w₀ (packetMmapRegister m) (Results accepts r w₀ Prod.fst fun a w =>
      a.2 = m ∧ Setup w₀ (Ringed accepts r w₀ Unbound) (fun _ => True) m.pfSock w) w := by
  refine h.safe_setRing (fun w₁ h₁ => ?_) fun w₁ h₁ => ?_
  · rw [if_pos (by decide)]
    exact h₁.safe_failed hfits (absorbs_unringed _)
  · rw [if_neg (by decide)]
    exact h₁.safe_ret (absorbs_unbound hfits) (fun _ _ _ _ => trivial) fun _ h =>
      .inr ⟨rfl, rfl, h⟩

theorem Setup.safe_mmap (hfits : ∀ ps, r.sfp = some ps → MessageFits ps) {length : ℕ}
    {k : Option ℕ → Prog Call α}
    (h : Setup w₀ (Ringed accepts r w₀ Unbound) (fun _ => True) fd w)
    (hnone : ∀ w', Harmless accepts r w₀ w' → Watched accepts r w₀ (k none) Q w')
    (hsome : ∀ b w', Setup w₀ (Ringed accepts r w₀ Unbound) (MapsTo w₀ b) fd w' →
      Watched accepts r w₀ (k (some b)) Q w') :
    Watched accepts r w₀ ((Prog.perform (.mmap fd length)).bind k) Q w := by
  refine h.safe_call (absorbs_unbound hfits) (fun _ _ _ _ => trivial) fun o w₁ ho h₁ => ?_
  cases o with
  | ok n =>
      simp only [World.handle, h₁.packetSock]
      split_ifs
      · exact hsome _ _ ⟨h₁.iface, h₁.length, h₁.ident, h₁.sock, Function.update_self _ _ _⟩
      · exact hnone _ (.inl h₁.length)
  | fail e => exact hnone _ (.inl h₁.length)

theorem safe_packetMmapMmap_capture (hfits : ∀ ps, r.sfp = some ps → MessageFits ps)
    (h : Setup w₀ (Ringed accepts r w₀ Unbound) (fun _ => True) m.pfSock w) :
    Watched accepts r w₀ (packetMmapMmap m) (Results accepts r w₀ Prod.fst fun a w =>
      ∃ b, a.2 = { m with buf := some b } ∧
        Setup w₀ (Ringed accepts r w₀ Unbound) (MapsTo w₀ b) m.pfSock w) w := by
  refine h.safe_mmap hfits (fun w₁ h₁ => ?_) fun b w₁ h₁ => ?_
  · exact h₁.safe_ret hfits fun _ h => .inl ⟨by simp, h⟩
  · exact h₁.safe_ret (absorbs_unbound hfits) (fun _ _ _ h => h) fun _ h =>
      .inr ⟨rfl, b, rfl, h⟩

theorem safe_packetMmapVectorCreate_capture
    (hfits : ∀ ps, r.sfp = some ps → MessageFits ps) {b : ℕ}
    (h : Setup w₀ (Ringed accepts r w₀ Unbound) (MapsTo w₀ b) m.pfSock w) :
    Watched accepts r w₀ (packetMmapVectorCreate m) (Results accepts r w₀ Prod.fst fun a w =>
      (∃ v, a.2 = { m with vec := some v }) ∧
        Setup w₀ (Ringed accepts r w₀ Unbound) (MapsTo w₀ b) m.pfSock w) w := by
  have hK : Absorbs accepts r w₀ (Ringed accepts r w₀ Unbound) := absorbs_unbound hfits
  have hkeep : ∀ o w, MapsTo w₀ b w → MapsTo w₀ b (World.handle .calloc o w).2 := by
    intro o w h
    cases o <;> exact h
  refine Prog.Safe.assert_bind fun _ => ?_
  refine h.safe_calloc hK (fun _ _ _ h => h) hkeep fun vec w₁ h₁ => ?_
  cases vec with
  | none => exact h₁.harmless.safe_ret hfits fun _ h => .inl ⟨by simp, h⟩
  | some v => exact h₁.safe_ret hK (fun _ _ _ h => h) fun _ h => .inr ⟨rfl, ⟨v, rfl⟩, h⟩

theorem Setup.safe_bind (hfits : ∀ ps, r.sfp = some ps → MessageFits ps) {b : ℕ}
    {i : ℤ} (hi : Bound r w₀ i) {k : ℤ → Prog Call α}
    (h : Setup w₀ (Ringed accepts r w₀ Unbound) (MapsTo w₀ b) fd w)
    (hfail : ∀ w', Setup w₀ (Ringed accepts r w₀ Unbound) (fun w => w.os.errno ≠ 0) fd w' →
      Watched accepts r w₀ (k (-1)) Q w')
    (hok : ∀ w', Setup w₀ (Ringed accepts r w₀ (Bound r w₀)) (MapsTo w₀ b) fd w' →
      Watched accepts r w₀ (k 0) Q w') :
    Watched accepts r w₀ ((Prog.perform (.bind fd i)).bind k) Q w := by
  refine h.safe_call (absorbs_unbound hfits) (fun _ _ _ h => h) fun o w₁ ho h₁ => ?_
  cases o with
  | ok n =>
      simp only [World.handle, h₁.packetSock]
      exact hok _ (h₁.setSock ⟨h₁.sock.filter, hi, h₁.sock.holds⟩ h₁.facts)
  | fail e => exact hfail _ (h₁.failed ho)

theorem safe_packetMmapBind_capture (hfits : ∀ ps, r.sfp = some ps → MessageFits ps)
    {b : ℕ} (hi : Bound r w₀ m.ifindex)
    (h : Setup w₀ (Ringed accepts r w₀ Unbound) (MapsTo w₀ b) m.pfSock w) :
    Watched accepts r w₀ (packetMmapBind m) (Results accepts r w₀ Prod.fst fun a w =>
      a.2 = m ∧ Setup w₀ (Ringed accepts r w₀ (Bound r w₀)) (MapsTo w₀ b) m.pfSock w) w := by
  refine h.safe_bind hfits hi (fun w₁ h₁ => ?_) fun w₁ h₁ => ?_
  · rw [if_pos (by decide)]
    exact h₁.safe_failed hfits (absorbs_unbound hfits)
  · rw [if_neg (by decide)]
    exact h₁.safe_ret (absorbs_bound hfits) (fun _ _ _ h => h) fun _ h => .inr ⟨rfl, rfl, h⟩

theorem safe_runStages_capture (hfits : ∀ ps, r.sfp = some ps → MessageFits ps) {fn : Stage}
    {fns : List Stage} {P P' : ℤ × PacketMmap → World → Prop}
    (hfn : Watched accepts r w₀ (fn m) (Results accepts r w₀ Prod.fst P) w)
    (hrest : ∀ m' w', P (0, m') w' →
      Watched accepts r w₀ (runStages fns m') (Results accepts r w₀ Prod.fst P') w') :
    Watched accepts r w₀ (runStages (fn :: fns) m) (Results accepts r w₀ Prod.fst P') w := by
  refine hfn.bind ?_
  rintro ⟨rc, m'⟩ w' (⟨hrc, h⟩ | ⟨hrc, h⟩)
  · dsimp only at hrc ⊢
    rw [if_pos hrc]
    exact h.safe_bind hfits (takesDown_destroy m') fun _ _ h =>
      h.safe_ret hfits fun _ h => .inl ⟨hrc, h⟩
  · dsimp only at hrc ⊢
    subst hrc
    rw [if_neg (not_not.2 rfl)]
    exact hrest m' w' h

/-- The setup of the ring leaves a mapping of it, and the socket bound. -/
theorem safe_ldabPacketMmapCreate_capture
    (hfits : ∀ ps, r.sfp = some ps → MessageFits ps)
    (hany : r.interface.getD [] ≠ anyInterface)
    (hname : NotCut w₀ (r.interface.getD [])) (type : PacketMmapType)
    (frameSize : BitVec 32) (frameNr : BitVec 64)
    (h : Setup w₀ (Unringed (attachedFilter r)) (fun _ => True) sock w) :
    Watched accepts r w₀
      (ldabPacketMmapCreate (r.interface.getD []) sock type frameSize frameNr)
      (Results accepts r w₀ Prod.fst fun a w => ∃ b, a.2.buf = some b ∧
        Setup w₀ (Ringed accepts r w₀ (Bound r w₀)) (MapsTo w₀ b) sock w) w := by
  have hK : Absorbs accepts r w₀ (Unringed (attachedFilter r)) := absorbs_unringed _
  unfold ldabPacketMmapCreate
  split_ifs
  · exact h.harmless.safe_ret hfits fun _ h => .inl ⟨by simp, h⟩
  refine (safe_ldabDevnameToIfindex_capture hfits hK hany hname h).bind ?_
  rintro ⟨rc, i⟩ w₁ (⟨hrc, h₁⟩ | ⟨hrc, hi, h₁⟩)
  · dsimp only at hrc ⊢
    rw [if_pos hrc]
    exact h₁.safe_ret hfits fun _ h => .inl ⟨hrc, h⟩
  dsimp only at hrc hi ⊢
  rw [if_neg (not_not.2 hrc)]
  split_ifs
  · exact h₁.harmless.safe_ret hfits fun _ h => .inl ⟨by simp, h⟩
  refine safe_runStages_capture hfits (safe_packetMmapRegister_capture hfits h₁) ?_
  rintro m₁ w₂ ⟨rfl, h₂⟩
  refine safe_runStages_capture hfits (safe_packetMmapMmap_capture hfits h₂) ?_
  rintro m₂ w₃ ⟨b, hm, h₃⟩
  obtain rfl : m₂ = _ := hm
  refine safe_runStages_capture hfits (safe_packetMmapVectorCreate_capture hfits h₃) ?_
  rintro m₃ w₄ ⟨⟨v, hm⟩, h₄⟩
  obtain rfl : m₃ = _ := hm
  refine safe_runStages_capture hfits (safe_packetMmapBind_capture hfits hi h₄) ?_
  rintro m₄ w₅ ⟨hm, h₅⟩
  obtain rfl : m₄ = _ := hm
  exact h₅.safe_ret (absorbs_bound hfits) (fun _ _ _ h => h) fun _ h => .inr ⟨rfl, b, rfl, h⟩

end Ring

section Start

theorem Setup.safe_pthreadCreate (hfits : ∀ ps, r.sfp = some ps → MessageFits ps) {b : ℕ}
    {task : PacketTask} (hbuf : task.pktMmap.buf = some b)
    (htype : task.thread.type = .capture) {k : ℕ × ℕ → Prog Call α}
    (h : Setup w₀ (Ringed accepts r w₀ (Bound r w₀)) (MapsTo w₀ b) fd w)
    (hk : ∀ a w', Harmless accepts r w₀ w' → Watched accepts r w₀ (k a) Q w') :
    Watched accepts r w₀ ((Prog.perform (.pthreadCreate task)).bind k) Q w := by
  refine h.safe_call (absorbs_bound hfits) (fun _ _ _ h => h) fun o w₁ _ h₁ => ?_
  cases o with
  | ok id =>
      simp only [World.handle]
      split_ifs
      · exact hk _ _ (.inl h₁.length)
      · refine hk _ _ (.inr ⟨h₁.sock, w₁.newThread id task, ?_, ?_, ?_, ?_⟩)
        · simp only [World.withThread, ← h₁.length, List.getElem?_concat_length]
        · exact ⟨0, .status, by rw [World.newThread, htype]; rfl⟩
        · exact ⟨b, hbuf, .inl h₁.facts⟩
        · intro f hf
          cases hf
  | fail e => exact hk _ _ (.inl h₁.length)

theorem safe_dabbadThreadStart_capture (hfits : ∀ ps, r.sfp = some ps → MessageFits ps)
    {b : ℕ} {task : PacketTask} (hbuf : task.pktMmap.buf = some b)
    (htype : task.thread.type = .capture)
    (h : Setup w₀ (Ringed accepts r w₀ (Bound r w₀)) (MapsTo w₀ b) fd w) :
    Watched accepts r w₀ (dabbadThreadStart task) (fun _ => Harmless accepts r w₀) w := by
  refine h.safe_pthreadCreate hfits hbuf htype fun a w₁ h₁ => ?_
  refine h₁.safe hfits ?_
  simp [dabbadThreadInsert, Call.TakesDown]

/-- The second part of the start. -/
theorem safe_runTask_capture (hfits : ∀ ps, r.sfp = some ps → MessageFits ps)
    (hany : r.interface.getD [] ≠ anyInterface)
    (hname : NotCut w₀ (r.interface.getD [])) (addr : ℕ)
    (h : Setup w₀ (Unringed none) (fun _ => True) sock w) :
    Watched accepts r w₀
      (runTask .capture .rx r.toSettings (attachCaptureFilter r.sfp) dabbadSfpDestroy sock
        addr fd)
      (fun _ => Harmless accepts r w₀) w := by
  have hdestroy : ∀ sfp, (dabbadSfpDestroy sfp).Uses Call.TakesDown := by
    simp [dabbadSfpDestroy, Call.TakesDown]
  refine (safe_attachCaptureFilter_capture hfits h).bind ?_
  rintro ⟨rc, sfp⟩ w₁ (⟨hrc, h₁⟩ | ⟨hrc, h₁⟩)
  · dsimp only at hrc ⊢
    rw [if_pos hrc]
    exact h₁.safe_abandon hfits addr sock fun _ h => h
  dsimp only at hrc ⊢
  rw [if_neg (not_not.2 hrc)]
  refine (safe_ldabPacketMmapCreate_capture hfits hany hname _ _ _ h₁).bind ?_
  rintro ⟨rc, m⟩ w₂ (⟨hrc, h₂⟩ | ⟨hrc, b, hbuf, h₂⟩)
  · dsimp only at hrc ⊢
    rw [if_pos hrc]
    exact h₂.safe_bind hfits (hdestroy sfp) fun _ _ h =>
      h.safe_abandon hfits addr sock fun _ h => h
  dsimp only at hrc hbuf ⊢
  rw [if_neg (not_not.2 hrc)]
  refine (safe_dabbadThreadStart_capture hfits hbuf rfl h₂).bind ?_
  rintro ⟨rc, thread⟩ w₃ h₃
  dsimp only
  split_ifs
  · refine h₃.safe_bind hfits (takesDown_destroy m) fun _ _ h => ?_
    exact h.safe_bind hfits (hdestroy sfp) fun _ _ h =>
      h.safe_abandon hfits addr sock fun _ h => h
  · exact h₃.safe hfits (by simp [dabbadTaskInsert, Call.TakesDown])

theorem safe_dabbadCaptureStart (hfits : ∀ ps, r.sfp = some ps → MessageFits ps)
    (hany : r.interface.getD [] ≠ anyInterface)
    (hname : NotCut w₀ (r.interface.getD [])) (h : Before w₀ w) :
    Watched accepts r w₀ (dabbadCaptureStart r) (fun _ => Harmless accepts r w₀) w := by
  refine (safe_openTask_capture hfits h).bind fun acquired w₁ h₁ => ?_
  cases acquired with
  | inl rc => exact h₁.safe_ret hfits fun _ h => h
  | inr acquired => exact safe_runTask_capture hfits hany hname acquired.2.1 h₁

/-- In every run of the start of a capture on an interface, with any outcome of its calls
and among any arrivals and any steps of its thread, where no packet of another interface
arrives while the ring is there and the socket is not bound, the thread writes only
packets that arrived on the interface and were accepted by the filter. The name is one
the kernel has room for, or cut short it is no interface, and the filter fits the native
one. -/
theorem requested_of_reaches (accepts : List Bpf.SockFilter → Frame → Bool)
    (r : CaptureRequest) (w₀ : World) (hany : r.interface ≠ some anyInterface)
    (hname : NotCut w₀ (r.interface.getD []))
    (hfits : ∀ ps, r.sfp = some ps → MessageFits ps) {p : Option (Prog Call ℤ)} {w : World}
    (hrun : Reaches (Step World.errnoSem (QuietEnv accepts r w₀) fun _ => False)
      (some (dabbadCaptureStart r), w₀) (p, w))
    (hp : p ≠ some .abort) : OnlyRequested accepts r w₀ w := by
  have hgetD : r.interface.getD [] ≠ anyInterface := by
    cases hr : r.interface with
    | none => decide
    | some name => exact fun heq => hany (hr ▸ congrArg some heq)
  have hsafe : SafeConfig World.errnoSem (QuietEnv accepts r w₀) (OnlyRequested accepts r w₀)
      (Harmless accepts r w₀) (some (dabbadCaptureStart r), w₀) :=
    safe_dabbadCaptureStart hfits hgetD hname ⟨rfl, rfl, rfl⟩
  exact SafeConfig.inv_of_reaches (assertion_harmless hfits) (fun _ hstart => hstart.elim)
    hsafe hrun hp

end Start

section Play

/-- A step of a run: the next call of the start, an arrival at its socket, or a step of
its thread. -/
inductive Move
  | call (o : Outcome)
  | arrival (tpStatus : BitVec 64) (f : Frame)
  | thread (o : Outcome)

variable (accepts : List Bpf.SockFilter → Frame → Bool) (w₀ : World)
variable (allowed : World → ℕ → Frame → Prop) [∀ w s f, Decidable (allowed w s f)]

/-- The state after a move of the environment, if it is one of its steps. -/
def playEnv (w : World) : Move → Option World
  | .call _ => none
  | .arrival tpStatus f =>
      match (w.sock w₀.nextSock).ring with
      | some ring =>
          if ring.type = .rx ∧ (w.sock w₀.nextSock).receives accepts f = true ∧
              (ring.slot ring.head).tpStatus = tpStatusKernel ∧
              tpStatus &&& tpStatusUser = tpStatusUser ∧ allowed w w₀.nextSock f then
            some (w.putRing w₀.nextSock (ring.deliver tpStatus f))
          else none
      | none => none
  | .thread o =>
      match w.threads[w₀.threads.length]? with
      | some t =>
          match w.stepThread t o with
          | some (t', slot, os) =>
              if t.mayStep = true then
                some ((w.putSlots t slot).putThread w₀.threads.length t' os)
              else none
          | none => none
      | none => none

/-- The state of a run after a move, if the move is one of its steps. -/
def play (m : Move) : Prog Call ℤ × World → Option (Prog Call ℤ × World)
  | (.abort, _) => none
  | (.ret a, w) => (playEnv accepts w₀ allowed w m).map fun w' => (.ret a, w')
  | (.call op k, w) =>
      match m with
      | .call o =>
          if o = .fail 0 then none
          else some (k (World.handle op o w).1, (World.handle op o w).2)
      | _ => (playEnv accepts w₀ allowed w m).map fun w' => (.call op k, w')

def playAll : List Move → Prog Call ℤ × World → Option (Prog Call ℤ × World)
  | [], c => some c
  | m :: ms, c => (play accepts w₀ allowed m c).bind (playAll ms)

variable {accepts w₀ allowed}

theorem env_of_playEnv {m : Move} {w w' : World}
    (h : playEnv accepts w₀ allowed w m = some w') : StartEnv accepts w₀ allowed w w' := by
  cases m with
  | call o => cases h
  | arrival tpStatus f =>
      rw [playEnv] at h
      split at h
      · rename_i ring hring
        split_ifs at h with hok
        obtain rfl := Option.some.inj h
        obtain ⟨hrx, hreceives, hkernel, huser, hallowed⟩ := hok
        exact .arrival ⟨hring, hrx, hreceives, hkernel, huser⟩ hallowed
      · cases h
  | thread o =>
      rw [playEnv] at h
      split at h
      · rename_i t ht
        split at h
        · rename_i t' slot os hstep
          split_ifs at h with hmay
          obtain rfl := Option.some.inj h
          exact .thread o ht hmay hstep
        · cases h
      · cases h

theorem step_of_play {m : Move} {p p' : Prog Call ℤ} {w w' : World}
    (h : play accepts w₀ allowed m (p, w) = some (p', w')) :
    Step World.errnoSem (StartEnv accepts w₀ allowed) (fun _ => False) (some p, w)
      (some p', w') := by
  have henv : (playEnv accepts w₀ allowed w m).map (fun w' => (p, w')) = some (p', w') →
      p ≠ .abort → Step World.errnoSem (StartEnv accepts w₀ allowed) (fun _ => False)
        (some p, w) (some p', w') := by
    intro h hp
    obtain ⟨w₁, hw₁, heq⟩ := Option.map_eq_some_iff.1 h
    obtain ⟨rfl, rfl⟩ := Prod.mk.inj heq
    exact .env (fun heq => hp (Option.some.inj heq)) (env_of_playEnv hw₁)
  cases p with
  | abort => cases h
  | ret a => exact henv h nofun
  | call op k =>
      cases m with
      | call o =>
          rw [play] at h
          split_ifs at h with ho
          obtain ⟨rfl, rfl⟩ := Prod.mk.inj (Option.some.inj h)
          exact .call ⟨o, ho, rfl⟩
      | arrival tpStatus f => exact henv h nofun
      | thread o => exact henv h nofun

theorem reaches_of_playAll {ms : List Move} {p p' : Prog Call ℤ} {w w' : World}
    (h : playAll accepts w₀ allowed ms (p, w) = some (p', w')) :
    Reaches (Step World.errnoSem (StartEnv accepts w₀ allowed) fun _ => False) (some p, w)
      (some p', w') := by
  induction ms generalizing p w with
  | nil =>
      obtain ⟨rfl, rfl⟩ := Prod.mk.inj (Option.some.inj h)
      exact .refl
  | cons m ms ih =>
      obtain ⟨⟨p₁, w₁⟩, hplay, hrest⟩ := Option.bind_eq_some_iff.1 h
      exact .head (step_of_play hplay) (ih hrest)

end Play

section Example

def eth0Request : CaptureRequest :=
  { anyRequest with interface := some eth0, sfp := some [acceptAll] }

def packetFrom (sllIfindex : ℤ) : Frame := ⟨4, 4, 0, 0, 0, sllIfindex, [1, 2, 3, 4]⟩

/-- A start in which the packet arrives after `n` calls, and a round of its thread. -/
def startWithArrival (n : ℕ) (f : Frame) : List Move :=
  (List.range n).map (fun k => .call (goodScript k)) ++ [.arrival tpStatusUser f] ++
    (List.range' n (19 - n)).map (fun k => .call (goodScript k)) ++
    [.thread (.ok 0), .thread (.ok 0)]

theorem requested_of_reaches_eth0Request : ∃ w t,
    w.threads = [t] ∧ t.written = [packetFrom 2] ∧
      OnlyRequested (fun _ _ => true) eth0Request .boot w := by
  obtain ⟨w, t, hplay, hthreads, hwritten⟩ : ∃ w t,
      playAll (fun _ _ => true) .boot (OutsideWindow eth0Request .boot)
        (startWithArrival 14 (packetFrom 2)) (dabbadCaptureStart eth0Request, .boot) =
          some (.ret 0, w) ∧ w.threads = [t] ∧ t.written = [packetFrom 2] :=
    ⟨_, _, rfl, rfl, rfl⟩
  have hname : NotCut .boot (eth0Request.interface.getD []) := fun _ h => h
  have hfits : ∀ ps, eth0Request.sfp = some ps → MessageFits ps := by
    rintro ps ⟨⟩
    refine ⟨by decide, fun q hq => ?_⟩
    obtain rfl := List.mem_singleton.1 hq
    exact ⟨by decide, by decide, by decide⟩
  exact ⟨w, t, hthreads, hwritten, requested_of_reaches _ _ _ (by decide) hname hfits
    (reaches_of_playAll hplay) (by simp)⟩

/-- A packet of another interface arrives after the registration of the ring and before
the binding, and is captured. -/
theorem not_onlyRequested_foreignPacket : ∃ w,
    Reaches (Step World.errnoSem (StartEnv (fun _ _ => true) .boot fun _ _ _ => True)
        fun _ => False)
      (some (dabbadCaptureStart eth0Request), .boot) (some (.ret 0), w) ∧
    ¬ OnlyRequested (fun _ _ => true) eth0Request .boot w := by
  obtain ⟨w, t, hplay, hthreads, hwritten⟩ : ∃ w t,
      playAll (fun _ _ => true) .boot (fun _ _ _ => True)
        (startWithArrival 10 (packetFrom 3)) (dabbadCaptureStart eth0Request, .boot) =
          some (.ret 0, w) ∧ w.threads = [t] ∧ t.written = [packetFrom 3] :=
    ⟨_, _, rfl, rfl, rfl⟩
  refine ⟨w, reaches_of_playAll hplay, fun h => ?_⟩
  have hget : w.threads[World.boot.threads.length]? = some t := by
    rw [hthreads]
    rfl
  have hmem : packetFrom 3 ∈ t.written := by simp [hwritten]
  have hiface := (h t hget _ hmem).interface
  exact absurd hiface (by decide)

end Example

end Dabbad
