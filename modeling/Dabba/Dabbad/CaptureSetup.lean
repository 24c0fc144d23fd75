import Dabba.Dabbad.Arrivals

/-!
# The socket of a capture before its ring

The first half of a start is followed call by call: the socket, the files of the capture,
the filter and the index of the interface. Nothing arrives there, since there is no ring.
After a failure the rest of the start only takes down what was set up.
-/

namespace Dabbad

open Posix Program Tpacket SockFilter Pcap Transition

section

variable (accepts : List Bpf.SockFilter → Frame → Bool) (r : CaptureRequest) (w₀ : World)

abbrev Watched {α : Type} (p : Prog Call α) (Q : α → World → Prop) (w : World) : Prop :=
  p.Safe World.errnoSem (QuietEnv accepts r w₀) (OnlyRequested accepts r w₀) Q w

/-- A result of zero comes with what was to be set up; otherwise nothing was started. -/
def Results {α : Type} (rc : α → ℤ) (P : α → World → Prop) (a : α) (w : World) : Prop :=
  (rc a ≠ 0 ∧ Harmless accepts r w₀ w) ∨ (rc a = 0 ∧ P a w)

end

variable {accepts : List Bpf.SockFilter → Frame → Bool} {r : CaptureRequest} {w₀ : World}
variable {w w' : World} {α β : Type} {Q : α → World → Prop}
variable {K : PacketSock → Prop} {facts facts' : World → Prop} {fd sock : ℤ}

theorem Setup.harmless (h : Setup w₀ K facts fd w) : Harmless accepts r w₀ w := .inl h.length

section Rules

theorem Setup.safe_call (hK : Absorbs accepts r w₀ K)
    (hfacts : ∀ w s x, facts w → facts (w.setSock s x)) {op : Call β} {k : β → Prog Call α}
    (h : Setup w₀ K facts fd w)
    (hk : ∀ o w', o ≠ .fail 0 → Setup w₀ K facts fd w' →
      Watched accepts r w₀ (k (World.handle op o w').1) Q (World.handle op o w').2) :
    Watched accepts r w₀ ((Prog.perform op).bind k) Q w := by
  refine Prog.Safe.call (assertion_setup hK hfacts fd) h fun s a s' hs hsem => ?_
  obtain ⟨o, ho, heq⟩ := hsem
  have hsafe := hk o s ho hs
  rwa [heq] at hsafe

theorem Setup.safe_ret (hK : Absorbs accepts r w₀ K)
    (hfacts : ∀ w s x, facts w → facts (w.setSock s x)) {a : α}
    (h : Setup w₀ K facts fd w) (hQ : ∀ w, Setup w₀ K facts fd w → Q a w) :
    Watched accepts r w₀ (.ret a) Q w :=
  Prog.Safe.ret (assertion_setup hK hfacts fd) h hQ

/-- Everything that may follow a failure. -/
theorem Harmless.safe (hfits : ∀ ps, r.sfp = some ps → MessageFits ps) {p : Prog Call α}
    (hp : p.Uses Call.TakesDown) (h : Harmless accepts r w₀ w) :
    Watched accepts r w₀ p (fun _ => Harmless accepts r w₀) w := by
  refine Prog.Safe.of_uses (assertion_harmless hfits) ?_ hp h
  rintro β op s a s' hop hs ⟨o, -, heq⟩
  have hs' := hs.takesDown hop o
  rwa [heq] at hs'

theorem Setup.quiet {op : Call β} (hop : Call.IsQuiet β op) (h : Setup w₀ K facts fd w)
    (o : Outcome) (hfacts : facts' (World.handle op o w).2) :
    Setup w₀ K facts' fd (World.handle op o w).2 := by
  obtain ⟨hdrift, hthreads⟩ := (hop.isStill β op).drift o w
  refine ⟨hdrift.iface.trans h.iface, by rw [hthreads, h.length], ?_, ?_, hfacts⟩
  · rw [hdrift.ident]
    exact h.ident
  · have hsock : (World.handle op o w).2.sock = w.sock := by
      cases op with
      | file | getQueues => rfl
      | siocgifindex fd name =>
          cases o <;> simp only [World.handle] <;> try split
          all_goals rfl
      | pthreadDetach id => cases o <;> rfl
      | _ => exact hop.elim
    rw [hsock]
    exact h.sock

theorem Harmless.safe_bind (hfits : ∀ ps, r.sfp = some ps → MessageFits ps)
    {p : Prog Call β} {f : β → Prog Call α} (hp : p.Uses Call.TakesDown)
    (h : Harmless accepts r w₀ w)
    (hf : ∀ b w', Harmless accepts r w₀ w' → Watched accepts r w₀ (f b) Q w') :
    Watched accepts r w₀ (p.bind f) Q w :=
  Prog.Safe.bind (h.safe hfits hp) hf

theorem Harmless.safe_ret (hfits : ∀ ps, r.sfp = some ps → MessageFits ps) {a : α}
    (h : Harmless accepts r w₀ w) (hQ : ∀ w, Harmless accepts r w₀ w → Q a w) :
    Watched accepts r w₀ (.ret a) Q w :=
  Prog.Safe.ret (assertion_harmless hfits) h hQ

theorem Setup.file {op : FileCall β} {o : Outcome} (h : Setup w₀ K facts fd w)
    (hident : (Os.handle op o w.os).2.ident fd = w.os.ident fd)
    (hfacts : facts' (World.handle (.file op) o w).2) :
    Setup w₀ K facts' fd (World.handle (.file op) o w).2 :=
  ⟨h.iface, h.length, hident.trans h.ident, h.sock, hfacts⟩

theorem Setup.closed {n : ℤ} (h : Setup w₀ K facts fd w) (hn : fd ≠ n) (o : Outcome)
    (hfacts : facts' (World.handle (.file (.close n)) o w).2) :
    Setup w₀ K facts' fd (World.handle (.file (.close n)) o w).2 := by
  refine h.file ?_ hfacts
  rw [Os.ident_close, Function.update_of_ne hn]

theorem openFrame_setup (hK : Absorbs accepts r w₀ K) (fd : ℤ) :
    OpenFrame World.errnoSem (QuietEnv accepts r w₀) (OnlyRequested accepts r w₀)
      (Setup w₀ K (fun _ => True) fd)
      fun n w => fd ≠ n ∧ Setup w₀ K (fun _ => True) fd w where
  before := assertion_setup hK (fun _ _ _ _ => trivial) fd
  after n := by
    have hsetup : Assertion (QuietEnv accepts r w₀) (OnlyRequested accepts r w₀)
        (Setup w₀ K (fun _ => True) fd) := assertion_setup hK (fun _ _ _ _ => trivial) fd
    exact ⟨fun w w' h henv => ⟨h.1, hsetup.stable w w' h.2 henv⟩,
      fun w h => hsetup.inv_of w h.2⟩
  quiet {β op w a w'} hop h := by
    rintro ⟨o, -, heq⟩
    have h' : Setup w₀ K (fun _ => True) fd (World.handle op o w).2 := h.quiet hop o trivial
    rwa [heq] at h'
  quiet_after {β op n w a w'} hop h := by
    rintro ⟨o, -, heq⟩
    have h' : Setup w₀ K (fun _ => True) fd (World.handle op o w).2 :=
      h.2.quiet hop o trivial
    rw [heq] at h'
    exact ⟨h.1, h'⟩
  opening {op w n w'} hopening h := by
    rintro ⟨o, -, heq⟩
    have hopened := hopening o w.os
    have hfile : (Os.handle op o w.os).2.ident fd = w.os.ident fd →
        Setup w₀ K (fun _ => True) fd (World.handle (.file op) o w).2 :=
      fun hident => h.file hident trivial
    rw [heq] at hfile
    obtain ⟨rfl, -⟩ := Prod.mk.inj heq
    rw [Os.OpenedFile] at hopened
    split_ifs at hopened with hn
    · exact .inl ⟨hn, hfile (by rw [hopened])⟩
    · obtain ⟨hfree, i, hident⟩ := hopened
      have hne : fd ≠ (Os.handle op o w.os).1 := by
        intro heq
        rw [← heq, h.ident] at hfree
        cases hfree
      exact .inr ⟨hn, hne, hfile (by rw [hident, Function.update_of_ne hne])⟩
  close {n w rc w'} h := by
    rintro ⟨o, -, heq⟩
    have h' : Setup w₀ K (fun _ => True) fd (World.handle (.file (.close n)) o w).2 :=
      h.2.closed h.1 o trivial
    rwa [heq] at h'

end Rules

section Open

/-- The start has not yet made its socket. -/
structure Before (w₀ w : World) : Prop where
  iface : w.iface = w₀.iface
  length : w.threads.length = w₀.threads.length
  nextSock : w.nextSock = w₀.nextSock

theorem assertion_before :
    Assertion (QuietEnv accepts r w₀) (OnlyRequested accepts r w₀) (Before w₀) where
  stable w w' h henv := by
    cases henv with
    | arrival => exact ⟨h.iface, h.length, h.nextSock⟩
    | thread o ht hmay hstep =>
        rw [← h.length, List.getElem?_length] at ht
        cases ht
  inv_of w h := onlyRequested_of_length h.length

theorem safe_socketPacket {k : ℤ → Prog Call α} (h : Before w₀ w)
    (hfail : ∀ sock w', sock < 0 → Harmless accepts r w₀ w' →
      Watched accepts r w₀ (k sock) Q w')
    (hok : ∀ sock w', ¬ sock < 0 → Setup w₀ (Unringed none) (fun _ => True) sock w' →
      Watched accepts r w₀ (k sock) Q w') :
    Watched accepts r w₀ ((Prog.perform .socketPacket).bind k) Q w := by
  refine Prog.Safe.call assertion_before h fun s a s' hs hsem => ?_
  obtain ⟨o, -, heq⟩ := hsem
  have hfailed : ∀ e, Harmless accepts r w₀ (s.failed e) := fun e => .inl hs.length
  cases o with
  | ok n =>
      simp only [World.handle] at heq
      split_ifs at heq with hfresh <;> obtain ⟨rfl, rfl⟩ := Prod.mk.inj heq
      · refine hok n _ (by omega) ⟨hs.iface, hs.length, ?_, ?_, trivial⟩
        · simp only [Os.ident_install, Function.update_self, Descriptor.ident, hs.nextSock]
        · simp only [World.setSock, hs.nextSock, Function.update_self]
          exact ⟨rfl, rfl, rfl⟩
      · exact hfail _ _ (by decide) (hfailed _)
  | fail e =>
      obtain ⟨rfl, rfl⟩ := Prod.mk.inj heq
      exact hfail _ _ (by decide) (hfailed _)

theorem Setup.safe_calloc (hK : Absorbs accepts r w₀ K)
    (hfacts : ∀ w s x, facts w → facts (w.setSock s x))
    (hkeep : ∀ o w, facts w → facts (World.handle .calloc o w).2) {k : Option ℕ → Prog Call α}
    (h : Setup w₀ K facts fd w)
    (hk : ∀ b w', Setup w₀ K facts fd w' → Watched accepts r w₀ (k b) Q w') :
    Watched accepts r w₀ ((Prog.perform .calloc).bind k) Q w := by
  refine h.safe_call hK hfacts fun o w₁ _ h₁ => hk _ _ ?_
  have hfacts₁ := hkeep o w₁ h₁.facts
  cases o <;> exact ⟨h₁.iface, h₁.length, h₁.ident, h₁.sock, hfacts₁⟩

theorem takesDown_errno : errno.Uses Call.TakesDown := by simp [errno, Call.TakesDown]

theorem takesDown_close (sock : ℤ) : (close sock).Uses Call.TakesDown := by
  simp [close, Call.TakesDown]

theorem Harmless.safe_abandon (hfits : ∀ ps, r.sfp = some ps → MessageFits ps) {a : α}
    (h : Harmless accepts r w₀ w) (addr : ℕ) (sock : ℤ)
    (hQ : ∀ w, Harmless accepts r w₀ w → Q a w) :
    Watched accepts r w₀ ((Prog.perform (Call.free (some addr))).bind fun _ =>
      (close sock).bind fun _ => .ret a) Q w := by
  have hfree : (Prog.perform (Call.free (some addr))).Uses Call.TakesDown := by
    simp [Call.TakesDown]
  refine h.safe_bind hfits hfree fun _ _ h => ?_
  exact h.safe_bind hfits (takesDown_close sock) fun _ _ h => h.safe_ret hfits hQ

def Opened (accepts : List Bpf.SockFilter → Frame → Bool) (r : CaptureRequest)
    (w₀ : World) : ℤ ⊕ (ℤ × ℕ × ℤ) → World → Prop
  | .inl _ => Harmless accepts r w₀
  | .inr (sock, _, _) => Setup w₀ (Unringed none) (fun _ => True) sock

theorem safe_openTask_capture (hfits : ∀ ps, r.sfp = some ps → MessageFits ps)
    (h : Before w₀ w) :
    Watched accepts r w₀ (openTask r.toSettings (openCapturePcap r.append))
      (Opened accepts r w₀) w := by
  have hK : Absorbs accepts r w₀ (Unringed none) := absorbs_unringed none
  unfold openTask
  split_ifs
  · exact Prog.Safe.ret assertion_before h fun _ h => .inl h.length
  refine safe_socketPacket h (fun sock w₁ hsock h₁ => ?_) fun sock w₁ hsock h₁ => ?_
  · rw [if_pos hsock]
    exact h₁.safe_bind hfits takesDown_errno fun _ _ h => h.safe_ret hfits fun _ h => h
  rw [if_neg hsock]
  refine h₁.safe_calloc hK (fun _ _ _ _ => trivial) (fun _ _ _ => trivial)
    fun addr w₃ h₃ => ?_
  cases addr with
  | none =>
      exact h₃.harmless.safe_bind hfits (takesDown_close sock) fun _ _ h =>
        h.safe_ret hfits fun _ h => h
  | some addr =>
      refine ((openFrame_setup hK sock).openCapturePcap r.append _ h₃).bind ?_
      rintro fd w₄ (⟨hfd, h₄⟩ | ⟨hfd, -, h₄⟩)
      · rw [if_pos hfd]
        refine h₄.harmless.safe_bind hfits takesDown_errno fun rc w₅ h₅ => ?_
        exact h₅.safe_abandon hfits addr sock fun _ h => h
      · rw [if_neg hfd]
        exact h₄.safe_ret hK (fun _ _ _ _ => trivial) fun _ h => h

end Open

section Filter

theorem packetSock_of_ident {s : ℕ} (h : w.os.ident fd = some (.inr (.packet s))) :
    w.packetSock fd = some s := by
  rw [Os.ident, Option.map_eq_some_iff] at h
  obtain ⟨d, hd, hident⟩ := h
  cases d with
  | file f => cases hident
  | socket ref =>
      obtain rfl := Sum.inr.inj hident
      simp only [World.packetSock, hd]

theorem Setup.packetSock (h : Setup w₀ K facts fd w) :
    w.packetSock fd = some w₀.nextSock := packetSock_of_ident h.ident

theorem Setup.setSock {K' : PacketSock → Prop} (h : Setup w₀ K facts fd w) {x : PacketSock}
    (hx : K' x) (hfacts : facts' (w.setSock w₀.nextSock x)) :
    Setup w₀ K' facts' fd (w.setSock w₀.nextSock x) where
  iface := h.iface
  length := h.length
  ident := h.ident
  sock := by
    simp only [World.setSock, Function.update_self]
    exact hx
  facts := hfacts

theorem Setup.safe_setFilter {filter : Option (List Bpf.SockFilter)} {k : ℤ → Prog Call α}
    (h : Setup w₀ (Unringed none) (fun _ => True) sock w)
    (hfail : ∀ rc w', rc ≠ 0 → Harmless accepts r w₀ w' → Watched accepts r w₀ (k rc) Q w')
    (hok : ∀ w', Setup w₀ (Unringed filter) (fun _ => True) sock w' →
      Watched accepts r w₀ (k 0) Q w') :
    Watched accepts r w₀ ((Prog.perform (.setFilter sock filter)).bind k) Q w := by
  refine h.safe_call (absorbs_unringed none) (fun _ _ _ _ => trivial) fun o w₁ _ h₁ => ?_
  cases o with
  | ok n =>
      simp only [World.handle, h₁.packetSock]
      have hx : Unringed filter { w₁.sock w₀.nextSock with filter := filter } :=
        ⟨h₁.sock.ring, rfl, h₁.sock.ifindex⟩
      exact hok _ (h₁.setSock hx trivial)
  | fail e =>
      have hrc : (-1 : ℤ) ≠ 0 := by decide
      exact hfail _ _ hrc (.inl h₁.length)

/-- The filter of the request is attached before there is a ring. -/
theorem safe_attachCaptureFilter_capture (hfits : ∀ ps, r.sfp = some ps → MessageFits ps)
    (h : Setup w₀ (Unringed none) (fun _ => True) sock w) :
    Watched accepts r w₀ (attachCaptureFilter r.sfp sock)
      (Results accepts r w₀ Prod.fst fun _ =>
        Setup w₀ (Unringed (attachedFilter r)) (fun _ => True) sock) w := by
  have hK : ∀ filter, Absorbs accepts r w₀ (Unringed filter) := absorbs_unringed
  have hret : ∀ (sfp : Sfp) w, Setup w₀ (Unringed (attachedFilter r)) (fun _ => True) sock w →
      Watched accepts r w₀ (.ret ((0, sfp) : ℤ × Sfp))
        (Results accepts r w₀ Prod.fst fun _ =>
          Setup w₀ (Unringed (attachedFilter r)) (fun _ => True) sock) w :=
    fun sfp w h => h.safe_ret (hK _) (fun _ _ _ _ => trivial) fun _ h => .inr ⟨rfl, h⟩
  have hfree : ∀ b, (Prog.perform (Call.free b)).Uses Call.TakesDown := by
    simp [Call.TakesDown]
  cases hsfp : r.sfp with
  | none =>
      have hfilter : attachedFilter r = none := by rw [attachedFilter, hsfp]
      exact hret _ _ (by rwa [hfilter])
  | some l =>
      cases l with
      | nil =>
          have hfilter : attachedFilter r = none := by rw [attachedFilter, hsfp]
          exact hret _ _ (by rwa [hfilter])
      | cons p ps =>
          have hfilter : attachedFilter r = some (SockFprog.ofPbuf (p :: ps)).program := by
            rw [attachedFilter, hsfp]
          refine h.safe_calloc (hK _) (fun _ _ _ _ => trivial) (fun _ _ _ => trivial)
            fun filter w₁ h₁ => ?_
          rcases hconvert : dabbadPbufSfp2Sfp filter.isSome (p :: ps) with ⟨rc, prog⟩
          dsimp only
          by_cases hrc : rc = 0
          · subst hrc
            obtain ⟨rfl, -⟩ := eq_ofPbuf_of_dabbadPbufSfp2Sfp hconvert
            rw [if_neg (not_not.2 rfl), ← hfilter]
            refine h₁.safe_setFilter (fun rc w₂ hrc h₂ => ?_) fun w₂ h₂ => hret _ _ h₂
            rw [if_pos hrc]
            exact h₂.safe_bind hfits (hfree filter) fun _ _ h =>
              h.safe_ret hfits fun _ h => .inl ⟨hrc, h⟩
          · rw [if_pos hrc]
            refine h₁.harmless.safe_bind hfits (hfree filter) fun _ _ h => ?_
            exact h.safe_ret hfits fun _ h => .inl ⟨Int.natCast_ne_zero.2 hrc, h⟩

end Filter

section Interface

theorem Setup.safe_errno (hK : Absorbs accepts r w₀ K) {k : ℤ → Prog Call α}
    (h : Setup w₀ K (fun w => w.os.errno ≠ 0) fd w)
    (hk : ∀ rc w', rc ≠ 0 → Harmless accepts r w₀ w' → Watched accepts r w₀ (k rc) Q w') :
    Watched accepts r w₀ (errno.bind k) Q w := by
  refine h.safe_call hK (fun _ _ _ h => h) fun o w₁ _ h₁ => ?_
  exact hk _ _ (Int.natCast_ne_zero.2 h₁.facts) h₁.harmless

/-- A descriptor for another socket. -/
theorem Setup.safe_socketInet (hK : Absorbs accepts r w₀ K) {k : ℤ → Prog Call α}
    (h : Setup w₀ K (fun _ => True) fd w)
    (hfail : ∀ n w', n < 0 → Setup w₀ K (fun w => w.os.errno ≠ 0) fd w' →
      Watched accepts r w₀ (k n) Q w')
    (hok : ∀ n w', ¬ n < 0 → fd ≠ n → Setup w₀ K (fun _ => True) fd w' →
      Watched accepts r w₀ (k n) Q w') :
    Watched accepts r w₀ ((Prog.perform .socketInet).bind k) Q w := by
  refine h.safe_call hK (fun _ _ _ _ => trivial) fun o w₁ ho h₁ => ?_
  cases o with
  | ok n =>
      simp only [World.handle]
      split_ifs with hfresh
      · have hne : fd ≠ n := by
          rintro rfl
          have hident := h₁.ident
          rw [Os.ident, hfresh.2] at hident
          cases hident
        refine hok _ _ (by omega) hne ⟨h₁.iface, h₁.length, ?_, h₁.sock, trivial⟩
        simp only [Os.ident_install, Function.update_of_ne hne]
        exact h₁.ident
      · have herrno : emfile ≠ 0 := by decide
        have hneg : (-1 : ℤ) < 0 := by decide
        exact hfail _ _ hneg ⟨h₁.iface, h₁.length, h₁.ident, h₁.sock, herrno⟩
  | fail e =>
      have herrno : e ≠ 0 := fun he => ho (by rw [he])
      have hneg : (-1 : ℤ) < 0 := by decide
      exact hfail _ _ hneg ⟨h₁.iface, h₁.length, h₁.ident, h₁.sock, herrno⟩

theorem Setup.safe_siocgifindex (hK : Absorbs accepts r w₀ K) {n : ℤ} {name : Path}
    {k : Option ℤ → Prog Call α} (h : Setup w₀ K (fun _ => True) fd w)
    (hnone : ∀ w', Setup w₀ K (fun w => w.os.errno ≠ 0) fd w' →
      Watched accepts r w₀ (k none) Q w')
    (hsome : ∀ i w', w₀.iface name = some i → Setup w₀ K (fun _ => True) fd w' →
      Watched accepts r w₀ (k (some i)) Q w') :
    Watched accepts r w₀ ((Prog.perform (.siocgifindex n name)).bind k) Q w := by
  refine h.safe_call hK (fun _ _ _ _ => trivial) fun o w₁ ho h₁ => ?_
  have hfailed : ∀ e, e ≠ 0 → Setup w₀ K (fun w => w.os.errno ≠ 0) fd (w₁.failed e) :=
    fun e he => ⟨h₁.iface, h₁.length, h₁.ident, h₁.sock, he⟩
  cases o with
  | ok m =>
      simp only [World.handle, h₁.iface]
      cases hname : w₀.iface name with
      | none => exact hnone _ (hfailed _ (by decide))
      | some i => exact hsome i _ hname h₁
  | fail e => exact hnone _ (hfailed e fun he => ho (by rw [he]))

theorem errno_close {n : ℤ} (o : Outcome) (w : World) (ho : o ≠ .fail 0)
    (h : w.os.errno ≠ 0) : (World.handle (.file (.close n)) o w).2.os.errno ≠ 0 := by
  have hebadf : ebadf ≠ 0 := by decide
  simp only [World.handle]
  cases hfd : w.os.fds n with
  | none =>
      cases o <;> simp only [Os.handle, hfd] <;> exact hebadf
  | some d =>
      cases o with
      | ok m =>
          simp only [Os.handle, hfd]
          exact h
      | fail e =>
          simp only [Os.handle, hfd]
          exact fun he => ho (congrArg Outcome.fail he)

theorem Setup.safe_close (hK : Absorbs accepts r w₀ K)
    (hfacts : ∀ w s x, facts w → facts (w.setSock s x)) {n : ℤ}
    (hkeep : ∀ o w, o ≠ .fail 0 → facts w → facts (World.handle (.file (.close n)) o w).2)
    {k : ℤ → Prog Call α} (h : Setup w₀ K facts fd w) (hne : fd ≠ n)
    (hk : ∀ rc w', Setup w₀ K facts fd w' → Watched accepts r w₀ (k rc) Q w') :
    Watched accepts r w₀ ((close n).bind k) Q w :=
  h.safe_call hK hfacts fun o w₁ ho h₁ =>
    hk _ _ (h₁.closed hne o (hkeep o w₁ ho h₁.facts))

/-- Cutting the name to the size of the kernel's does not make it that of another
interface. -/
def NotCut (w₀ : World) (dev : Path) : Prop :=
  ∀ i, w₀.iface (dev.take (ifnamsiz - 1)) = some i → w₀.iface dev = some i

theorem safe_ldabDevnameToIfindex_capture
    (hfits : ∀ ps, r.sfp = some ps → MessageFits ps) (hK : Absorbs accepts r w₀ K)
    {dev : Path} (hany : dev ≠ anyInterface) (hname : NotCut w₀ dev)
    (h : Setup w₀ K (fun _ => True) fd w) :
    Watched accepts r w₀ (ldabDevnameToIfindex dev)
      (Results accepts r w₀ Prod.fst fun a w =>
        w₀.iface dev = some a.2 ∧ Setup w₀ K (fun _ => True) fd w) w := by
  rw [ldabDevnameToIfindex, if_neg hany]
  refine h.safe_socketInet hK (fun n w₁ hn h₁ => ?_) fun n w₁ hn hne h₁ => ?_
  · rw [if_pos hn]
    exact h₁.safe_errno hK fun rc w₂ hrc h₂ => h₂.safe_ret hfits fun _ h => .inl ⟨hrc, h⟩
  rw [if_neg hn]
  refine h₁.safe_siocgifindex hK (fun w₂ h₂ => ?_) fun i w₂ hi h₂ => ?_
  · refine h₂.safe_close hK (fun _ _ _ h => h) errno_close hne fun _ w₃ h₃ => ?_
    exact h₃.safe_errno hK fun rc w₄ hrc h₄ => h₄.safe_ret hfits fun _ h => .inl ⟨hrc, h⟩
  · refine h₂.safe_close hK (fun _ _ _ _ => trivial) (fun _ _ _ _ => trivial) hne
      fun _ w₃ h₃ => ?_
    exact h₃.safe_ret hK (fun _ _ _ _ => trivial) fun _ h => .inr ⟨rfl, hname i hi, h⟩

end Interface

end Dabbad
