import Dabba.Dabbad.Drift

/-!
# Opening a PCAP file among running threads

Opening or creating the PCAP file of a record takes several calls, between which
threads run. If the file cannot be used, the descriptor is closed again. What a
handler knows before the first call it knows after a failure, and after a success it
has one more descriptor.
-/

namespace Dabbad

open Posix Program Tpacket SockFilter Pcap Transition

/-- The calls that touch neither descriptors nor sockets, memory or threads. -/
def Call.IsQuiet : ∀ β : Type, Call β → Prop
  | _, .file op => FileCall.KeepsFds _ op
  | _, .siocgifindex _ _ => True
  | _, .pthreadDetach _ => True
  | _, .getQueues => True
  | _, _ => False

theorem Call.IsQuiet.isStill (β : Type) (op : Call β) (h : Call.IsQuiet β op) :
    Call.IsStill β op := by
  cases op <;> first | exact h | trivial

theorem fileProg_bind {β γ : Type} (p : Prog FileCall β) (f : β → Prog FileCall γ) :
    fileProg (p.bind f) = (fileProg p).bind fun b => fileProg (f b) :=
  Prog.hoist_bind _ p f

theorem quiet_fileProg {β : Type} {p : Prog FileCall β}
    (hp : p.Uses FileCall.KeepsFds) : (fileProg p).Uses Call.IsQuiet := by
  induction p with
  | ret a => trivial
  | abort => trivial
  | call op k ih => exact ⟨hp.1, fun r => ih r (hp.2 r)⟩

def Opening (op : FileCall ℤ) : Prop :=
  ∀ o (os : Os SockRef), Os.OpenedFile os (Os.handle op o os).1 (Os.handle op o os).2

theorem opening_creat (path : Path) : Opening (.creat path) :=
  fun o _ => Os.openedFile_creat path o

theorem opening_openAt (path : Path) (flags : BitVec 32) : Opening (.openAt path flags) :=
  fun o _ => Os.openedFile_openAt path flags o

/-- `P` is what a handler knows before it opens a file, and `P' fd` what it knows
while the file is open. -/
structure OpenFrame (S : Sem Call World) (env : World → World → Prop)
    (inv : World → Prop) (P : World → Prop) (P' : ℤ → World → Prop) : Prop where
  before : Assertion env inv P
  after : ∀ fd, Assertion env inv (P' fd)
  quiet : ∀ {β : Type} {op : Call β} {w r w'}, Call.IsQuiet β op → P w →
    S op w r w' → P w'
  quiet_after : ∀ {β : Type} {op : Call β} {fd w r w'}, Call.IsQuiet β op →
    P' fd w → S op w r w' → P' fd w'
  opening : ∀ {op : FileCall ℤ} {w fd w'}, Opening op → P w →
    S (.file op) w fd w' → (fd < 0 ∧ P w') ∨ (¬ fd < 0 ∧ P' fd w')
  close : ∀ {fd w rc w'}, P' fd w → S (.file (.close fd)) w rc w' → P w'

namespace OpenFrame

variable {S : Sem Call World} {env : World → World → Prop} {inv : World → Prop}
variable {P : World → Prop} {P' : ℤ → World → Prop} {w : World} {fd : ℤ}

/-- What is known when the file was opened, or could not be opened. -/
def Post (P : World → Prop) (P' : ℤ → World → Prop) (fd : ℤ) (w : World) : Prop :=
  (fd < 0 ∧ P w) ∨ (¬ fd < 0 ∧ P' fd w)

theorem ret_failed (h : OpenFrame S env inv P P') (hP : P w) :
    (Prog.ret (-1) : Prog Call ℤ).Safe S env inv (Post P P') w :=
  Prog.Safe.ret h.before hP fun _ hs => .inl ⟨by decide, hs⟩

theorem ret_opened (h : OpenFrame S env inv P P') (hfd : ¬ fd < 0) (hP : P' fd w) :
    (Prog.ret fd : Prog Call ℤ).Safe S env inv (Post P P') w :=
  Prog.Safe.ret (h.after fd) hP fun _ hs => .inr ⟨hfd, hs⟩

theorem close_failed (h : OpenFrame S env inv P P') (hP : P' fd w) :
    (fileProg ((ldabPcapClose fd).bind fun _ => Prog.ret (-1))).Safe S env inv
      (Post P P') w :=
  Prog.Safe.call (h.after fd) hP fun _ _ _ hs hsem => h.ret_failed (h.close hs hsem)

theorem destroy_failed (h : OpenFrame S env inv P P') (path : Path) (hP : P' fd w) :
    (fileProg ((ldabPcapDestroy fd path).bind fun _ => Prog.ret (-1))).Safe S env inv
      (Post P P') w := by
  unfold ldabPcapDestroy
  by_cases hpos : 0 < fd
  · simp only [Prog.assert, hpos, if_true, Prog.bind_eq, Prog.liftM_eq, Prog.ret_bind]
    refine Prog.Safe.call (h.after fd) hP fun _ _ _ hs hsem => ?_
    refine Prog.Safe.call h.before (h.close hs hsem) fun _ _ _ hs hsem => ?_
    have hunlink : Call.IsQuiet ℤ (.file (.unlink path)) := trivial
    exact h.ret_failed (h.quiet hunlink hs hsem)
  · simp only [Prog.assert, hpos, if_false]
    trivial

theorem bind_quiet {α β : Type} {Q : β → World → Prop} (h : OpenFrame S env inv P P')
    {p : Prog FileCall α} (hp : p.Uses FileCall.KeepsFds) {f : α → Prog FileCall β}
    (hP : P' fd w)
    (hf : ∀ a w', P' fd w' → (fileProg (f a)).Safe S env inv Q w') :
    (fileProg (p.bind f)).Safe S env inv Q w := by
  rw [fileProg_bind]
  exact Prog.Safe.bind (Prog.Safe.of_uses (h.after fd)
    (fun _ _ _ _ hop hs hsem => h.quiet_after hop hs hsem) (quiet_fileProg hp) hP) hf

theorem ldabPcapCreate (h : OpenFrame S env inv P P') (path : Path)
    (linktype : BitVec 32) (hP : P w) :
    (fileProg (ldabPcapCreate path linktype)).Safe S env inv (Post P P') w := by
  refine Prog.Safe.call h.before hP fun s fd s' hs hsem => ?_
  simp only [Prog.ret_bind]
  rcases h.opening (opening_creat path) hs hsem with ⟨hfd, hs'⟩ | ⟨hfd, hs'⟩
  · rw [if_pos hfd]
    exact h.ret_failed hs'
  · rw [if_neg hfd]
    refine h.bind_quiet (uses_pcapFileHeaderWrite _ _ _ _) hs' fun rc w' hw' => ?_
    split_ifs
    · exact h.destroy_failed path hw'
    · exact h.ret_opened hfd hw'

theorem ldabPcapOpen (h : OpenFrame S env inv P P') (path : Path)
    (flags : BitVec 32) (hP : P w) :
    (fileProg (ldabPcapOpen path flags)).Safe S env inv (Post P P') w := by
  refine Prog.Safe.call h.before hP fun s fd s' hs hsem => ?_
  simp only [Prog.ret_bind]
  rcases h.opening (opening_openAt path _) hs hsem with ⟨hfd, hs'⟩ | ⟨hfd, hs'⟩
  · rw [if_pos hfd]
    exact h.ret_failed hs'
  · rw [if_neg hfd]
    refine h.bind_quiet (uses_pcapIsValid fd) hs' fun valid w' hw' => ?_
    split_ifs
    · exact h.close_failed hw'
    · refine h.bind_quiet (by simp [FileCall.KeepsFds]) hw' fun off w' hw' => ?_
      split_ifs
      · exact h.close_failed hw'
      · exact h.ret_opened hfd hw'
    · exact h.ret_opened hfd hw'

theorem openCapturePcap (h : OpenFrame S env inv P P') (append : Bool) (pcap : Path)
    (hP : P w) :
    (openCapturePcap append pcap).Safe S env inv (Post P P') w := by
  unfold Dabbad.openCapturePcap
  split_ifs
  · exact h.ldabPcapOpen _ _ hP
  · exact h.ldabPcapCreate _ _ hP

end OpenFrame

end Dabbad
