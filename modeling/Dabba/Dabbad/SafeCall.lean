import Dabba.Dabbad.Lifetime

/-!
# Calls that are safe among running threads

The rules for the calls of a handler that holds things, while the threads run. The
calls are restricted to orderly ones: what is released is released when no cancelled
thread may take another step, and detaching a thread that was just created succeeds.
-/

namespace Dabbad

open Posix Program Tpacket SockFilter Pcap Transition

namespace World

def Settled (w : World) : Prop :=
  ∀ t ∈ w.threads, t.cancelled = true → t.mayStep = false

/-- The call releases something only when no cancelled thread may take another step,
and does not fail to detach a thread. -/
def Orderly : {β : Type} → Call β → Outcome → World → Prop
  | _, .free (some _), _, w => w.Settled
  | _, .munmap _ _, _, w => w.Settled
  | _, .file (.close _), _, w => w.Settled
  | _, .pthreadDetach _, .fail _, _ => False
  | _, _, _, _ => True

def orderlySem : Sem Call World := handle.sem Orderly

end World

abbrev SafeIn (accepts : List Bpf.SockFilter → Frame → Bool) {α : Type}
    (p : Prog Call α) (Q : α → World → Prop) (w : World) : Prop :=
  p.Safe World.orderlySem (World.Env accepts) Linked Q w

variable {accepts : List Bpf.SockFilter → Frame → Bool} {w w' : World}
variable {A B : List Atom} {α : Type} {Q : α → World → Prop}

/-- A property that implies the invariant and says nothing about what drifts. -/
structure Drifting (P : World → Prop) : Prop where
  linked : ∀ w, P w → Linked w
  drift : ∀ w w', P w → Drift w w' → w'.Tame → P w'

theorem Drifting.assertion {P : World → Prop} (hP : Drifting P) :
    Assertion (World.Env accepts) Linked P where
  stable w w' h henv := by
    obtain ⟨hd, htame⟩ := henv.drift (hP.linked w h).tame
    exact hP.drift w w' h hd htame
  inv_of := hP.linked

theorem drifting_linked : Drifting Linked where
  linked _ h := h
  drift _ _ h hd htame := h.drift hd htame

theorem drifting_held (A B : List Atom) : Drifting (Held A B) where
  linked _ h := h.linked
  drift _ _ h hd htame := h.drift hd htame

theorem assertion_held (A B : List Atom) :
    Assertion (World.Env accepts) Linked (Held A B) := (drifting_held A B).assertion

section Touches

/-- A change of the entry of one descriptor. -/
theorem touches_fd {n : ℤ} {os : Os SockRef} {sock : ℕ → PacketSock} {nextSock : ℕ}
    {d : Option (ℕ ⊕ SockRef)} (hident : os.ident = Function.update w.os.ident n d) :
    Touches (.fd n) w { w with os := os, sock := sock, nextSock := nextSock } where
  threads := rfl
  queues := rfl
  alive y hy h := by
    cases y with
    | fd n' =>
        have hne : n' ≠ n := fun heq => hy (congrArg Atom.fd heq)
        simpa [World.Alive, hident, Function.update_of_ne hne] using h
    | _ => exact h
  reserved y hy h := by
    cases y with
    | fd n' =>
        have hne : n' ≠ n := fun heq => hy (congrArg Atom.fd heq)
        simpa [World.Reserved, hident, Function.update_of_ne hne] using h
    | _ => exact h
  ident n' hne := by
    have hne' : n' ≠ n := fun heq => hne (congrArg Atom.fd heq)
    simp [hident, Function.update_of_ne hne']

theorem touches_block {b n : ℕ} {v : Bool} (hle : w.nextBlock ≤ n) :
    Touches (.block b) w
      { w with heap := Function.update w.heap b v, nextBlock := n } where
  threads := rfl
  queues := rfl
  alive y hy h := by
    cases y with
    | block b' =>
        have hne : b' ≠ b := fun heq => hy (congrArg Atom.block heq)
        simpa [World.Alive, Function.update_of_ne hne] using h
    | _ => exact h
  reserved y _ h := by
    cases y with
    | block b' => exact lt_of_lt_of_le h hle
    | _ => exact h
  ident _ _ := rfl

theorem touches_mapping {m n : ℕ} {v : Option ℕ} (hle : w.nextMap ≤ n) :
    Touches (.mapping m) w
      { w with map := Function.update w.map m v, nextMap := n } where
  threads := rfl
  queues := rfl
  alive y hy h := by
    cases y with
    | mapping m' =>
        have hne : m' ≠ m := fun heq => hy (congrArg Atom.mapping heq)
        simpa [World.Alive, Function.update_of_ne hne] using h
    | _ => exact h
  reserved y _ h := by
    cases y with
    | mapping m' => exact lt_of_lt_of_le h hle
    | _ => exact h
  ident _ _ := rfl

end Touches

section Rules

theorem orderly_of_sem {β : Type} {op : Call β} {r : β}
    (h : World.orderlySem op w r w') :
    ∃ o, World.Orderly op o w ∧ World.handle op o w = (r, w') := h

theorem drift_of_still {β : Type} {op : Call β} {r : β} (hop : Call.IsStill β op)
    (h : World.orderlySem op w r w') (htame : w.Tame) : Drift w w' ∧ w'.Tame := by
  obtain ⟨o, -, heq⟩ := h
  obtain ⟨hd, hthreads⟩ := hop.drift o w
  rw [heq] at hd hthreads
  refine ⟨hd, ?_⟩
  rw [World.Tame, hthreads]
  exact htame

section Drifting

variable {P : World → Prop} (hP : Drifting P)
include hP

theorem Drifting.safe_still {β : Type} {p : Prog Call β} (hp : p.Uses Call.IsStill)
    {f : β → Prog Call α} (h : P w) (hf : ∀ r w', P w' → SafeIn accepts (f r) Q w') :
    SafeIn accepts (p.bind f) Q w := by
  refine Prog.Safe.bind (Prog.Safe.of_uses hP.assertion ?_ hp h) hf
  intro δ op s r s' hop hs hsem
  obtain ⟨hd, htame⟩ := drift_of_still hop hsem (hP.linked s hs).tame
  exact hP.drift s s' hs hd htame

theorem Drifting.safe_getQueues {k : Queues → Prog Call α} (h : P w)
    (hk : ∀ w', P w' → SafeIn accepts (k w'.queues) Q w') :
    SafeIn accepts ((Prog.perform .getQueues).bind k) Q w := by
  refine Prog.Safe.call hP.assertion h fun s r s' hs hsem => ?_
  obtain ⟨o, -, heq⟩ := orderly_of_sem hsem
  obtain ⟨rfl, rfl⟩ := Prod.mk.inj heq
  exact hk _ hs

theorem Drifting.queues (q : Queues) : Drifting fun w => P w ∧ w.queues = q where
  linked _ h := hP.linked _ h.1
  drift w w' h hd htame := ⟨hP.drift w w' h.1 hd htame, hd.queues.trans h.2⟩

theorem Drifting.safe_setQueues {f : Queues → Queues} {k : Unit → Prog Call α} (h : P w)
    (hk : ∀ w', P w' → SafeIn accepts (k ()) Q { w' with queues := f w'.queues }) :
    SafeIn accepts ((Prog.perform (.setQueues (f w.queues))).bind k) Q w := by
  refine Prog.Safe.call (hP.queues w.queues).assertion ⟨h, rfl⟩ fun s r s' hs hsem => ?_
  obtain ⟨o, -, heq⟩ := orderly_of_sem hsem
  obtain ⟨rfl, rfl⟩ := Prod.mk.inj heq
  rw [← hs.2]
  exact hk s hs.1

end Drifting

theorem held_still {β : Type} {p : Prog Call β} (hp : p.Uses Call.IsStill)
    {f : β → Prog Call α} (h : Held A B w)
    (hf : ∀ r w', Held A B w' → SafeIn accepts (f r) Q w') :
    SafeIn accepts (p.bind f) Q w :=
  (drifting_held A B).safe_still hp h hf

theorem held_calloc {k : Option ℕ → Prog Call α} (h : Held A B w)
    (hnone : ∀ w', Held A B w' → SafeIn accepts (k none) Q w')
    (hsome : ∀ b w', .block b ∉ A → Held (.block b :: A) (.block b :: B) w' →
      SafeIn accepts (k (some b)) Q w') :
    SafeIn accepts ((Prog.perform .calloc).bind k) Q w := by
  refine Prog.Safe.call (assertion_held A B) h fun s r s' hs hsem => ?_
  obtain ⟨o, -, heq⟩ := orderly_of_sem hsem
  cases o with
  | ok n =>
      obtain ⟨rfl, rfl⟩ := Prod.mk.inj heq
      have hfresh : ¬ s.Reserved (.block s.nextBlock) := lt_irrefl _
      refine hsome _ _ (fun hmem => hs.ne_of_not_reserved hfresh hmem rfl) ?_
      refine (hs.acquire (touches_block (Nat.le_succ _)) hfresh
        (Nat.lt_succ_self _)).learn List.mem_cons_self ?_
      simp [World.Alive]
  | fail e =>
      obtain ⟨rfl, rfl⟩ := Prod.mk.inj heq
      exact hnone _ (hs.drift (s.drift_failed _) hs.linked.tame)

theorem held_mmap {fd : ℤ} {length : ℕ} {k : Option ℕ → Prog Call α} (h : Held A B w)
    (hnone : ∀ w', Held A B w' → SafeIn accepts (k none) Q w')
    (hsome : ∀ m w', Held (.mapping m :: A) (.mapping m :: B) w' →
      SafeIn accepts (k (some m)) Q w') :
    SafeIn accepts ((Prog.perform (.mmap fd length)).bind k) Q w := by
  refine Prog.Safe.call (assertion_held A B) h fun s r s' hs hsem => ?_
  obtain ⟨o, -, heq⟩ := orderly_of_sem hsem
  have hfailed : ∀ e, Held A B (s.failed e) :=
    fun e => hs.drift (s.drift_failed e) hs.linked.tame
  cases o with
  | ok n =>
      simp only [World.handle] at heq
      split at heq
      · split_ifs at heq <;> obtain ⟨rfl, rfl⟩ := Prod.mk.inj heq
        · have hfresh : ¬ s.Reserved (.mapping s.nextMap) := lt_irrefl _
          refine hsome _ _ ((hs.acquire (touches_mapping (Nat.le_succ _)) hfresh
            (Nat.lt_succ_self _)).learn List.mem_cons_self ?_)
          simp [World.Alive]
        · exact hnone _ (hfailed _)
      · obtain ⟨rfl, rfl⟩ := Prod.mk.inj heq
        exact hnone _ (hfailed _)
  | fail e =>
      obtain ⟨rfl, rfl⟩ := Prod.mk.inj heq
      exact hnone _ (hfailed _)

theorem held_free {b : Option ℕ} {k : Unit → Prog Call α} (h : Held A B w)
    (hb : ∀ b', b = some b' → .block b' ∈ A)
    (hk : ∀ w', Held A [] w' → SafeIn accepts (k ()) Q w') :
    SafeIn accepts ((Prog.perform (.free b)).bind k) Q w := by
  refine Prog.Safe.call (assertion_held A B) h fun s r s' hs hsem => ?_
  obtain ⟨o, -, heq⟩ := orderly_of_sem hsem
  cases b with
  | none =>
      obtain ⟨rfl, rfl⟩ := Prod.mk.inj heq
      exact hk _ (hs.mono (fun _ h => h) (List.nil_subset _) (List.nil_subset _))
  | some b =>
      obtain ⟨rfl, rfl⟩ := Prod.mk.inj heq
      have hmem := hb b rfl
      exact hk _ (hs.release (touches_block le_rfl) hmem (hs.reserved _ hmem))

theorem held_munmap {m length : ℕ} {k : ℤ → Prog Call α} (h : Held A B w)
    (hm : .mapping m ∈ A)
    (hk : ∀ w', Held A [] w' → SafeIn accepts (k 0) Q w') :
    SafeIn accepts ((Prog.perform (.munmap m length)).bind k) Q w := by
  refine Prog.Safe.call (assertion_held A B) h fun s r s' hs hsem => ?_
  obtain ⟨o, -, heq⟩ := orderly_of_sem hsem
  obtain ⟨rfl, rfl⟩ := Prod.mk.inj heq
  exact hk _ (hs.release (touches_mapping le_rfl) hm (hs.reserved _ hm))

theorem Held.install {n : ℤ} (h : Held A B w) (hfree : w.os.ident n = none)
    {os : Os SockRef} {sock : ℕ → PacketSock} {nextSock : ℕ} {d : ℕ ⊕ SockRef}
    (hident : os.ident = Function.update w.os.ident n (some d)) :
    .fd n ∉ A ∧ Held (.fd n :: A) B { w with os := os, sock := sock, nextSock := nextSock } := by
  have hfresh : ¬ w.Reserved (.fd n) := fun hreserved => hreserved hfree
  refine ⟨fun hmem => h.ne_of_not_reserved hfresh hmem rfl, ?_⟩
  refine h.acquire (touches_fd hident) hfresh ?_
  simp [World.Reserved, hident]

theorem ident_of_fresh {n : ℕ} (h : w.os.Fresh n) : w.os.ident n = none := by
  rw [Os.ident, h.2, Option.map_none]

theorem held_socket {op : Call ℤ} (hop : op = .socketPacket ∨ op = .socketInet)
    {k : ℤ → Prog Call α} (h : Held A B w)
    (hfail : ∀ sock w', sock < 0 → Held A B w' → SafeIn accepts (k sock) Q w')
    (hok : ∀ sock w', ¬ sock < 0 → .fd sock ∉ A → Held (.fd sock :: A) B w' →
      SafeIn accepts (k sock) Q w') :
    SafeIn accepts ((Prog.perform op).bind k) Q w := by
  refine Prog.Safe.call (assertion_held A B) h fun s r s' hs hsem => ?_
  obtain ⟨o, -, heq⟩ := orderly_of_sem hsem
  obtain ⟨e, hfailed⟩ | ⟨n, ref, sock, nextSock, hfresh, htook⟩ :=
    World.handle_socket hop o s
  · obtain ⟨rfl, rfl⟩ := Prod.mk.inj (hfailed.symm.trans heq)
    exact hfail _ _ (by decide) (hs.drift (s.drift_failed e) hs.linked.tame)
  · obtain ⟨rfl, rfl⟩ := Prod.mk.inj (htook.symm.trans heq)
    obtain ⟨hnotin, hheld⟩ := hs.install (ident_of_fresh hfresh) (Os.ident_install _)
    exact hok n _ (by omega) hnotin hheld

theorem held_close {n : ℤ} {k : ℤ → Prog Call α} (h : Held (.fd n :: A) B w)
    (hn : .fd n ∉ A) (hBA : B ⊆ A)
    (hk : ∀ rc w', Held A B w' → SafeIn accepts (k rc) Q w') :
    SafeIn accepts ((close n).bind k) Q w := by
  refine Prog.Safe.call (assertion_held _ B) h fun s r s' hs hsem => ?_
  obtain ⟨o, -, heq⟩ := orderly_of_sem hsem
  obtain ⟨rfl, rfl⟩ := Prod.mk.inj heq
  exact hk _ _ (hs.closed (touches_fd (Os.ident_close o)) hn hBA)

end Rules

end Dabbad
