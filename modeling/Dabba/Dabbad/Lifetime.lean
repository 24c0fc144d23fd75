import Dabba.Dabbad.Drift

/-!
# Who uses which resource

A start acquires blocks of the heap, a mapping and a descriptor for its record, and
hands them to a thread. The invariant says that what a running thread was handed is
still there, and that a queued record shares it with no running thread but its own.
Every call of a handler touches at most one of these things. While a handler works
on a record that is not queued, it holds things that no thread and no queued record
has.
-/

namespace Dabbad

open Posix Program Tpacket SockFilter Pcap Transition

/-- A block of the heap, a mapping, or a descriptor. -/
inductive Atom
  | block (b : ℕ)
  | mapping (m : ℕ)
  | fd (n : ℤ)
deriving DecidableEq

/-- What was acquired for a record, apart from the packet socket. -/
def PacketTask.Has (task : PacketTask) : Atom → Prop
  | .block b => b = task.thread.addr ∨ task.pktMmap.vec = some b ∨ task.sfp.filter = some b
  | .mapping m => task.pktMmap.buf = some m
  | .fd n => n = task.pcapFd

/-- Two records have nothing in common. -/
def PacketTask.Apart (task task' : PacketTask) : Prop :=
  ∀ x, task.Has x → ¬ task'.Has x

def Queues.Lacks (q : Queues) (x : Atom) : Prop :=
  ∀ type, ∀ task ∈ (q.task type).nodes, ¬ task.Has x

namespace World

/-- What the next call is not going to hand out. -/
def Reserved (w : World) : Atom → Prop
  | .block b => b < w.nextBlock
  | .mapping m => m < w.nextMap
  | .fd n => w.os.ident n ≠ none

def Alive (w : World) : Atom → Prop
  | .block b => w.heap b = true
  | .mapping m => (w.map m).isSome
  | .fd n => ∃ i, w.os.ident n = some (.inl i)

def Idle (w : World) (x : Atom) : Prop :=
  ∀ t ∈ w.threads, t.mayStep = true → ¬ t.task.Has x

end World

/-- What running threads have is there, and queued records share nothing with the
threads of others. -/
structure Linked (w : World) : Prop where
  tame : w.Tame
  alive : ∀ t ∈ w.threads, t.mayStep = true → ∀ x, t.task.Has x →
    w.Alive x ∧ w.Reserved x
  pcap : ∀ t ∈ w.threads, t.mayStep = true →
    w.os.ident t.task.pcapFd = some (.inl t.pcapId)
  mapped : ∀ t ∈ w.threads, t.mayStep = true →
    t.task.pktMmap.vec.isSome ∧ t.task.pktMmap.buf.isSome
  reserved : ∀ type, ∀ task ∈ (w.queues.task type).nodes, ∀ x, task.Has x →
    w.Reserved x
  apart : ∀ type, ∀ task ∈ (w.queues.task type).nodes, ∀ t ∈ w.threads,
    t.mayStep = true → t.id = task.thread.id ∨ t.task.Apart task
  task_type : ∀ type, ∀ task ∈ (w.queues.task type).nodes, task.thread.type = type
  addr_nodup : ∀ type, ((w.queues.task type).nodes.map (·.thread.addr)).Nodup
  pcapFd_inj : ∀ type type' task task', task ∈ (w.queues.task type).nodes →
    task' ∈ (w.queues.task type').nodes → task.pcapFd = task'.pcapFd →
    type = type' ∧ task.thread.addr = task'.thread.addr

/-- A handler holds the things in `A`, of which those in `B` are known to be
there. -/
structure Held (A B : List Atom) (w : World) : Prop where
  linked : Linked w
  reserved : ∀ x ∈ A, w.Reserved x
  idle : ∀ x ∈ A, w.Idle x
  lacks : ∀ x ∈ A, w.queues.Lacks x
  alive : ∀ x ∈ B, w.Alive x
  subset : B ⊆ A

/-- Nothing changes but the thing `x`, and it may be released. -/
structure Touches (x : Atom) (w w' : World) : Prop where
  threads : w'.threads = w.threads
  queues : w'.queues = w.queues
  alive : ∀ y, y ≠ x → w.Alive y → w'.Alive y
  reserved : ∀ y, y ≠ x → w.Reserved y → w'.Reserved y
  ident : ∀ n, Atom.fd n ≠ x → w'.os.ident n = w.os.ident n

variable {w w' : World} {A B : List Atom} {x : Atom}

section Drift

theorem Drift.reserved (h : Drift w w') (x : Atom) : w'.Reserved x ↔ w.Reserved x := by
  cases x <;> simp only [World.Reserved, h.nextBlock, h.nextMap, h.ident]

theorem Drift.alive (h : Drift w w') (x : Atom) : w'.Alive x ↔ w.Alive x := by
  cases x <;> simp only [World.Alive, h.heap, h.map, h.ident]

theorem Drift.idle (h : Drift w w') {x : Atom} (hidle : w.Idle x) : w'.Idle x := by
  intro t' ht' hmay
  obtain ⟨t, ht, hlater⟩ := h.mem_threads ht'
  rw [hlater.task]
  exact hidle t ht (hlater.mayStep hmay)

theorem Linked.drift (h : Linked w) (hd : Drift w w') (htame : w'.Tame) :
    Linked w' where
  tame := htame
  alive t' ht' hmay x hx := by
    obtain ⟨t, ht, hlater⟩ := hd.mem_threads ht'
    rw [hlater.task] at hx
    rw [hd.alive, hd.reserved]
    exact h.alive t ht (hlater.mayStep hmay) x hx
  pcap t' ht' hmay := by
    obtain ⟨t, ht, hlater⟩ := hd.mem_threads ht'
    rw [hlater.task, hlater.pcapId, hd.ident]
    exact h.pcap t ht (hlater.mayStep hmay)
  mapped t' ht' hmay := by
    obtain ⟨t, ht, hlater⟩ := hd.mem_threads ht'
    rw [hlater.task]
    exact h.mapped t ht (hlater.mayStep hmay)
  reserved type task htask x hx := by
    rw [hd.queues] at htask
    exact (hd.reserved x).2 (h.reserved type task htask x hx)
  apart type task htask t' ht' hmay := by
    obtain ⟨t, ht, hlater⟩ := hd.mem_threads ht'
    rw [hd.queues] at htask
    rw [hlater.id, hlater.task]
    exact h.apart type task htask t ht (hlater.mayStep hmay)
  task_type := by
    rw [hd.queues]
    exact h.task_type
  addr_nodup := by
    rw [hd.queues]
    exact h.addr_nodup
  pcapFd_inj := by
    rw [hd.queues]
    exact h.pcapFd_inj

theorem Held.drift (h : Held A B w) (hd : Drift w w') (htame : w'.Tame) :
    Held A B w' where
  linked := h.linked.drift hd htame
  reserved x hx := (hd.reserved x).2 (h.reserved x hx)
  idle x hx := hd.idle (h.idle x hx)
  lacks x hx := by
    rw [hd.queues]
    exact h.lacks x hx
  alive x hx := (hd.alive x).2 (h.alive x hx)
  subset := h.subset

end Drift

section Queues

/-- The queues lose records, or only the thread queue changes. -/
theorem Linked.setQueues (h : Linked w) {q : Queues}
    (hq : ∀ type, (q.task type).nodes.Sublist (w.queues.task type).nodes) :
    Linked { w with queues := q } where
  tame := h.tame
  alive := h.alive
  pcap := h.pcap
  mapped := h.mapped
  reserved type task htask := h.reserved type task ((hq type).mem htask)
  apart type task htask := h.apart type task ((hq type).mem htask)
  task_type type task htask := h.task_type type task ((hq type).mem htask)
  addr_nodup type := ((hq type).map _).nodup (h.addr_nodup type)
  pcapFd_inj type type' task task' htask htask' :=
    h.pcapFd_inj type type' task task' ((hq type).mem htask) ((hq type').mem htask')

theorem Linked.setQueues_of_task (h : Linked w) {q : Queues}
    (hq : q.task = w.queues.task) : Linked { w with queues := q } :=
  h.setQueues fun type => by rw [hq]

end Queues

section Touches

/-- A change of one thing that no running thread has. -/
theorem Linked.touches (h : Linked w) (ht : Touches x w w') (hidle : w.Idle x)
    (hqueued : ∀ type, ∀ task ∈ (w.queues.task type).nodes, task.Has x →
      w'.Reserved x) :
    Linked w' where
  tame := by
    rw [World.Tame, ht.threads]
    exact h.tame
  alive := by
    rw [ht.threads]
    intro t hmem hmay y hy
    have hne : y ≠ x := fun heq => hidle t hmem hmay (heq ▸ hy)
    obtain ⟨halive, hreserved⟩ := h.alive t hmem hmay y hy
    exact ⟨ht.alive y hne halive, ht.reserved y hne hreserved⟩
  pcap := by
    rw [ht.threads]
    intro t hmem hmay
    have hne : Atom.fd t.task.pcapFd ≠ x := fun heq =>
      hidle t hmem hmay (heq ▸ (rfl : t.task.Has (.fd t.task.pcapFd)))
    rw [ht.ident _ hne]
    exact h.pcap t hmem hmay
  mapped := by
    rw [ht.threads]
    exact h.mapped
  reserved := by
    rw [ht.queues]
    intro type task htask y hy
    by_cases hyx : y = x
    · subst hyx
      exact hqueued type task htask hy
    · exact ht.reserved y hyx (h.reserved type task htask y hy)
  apart := by
    rw [ht.queues, ht.threads]
    exact h.apart
  task_type := by
    rw [ht.queues]
    exact h.task_type
  addr_nodup := by
    rw [ht.queues]
    exact h.addr_nodup
  pcapFd_inj := by
    rw [ht.queues]
    exact h.pcapFd_inj

theorem Touches.idle (ht : Touches x w w') {y : Atom} (h : w.Idle y) : w'.Idle y := by
  rw [World.Idle, ht.threads]
  exact h

theorem Linked.idle_of_not_reserved (h : Linked w) (hx : ¬ w.Reserved x) : w.Idle x :=
  fun t ht hmay hhas => hx (h.alive t ht hmay x hhas).2

theorem Linked.lacks_of_not_reserved (h : Linked w) (hx : ¬ w.Reserved x) :
    w.queues.Lacks x :=
  fun type task htask hhas => hx (h.reserved type task htask x hhas)

theorem Held.ne_of_not_reserved (h : Held A B w) (hx : ¬ w.Reserved x) {y : Atom}
    (hy : y ∈ A) : y ≠ x :=
  fun heq => hx (heq ▸ h.reserved y hy)

theorem Held.acquire (h : Held A B w) (ht : Touches x w w') (hx : ¬ w.Reserved x)
    (hreserved : w'.Reserved x) : Held (x :: A) B w' where
  linked := h.linked.touches ht (h.linked.idle_of_not_reserved hx) fun _ _ _ _ => hreserved
  reserved y hy := by
    rcases List.mem_cons.1 hy with rfl | hy
    · exact hreserved
    · exact ht.reserved y (h.ne_of_not_reserved hx hy) (h.reserved y hy)
  idle y hy := by
    rcases List.mem_cons.1 hy with rfl | hy
    · exact ht.idle (h.linked.idle_of_not_reserved hx)
    · exact ht.idle (h.idle y hy)
  lacks y hy := by
    rw [ht.queues]
    rcases List.mem_cons.1 hy with rfl | hy
    · exact h.linked.lacks_of_not_reserved hx
    · exact h.lacks y hy
  alive y hy := ht.alive y (h.ne_of_not_reserved hx (h.subset hy)) (h.alive y hy)
  subset := fun _ hy => List.mem_cons_of_mem _ (h.subset hy)

theorem Held.learn (h : Held A B w) (hx : x ∈ A) (halive : w.Alive x) :
    Held A (x :: B) w where
  linked := h.linked
  reserved := h.reserved
  idle := h.idle
  lacks := h.lacks
  alive y hy := by
    rcases List.mem_cons.1 hy with rfl | hy
    · exact halive
    · exact h.alive y hy
  subset := fun y hy => by
    rcases List.mem_cons.1 hy with rfl | hy
    · exact hx
    · exact h.subset hy

theorem Held.mono {A' B' : List Atom} (h : Held A B w) (hA : A' ⊆ A) (hB : B' ⊆ B)
    (hsub : B' ⊆ A') : Held A' B' w where
  linked := h.linked
  reserved x hx := h.reserved x (hA hx)
  idle x hx := h.idle x (hA hx)
  lacks x hx := h.lacks x (hA hx)
  alive x hx := h.alive x (hB hx)
  subset := hsub

/-- A call that releases one of the things held, but keeps it reserved. -/
theorem Held.release (h : Held A B w) (ht : Touches x w w') (hx : x ∈ A)
    (hreserved : w'.Reserved x) : Held A [] w' where
  linked := h.linked.touches ht (h.idle x hx) fun _ _ _ _ => hreserved
  reserved y hy := by
    by_cases hyx : y = x
    · rw [hyx]
      exact hreserved
    · exact ht.reserved y hyx (h.reserved y hy)
  idle y hy := ht.idle (h.idle y hy)
  lacks y hy := by
    rw [ht.queues]
    exact h.lacks y hy
  alive _ hy := by cases hy
  subset := List.nil_subset _

theorem Held.closed (h : Held (x :: A) B w) (ht : Touches x w w') (hxA : x ∉ A)
    (hBA : B ⊆ A) : Held A B w' where
  linked := h.linked.touches ht (h.idle x List.mem_cons_self) fun type task htask hhas =>
    absurd hhas (h.lacks x List.mem_cons_self type task htask)
  reserved y hy := ht.reserved y (fun heq => hxA (heq ▸ hy))
    (h.reserved y (List.mem_cons_of_mem x hy))
  idle y hy := ht.idle (h.idle y (List.mem_cons_of_mem x hy))
  lacks y hy := by
    rw [ht.queues]
    exact h.lacks y (List.mem_cons_of_mem x hy)
  alive y hy := ht.alive y (fun heq => hxA (heq ▸ hBA hy)) (h.alive y hy)
  subset := hBA

end Touches

end Dabbad
