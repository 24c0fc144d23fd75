import Dabba.PacketRx.Loop
import Dabba.PacketTx.Loop
import Dabba.SockFilter.Convert
import Dabba.Tailq.Basic

/-!
# The daemon and its kernel

The state the RPC handlers of the daemon work on: descriptors and files, packet
sockets with their rings, the heap, the mappings of rings, the threads of the
process, and the three queues. Memory blocks and mappings are named by numbers
that are never used again, and each is live until it is freed.

The handlers see it through calls, system calls and accesses to memory alike.
What a call does is a function of the kernel's choice, success or failure.
-/

namespace Dabbad

open Posix Program Tpacket SockFilter

inductive PacketThreadType
  | capture
  | replay
deriving DecidableEq, Repr

inductive PacketMmapType
  | rx
  | tx
deriving DecidableEq, Repr

/-- `struct packet_mmap`: the vector is a block of the heap, the buffer a
mapping. A failed mapping is no mapping, since unmapping it does nothing. -/
structure PacketMmap where
  type : PacketMmapType
  pfSock : ℤ
  ifindex : ℤ
  layout : TpacketReq
  vec : Option ℕ
  buf : Option ℕ

def PacketMmap.zero : PacketMmap := ⟨.rx, 0, 0, ⟨0, 0, 0, 0⟩, none, none⟩

/-- `struct packet_thread`, with the address of the record it is embedded in. -/
structure PacketThread where
  addr : ℕ
  id : ℕ
  type : PacketThreadType
deriving DecidableEq

/-- A native filter with the block of its array. -/
structure Sfp where
  prog : SockFprog
  filter : Option ℕ

def Sfp.zero : Sfp := ⟨.zero, none⟩

/-- `struct packet_capture` and `struct packet_replay`, which differ in the
filter that only a capture has. -/
structure PacketTask where
  pktMmap : PacketMmap
  sfp : Sfp
  pcapFd : ℤ
  thread : PacketThread

/-- The thread queue, the capture queue and the replay queue. -/
structure Queues where
  packetThread : Tailq.Queue PacketThread
  task : PacketThreadType → Tailq.Queue PacketTask

namespace Queues

def empty : Queues := ⟨.empty, fun _ => .empty⟩

def insertThread (q : Queues) (node : PacketThread) : Queues :=
  { q with packetThread := q.packetThread.insertTail node }

def removeThread (q : Queues) (node : PacketThread) : Queues :=
  { q with packetThread := q.packetThread.remove fun n => n.addr == node.addr }

def insertTask (q : Queues) (node : PacketTask) : Queues :=
  { q with
    task := Function.update q.task node.thread.type
      ((q.task node.thread.type).insertTail node) }

/-- Unlinks a record from the queue of its kind. -/
def removeTask (q : Queues) (node : PacketTask) : Queues :=
  { q with
    task := Function.update q.task node.thread.type
      ((q.task node.thread.type).remove fun n =>
        n.thread.addr == node.thread.addr) }

variable (q : Queues) (node : PacketTask) {type : PacketThreadType}

@[simp] theorem insertTask_task_self :
    (q.insertTask node).task node.thread.type =
      (q.task node.thread.type).insertTail node := by
  simp [insertTask]

theorem insertTask_task_of_ne (h : type ≠ node.thread.type) :
    (q.insertTask node).task type = q.task type := by
  simp [insertTask, h]

@[simp] theorem removeTask_task_self :
    (q.removeTask node).task node.thread.type =
      (q.task node.thread.type).remove fun n =>
        n.thread.addr == node.thread.addr := by
  simp [removeTask]

theorem removeTask_task_of_ne (h : type ≠ node.thread.type) :
    (q.removeTask node).task type = q.task type := by
  simp [removeTask, h]

theorem nodes_insertTask :
    ((q.insertTask node).task type).nodes =
      (q.task type).nodes ++ if type = node.thread.type then [node] else [] := by
  by_cases htype : type = node.thread.type
  · subst htype
    simp [Tailq.Queue.insertTail]
  · simp [insertTask_task_of_ne q node htype, htype]

theorem mem_insertTask {task : PacketTask} :
    task ∈ ((q.insertTask node).task type).nodes ↔
      task ∈ (q.task type).nodes ∨ (type = node.thread.type ∧ task = node) := by
  rw [nodes_insertTask, List.mem_append]
  split_ifs with htype <;> simp [htype]

variable {q node}

theorem counted_insertTask (h : ∀ type, (q.task type).Counted) (type : PacketThreadType) :
    ((q.insertTask node).task type).Counted := by
  by_cases htype : type = node.thread.type
  · subst htype
    rw [insertTask_task_self]
    exact (h _).insertTail node
  · rw [insertTask_task_of_ne q node htype]
    exact h type

theorem counted_removeTask (h : ∀ type, (q.task type).Counted)
    (hnode : node ∈ (q.task node.thread.type).nodes) (type : PacketThreadType) :
    ((q.removeTask node).task type).Counted := by
  by_cases htype : type = node.thread.type
  · subst htype
    rw [removeTask_task_self]
    exact (h _).remove hnode (beq_self_eq_true _)
  · rw [removeTask_task_of_ne q node htype]
    exact h type

end Queues

/-- What a descriptor of the daemon stands for besides a file. -/
inductive SockRef
  | packet (sock : ℕ)
  | inet
deriving DecidableEq

/-- A packet ring in the kernel, with the kernel's cursor. -/
structure Ring where
  type : PacketMmapType
  layout : TpacketReq
  slot : ℕ → Slot
  head : ℕ

/-- A packet socket for all protocols: the interface it is bound to, zero for all
of them, its filter and its ring. -/
structure PacketSock where
  ifindex : ℤ
  filter : Option (List Bpf.SockFilter)
  ring : Option Ring

/-- The point a packet thread has reached. -/
inductive Body : Type 1
  | rx (index : ℕ) (pc : Rx.Pc)
  | tx (a : ℕ) (eof : Bool) (pc : Tx.Pc)

def Body.start : PacketThreadType → Body
  | .capture => .rx 0 .status
  | .replay => .tx 0 false .status

/-- A thread of the process: the record it works on, the open file description
behind its PCAP descriptor when it was created, and the frames it wrote. -/
structure Thread : Type 1 where
  id : ℕ
  task : PacketTask
  pcapId : ℕ
  cancelled : Bool
  exited : Bool
  body : Body
  written : List Frame

structure World : Type 1 where
  os : Os SockRef
  sock : ℕ → PacketSock
  nextSock : ℕ
  heap : ℕ → Bool
  nextBlock : ℕ
  map : ℕ → Option ℕ
  nextMap : ℕ
  threads : List Thread
  queues : Queues
  iface : Path → Option ℤ

/-- The accesses of the handlers to the world. -/
inductive Call : Type → Type 1
  | file {α : Type} (op : FileCall α) : Call α
  | socketPacket : Call ℤ
  | socketInet : Call ℤ
  | calloc : Call (Option ℕ)
  | free (p : Option ℕ) : Call Unit
  | setFilter (fd : ℤ) (prog : Option (List Bpf.SockFilter)) : Call ℤ
  | setRing (fd : ℤ) (type : PacketMmapType) (layout : TpacketReq) : Call ℤ
  | mmap (fd : ℤ) (length : ℕ) : Call (Option ℕ)
  | munmap (buf length : ℕ) : Call ℤ
  | bind (fd ifindex : ℤ) : Call ℤ
  | siocgifindex (fd : ℤ) (name : Path) : Call (Option ℤ)
  | pthreadCreate (task : PacketTask) : Call (ℕ × ℕ)
  | pthreadDetach (id : ℕ) : Call ℕ
  | pthreadCancel (id : ℕ) : Call ℕ
  | getQueues : Call Queues
  | setQueues (q : Queues) : Call Unit

namespace World

def failed (w : World) (e : ℕ) : World := { w with os := w.os.failed e }

def setSock (w : World) (s : ℕ) (x : PacketSock) : World :=
  { w with sock := Function.update w.sock s x }

def packetSock (w : World) (fd : ℤ) : Option ℕ :=
  match w.os.fds fd with
  | some (.socket (.packet s)) => some s
  | _ => none

def fileId (w : World) (fd : ℤ) : Option ℕ :=
  match w.os.fds fd with
  | some (.file f) => some f.id
  | _ => none

/-- An error number of the threads library, which is not zero. -/
def errnum (e : ℕ) : ℕ := if e = 0 then eagain else e

def Taken (w : World) (id : ℕ) : Prop :=
  ∃ t ∈ w.threads, t.id = id ∧ t.cancelled = false

instance (w : World) (id : ℕ) : Decidable (w.Taken id) :=
  inferInstanceAs (Decidable (∃ t ∈ w.threads, _))

/-- The thread `pthread_create` makes for a record. -/
def newThread (w : World) (id : ℕ) (task : PacketTask) : Thread where
  id := id
  task := { task with thread := { task.thread with id := id } }
  pcapId := (w.fileId task.pcapFd).getD 0
  cancelled := false
  exited := false
  body := .start task.thread.type
  written := []

def withThread (w : World) (id : ℕ) (task : PacketTask) : World :=
  { w with threads := w.threads ++ [w.newThread id task] }

def cancel (w : World) (id : ℕ) : World :=
  { w with threads := w.threads.map fun t =>
      if t.id = id then { t with cancelled := true } else t }

/-- The effect of a call, given the kernel's choice. A call of the threads library
returns its error number; the others leave it in `errno`. -/
def handle : Handler Call Outcome World
  | _, .file op, o, w => ((Os.handle op o w.os).1, { w with os := (Os.handle op o w.os).2 })
  | _, .socketPacket, .ok n, w =>
      if w.os.Fresh n then
        (n, { w.setSock w.nextSock ⟨0, none, none⟩ with
          os := w.os.install n (.socket (.packet w.nextSock))
          nextSock := w.nextSock + 1 })
      else (-1, w.failed emfile)
  | _, .socketPacket, .fail e, w => (-1, w.failed e)
  | _, .socketInet, .ok n, w =>
      if w.os.Fresh n then
        (n, { w with os := w.os.install n (.socket .inet) })
      else (-1, w.failed emfile)
  | _, .socketInet, .fail e, w => (-1, w.failed e)
  | _, .calloc, .ok _, w =>
      (some w.nextBlock, { w with
        heap := Function.update w.heap w.nextBlock true
        nextBlock := w.nextBlock + 1 })
  | _, .calloc, .fail _, w => (none, w.failed enomem)
  | _, .free none, _, w => ((), w)
  | _, .free (some b), _, w =>
      ((), { w with heap := Function.update w.heap b false })
  | _, .setFilter fd prog, .ok _, w =>
      match w.packetSock fd with
      | some s => (0, w.setSock s { w.sock s with filter := prog })
      | none => (-1, w.failed ebadf)
  | _, .setFilter _ _, .fail e, w => (-1, w.failed e)
  | _, .setRing fd type layout, .ok _, w =>
      match w.packetSock fd with
      | some s =>
          -- A layout without blocks takes the ring away.
          let ring := if layout.tpBlockNr = 0 then none
            else some ⟨type, layout, fun _ => Slot.zero, 0⟩
          (0, w.setSock s { w.sock s with ring := ring })
      | none => (-1, w.failed ebadf)
  | _, .setRing _ _ _, .fail e, w => (-1, w.failed e)
  | _, .mmap fd length, .ok _, w =>
      match w.packetSock fd with
      | some s =>
          if (w.sock s).ring.isSome ∧ length ≠ 0 then
            (some w.nextMap, { w with
              map := Function.update w.map w.nextMap (some s)
              nextMap := w.nextMap + 1 })
          else (none, w.failed einval)
      | none => (none, w.failed ebadf)
  | _, .mmap _ _, .fail e, w => (none, w.failed e)
  | _, .munmap buf _, _, w =>
      (0, { w with map := Function.update w.map buf none })
  | _, .bind fd ifindex, .ok _, w =>
      match w.packetSock fd with
      | some s => (0, w.setSock s { w.sock s with ifindex := ifindex })
      | none => (-1, w.failed ebadf)
  | _, .bind _ _, .fail e, w => (-1, w.failed e)
  | _, .siocgifindex _ name, .ok _, w =>
      match w.iface name with
      | some i => (some i, w)
      | none => (none, w.failed enodev)
  | _, .siocgifindex _ _, .fail e, w => (none, w.failed e)
  | _, .pthreadCreate task, .ok id, w =>
      if w.Taken id then ((eagain, id), w)
      else ((0, id), w.withThread id task)
  | _, .pthreadCreate _, .fail e, w => ((errnum e, 0), w)
  | _, .pthreadDetach _, .ok _, w => (0, w)
  | _, .pthreadDetach _, .fail e, w => (errnum e, w)
  | _, .pthreadCancel id, .ok _, w => (0, w.cancel id)
  | _, .pthreadCancel _, .fail e, w => (errnum e, w)
  | _, .getQueues, _, w => (w.queues, w)
  | _, .setQueues q, _, w => ((), { w with queues := q })

theorem handle_socket {op : Call ℤ} (hop : op = .socketPacket ∨ op = .socketInet)
    (o : Outcome) (w : World) :
    (∃ e, handle op o w = (-1, w.failed e)) ∨
      ∃ (n : ℕ) (ref : SockRef) (sock : ℕ → PacketSock) (nextSock : ℕ),
        w.os.Fresh n ∧ handle op o w = ((n : ℤ), { w with
          os := w.os.install n (.socket ref), sock := sock, nextSock := nextSock }) := by
  cases o with
  | fail e => rcases hop with rfl | rfl <;> exact .inl ⟨e, rfl⟩
  | ok n =>
      rcases hop with rfl | rfl
      · simp only [handle]
        split_ifs with hfresh
        · exact .inr ⟨n, _, _, _, hfresh, rfl⟩
        · exact .inl ⟨_, rfl⟩
      · simp only [handle]
        split_ifs with hfresh
        · exact .inr ⟨n, _, w.sock, w.nextSock, hfresh, rfl⟩
        · exact .inl ⟨_, rfl⟩

def anySem : Sem Call World := handle.sem fun _ _ _ => True

end World

end Dabbad
