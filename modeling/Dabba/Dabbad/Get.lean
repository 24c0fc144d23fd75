import Dabba.Dabbad.World
import Mathlib.Data.List.Basic

/-!
# The handlers that list the running threads

A get handler allocates a list with as many entries as the counter of its queue
says, and then walks over the queue and fills the next entry for each node. The
walk ends at the end of the queue, whatever the counter says, so a store behind
the list aborts here. The ids of the request are not looked at.
-/

namespace Dabbad

open Posix Program Tpacket SockFilter

/-- What a get handler asks of the rest of the daemon and of the system: the
outcomes of a series of allocations, the path of a file, the name of an interface,
and the scheduling of a thread. -/
inductive GetCall : Type → Type
  | allocs : GetCall (ℕ → Bool)
  | fdToPath (fd : ℤ) : GetCall Path
  | ifindexToDevname (ifindex : ℤ) : GetCall Path
  | schedParamGet (id : ℕ) : GetCall (ℤ × ℤ)
  | schedAffinityGet (id : ℕ) : GetCall (ℤ × List Byte)

section Handlers

variable {α E : Type}

def allocEntry (fields : ℕ) : Prog GetCall Bool := do
  let ok ← GetCall.allocs
  if ok 0 = false then
    return false
  else
    return (List.range fields).all fun a => ok (a + 1)

/-- Allocates the entries of the list up to the first that fails. -/
def allocEntries (fields : ℕ) : ℕ → Prog GetCall Bool
  | 0 => pure true
  | n + 1 => do
      let ok ← allocEntry fields
      if ok = false then
        return false
      else
        allocEntries fields n

def fillEntries (fill : α → Prog GetCall E) :
    List α → ℕ → List E → Prog GetCall (List E)
  | [], _, list => pure list
  | node :: nodes, a, list => do
      Prog.assert (a < list.length)
      let entry ← fill node
      fillEntries fill nodes (a + 1) (list.set a entry)

/-- A get handler: the reply is the list, or nothing. -/
def getList (fields : ℕ) (init : E) (fill : α → Prog GetCall E)
    (queue : Tailq.Queue α) : Prog GetCall (Option (List E)) := do
  if queue.length = 0 then
    return none
  else
    let ok ← GetCall.allocs
    if ok 0 = false then
      return none
    else
      let ok ← allocEntries fields queue.length
      if ok = false then
        return none
      else
        let list ← fillEntries fill queue.nodes 0
          (List.replicate queue.length init)
        return some list

end Handlers

/-- An entry of the reply about captures or replays; only a capture has a
filter. -/
structure TaskEntry where
  status : ℤ
  id : ℕ
  pcap : Path
  interface : Path
  frameNr : BitVec 64
  frameSize : BitVec 64
  sfp : List PbufSockFilter

def TaskEntry.init : TaskEntry := ⟨0, 0, [], [], 0, 0, []⟩

/-- An entry of the reply about threads. -/
structure ThreadEntry where
  status : ℤ
  id : ℕ
  cpuSet : List Byte
  type : PacketThreadType
  schedPolicy : ℤ
  schedPriority : ℤ

def ThreadEntry.init : ThreadEntry := ⟨0, 0, [], .capture, 0, 0⟩

/-- Fills the entry of a capture or a replay. -/
def fillTask (sfp2Pbuf : SockFprog → Prog GetCall (List PbufSockFilter))
    (node : PacketTask) : Prog GetCall TaskEntry := do
  let pcap ← GetCall.fdToPath node.pcapFd
  let interface ← GetCall.ifindexToDevname node.pktMmap.ifindex
  let sfp ← sfp2Pbuf node.sfp.prog
  return {
    status := 0
    id := node.thread.id
    pcap := pcap
    interface := interface
    frameNr := node.pktMmap.layout.tpFrameNr.setWidth 64
    frameSize := node.pktMmap.layout.tpFrameSize.setWidth 64
    sfp := sfp }

/-- Fills the entry of a thread. The error number is that of the second of the
two requests. -/
def fillThread (pktThread : PacketThread) : Prog GetCall ThreadEntry := do
  let (schedPriority, schedPolicy) ← GetCall.schedParamGet pktThread.id
  let (rc, cpuSet) ← GetCall.schedAffinityGet pktThread.id
  return {
    status := rc
    id := pktThread.id
    cpuSet := cpuSet
    type := pktThread.type
    schedPolicy := schedPolicy
    schedPriority := schedPriority }

/-- Converts the filter of a capture; the error number is dropped. -/
def captureSfp (sfp : SockFprog) : Prog GetCall (List PbufSockFilter) := do
  let ok ← GetCall.allocs
  return (dabbadSfp2PbufSfp (ok 0) (fun a => ok (a + 1)) sfp).2

def dabbadCaptureGet (q : Queues) (_idList : List ℕ) :
    Prog GetCall (Option (List TaskEntry)) :=
  getList 5 .init (fillTask captureSfp) (q.task .capture)

def dabbadReplayGet (q : Queues) (_idList : List ℕ) :
    Prog GetCall (Option (List TaskEntry)) :=
  getList 4 .init (fillTask fun _ => pure []) (q.task .replay)

def dabbadThreadGet (q : Queues) (_idList : List ℕ) :
    Prog GetCall (Option (List ThreadEntry)) :=
  getList 3 .init fillThread q.packetThread

/-- What the rest of the system says about files, interfaces and threads. -/
structure Names where
  path : ℤ → Path
  devname : ℤ → Path
  schedParam : ℕ → ℤ × ℤ
  affinity : ℕ → ℤ × List Byte

/-- The answers to a get handler when all allocations succeed. -/
def Names.sem (names : Names) : Sem GetCall Unit
  | _, .allocs, _, ok, _ => ∀ a, ok a = true
  | _, .fdToPath fd, _, path, _ => path = names.path fd
  | _, .ifindexToDevname ifindex, _, name, _ => name = names.devname ifindex
  | _, .schedParamGet id, _, r, _ => r = names.schedParam id
  | _, .schedAffinityGet id, _, r, _ => r = names.affinity id

namespace Names

variable (names : Names)

/-- The entry that stands for a capture or a replay. -/
def taskEntry (sfp : SockFprog → List PbufSockFilter) (node : PacketTask) :
    TaskEntry where
  status := 0
  id := node.thread.id
  pcap := names.path node.pcapFd
  interface := names.devname node.pktMmap.ifindex
  frameNr := node.pktMmap.layout.tpFrameNr.setWidth 64
  frameSize := node.pktMmap.layout.tpFrameSize.setWidth 64
  sfp := sfp node.sfp.prog

def threadEntry (node : PacketThread) : ThreadEntry where
  status := (names.affinity node.id).1
  id := node.id
  cpuSet := (names.affinity node.id).2
  type := node.type
  schedPolicy := (names.schedParam node.id).2
  schedPriority := (names.schedParam node.id).1

/-- The filter as it is reported for a capture. -/
def captureFilter (sfp : SockFprog) : List PbufSockFilter := sfp.program.map widen

variable {α E : Type} {fields : ℕ} {u : Unit}

theorem wp_allocEntry :
    (allocEntry fields).wp names.sem (fun ok _ => ok = true) u := by
  simp only [allocEntry, Prog.bind_eq, Prog.liftM_eq, Prog.wp_bind, Prog.wp_perform]
  intro ok _ hok
  have hall : ∀ a, ok a = true := hok
  simp [hall]

theorem wp_allocEntries (n : ℕ) :
    (allocEntries fields n).wp names.sem (fun ok _ => ok = true) u := by
  induction n with
  | zero => rfl
  | succ n ih =>
      refine Prog.wp_bind_of _ (names.wp_allocEntry) fun ok _ hok => ?_
      rw [if_neg (by simp [hok])]
      exact ih

/-- Filling stays inside the list when there is an entry for every node that is
left, and replaces exactly these entries. -/
theorem wp_fillEntries {fill : α → Prog GetCall E} {entry : α → E}
    (hfill : ∀ node u, (fill node).wp names.sem (fun e _ => e = entry node) u)
    (nodes : List α) (done todo : List E) (hlen : todo.length = nodes.length) :
    (fillEntries fill nodes done.length (done ++ todo)).wp names.sem
      (fun list _ => list = done ++ nodes.map entry) u := by
  induction nodes generalizing done todo u with
  | nil =>
      obtain rfl := List.length_eq_zero_iff.1 hlen
      rfl
  | cons node nodes ih =>
      obtain ⟨e, todo, rfl⟩ := List.exists_of_length_succ todo hlen
      simp only [fillEntries, Prog.bind_eq, Prog.wp_bind, Prog.wp_assert]
      refine ⟨by simp, Prog.wp_mono _ (hfill node _) ?_⟩
      rintro _ _ rfl
      have hset : (done ++ e :: todo).set done.length (entry node) =
          (done ++ [entry node]) ++ todo := by simp
      have hlength : done.length + 1 = (done ++ [entry node]).length := by simp
      rw [hset, hlength]
      refine Prog.wp_mono _ (ih _ _ (Nat.succ_injective hlen)) ?_
      rintro _ _ rfl
      simp

/-- A get handler lists a counted queue: it stays inside its list, which has one
entry for every node, in the order of the queue. -/
theorem wp_getList {init : E} {fill : α → Prog GetCall E} {entry : α → E}
    (hfill : ∀ node u, (fill node).wp names.sem (fun e _ => e = entry node) u)
    {queue : Tailq.Queue α} (hcounted : queue.Counted) :
    (getList fields init fill queue).wp names.sem (fun reply _ =>
      reply = if queue.nodes = [] then none
        else some (queue.nodes.map entry)) u := by
  have hempty : queue.length = 0 ↔ queue.nodes = [] := by
    rw [hcounted, List.length_eq_zero_iff]
  unfold getList
  by_cases hnodes : queue.nodes = []
  · rw [if_pos (hempty.2 hnodes), if_pos hnodes]
    rfl
  · rw [if_neg (mt hempty.1 hnodes), if_neg hnodes]
    simp only [Prog.bind_eq, Prog.liftM_eq, Prog.wp_bind, Prog.wp_perform]
    intro ok _ hok
    have h0 : ok 0 = true := hok 0
    rw [if_neg (by simp [h0]), Prog.wp_bind]
    refine Prog.wp_mono _ (names.wp_allocEntries _) fun ok _ hok => ?_
    rw [if_neg (by simp [hok])]
    have hlen : (List.replicate queue.length init).length =
        queue.nodes.length := by
      rw [List.length_replicate, hcounted]
    refine Prog.wp_bind_of _
      (names.wp_fillEntries hfill queue.nodes [] _ hlen) ?_
    rintro list _ rfl
    rfl

theorem wp_fillTask {sfp2Pbuf : SockFprog → Prog GetCall (List PbufSockFilter)}
    {sfp : SockFprog → List PbufSockFilter}
    (hsfp : ∀ x u, (sfp2Pbuf x).wp names.sem (fun r _ => r = sfp x) u)
    (node : PacketTask) (u : Unit) :
    (fillTask sfp2Pbuf node).wp names.sem
      (fun e _ => e = names.taskEntry sfp node) u := by
  simp only [fillTask, Prog.bind_eq, Prog.liftM_eq, Prog.wp_bind, Prog.wp_perform]
  rintro _ _ rfl _ _ rfl
  refine Prog.wp_mono _ (hsfp node.sfp.prog _) ?_
  rintro _ _ rfl
  rfl

theorem wp_fillThread (node : PacketThread) (u : Unit) :
    (fillThread node).wp names.sem (fun e _ => e = names.threadEntry node) u := by
  simp only [fillThread, Prog.bind_eq, Prog.liftM_eq, Prog.wp_bind, Prog.wp_perform]
  rintro _ _ rfl _ _ rfl
  rfl

theorem wp_captureSfp (sfp : SockFprog) (u : Unit) :
    (captureSfp sfp).wp names.sem (fun r _ => r = captureFilter sfp) u := by
  simp only [captureSfp, Prog.bind_eq, Prog.liftM_eq, Prog.wp_bind, Prog.wp_perform]
  intro ok _ hok
  have h0 : ok 0 = true := hok 0
  rw [h0, Prog.pure_eq, Prog.wp_ret, dabbadSfp2PbufSfp_eq_map fun a => hok (a + 1)]
  rfl

end Names

end Dabbad
