import Dabba.Dabbad.Run
import Dabba.Program.Interleave

/-!
# The daemon with its threads and its kernel

While the daemon answers an RPC its packet threads run, and packets arrive. One step
of this environment is one step of a thread, the end of a thread that was cancelled,
a packet that the kernel puts into a receive ring, or one that it takes from a
transmit ring. A cancellation is deferred: the thread goes on until its next
cancellation point, where it can only end.

A thread works on the memory it was started with. What it finds there when this
memory is gone is not described; the model goes on with empty slots.
-/

namespace Dabbad

open Posix Program Tpacket SockFilter Pcap Transition

def isCancellationPoint : {β : Type} → FileCall β → Bool
  | _, .read _ _ => true
  | _, .write _ _ => true
  | _, _ => false

def callsCancellationPoint {α : Type} : Prog FileCall α → Bool
  | .call op _ => isCancellationPoint op
  | _ => false

/-- What a thread may use of what a start acquired for it. -/
inductive Resource
  | record
  | vector
  | ring
  | pcap
deriving DecidableEq

namespace Body

/-- The thread is about to call `poll`, `read`, `write` or `send`. -/
def atCancellationPoint : Body → Bool
  | .rx _ .poll => true
  | .rx _ (.write p) => callsCancellationPoint p
  | .rx _ _ => false
  | .tx _ _ .send => true
  | .tx _ _ (.read p) => callsCancellationPoint p
  | .tx _ _ (.rewind p) => callsCancellationPoint p
  | .tx _ _ _ => false

/-- What the next step of the thread uses: the head of a loop reads the geometry in
the record, the vector, and the status of the slot; a call on the PCAP file that
transfers a packet uses the slot as well. The replay loop reads the descriptors in the
record again for `send` and for `ldab_pcap_rewind`. -/
def uses : Body → List Resource
  | .rx _ .status => [.record, .vector, .ring]
  | .rx _ .poll => []
  | .rx _ .user => [.record, .ring]
  | .rx _ (.write (.call _ _)) => [.ring, .pcap]
  | .rx _ (.write _) => []
  | .rx _ .release => [.ring]
  | .tx _ _ .status => [.record, .vector, .ring]
  | .tx _ _ (.read (.call _ _)) => [.ring, .pcap]
  -- Behind the end of the file comes `send`, with the socket in the record.
  | .tx _ _ (.read _) => [.record]
  | .tx _ _ (.request _ _) => [.ring]
  | .tx _ _ .send => [.record]
  | .tx _ _ (.rewind (.call _ _)) => [.record, .pcap]
  | .tx _ _ (.rewind _) => []

end Body

def Thread.mayStep (t : Thread) : Bool :=
  !t.exited && !(t.cancelled && t.body.atCancellationPoint)

/-- The frame the capture loop is about to hand to `ldab_pcap_write`. -/
def toWrite (rx : Rx.PacketRx) (s : Rx.State SockRef) : List Frame :=
  match s.pc with
  | .user =>
      if (s.slot s.index).IsUser ∧ 0 < rx.pcapFd then [(s.slot s.index).frame] else []
  | _ => []

/-- The socket has the packets of this interface, and its filter accepts the
packet. -/
def PacketSock.receives (accepts : List Bpf.SockFilter → Frame → Bool)
    (x : PacketSock) (f : Frame) : Bool :=
  (x.ifindex == 0 || x.ifindex == f.sllIfindex) && x.filter.all (accepts · f)

def Ring.deliver (r : Ring) (tpStatus : BitVec 64) (f : Frame) : Ring :=
  { r with
    slot := Function.update r.slot r.head ⟨tpStatus, f⟩
    head := (r.head + 1) % r.layout.tpFrameNr.toNat }

namespace World

def ringOf (w : World) (t : Thread) : Option (ℕ × Ring) := do
  let m ← t.task.pktMmap.buf
  let s ← w.map m
  let r ← (w.sock s).ring
  return (s, r)

def putRing (w : World) (s : ℕ) (r : Ring) : World :=
  w.setSock s { w.sock s with ring := some r }

def slots (w : World) (t : Thread) : ℕ → Slot :=
  match w.ringOf t with
  | some (_, r) => r.slot
  | none => fun _ => Slot.zero

def putSlots (w : World) (t : Thread) (slot : ℕ → Slot) : World :=
  match w.ringOf t with
  | some (s, r) => w.putRing s { r with slot := slot }
  | none => w

/-- The thread `n` after a step; every thread has an `errno` of its own. -/
def putThread (w : World) (n : ℕ) (t : Thread) (os : Os SockRef) : World :=
  { w with
    os := { os with errno := w.os.errno }
    threads := w.threads.set n t }

/-- One step of the loop of a thread, with the slots and the files it leaves. -/
def stepThread (w : World) (t : Thread) (o : Outcome) :
    Option (Thread × (ℕ → Slot) × Os SockRef) :=
  match t.body with
  | .rx index pc =>
      let rx : Rx.PacketRx := ⟨t.task.pktMmap.layout, t.task.pcapFd⟩
      let s : Rx.State SockRef := ⟨w.slots t, w.os, index, pc⟩
      (s.ldabPacketRx rx o).map fun s' =>
        ({ t with body := .rx s'.index s'.pc, written := t.written ++ toWrite rx s },
          s'.slot, s'.os)
  | .tx a eof pc =>
      let tx : Tx.PacketTx := ⟨t.task.pktMmap.layout, t.task.pcapFd⟩
      let s : Tx.State SockRef := ⟨w.slots t, w.os, a, eof, pc⟩
      (s.ldabPacketTx tx o).map fun s' =>
        ({ t with body := .tx s'.a s'.eof s'.pc }, s'.slot, s'.os)

/-- What a resource of a thread is when nobody has released it. The open file is
the one behind the descriptor when the thread was created. -/
def Holds (w : World) (t : Thread) : Resource → Prop
  | .record => w.heap t.task.thread.addr = true
  | .vector => ∃ v, t.task.pktMmap.vec = some v ∧ w.heap v = true
  | .ring => ∃ m, t.task.pktMmap.buf = some m ∧ (w.map m).isSome
  | .pcap => w.fileId t.task.pcapFd = some t.pcapId

/-- The packet arrives at the socket `s`, and its ring has room for it. -/
structure Arrives (accepts : List Bpf.SockFilter → Frame → Bool) (w : World) (s : ℕ)
    (r : Ring) (tpStatus : BitVec 64) (f : Frame) : Prop where
  ring : (w.sock s).ring = some r
  rx : r.type = .rx
  receives : (w.sock s).receives accepts f = true
  kernel : (r.slot r.head).tpStatus = tpStatusKernel
  user : tpStatus &&& tpStatusUser = tpStatusUser

/-- The steps of the threads and of the kernel. -/
inductive Env (accepts : List Bpf.SockFilter → Frame → Bool) : World → World → Prop
  | arrival {w : World} {s : ℕ} {r : Ring} {tpStatus : BitVec 64} {f : Frame}
      (h : w.Arrives accepts s r tpStatus f) :
      Env accepts w (w.putRing s (r.deliver tpStatus f))
  | transmit {w : World} {s : ℕ} {r : Ring} (j : ℕ) (hring : (w.sock s).ring = some r)
      (htx : r.type = .tx) (hslot : (r.slot j).tpStatus = tpStatusSendRequest) :
      Env accepts w (w.putRing s { r with
        slot := Function.update r.slot j ⟨tpStatusAvailable, (r.slot j).frame⟩ })
  | thread {w : World} {n : ℕ} {t t' : Thread} {slot : ℕ → Slot} {os : Os SockRef}
      (o : Outcome) (ht : w.threads[n]? = some t) (hmay : t.mayStep = true)
      (hstep : w.stepThread t o = some (t', slot, os)) :
      Env accepts w ((w.putSlots t slot).putThread n t' os)
  | exit {w : World} {n : ℕ} {t : Thread} (ht : w.threads[n]? = some t)
      (hcancelled : t.cancelled = true) (hpoint : t.body.atCancellationPoint = true) :
      Env accepts w { w with threads := w.threads.set n { t with exited := true } }

end World

def IsHandler (p : Prog Call ℤ) : Prop := ∃ rpc : Rpc, p = rpc.handler

end Dabbad
