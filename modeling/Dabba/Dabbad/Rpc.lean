import Dabba.Dabbad.Mmap
import Dabba.Pcap.Descriptor

/-!
# The handlers that start and stop captures and replays

Starting acquires a socket, a record, a PCAP descriptor, a filter, a ring and a
thread in turn, and every error branch releases what it thinks was acquired
before. Stopping asks the thread to end and releases the same things at once.
Captures and replays are handled alike, up to the filter and the way in which
the file is opened.
-/

namespace Dabbad

open Posix Program Tpacket SockFilter Pcap

section Thread

def dabbadThreadInsert (node : PacketThread) : Prog Call Unit := do
  let q ← Call.getQueues
  Call.setQueues (q.insertThread node)

def dabbadThreadRemove (node : PacketThread) : Prog Call Unit := do
  let q ← Call.getQueues
  Prog.assert (0 < q.packetThread.length)
  Call.setQueues (q.removeThread node)

/-- Starts the packet thread of a record, detached. The id is stored in the
record. -/
def dabbadThreadStart (task : PacketTask) : Prog Call (ℤ × PacketThread) := do
  let (rc, id) ← Call.pthreadCreate task
  if rc ≠ 0 then
    return ((rc : ℤ), task.thread)
  else
    let node := { task.thread with id := id }
    let rc ← Call.pthreadDetach id
    if rc ≠ 0 then
      return ((rc : ℤ), node)
    else
      dabbadThreadInsert node
      return (0, node)

/-- Asks a running thread to end and forgets about it. -/
def dabbadThreadStop (pktThread : PacketThread) : Prog Call ℤ := do
  let q ← Call.getQueues
  match q.packetThread.nodes.find? fun n => n.id == pktThread.id with
  | none => return (einval : ℤ)
  | some node =>
      let rc ← Call.pthreadCancel node.id
      if rc ≠ 0 then
        return (rc : ℤ)
      else
        dabbadThreadRemove node
        return 0

end Thread

section Task

def dabbadTaskInsert (node : PacketTask) : Prog Call Unit := do
  let q ← Call.getQueues
  Call.setQueues (q.insertTask node)

def dabbadTaskRemove (node : PacketTask) : Prog Call Unit := do
  let q ← Call.getQueues
  Prog.assert (0 < (q.task node.thread.type).length)
  Call.setQueues (q.removeTask node)

/-- The settings a request for a capture or a replay has in common. -/
structure Settings where
  pcap : Option Path
  interface : Option Path
  frameNr : BitVec 64
  frameSize : BitVec 64

def packetMmapFrameSizeIsValid (frameSize : BitVec 64) : Bool :=
  frameSize == 16 <<< 7 || frameSize == 16 <<< 10 || frameSize == 16 <<< 12

def Settings.areValid (s : Settings) : Bool :=
  if s.interface = none ∨ s.interface = some [] then false
  else if s.pcap = none ∨ s.pcap = some [] then false
  else if packetMmapFrameSizeIsValid s.frameSize = false then false
  else if s.frameNr = 0 then false
  else true

def dabbadSfpDestroy (sfp : Sfp) : Prog Call Unit :=
  Prog.perform (Call.free sfp.filter)

/-- The first part of a start: the checks, the socket, the record and the PCAP
descriptor. The result is an error number, or the three of them. -/
def openTask (s : Settings) (openPcap : Path → Prog Call ℤ) :
    Prog Call (ℤ ⊕ (ℤ × ℕ × ℤ)) := do
  if s.areValid = false then
    return .inl (einval : ℤ)
  else
    let sock ← Call.socketPacket
    if sock < 0 then
      let rc ← errno
      return .inl rc
    else
      let addr ← Call.calloc
      match addr with
      | none =>
          let _ ← close sock
          return .inl (enomem : ℤ)
      | some addr =>
          let fd ← openPcap (s.pcap.getD [])
          if fd < 0 then
            let rc ← errno
            Call.free (some addr)
            let _ ← close sock
            return .inl rc
          else
            return .inr (sock, addr, fd)

/-- The second part of a start: the filter, the ring and the thread. -/
def runTask (type : PacketThreadType) (ringType : PacketMmapType) (s : Settings)
    (attach : ℤ → Prog Call (ℤ × Sfp)) (sfpDestroy : Sfp → Prog Call Unit)
    (sock : ℤ) (addr : ℕ) (fd : ℤ) : Prog Call ℤ := do
  let (rc, sfp) ← attach sock
  if rc ≠ 0 then
    Call.free (some addr)
    let _ ← close sock
    return rc
  else
    let (rc, pktMmap) ← ldabPacketMmapCreate (s.interface.getD []) sock ringType
      (s.frameSize.setWidth 32) s.frameNr
    if rc ≠ 0 then
      sfpDestroy sfp
      Call.free (some addr)
      let _ ← close sock
      return rc
    else
      let task : PacketTask :=
        { pktMmap := pktMmap
          sfp := sfp
          pcapFd := fd
          thread := ⟨addr, 0, type⟩ }
      let (rc, thread) ← dabbadThreadStart task
      if rc ≠ 0 then
        ldabPacketMmapDestroy pktMmap
        sfpDestroy sfp
        Call.free (some addr)
        let _ ← close sock
        return rc
      else
        dabbadTaskInsert { task with thread := thread }
        return 0

def startTask (type : PacketThreadType) (ringType : PacketMmapType) (s : Settings)
    (openPcap : Path → Prog Call ℤ) (attach : ℤ → Prog Call (ℤ × Sfp))
    (sfpDestroy : Sfp → Prog Call Unit) : Prog Call ℤ := do
  let acquired ← openTask s openPcap
  match acquired with
  | .inl rc => return rc
  | .inr (sock, addr, fd) =>
      runTask type ringType s attach sfpDestroy sock addr fd

def releaseTask (unfilter : PacketTask → Prog Call Unit) (task : PacketTask) :
    Prog Call Unit := do
  dabbadTaskRemove task
  unfilter task
  let _ ← close task.pcapFd
  ldabPacketMmapDestroy task.pktMmap
  Call.free (some task.thread.addr)

/-- Stops the capture or the replay with a thread id. -/
def stopTask (type : PacketThreadType) (unfilter : PacketTask → Prog Call Unit)
    (id : ℕ) : Prog Call ℤ := do
  let q ← Call.getQueues
  match (q.task type).nodes.find? fun n => n.thread.id == id with
  | none => return (einval : ℤ)
  | some task =>
      let rc ← dabbadThreadStop task.thread
      if rc = 0 then
        releaseTask unfilter task
        return rc
      else
        return rc

/-- The loop of a handler that stops all captures or all replays. The next
record is looked up before the current one is unlinked. -/
def stopAllLoop (unfilter : PacketTask → Prog Call Unit) :
    List PacketTask → Prog Call ℤ
  | [] => pure 0
  | task :: tasks => do
      let rc ← dabbadThreadStop task.thread
      if rc ≠ 0 then
        return rc
      else
        releaseTask unfilter task
        stopAllLoop unfilter tasks

def stopAllTasks (type : PacketThreadType)
    (unfilter : PacketTask → Prog Call Unit) : Prog Call ℤ := do
  let q ← Call.getQueues
  stopAllLoop unfilter (q.task type).nodes

end Task

section Capture

structure CaptureRequest extends Settings where
  append : Bool
  sfp : Option (List PbufSockFilter)

def openCapturePcap (append : Bool) (pcap : Path) : Prog Call ℤ :=
  if append then fileProg (ldabPcapOpen pcap (oRdwr ||| oAppend))
  else fileProg (ldabPcapCreate pcap linktypeEn10mb)

/-- Converts the filter of a request and attaches it to the socket. -/
def attachCaptureFilter (sfp : Option (List PbufSockFilter)) (sock : ℤ) :
    Prog Call (ℤ × Sfp) :=
  match sfp with
  | none => pure (0, .zero)
  | some [] => pure (0, .zero)
  | some (p :: ps) => do
      let filter ← Call.calloc
      let (rc, prog) := dabbadPbufSfp2Sfp filter.isSome (p :: ps)
      if rc ≠ 0 then
        Call.free filter
        return ((rc : ℤ), .zero)
      else
        let rc ← Call.setFilter sock (some prog.program)
        if rc ≠ 0 then
          Call.free filter
          return (rc, .zero)
        else
          return (0, ⟨prog, filter⟩)

def dabbadCaptureStart (r : CaptureRequest) : Prog Call ℤ :=
  startTask .capture .rx r.toSettings (openCapturePcap r.append)
    (attachCaptureFilter r.sfp) dabbadSfpDestroy

def captureUnfilter (task : PacketTask) : Prog Call Unit := do
  let _ ← Call.setFilter task.pktMmap.pfSock none
  dabbadSfpDestroy task.sfp

def dabbadCaptureStop (id : ℕ) : Prog Call ℤ :=
  stopTask .capture captureUnfilter id

def dabbadCaptureStopAll : Prog Call ℤ := stopAllTasks .capture captureUnfilter

end Capture

section Replay

def openReplayPcap (pcap : Path) : Prog Call ℤ :=
  fileProg (ldabPcapOpen pcap oRdonly)

def dabbadReplayStart (r : Settings) : Prog Call ℤ :=
  startTask .replay .tx r openReplayPcap (fun _ => pure (0, .zero))
    (fun _ => pure ())

def dabbadReplayStop (id : ℕ) : Prog Call ℤ :=
  stopTask .replay (fun _ => pure ()) id

def dabbadReplayStopAll : Prog Call ℤ := stopAllTasks .replay fun _ => pure ()

end Replay

end Dabbad
