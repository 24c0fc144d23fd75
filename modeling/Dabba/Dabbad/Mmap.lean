import Dabba.Dabbad.World
import Dabba.Interface.Request

/-!
# Creating and destroying packet rings

A ring is set up in four stages: it is registered with the socket, mapped, given
a vector of its frames, and at last the socket is bound to the interface. When a
stage fails everything is taken down again.
-/

namespace Dabbad

open Posix Program Tpacket

def fileProg {α : Type} (p : Prog FileCall α) : Prog Call α :=
  p.hoist fun _ op => Call.file op

def errno : Prog Call ℤ := do
  let e ← Call.file FileCall.getErrno
  return e

def close (fd : ℤ) : Prog Call ℤ := Prog.perform (Call.file (FileCall.close fd))

def anyInterface : Path := [0x61, 0x6e, 0x79]

abbrev ifnamsiz : ℕ := 16

def ifindexRequest (name : Path) : Prog Call (ℤ × ℤ) :=
  Interface.devKernelRequest Call.socketInet (fun sock => Call.siocgifindex sock name) close
    errno (fun rc => (rc, 0)) fun index => (0, index)

/-- The index of an interface. The name is cut to the length of the field it is
copied to. -/
def ldabDevnameToIfindex (dev : Path) : Prog Call (ℤ × ℤ) :=
  if dev = anyInterface then pure (0, 0)
  else ifindexRequest (dev.take (ifnamsiz - 1))

def powerof2 {w : ℕ} (x : BitVec w) : Bool := (x - 1) &&& x == 0

abbrev Stage := PacketMmap → Prog Call (ℤ × PacketMmap)

def packetMmapRegister : Stage := fun pktMmap => do
  let rc ← Call.setRing pktMmap.pfSock pktMmap.type pktMmap.layout
  if rc < 0 then
    let e ← errno
    return (e, pktMmap)
  else
    return (0, pktMmap)

def packetMmapUnregister (pktMmap : PacketMmap) : Prog Call Unit := do
  let _ ← Call.setRing pktMmap.pfSock pktMmap.type ⟨0, 0, 0, 0⟩
  return ()

/-- The length of the mapping, computed in 32 bits. -/
def PacketMmap.length (m : PacketMmap) : BitVec 32 :=
  m.layout.tpBlockSize * m.layout.tpBlockNr

def packetMmapMmap : Stage := fun pktMmap => do
  let buf ← Call.mmap pktMmap.pfSock pktMmap.length.toNat
  match buf with
  | none => return ((einval : ℤ), pktMmap)
  | some b => return (0, { pktMmap with buf := some b })

def packetMmapMunmap (pktMmap : PacketMmap) : Prog Call Unit := do
  match pktMmap.buf with
  | none => return ()
  | some b =>
      let _ ← Call.munmap b pktMmap.length.toNat
      return ()

def packetMmapBind : Stage := fun pktMmap => do
  let rc ← Call.bind pktMmap.pfSock pktMmap.ifindex
  if rc < 0 then
    let e ← errno
    return (e, pktMmap)
  else
    return (0, pktMmap)

def packetMmapVectorCreate : Stage := fun pktMmap => do
  Prog.assert pktMmap.buf.isSome
  let vec ← Call.calloc
  match vec with
  | none => return ((enomem : ℤ), pktMmap)
  | some v => return (0, { pktMmap with vec := some v })

/-- Frees the vector, unmaps the ring and takes it from the socket. -/
def ldabPacketMmapDestroy (pktMmap : PacketMmap) : Prog Call Unit := do
  Call.free pktMmap.vec
  packetMmapMunmap pktMmap
  packetMmapUnregister pktMmap

def pktMmapFn : List Stage :=
  [packetMmapRegister, packetMmapMmap, packetMmapVectorCreate, packetMmapBind]

/-- Runs the stages up to the first that fails. -/
def runStages : List Stage → PacketMmap → Prog Call (ℤ × PacketMmap)
  | [], pktMmap => pure (0, pktMmap)
  | fn :: fns, pktMmap => do
      let (rc, pktMmap) ← fn pktMmap
      if rc ≠ 0 then
        ldabPacketMmapDestroy pktMmap
        return (rc, .zero)
      else
        runStages fns pktMmap

/-- The ring of `frame_nr` frames, in blocks of eight, before its setup. -/
def requestedMmap (ifindex pfSock : ℤ) (type : PacketMmapType)
    (frameSize : BitVec 32) (frameNr : BitVec 64) : PacketMmap where
  type := type
  pfSock := pfSock
  ifindex := ifindex
  layout :=
    { tpBlockSize := 8 * frameSize
      tpBlockNr := (frameNr / 8).setWidth 32
      tpFrameSize := frameSize
      tpFrameNr := frameNr.setWidth 32 }
  vec := none
  buf := none

def ldabPacketMmapCreate (dev : Path) (pfSock : ℤ) (type : PacketMmapType)
    (frameSize : BitVec 32) (frameNr : BitVec 64) :
    Prog Call (ℤ × PacketMmap) := do
  if !powerof2 frameSize || !powerof2 frameNr then
    return ((einval : ℤ), .zero)
  else
    let (rc, ifindex) ← ldabDevnameToIfindex dev
    if rc ≠ 0 then
      return (rc, .zero)
    else
      let pktMmap := requestedMmap ifindex pfSock type frameSize frameNr
      if pktMmap.layout.tpFrameNr = 0 ∨ pktMmap.layout.tpBlockNr = 0 then
        return ((einval : ℤ), pktMmap)
      else
        runStages pktMmapFn pktMmap

end Dabbad
