import Dabba.Dabbad.Naming

/-!
# The status, the pause parameters and the driver of interfaces

The flags of an interface come with the cache of links, and they are changed with a netlink
message that says which of them to set and which to clear. The pause parameters go through
an ethtool request each way.
-/

namespace Dabbad

open Posix Program Interface

/-- The flags of a link that is to be changed: those that are named, and those of them that
are to be set. -/
structure FlagsChange where
  mask : BitVec 16
  flags : BitVec 16

namespace FlagsChange

def none : FlagsChange := ⟨0, 0⟩

def rtnlLinkSetFlags (change : FlagsChange) (flags : BitVec 16) : FlagsChange where
  mask := change.mask ||| flags
  flags := change.flags ||| flags

def rtnlLinkUnsetFlags (change : FlagsChange) (flags : BitVec 16) : FlagsChange where
  mask := change.mask ||| flags
  flags := change.flags &&& ~~~flags

def apply (change : FlagsChange) (d : Device) : Device :=
  { d with flags := d.flags &&& ~~~change.mask ||| change.flags }

end FlagsChange

/-- The calls of the interface handlers: those on devices, the flags that are in the cache
of links, and a change of the flags of a link. -/
inductive IfaceCall : Type → Type 1
  | dev {β : Type} (op : DevCall β) : IfaceCall β
  | rtnlLinkGetFlags : IfaceCall (List Byte → BitVec 16)
  | rtnlLinkChange (name : List Byte) (change : FlagsChange) : IfaceCall (BitVec 32)

def IfaceCall.handle : Handler IfaceCall (BitVec 32) Devices
  | _, .dev op, e, s => op.handle e s
  | _, .rtnlLinkGetFlags, _, s => (fun name => (s.device name).getFlags, s)
  | _, .rtnlLinkChange name change, e, s =>
      if e ≠ 0 then (e, s)
      else if name ∈ s.names then (0, s.set name (change.apply (s.device name)))
      else (enodev, s)

section Status

/-- An `interface_status` message. -/
structure InterfaceStatus where
  name : List Byte
  up : Option Bool
  running : Option Bool
  promiscuous : Option Bool
  loopback : Option Bool
  connectivity : Option Bool

def flagOverlay (flag : BitVec 16) (requested : Option Bool) (change : FlagsChange) :
    FlagsChange :=
  match requested with
  | none => change
  | some true => change.rtnlLinkSetFlags flag
  | some false => change.rtnlLinkUnsetFlags flag

def statusOverlay (statusp : InterfaceStatus) : FlagsChange :=
  flagOverlay iffUp statusp.up (flagOverlay iffPromisc statusp.promiscuous .none)

/-- Modifies the status of an interface; the result is the code of the reply. -/
def dabbadInterfaceStatusModify (statusp : InterfaceStatus) :
    Prog IfaceCall (BitVec 32) := do
  let cache ← IfaceCall.dev (.link .linkCacheAlloc)
  let change ← IfaceCall.dev (.link .rtnlLinkAlloc)
  if cache = false ∨ change = false then
    return enomem
  else
    let link ← IfaceCall.dev (.link (.rtnlLinkGetByName statusp.name))
    if link = false then
      return enodev
    else
      IfaceCall.rtnlLinkChange statusp.name (statusOverlay statusp)

/-- The status of an interface, with the error number of the request for its link. -/
structure StatusEntry where
  status : BitVec 32
  state : InterfaceStatus

/-- A flag of an interface as it is reported. -/
def iffReported (flags flag : BitVec 16) : Option Bool := some (flags &&& flag == flag)

/-- The entry of a link, whose flags are in the cache. -/
def fillStatus (flags : List Byte → BitVec 16) (link : RtnlLink) :
    Prog DevCall StatusEntry := do
  let (rc, connectivity) ← ldabDevLinkGet link.name 0
  return {
    status := rc
    state := {
      name := link.name
      up := iffReported (flags link.name) iffUp
      running := iffReported (flags link.name) iffRunning
      promiscuous := iffReported (flags link.name) iffPromisc
      loopback := iffReported (flags link.name) iffLoopback
      connectivity := some (connectivity != 0) } }

def dabbadInterfaceStatusGet (idList : List (List Byte)) :
    Prog IfaceCall (Option (List StatusEntry)) := do
  let flags ← IfaceCall.rtnlLinkGetFlags
  (interfaceGet (fillStatus flags) idList).hoist fun _ op => IfaceCall.dev op

end Status

section Pause

/-- The pause parameters of an interface, with the error number of the request for them. -/
structure PauseEntry where
  status : BitVec 32
  pause : InterfacePause

/-- The entry of a link. -/
def fillPause (link : RtnlLink) : Prog DevCall PauseEntry := do
  let (rc, pause) ← ldabDevPauseGet link.name
  return {
    status := rc
    pause := {
      name := link.name
      rxPause := some pause.rxPause
      txPause := some pause.txPause
      autoneg := some pause.autoneg } }

def dabbadInterfacePauseGet (idList : List (List Byte)) :
    Prog DevCall (Option (List PauseEntry)) :=
  interfaceGet fillPause idList

end Pause

section Driver

/-- An `interface_driver` message, with the error number of the request for it. -/
structure DriverEntry where
  status : BitVec 32
  id : List Byte
  name : List Byte
  version : List Byte
  fwVersion : List Byte
  busInfo : List Byte

/-- The entry of a link. -/
def fillDriver (link : RtnlLink) : Prog DevCall DriverEntry := do
  let (rc, drvinfo) ← ldabDevDriverGet link.name
  return {
    status := rc
    id := link.name
    name := drvinfo.driver
    version := drvinfo.version
    fwVersion := drvinfo.fwVersion
    busInfo := drvinfo.busInfo }

def dabbadInterfaceDriverGet (idList : List (List Byte)) :
    Prog DevCall (Option (List DriverEntry)) :=
  interfaceGet fillDriver idList

end Driver

end Dabbad
