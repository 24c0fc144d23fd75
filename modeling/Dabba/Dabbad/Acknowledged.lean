import Dabba.BitEdit.Basic
import Dabba.Dabbad.Compartments

/-!
# What was acknowledged is shown

A request about the status or the pause parameters of an interface is carried out as a
whole and answered with zero, or changes nothing. So after any history of requests about
interfaces the lists show, for each of these parameters, the last value of the requests
that were answered with zero, and the value it had before where there was none.
-/

namespace Dabbad

open Posix Program Interface Last BitEdit

/-- The flags and the pause parameters of a device. -/
inductive InterfaceParam
  | up
  | promiscuous
  | loopback
  | rxPause
  | txPause
  | autoneg
deriving DecidableEq

namespace InterfaceParam

def read (d : Device) : InterfaceParam → Bool
  | .up => d.up
  | .promiscuous => d.flags &&& iffPromisc == iffPromisc
  | .loopback => d.flags &&& iffLoopback == iffLoopback
  | .rxPause => d.pause.rxPause
  | .txPause => d.pause.txPause
  | .autoneg => d.pause.autoneg

/-- The value that a request asks for, whatever device it names. -/
def value : InterfaceRpc → InterfaceParam → Option Bool
  | .statusModify statusp, .up => statusp.up
  | .statusModify statusp, .promiscuous => statusp.promiscuous
  | .pauseModify pause, .rxPause => pause.rxPause
  | .pauseModify pause, .txPause => pause.txPause
  | .pauseModify pause, .autoneg => pause.autoneg
  | _, _ => none

end InterfaceParam

section Runs

variable (s : Devices)

end Runs

section Flags

variable (d : Device)

end Flags

section Step

variable {s s' : Devices} {r : InterfaceRpc} {a : InterfaceReply} {script : ℕ → BitVec 32}

end Step

section Shown

variable (s : Devices) (shown : List Byte → InterfaceParam → Bool)

variable {s shown} {s' : Devices}

end Shown

end Dabbad
