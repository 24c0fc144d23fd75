import Dabba.Dabbad.InterfaceCoalesce
import Dabba.Program.Partial

/-!
# Which device a request reaches

The name of a device is cut to the size of the field of a request, and the kernel reads it
up to a colon. A name that does not fit, or that has a colon, reaches the device whose name
is the rest, if there is one. The names of the devices that serve the requests of a program
are kept in a log.
-/

namespace Interface

open Posix Program Dabbad

def DevCall.served (s : Devices) : {β : Type} → DevCall β → BitVec 32 → List (List Byte)
  | _, .kernelRequest name request, e =>
      if e = 0 ∧ s.Finds name request then [kernelName name] else []
  | _, _, _ => []

section Request

variable {s : Devices} {dev : List Byte} {log : List (List Byte)}

variable {α β : Type} {name : List Byte} {request : Request β}
variable {k : BitVec 32 × Option β → Prog DevCall α}
variable {Q : α → Devices × List (List Byte) → Prop}

end Request

section Functions

variable {s : Devices} {dev : List Byte}

end Functions

end Interface
