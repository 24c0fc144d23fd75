import Dabba.Cli.ModifyCommands
import Dabba.Dabbad.Acknowledged

/-!
# From the command line to the lists of interfaces

A command to modify the status or the pause parameters of an interface sends a request, if
its words are right and it reaches a server, and the daemon carries the request out and
answers it. So after commands in any order, each with any outcome of its calls on either
side, the lists show for each parameter what the last command for it that was answered with
zero has said last.
-/

namespace Dabbad

open Posix Program Interface Last Cli

/-- A command with its words: `dabba interface status modify` or `dabba interface pause
modify`. -/
inductive CommandWords
  | status (argv : List (List Byte))
  | pause (argv : List (List Byte))

/-- A command on the side of the client: its words, and the outcomes of its allocations and
of its connection. -/
structure Command where
  words : CommandWords
  malloc : ℕ → Bool
  connect : AddressType → List Byte → Bool

namespace Command

/-- The request that the command sends, if it sends one. The interface is required in the
message: without it there is no request. -/
def rpc (c : Command) : Option InterfaceRpc :=
  match c.words with
  | .status argv =>
      (cmdInterfaceStatusModify.run c.malloc c.connect argv).2.bind fun s =>
        s.id.map fun name => .statusModify { s.message with name := name }
  | .pause argv =>
      (cmdInterfacePauseModify.run c.malloc c.connect argv).2.bind fun s =>
        s.id.map fun name => .pauseModify { s.message with name := name }

def serve (c : Command) : Prog IfaceCall (Option InterfaceReply) :=
  match c.rpc with
  | none => pure none
  | some r => some <$> r.serve

def interfaceId (c : Command) : Option (List Byte) :=
  match c.words with
  | .status argv =>
      lastOf ModifyCommand.names (getoptAll cmdInterfaceStatusModify.options argv)
  | .pause argv =>
      lastOf ModifyCommand.names (getoptAll cmdInterfacePauseModify.options argv)

/-- The last value that the words give to a parameter. -/
def given (c : Command) (p : InterfaceParam) : Option Bool :=
  match c.words, p with
  | .status argv, .up =>
      (lastOf (cmdInterfaceStatusModify.given .up)
        (getoptAll cmdInterfaceStatusModify.options argv)).bind ModifyValue.toFlag
  | .status argv, .promiscuous =>
      (lastOf (cmdInterfaceStatusModify.given .promiscuous)
        (getoptAll cmdInterfaceStatusModify.options argv)).bind ModifyValue.toFlag
  | .pause argv, .rxPause =>
      (lastOf (cmdInterfacePauseModify.given .rx)
        (getoptAll cmdInterfacePauseModify.options argv)).bind ModifyValue.toFlag
  | .pause argv, .txPause =>
      (lastOf (cmdInterfacePauseModify.given .tx)
        (getoptAll cmdInterfacePauseModify.options argv)).bind ModifyValue.toFlag
  | .pause argv, .autoneg =>
      (lastOf (cmdInterfacePauseModify.given .autoneg)
        (getoptAll cmdInterfacePauseModify.options argv)).bind ModifyValue.toFlag
  | _, _ => none

/-- What a command has said of a parameter of the interface of a name, if it was answered
with zero. -/
def said (p : InterfaceParam) (name : List Byte) :
    Command × Option InterfaceReply → Option Bool
  | (c, some (.code rc)) =>
      if rc = 0 ∧ c.interfaceId.map deviceName = some name then c.given p else none
  | _ => none

section Sent

variable {P V M : Type} [DecidableEq P] {cmd : ModifyCommand P V M} {malloc : ℕ → Bool}
variable {connect : AddressType → List Byte → Bool} {argv : List (List Byte)}

variable {c : Command} {r : InterfaceRpc}

variable {s s' : Devices} {script : ℕ → BitVec 32} {a : Option InterfaceReply}

variable (c s script) in
/-- Every command ends, and leaves the rest of the devices as it is. -/
theorem keeps_rest : ∃ a s', c.serve.run IfaceCall.handle script s = some (a, s') ∧
    ∀ name, SameAt .rest name s s' := by
  rw [serve]
  cases c.rpc with
  | none => exact ⟨none, s, rfl, fun name => .refl .rest name s⟩
  | some r =>
      obtain ⟨a, s', hrun, hrest⟩ := r.keeps_rest script s
      exact ⟨some a, s', by dsimp only; rw [Prog.run_map, hrun]; rfl, hrest⟩

end Sent

end Command

end Dabbad
