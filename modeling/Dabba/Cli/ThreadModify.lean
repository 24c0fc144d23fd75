import Dabba.Cli.Modify
import Dabba.Stdio.Scan

/-!
# Modifying a thread from the command line

The command that modifies a thread goes over its options like those that modify an
interface, but no text is refused: a policy that has no name is the ordinary one, and a
priority without a number is zero.
-/

namespace Cli

open Posix Stdio Last

/-- The policies `SCHED_OTHER`, `SCHED_FIFO` and `SCHED_RR`; any other text stands for the
first one. -/
def str2schedPolicy (policyName : List Byte) : BitVec 32 :=
  if policyName = text "other" then 0
  else if policyName = text "fifo" then 1
  else if policyName = text "rr" then 2
  else 0

/-- `strtol` in base ten, stored with its low 32 bits. Without a number it is zero. -/
def strtolTen (str : List Byte) : BitVec 32 :=
  match scanField .d none str with
  | none => 0
  | some (v, _) => v

/-- The settings that a `thread` message may have. -/
structure ThreadMessage where
  cpuSet : Option (List Byte)
  schedPolicy : Option (BitVec 32)
  schedPriority : Option (BitVec 32)

inductive ThreadParam
  | schedPriority
  | schedPolicy
  | cpuAffinity
deriving DecidableEq

/-- The value of a setting: a number or a list of CPUs. -/
inductive ThreadValue
  | word (v : BitVec 32)
  | list (str : List Byte)

def ThreadValue.toWord : ThreadValue → BitVec 32
  | .word v => v
  | .list _ => 0

def ThreadValue.toList : ThreadValue → List Byte
  | .word _ => []
  | .list str => str

/-- The command `dabba thread modify`. The option `settings` has no case in the switch,
which answers it with the usage message. -/
def cmdThreadModify : ModifyCommand ThreadParam ThreadValue ThreadMessage where
  options :=
    [⟨"id", .required, .interfaceId⟩,
      ⟨"settings", .no, .help⟩,
      ⟨"sched-prio", .required, .setting .schedPriority⟩,
      ⟨"sched-policy", .required, .setting .schedPolicy⟩,
      ⟨"cpu-affinity", .required, .setting .cpuAffinity⟩,
      ⟨"tcp", .optional, .tcp⟩,
      ⟨"local", .optional, .localServer⟩,
      ⟨"help", .no, .help⟩]
  init := ⟨none, none, none⟩
  set thread p optarg :=
    match p with
    | .schedPolicy => some { thread with schedPolicy := some (str2schedPolicy optarg) }
    | .schedPriority => some { thread with schedPriority := some (strtolTen optarg) }
    | .cpuAffinity => some { thread with cpuSet := some optarg }
  value p optarg :=
    match p with
    | .schedPolicy => some (.word (str2schedPolicy optarg))
    | .schedPriority => some (.word (strtolTen optarg))
    | .cpuAffinity => some (.list optarg)
  field thread p :=
    match p with
    | .schedPolicy => thread.schedPolicy.map .word
    | .schedPriority => thread.schedPriority.map .word
    | .cpuAffinity => thread.cpuSet.map .list
  field_init p := by cases p <;> rfl
  set_eq_none {thread p str} h := by cases p <;> cases h
  field_set {thread thread' p str} h := by
    cases p <;> obtain rfl := Option.some.inj h <;>
      exact ⟨rfl, fun q => by cases q <;> rfl⟩

end Cli
