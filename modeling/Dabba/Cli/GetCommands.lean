import Dabba.Cli.Dispatch
import Dabba.Cli.Getopt
import Dabba.Posix.File

/-!
# The get commands

`dabba replay get`, `dabba capture get` and `dabba thread get` have the same options: the
ids to ask for, and the server to ask. A handler gets the words behind the action, but
`getopt_long_only` passes over the first word of its argument vector, so two of the three
handlers step back to the action, and the third one misses the first word. All three
collect the ids in an array whose new entry is used as a pointer before it is set.
-/

namespace Cli

open Posix Last

inductive GetRpc
  | replay
  | capture
  | thread
deriving DecidableEq

inductive GetCode
  | id
  | tcp
  | localServer
  | help
deriving DecidableEq

def getOption : List (LongOption GetCode) :=
  [⟨"id", .required, .id⟩, ⟨"tcp", .optional, .tcp⟩, ⟨"local", .optional, .localServer⟩,
    ⟨"help", .no, .help⟩]

/-- What the options have said so far. -/
structure GetState where
  serverType : AddressType
  serverId : List Byte
  idList : List (BitVec 64)

def GetState.init : GetState := ⟨.tcp, defaultTcpServerName, []⟩

/-- The memory of a run: whether the array of ids can get its entry `n`, and whether that
entry, which is not set, happens to point to a message of its own. -/
structure IdMemory where
  realloc : ℕ → Bool
  entry : ℕ → Bool

/-- A command ends with a code, or in what has no meaning. -/
inductive Stop
  | exit (rc : ℤ)
  | undefined

/-- The switch over the code of an option; minus one goes with the usage message. The id is
stored where the new entry of the array points to. -/
def getSwitch (mem : IdMemory) (s : GetState) (ret : Option GetCode)
    (optarg : Option (List Byte)) : Except Stop GetState :=
  match ret with
  | some .tcp =>
      .ok { s with serverType := .tcp, serverId := optarg.getD defaultTcpServerName }
  | some .localServer =>
      .ok { s with
        serverType := .localSocket, serverId := optarg.getD defaultLocalServerName }
  | some .id =>
      if mem.realloc s.idList.length = false then .error (.exit enomem)
      else if mem.entry s.idList.length = false then .error .undefined
      else .ok { s with idList := s.idList ++ [strtoull (optarg.getD [])] }
  | _ => .error (.exit (-1))

def getLoop (mem : IdMemory) :
    List (Option GetCode × Option (List Byte)) → GetState → Except Stop GetState
  | [], s => .ok s
  | (ret, optarg) :: answers, s =>
      match getSwitch mem s ret optarg with
      | .error stop => .error stop
      | .ok s => getLoop mem answers s

/-- What a command does: its code, the server that it connects to, and the request. -/
structure CmdResult where
  rc : ℤ
  server : Option (AddressType × List Byte)
  request : Option (GetRpc × List (BitVec 64))

section Commands

variable (mem : IdMemory) (connect : AddressType → List Byte → Bool)

/-- The body of the handlers. `connect` tells whether a server can be reached; nothing
stands for a run without a meaning. -/
def cmdGet (rpc : GetRpc) (argv : List (List Byte)) : Option CmdResult :=
  match getLoop mem (getoptAll getOption argv.tail) .init with
  | .error .undefined => none
  | .error (.exit rc) => some ⟨rc, none, none⟩
  | .ok s =>
      if connect s.serverType s.serverId = true then
        some ⟨0, some (s.serverType, s.serverId), some (rpc, s.idList)⟩
      else some ⟨einval, some (s.serverType, s.serverId), none⟩

def cmdReplayGet (_action : List Byte) (argv : List (List Byte)) : Option CmdResult :=
  cmdGet mem connect .replay argv

def cmdCaptureGet (action : List Byte) (argv : List (List Byte)) : Option CmdResult :=
  cmdGet mem connect .capture (action :: argv)

def cmdThreadGet (action : List Byte) (argv : List (List Byte)) : Option CmdResult :=
  cmdGet mem connect .thread (action :: argv)

variable (handlers : Handlers (Option CmdResult))

def cmdReplay (_command : List Byte) (argv : List (List Byte)) : Option CmdResult :=
  cmdRunCommand handlers
    [⟨"start", handlers.other "cmd_replay_start"⟩, ⟨"stop", handlers.other "cmd_replay_stop"⟩,
      ⟨"stop-all", handlers.other "cmd_replay_stop_all"⟩,
      ⟨"get", cmdReplayGet mem connect⟩] argv

def cmdCapture (_command : List Byte) (argv : List (List Byte)) : Option CmdResult :=
  cmdRunCommand handlers
    [⟨"start", handlers.other "cmd_capture_start"⟩,
      ⟨"stop", handlers.other "cmd_capture_stop"⟩,
      ⟨"stop-all", handlers.other "cmd_capture_stop_all"⟩,
      ⟨"get", cmdCaptureGet mem connect⟩] argv

def cmdThread (_command : List Byte) (argv : List (List Byte)) : Option CmdResult :=
  cmdRunCommand handlers
    [⟨"capabilities", handlers.other "cmd_thread_capabilities"⟩,
      ⟨"get", cmdThreadGet mem connect⟩,
      ⟨"modify", handlers.other "cmd_thread_modify"⟩] argv

def dabba (argv : List (List Byte)) : Option CmdResult :=
  cmdRunCommand handlers
    [⟨"interface", handlers.other "cmd_interface"⟩, ⟨"thread", cmdThread mem connect handlers⟩,
      ⟨"capture", cmdCapture mem connect handlers⟩,
      ⟨"replay", cmdReplay mem connect handlers⟩,
      ⟨"version", handlers.other "cmd_version"⟩, ⟨"help", fun _ => handlers.cmdHelp⟩] argv.tail

end Commands

section Answers

def answerServer : Option GetCode × Option (List Byte) → Option (AddressType × List Byte)
  | (some .tcp, addr) => some (.tcp, addr.getD defaultTcpServerName)
  | (some .localServer, path) => some (.localSocket, path.getD defaultLocalServerName)
  | _ => none

def answerId : Option GetCode × Option (List Byte) → Option (BitVec 64)
  | (some .id, str) => some (strtoull (str.getD []))
  | _ => none

/-- The answer does not end the command with the usage message. -/
def Known (a : Option GetCode × Option (List Byte)) : Prop :=
  a.1 ≠ none ∧ a.1 ≠ some .help

def GetState.after (s : GetState) (answers : List (Option GetCode × Option (List Byte))) :
    GetState :=
  let server := (lastOf answerServer answers).getD (s.serverType, s.serverId)
  ⟨server.1, server.2, s.idList ++ answers.filterMap answerId⟩

end Answers

section Loop

variable (mem : IdMemory)

def IdMemory.ServesFrom (k n : ℕ) : Prop :=
  ∀ i < n, mem.realloc (k + i) = true ∧ mem.entry (k + i) = true

theorem IdMemory.servesFrom_add (k m n : ℕ) :
    mem.ServesFrom k (m + n) ↔ mem.ServesFrom k m ∧ mem.ServesFrom (k + m) n := by
  constructor
  · intro h
    refine ⟨fun i hi => h i (by omega), fun i hi => ?_⟩
    rw [Nat.add_assoc]
    exact h (m + i) (by omega)
  · rintro ⟨hm, hn⟩ i hi
    rcases lt_or_ge i m with hlt | hge
    · exact hm i hlt
    · have hrest := hn (i - m) (by omega)
      rwa [Nat.add_assoc, Nat.add_sub_cancel' hge] at hrest

theorem filterMap_answerId_cons (a : Option GetCode × Option (List Byte))
    (answers : List (Option GetCode × Option (List Byte))) :
    (a :: answers).filterMap answerId =
      [a].filterMap answerId ++ answers.filterMap answerId := by
  rw [← List.filterMap_append, List.singleton_append]

theorem GetState.after_nil (s : GetState) : s.after [] = s := by
  simp [GetState.after]

theorem GetState.after_cons (s : GetState) (a : Option GetCode × Option (List Byte))
    (answers : List (Option GetCode × Option (List Byte))) :
    s.after (a :: answers) = (s.after [a]).after answers := by
  have hserver : (lastOf answerServer (a :: answers)).getD (s.serverType, s.serverId) =
      (lastOf answerServer answers).getD
        ((lastOf answerServer [a]).getD (s.serverType, s.serverId)) := by
    rw [lastOf_cons, lastOf_cons, lastOf_nil, Option.none_or]
    cases lastOf answerServer answers <;> rfl
  unfold GetState.after
  rw [hserver, filterMap_answerId_cons, List.append_assoc]

theorem error_ne_ok (stop : Stop) (s : GetState) :
    (Except.error stop : Except Stop GetState) ≠ .ok s := by
  intro h
  cases h

theorem known_of_ne {code : GetCode} (h : code ≠ .help) (optarg : Option (List Byte)) :
    Known (some code, optarg) :=
  ⟨Option.some_ne_none code, fun heq => h (Option.some.inj heq)⟩

theorem getSwitch_of_server (s s' : GetState) {a : Option GetCode × Option (List Byte)}
    (hknown : Known a) (hid : answerId a = none)
    (hswitch : getSwitch mem s a.1 a.2 = .ok (s.after [a])) :
    getSwitch mem s a.1 a.2 = .ok s' ↔
      Known a ∧ mem.ServesFrom s.idList.length ([a].filterMap answerId).length ∧
        s' = s.after [a] := by
  have hserves : mem.ServesFrom s.idList.length ([a].filterMap answerId).length := by
    rw [List.filterMap_cons_none hid]
    exact fun i hi => absurd hi (Nat.not_lt_zero i)
  rw [hswitch, and_iff_right hknown, and_iff_right hserves, Except.ok.injEq, eq_comm]

/-- A known answer is taken in if the memory serves for it. -/
theorem getSwitch_eq_ok_iff (s s' : GetState) (a : Option GetCode × Option (List Byte)) :
    getSwitch mem s a.1 a.2 = .ok s' ↔
      Known a ∧ mem.ServesFrom s.idList.length ([a].filterMap answerId).length ∧
        s' = s.after [a] := by
  obtain ⟨ret, optarg⟩ := a
  cases ret with
  | none => exact iff_of_false (error_ne_ok _ s') fun h => h.1.1 rfl
  | some code =>
      cases code with
      | help => exact iff_of_false (error_ne_ok _ s') fun h => h.1.2 rfl
      | id =>
          have hserves : mem.ServesFrom s.idList.length 1 ↔
              mem.realloc s.idList.length = true ∧ mem.entry s.idList.length = true := by
            refine ⟨fun h => h 0 Nat.one_pos, fun h i hi => ?_⟩
            obtain rfl := Nat.lt_one_iff.1 hi
            exact h
          rw [and_iff_right (known_of_ne (by decide) optarg)]
          change _ ↔ mem.ServesFrom s.idList.length 1 ∧ _
          rw [hserves, getSwitch]
          cases mem.realloc s.idList.length <;> cases mem.entry s.idList.length <;>
            simp [GetState.after, lastOf, answerServer, answerId, eq_comm]
      | tcp =>
          refine getSwitch_of_server mem s s' (known_of_ne (by decide) optarg) rfl ?_
          simp [getSwitch, GetState.after, lastOf, answerServer, answerId]
      | localServer =>
          refine getSwitch_of_server mem s s' (known_of_ne (by decide) optarg) rfl ?_
          simp [getSwitch, GetState.after, lastOf, answerServer, answerId]

/-- The loop ends with what the answers say if all of them are known and the memory serves,
and in no other case. -/
theorem getLoop_eq_ok_iff (answers : List (Option GetCode × Option (List Byte)))
    (s s' : GetState) :
    getLoop mem answers s = .ok s' ↔
      (∀ a ∈ answers, Known a) ∧
        mem.ServesFrom s.idList.length (answers.filterMap answerId).length ∧
          s' = s.after answers := by
  induction answers generalizing s with
  | nil =>
      rw [getLoop, s.after_nil, Except.ok.injEq, eq_comm]
      exact ⟨fun h => ⟨nofun, nofun, h⟩, fun h => h.2.2⟩
  | cons a answers ih =>
      have hloop : getLoop mem (a :: answers) s = .ok s' ↔
          ∃ s₁, getSwitch mem s a.1 a.2 = .ok s₁ ∧ getLoop mem answers s₁ = .ok s' := by
        rw [getLoop]
        cases getSwitch mem s a.1 a.2 with
        | error stop =>
            refine iff_of_false (error_ne_ok stop s') ?_
            rintro ⟨s₁, heq, -⟩
            exact error_ne_ok stop s₁ heq
        | ok s₁ =>
            refine ⟨fun h => ⟨s₁, rfl, h⟩, ?_⟩
            rintro ⟨_, heq, h⟩
            rwa [Except.ok.inj heq]
      have hlen : (s.after [a]).idList.length =
          s.idList.length + ([a].filterMap answerId).length := List.length_append
      rw [hloop, filterMap_answerId_cons, List.length_append, mem.servesFrom_add,
        List.forall_mem_cons, s.after_cons]
      simp only [getSwitch_eq_ok_iff, ih]
      constructor
      · rintro ⟨_, ⟨hknown, hserves, rfl⟩, hknowns, hrest, heq⟩
        rw [hlen] at hrest
        exact ⟨⟨hknown, hknowns⟩, ⟨hserves, hrest⟩, heq⟩
      · rintro ⟨⟨hknown, hknowns⟩, ⟨hserves, hrest⟩, heq⟩
        rw [← hlen] at hrest
        exact ⟨_, ⟨hknown, hserves, rfl⟩, hknowns, hrest, heq⟩

end Loop

end Cli
