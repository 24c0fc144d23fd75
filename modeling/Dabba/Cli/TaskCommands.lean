import Dabba.Cli.Getopt
import Dabba.Dabbad.Rpc
import Dabba.Last.Fold
import Dabba.SockFilter.Parse

/-!
# Starting and stopping from the command line

The commands that start and stop captures and replays go over their options and fill the
request. The last value given for a setting is the one that is sent, or the default, except
for filters: the instructions of all filter files that are named are sent, one file behind
the other. An option that is refused ends the command, and then nothing is sent.
-/

namespace Cli

open Posix Stdio Last SockFilter Dabbad

/-- What an option of these commands is for. -/
inductive TaskOption
  | interface
  | pcap
  | frameNumber
  | frameSize
  | sockFilter
  | append
  | id
  | tcp
  | localServer
  | help
deriving DecidableEq

/-- What reading a filter file depends on: the content of the file, or the error number of
opening it, and the outcomes of the allocations. -/
structure FilterEnv where
  fopen : Path → Except ℕ (List Byte)
  malloc : ℕ → Bool
  realloc : ℕ → Bool

/-- What the options have said so far. -/
structure TaskState (M : Type) where
  message : M
  serverType : AddressType
  serverId : List Byte

/-- A command that starts or stops something: its option table, the message without any
option, and what the switch does with an option of its own; an error is the code that the
command returns. -/
structure TaskCommand (M : Type) where
  options : List (LongOption TaskOption)
  init : M
  set : FilterEnv → M → TaskOption → List Byte → Except ℤ M

namespace TaskCommand

abbrev Answer := (Option TaskOption × Option (List Byte)) × ℕ

variable {M : Type} (cmd : TaskCommand M)

/-- The switch over the code of an option; minus one goes with the usage message. -/
def switch (env : ℕ → FilterEnv) (s : TaskState M) : Answer → Except ℤ (TaskState M)
  | ((some .tcp, optarg), _) =>
      .ok { s with serverType := .tcp, serverId := optarg.getD defaultTcpServerName }
  | ((some .localServer, optarg), _) =>
      .ok { s with
        serverType := .localSocket, serverId := optarg.getD defaultLocalServerName }
  | ((some opt, optarg), n) =>
      match cmd.set (env n) s.message opt (optarg.getD []) with
      | .error rc => .error rc
      | .ok m => .ok { s with message := m }
  | ((none, _), _) => .error (-1)

/-- The code that the command returns, and the message that it sends, if it sends one. A
filter file that answer `n` names is read in the environment `n`; `connect` tells whether
the server can be reached. -/
def run (env : ℕ → FilterEnv) (connect : AddressType → List Byte → Bool)
    (argv : List (List Byte)) : ℤ × Option M :=
  match (getoptAll cmd.options argv).zipIdx.foldlM (cmd.switch env)
      ⟨cmd.init, .tcp, defaultTcpServerName⟩ with
  | .error rc => (rc, none)
  | .ok s =>
      if connect s.serverType s.serverId = true then (0, some s.message) else (einval, none)

end TaskCommand

section Commands

def defaultCaptureFrameNumber : BitVec 64 := 32

def defaultReplayFrameNumber : BitVec 64 := 32

def packetMmapEthFrameLen : BitVec 64 := 16 <<< 7

/-- The command `dabba capture start`. The instructions of a filter file go behind those
that are there. -/
def cmdCaptureStart : TaskCommand CaptureRequest where
  options :=
    [⟨"interface", .required, .interface⟩,
      ⟨"pcap", .required, .pcap⟩,
      ⟨"frame-number", .required, .frameNumber⟩,
      ⟨"frame-size", .required, .frameSize⟩,
      ⟨"sock-filter", .required, .sockFilter⟩,
      ⟨"append", .no, .append⟩,
      ⟨"tcp", .optional, .tcp⟩,
      ⟨"local", .optional, .localServer⟩,
      ⟨"help", .no, .help⟩]
  init := {
    pcap := none
    interface := none
    frameNr := defaultCaptureFrameNumber
    frameSize := packetMmapEthFrameLen
    append := false
    sfp := none }
  set env capture opt optarg :=
    match opt with
    | .interface => .ok { capture with interface := some optarg }
    | .pcap => .ok { capture with pcap := some optarg }
    | .frameNumber => .ok { capture with frameNr := strtoull optarg }
    | .append => .ok { capture with append := true }
    | .frameSize => .ok { capture with frameSize := strtoull optarg }
    | .sockFilter =>
        let (rc, sfp) := sockFilterParse env.malloc env.realloc (env.fopen optarg)
          (capture.sfp.getD [])
        if rc ≠ 0 then .error rc else .ok { capture with sfp := some sfp }
    | _ => .error (-1)

/-- The command `dabba replay start`. -/
def cmdReplayStart : TaskCommand Settings where
  options :=
    [⟨"interface", .required, .interface⟩,
      ⟨"pcap", .required, .pcap⟩,
      ⟨"frame-number", .required, .frameNumber⟩,
      ⟨"frame-size", .required, .frameSize⟩,
      ⟨"tcp", .optional, .tcp⟩,
      ⟨"local", .optional, .localServer⟩,
      ⟨"help", .no, .help⟩]
  init := {
    pcap := none
    interface := none
    frameNr := defaultReplayFrameNumber
    frameSize := packetMmapEthFrameLen }
  set _ replay opt optarg :=
    match opt with
    | .interface => .ok { replay with interface := some optarg }
    | .pcap => .ok { replay with pcap := some optarg }
    | .frameNumber => .ok { replay with frameNr := strtoull optarg }
    | .frameSize => .ok { replay with frameSize := strtoull optarg }
    | _ => .error (-1)

/-- A command to stop what has an id; without one it is zero. -/
def cmdStop : TaskCommand (BitVec 64) where
  options :=
    [⟨"id", .required, .id⟩,
      ⟨"tcp", .optional, .tcp⟩,
      ⟨"local", .optional, .localServer⟩,
      ⟨"help", .no, .help⟩]
  init := 0
  set _ _ opt optarg :=
    match opt with
    | .id => .ok (strtoull optarg)
    | _ => .error (-1)

def cmdCaptureStop : TaskCommand (BitVec 64) := cmdStop

def cmdReplayStop : TaskCommand (BitVec 64) := cmdStop

def cmdStopAll : TaskCommand Unit where
  options :=
    [⟨"tcp", .optional, .tcp⟩,
      ⟨"local", .optional, .localServer⟩,
      ⟨"help", .no, .help⟩]
  init := ()
  set _ _ _ _ := .error (-1)

def cmdCaptureStopAll : TaskCommand Unit := cmdStopAll

def cmdReplayStopAll : TaskCommand Unit := cmdStopAll

end Commands

namespace TaskCommand

section Meaning

def answers {M : Type} (cmd : TaskCommand M) (argv : List (List Byte)) : List Answer :=
  (getoptAll cmd.options argv).zipIdx

def argOf (opt : TaskOption) (a : Answer) : Option (List Byte) :=
  if a.1.1 = some opt then some (a.1.2.getD []) else none

def server (a : Answer) : Option (AddressType × List Byte) :=
  match a.1 with
  | (some .tcp, addr) => some (.tcp, addr.getD defaultTcpServerName)
  | (some .localServer, path) => some (.localSocket, path.getD defaultLocalServerName)
  | _ => none

def serverOf (answers : List Answer) : AddressType × List Byte :=
  (lastOf server answers).getD (.tcp, defaultTcpServerName)

def settingsOf (frameNr : BitVec 64) (answers : List Answer) : Settings where
  pcap := lastOf (argOf .pcap) answers
  interface := lastOf (argOf .interface) answers
  frameNr := ((lastOf (argOf .frameNumber) answers).map strtoull).getD frameNr
  frameSize := ((lastOf (argOf .frameSize) answers).map strtoull).getD packetMmapEthFrameLen

def insns (env : ℕ → FilterEnv) (a : Answer) : Option (List PbufSockFilter) :=
  (argOf .sockFilter a).map fun path => fileInsns ((env a.2).fopen path)

def sfpOf (env : ℕ → FilterEnv) (answers : List Answer) : Option (List PbufSockFilter) :=
  match answers.filterMap (insns env) with
  | [] => none
  | file :: files => some (file :: files).flatten

def captureOf (env : ℕ → FilterEnv) (answers : List Answer) : CaptureRequest where
  toSettings := settingsOf defaultCaptureFrameNumber answers
  append := (lastOf (argOf .append) answers).isSome
  sfp := sfpOf env answers

def replayOf (answers : List Answer) : Settings :=
  settingsOf defaultReplayFrameNumber answers

def idOf (answers : List Answer) : BitVec 64 :=
  ((lastOf (argOf .id) answers).map strtoull).getD 0

/-- Why an answer is refused, if it is. The usage message is the answer to an option that
is none of the command. -/
def refusal (own : List TaskOption) (a : Answer) : Option ℤ :=
  match a.1.1 with
  | none => some (-1)
  | some opt => if opt ∈ TaskOption.tcp :: .localServer :: own then none else some (-1)

/-- The options that set something of a request, whatever their arguments are. -/
def settingOptions : List TaskOption := [.interface, .pcap, .frameNumber, .frameSize]

/-- Why an answer of `capture start` is refused behind the filter `sfp`, if it is: a filter
file may be, besides. -/
def captureRefusal (env : ℕ → FilterEnv) (sfp : Option (List PbufSockFilter)) (a : Answer) :
    Option ℤ :=
  match argOf .sockFilter a with
  | some path =>
      let rc := (sockFilterParse (env a.2).malloc (env a.2).realloc ((env a.2).fopen path)
        (sfp.getD [])).1
      if rc ≠ 0 then some rc else none
  | none => refusal (.append :: settingOptions) a

def captureNext (env : ℕ → FilterEnv) (sfp : Option (List PbufSockFilter)) (a : Answer) :
    Option (List PbufSockFilter) :=
  match insns env a with
  | some ps => some (sfp.getD [] ++ ps)
  | none => sfp

/-- What a command does: the code of an option that is refused, or else the message goes to
the last server that is named, if that can be reached. -/
def outcome {M : Type} (connect : AddressType → List Byte → Bool) (answers : List Answer)
    (refused : Option ℤ) (message : M) : ℤ × Option M :=
  match refused with
  | some rc => (rc, none)
  | none =>
      if connect (serverOf answers).1 (serverOf answers).2 = true then (0, some message)
      else (einval, none)

end Meaning

section Run

variable {M γ : Type} {cmd : TaskCommand M} {env : ℕ → FilterEnv}

theorem server_of_switch {s s' : TaskState M} {a : Answer} (h : cmd.switch env s a = .ok s') :
    (s'.serverType, s'.serverId) = (server a).getD (s.serverType, s.serverId) := by
  obtain ⟨⟨code, optarg⟩, n⟩ := a
  cases code with
  | none => cases h
  | some opt =>
      cases opt with
      | tcp =>
          obtain rfl := Except.ok.inj h
          rfl
      | localServer =>
          obtain rfl := Except.ok.inj h
          rfl
      | _ =>
          simp only [switch] at h
          split at h
          · cases h
          · obtain rfl := Except.ok.inj h
            rfl

/-- An answer is refused or changes the message, and a part of the message decides which. -/
structure Acts (cmd : TaskCommand M) (env : ℕ → FilterEnv) (part : M → γ)
    (refusal : γ → Answer → Option ℤ) (nextPart : γ → Answer → γ) (next : M → Answer → M) :
    Prop where
  error : ∀ {s a e}, refusal (part s.message) a = some e → cmd.switch env s a = .error e
  ok : ∀ {s a}, refusal (part s.message) a = none →
    ∃ s', cmd.switch env s a = .ok s' ∧ s'.message = next s.message a
  part_next : ∀ m a, part (next m a) = nextPart (part m) a

namespace Acts

variable {part : M → γ} {refusal : γ → Answer → Option ℤ} {nextPart : γ → Answer → γ}
variable {next : M → Answer → M} {s s' : TaskState M} {a : Answer}

theorem message_eq (h : Acts cmd env part refusal nextPart next)
    (hs : cmd.switch env s a = .ok s') : s'.message = next s.message a := by
  cases hrefused : refusal (part s.message) a with
  | some e =>
      rw [h.error hrefused] at hs
      cases hs
  | none =>
      obtain ⟨s₁, hs₁, hmessage⟩ := h.ok hrefused
      rw [hs₁] at hs
      obtain rfl := Except.ok.inj hs
      exact hmessage

theorem decides (h : Acts cmd env part refusal nextPart next) :
    Decides (cmd.switch env) (fun s => part s.message) refusal nextPart where
  error := h.error
  ok hrefused := (h.ok hrefused).imp fun _ hs => hs.1
  next _ _ _ hs := by rw [h.message_eq hs, h.part_next]

theorem run_eq (h : Acts cmd env part refusal nextPart next)
    (connect : AddressType → List Byte → Bool) (argv : List (List Byte)) :
    cmd.run env connect argv = outcome connect (answers cmd argv)
      (firstRefusal refusal nextPart (part cmd.init) (answers cmd argv))
      ((answers cmd argv).foldl next cmd.init) := by
  rw [run, ← answers]
  cases hrefused : firstRefusal refusal nextPart (part cmd.init) (answers cmd argv) with
  | some rc => rw [h.decides.foldlM_error hrefused, outcome]
  | none =>
      obtain ⟨s, hs⟩ := h.decides.foldlM_ok
        (s := ⟨cmd.init, .tcp, defaultTcpServerName⟩) hrefused
      have hstep : ∀ (s : TaskState M) a s', cmd.switch env s a = .ok s' →
          (s'.serverType, s'.serverId) = (server a).getD (s.serverType, s.serverId) :=
        fun _ _ _ => server_of_switch
      have hserver : (s.serverType, s.serverId) = serverOf (answers cmd argv) :=
        lastOf_of_foldlM_ok hstep hs
      have hmessage : s.message = (answers cmd argv).foldl next cmd.init :=
        of_foldlM_ok (fun _ _ _ => h.message_eq) hs
      rw [hs, outcome, ← hserver, ← hmessage]

end Acts

end Run

section Settings

def settingsNext (settings : Settings) (a : Answer) : Settings where
  pcap := ((argOf .pcap a).map some).getD settings.pcap
  interface := ((argOf .interface a).map some).getD settings.interface
  frameNr := ((argOf .frameNumber a).map strtoull).getD settings.frameNr
  frameSize := ((argOf .frameSize a).map strtoull).getD settings.frameSize

theorem foldl_settingsNext (settings : Settings) (answers : List Answer) :
    answers.foldl settingsNext settings = {
      pcap := ((lastOf (argOf .pcap) answers).map some).getD settings.pcap
      interface := ((lastOf (argOf .interface) answers).map some).getD settings.interface
      frameNr := ((lastOf (argOf .frameNumber) answers).map strtoull).getD settings.frameNr
      frameSize :=
        ((lastOf (argOf .frameSize) answers).map strtoull).getD settings.frameSize } := by
  simp only [← lastOf_map, ← foldl_getD]
  induction answers generalizing settings with
  | nil => rfl
  | cons a answers ih => rw [List.foldl_cons, ih]; rfl

theorem foldl_settingsNext_init (frameNr : BitVec 64) (answers : List Answer) :
    answers.foldl settingsNext ⟨none, none, frameNr, packetMmapEthFrameLen⟩ =
      settingsOf frameNr answers := by
  rw [foldl_settingsNext, settingsOf]
  cases lastOf (argOf .pcap) answers <;> cases lastOf (argOf .interface) answers <;> rfl

theorem foldl_captureNext (env : ℕ → FilterEnv) (sfp : Option (List PbufSockFilter))
    (answers : List Answer) :
    answers.foldl (captureNext env) sfp =
      match answers.filterMap (insns env) with
      | [] => sfp
      | file :: files => some (sfp.getD [] ++ (file :: files).flatten) := by
  induction answers generalizing sfp with
  | nil => rfl
  | cons a answers ih =>
      rw [List.foldl_cons, ih, captureNext]
      cases hinsns : insns env a with
      | none => rw [List.filterMap_cons_none hinsns]
      | some ps =>
          rw [List.filterMap_cons_some hinsns]
          cases answers.filterMap (insns env) with
          | nil => simp
          | cons file files => simp

theorem foldl_captureNext_none (env : ℕ → FilterEnv) (answers : List Answer) :
    answers.foldl (captureNext env) none = sfpOf env answers := by
  rw [foldl_captureNext, sfpOf]
  cases answers.filterMap (insns env) <;> rfl

end Settings

section Exact

variable (env : ℕ → FilterEnv) (connect : AddressType → List Byte → Bool)
variable (argv : List (List Byte))

theorem set_sockFilter (env : FilterEnv) (capture : CaptureRequest) (path : List Byte) :
    cmdCaptureStart.set env capture .sockFilter path =
      let rc := (sockFilterParse env.malloc env.realloc (env.fopen path)
        (capture.sfp.getD [])).1
      if rc ≠ 0 then .error rc
      else .ok { capture with
        sfp := some (capture.sfp.getD [] ++ fileInsns (env.fopen path)) } := by
  simp only [cmdCaptureStart]
  split_ifs with hrc
  · rfl
  · rw [sockFilterParse_ok (not_not.1 hrc)]

def captureStartNext (capture : CaptureRequest) (a : Answer) : CaptureRequest where
  toSettings := settingsNext capture.toSettings a
  append := ((argOf .append a).map fun _ => true).getD capture.append
  sfp := captureNext env capture.sfp a

theorem acts_captureStart : Acts cmdCaptureStart env (·.sfp) (captureRefusal env)
    (captureNext env) (captureStartNext env) := by
  have hswitch : ∀ s a,
      (∀ e, captureRefusal env s.message.sfp a = some e →
        cmdCaptureStart.switch env s a = .error e) ∧
      (captureRefusal env s.message.sfp a = none →
        ∃ s', cmdCaptureStart.switch env s a = .ok s' ∧
          s'.message = captureStartNext env s.message a) := by
    rintro s ⟨⟨code, optarg⟩, n⟩
    cases code with
    | none => exact ⟨fun e h => congrArg Except.error (Option.some.inj h), nofun⟩
    | some opt =>
        cases opt with
        | sockFilter =>
            have hrefusal : captureRefusal env s.message.sfp
                ((some .sockFilter, optarg), n) =
                  let rc := (sockFilterParse (env n).malloc (env n).realloc
                    ((env n).fopen (optarg.getD [])) (s.message.sfp.getD [])).1
                  if rc ≠ 0 then some (rc : ℤ) else none := rfl
            rw [hrefusal, switch, set_sockFilter]
            · generalize (sockFilterParse (env n).malloc (env n).realloc
                ((env n).fopen (optarg.getD [])) (s.message.sfp.getD [])).1 = rc
              dsimp only
              by_cases hrc : rc ≠ 0
              · rw [if_pos hrc, if_pos hrc]
                exact ⟨fun e h => congrArg Except.error (Option.some.inj h), nofun⟩
              · rw [if_neg hrc, if_neg hrc]
                exact ⟨nofun, fun _ => ⟨_, rfl, rfl⟩⟩
            · exact TaskOption.noConfusion
            · exact TaskOption.noConfusion
        | id => exact ⟨fun e h => congrArg Except.error (Option.some.inj h), nofun⟩
        | help => exact ⟨fun e h => congrArg Except.error (Option.some.inj h), nofun⟩
        | _ => exact ⟨nofun, fun _ => ⟨_, rfl, rfl⟩⟩
  exact ⟨(hswitch _ _).1 _, (hswitch _ _).2, fun _ _ => rfl⟩

theorem acts_of_refusal {M : Type} {cmd : TaskCommand M} {own : List TaskOption}
    {next : M → Answer → M}
    (h : ∀ s a, match refusal own a with
      | some e => cmd.switch env s a = .error e
      | none => ∃ s', cmd.switch env s a = .ok s' ∧ s'.message = next s.message a) :
    Acts cmd env (fun _ => ()) (fun _ => refusal own) (fun _ _ => ()) next where
  error {s a e} hrefused := by
    have ha := h s a
    rwa [hrefused] at ha
  ok {s a} hrefused := by
    have ha := h s a
    rwa [hrefused] at ha
  part_next _ _ := rfl

theorem acts_replayStart : Acts cmdReplayStart env (fun _ => ())
    (fun _ => refusal settingOptions) (fun _ _ => ()) settingsNext := by
  refine acts_of_refusal env ?_
  rintro s ⟨⟨code, optarg⟩, n⟩
  cases code with
  | none => rfl
  | some opt => cases opt <;> first | rfl | exact ⟨_, rfl, rfl⟩

theorem acts_stop : Acts cmdStop env (fun _ => ()) (fun _ => refusal [.id]) (fun _ _ => ())
    fun id a => ((argOf .id a).map strtoull).getD id := by
  refine acts_of_refusal env ?_
  rintro s ⟨⟨code, optarg⟩, n⟩
  cases code with
  | none => rfl
  | some opt => cases opt <;> first | rfl | exact ⟨_, rfl, rfl⟩

theorem acts_stopAll : Acts cmdStopAll env (fun _ => ()) (fun _ => refusal [])
    (fun _ _ => ()) fun _ _ => () := by
  refine acts_of_refusal env ?_
  rintro s ⟨⟨code, optarg⟩, n⟩
  cases code with
  | none => rfl
  | some opt => cases opt <;> first | rfl | exact ⟨_, rfl, rfl⟩

theorem foldl_captureStartNext (capture : CaptureRequest) (answers : List Answer) :
    answers.foldl (captureStartNext env) capture = {
      toSettings := answers.foldl settingsNext capture.toSettings
      append := ((lastOf (argOf .append) answers).map fun _ => true).getD capture.append
      sfp := answers.foldl (captureNext env) capture.sfp } := by
  rw [← lastOf_map, ← foldl_getD]
  induction answers generalizing capture with
  | nil => rfl
  | cons a answers ih => rw [List.foldl_cons, ih]; rfl

/-- `capture start` refuses its first option that is not right, and otherwise asks for a
capture with the last value of each setting and with the filters of all files. -/
theorem run_cmdCaptureStart : cmdCaptureStart.run env connect argv =
    outcome connect (answers cmdCaptureStart argv)
      (firstRefusal (captureRefusal env) (captureNext env) none (answers cmdCaptureStart argv))
      (captureOf env (answers cmdCaptureStart argv)) := by
  rw [(acts_captureStart env).run_eq connect argv, foldl_captureStartNext, captureOf,
    ← foldl_settingsNext_init, ← foldl_captureNext_none]
  cases lastOf (argOf .append) (answers cmdCaptureStart argv) <;> rfl

/-- `replay start` refuses its first option that is not right, and otherwise asks for a
replay with the last value of each setting. -/
theorem run_cmdReplayStart : cmdReplayStart.run env connect argv =
    outcome connect (answers cmdReplayStart argv)
      ((answers cmdReplayStart argv).findSome? (refusal settingOptions))
      (replayOf (answers cmdReplayStart argv)) := by
  rw [(acts_replayStart env).run_eq connect argv, firstRefusal_unit, replayOf,
    ← foldl_settingsNext_init]
  rfl

theorem run_cmdStop : cmdStop.run env connect argv =
    outcome connect (answers cmdStop argv) ((answers cmdStop argv).findSome? (refusal [.id]))
      (idOf (answers cmdStop argv)) := by
  rw [(acts_stop env).run_eq connect argv, firstRefusal_unit, foldl_getD, lastOf_map]
  rfl

theorem run_cmdStopAll : cmdStopAll.run env connect argv =
    outcome connect (answers cmdStopAll argv)
      ((answers cmdStopAll argv).findSome? (refusal [])) () := by
  rw [(acts_stopAll env).run_eq connect argv, firstRefusal_unit]

end Exact

end TaskCommand

end Cli
