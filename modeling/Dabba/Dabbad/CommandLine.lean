import Dabba.Cli.TaskCommands
import Dabba.Dabbad.Reported

/-!
# From the command line to the lists of captures and replays

A command that starts or stops captures or replays sends a request, if none of its options
is refused and it reaches a server, and the daemon answers it. What is listed after any
commands follows from their words and from the answers alone.
-/

namespace Dabbad

open Posix Stdio Program Transition Cli TaskCommand

inductive TaskWords
  | captureStart (argv : List (List Byte))
  | captureStop (argv : List (List Byte))
  | captureStopAll (argv : List (List Byte))
  | replayStart (argv : List (List Byte))
  | replayStop (argv : List (List Byte))
  | replayStopAll (argv : List (List Byte))

/-- A command on the side of the client: its words, the filter files that it reads, and the
servers that it reaches. -/
structure CommandLine where
  words : TaskWords
  env : ℕ → FilterEnv
  connect : AddressType → List Byte → Bool

namespace CommandLine

/-- The code that the command returns, and the request that it sends, if it sends one. -/
def run (c : CommandLine) : ℤ × Option Rpc :=
  match c.words with
  | .captureStart argv => (cmdCaptureStart.run c.env c.connect argv).map id (·.map .captureStart)
  | .captureStop argv =>
      (cmdCaptureStop.run c.env c.connect argv).map id (·.map fun i => .captureStop i.toNat)
  | .captureStopAll argv =>
      (cmdCaptureStopAll.run c.env c.connect argv).map id (·.map fun _ => .captureStopAll)
  | .replayStart argv => (cmdReplayStart.run c.env c.connect argv).map id (·.map .replayStart)
  | .replayStop argv =>
      (cmdReplayStop.run c.env c.connect argv).map id (·.map fun i => .replayStop i.toNat)
  | .replayStopAll argv =>
      (cmdReplayStopAll.run c.env c.connect argv).map id (·.map fun _ => .replayStopAll)

def answered (c : CommandLine) : List Answer :=
  match c.words with
  | .captureStart argv => answers cmdCaptureStart argv
  | .captureStop argv => answers cmdCaptureStop argv
  | .captureStopAll argv => answers cmdCaptureStopAll argv
  | .replayStart argv => answers cmdReplayStart argv
  | .replayStop argv => answers cmdReplayStop argv
  | .replayStopAll argv => answers cmdReplayStopAll argv

def refused (c : CommandLine) : Option ℤ :=
  match c.words with
  | .captureStart _ => Last.firstRefusal (captureRefusal c.env) (captureNext c.env) none c.answered
  | .captureStop _ => c.answered.findSome? (refusal [.id])
  | .captureStopAll _ => c.answered.findSome? (refusal [])
  | .replayStart _ => c.answered.findSome? (refusal settingOptions)
  | .replayStop _ => c.answered.findSome? (refusal [.id])
  | .replayStopAll _ => c.answered.findSome? (refusal [])

def asks (c : CommandLine) : Rpc :=
  match c.words with
  | .captureStart _ => .captureStart (captureOf c.env c.answered)
  | .captureStop _ => .captureStop (idOf c.answered).toNat
  | .captureStopAll _ => .captureStopAll
  | .replayStart _ => .replayStart (replayOf c.answered)
  | .replayStop _ => .replayStop (idOf c.answered).toNat
  | .replayStopAll _ => .replayStopAll

def Sends (c : CommandLine) : Prop :=
  c.refused = none ∧ c.connect (serverOf c.answered).1 (serverOf c.answered).2 = true

theorem run_eq (c : CommandLine) : c.run = outcome c.connect c.answered c.refused c.asks := by
  obtain ⟨words, env, connect⟩ := c
  have hmap : ∀ {M : Type} (f : M → Rpc) answers refused message,
      (outcome connect answers refused message).map id (·.map f) =
        outcome connect answers refused (f message) := by
    intro M f answers refused message
    cases refused with
    | some rc => rfl
    | none =>
        simp only [outcome]
        split_ifs <;> rfl
  cases words with
  | captureStart argv => exact (congrArg _ (run_cmdCaptureStart _ _ argv)).trans (hmap _ _ _ _)
  | captureStop argv => exact (congrArg _ (run_cmdStop _ _ argv)).trans (hmap _ _ _ _)
  | captureStopAll argv => exact (congrArg _ (run_cmdStopAll _ _ argv)).trans (hmap _ _ _ _)
  | replayStart argv => exact (congrArg _ (run_cmdReplayStart _ _ argv)).trans (hmap _ _ _ _)
  | replayStop argv => exact (congrArg _ (run_cmdStop _ _ argv)).trans (hmap _ _ _ _)
  | replayStopAll argv => exact (congrArg _ (run_cmdStopAll _ _ argv)).trans (hmap _ _ _ _)

/-- A command and what the daemon answers, if it is asked. -/
def Step (S : Sem Call World) (e : CommandLine × Option ℤ) (w w' : World) : Prop :=
  match e.1.run.2, e.2 with
  | none, none => w' = w
  | some rpc, some rc => AnswerStep S (rpc, rc) w w'
  | _, _ => False

section Run

variable {w w' : World} {names : Names} {e : CommandLine × Option ℤ} {a a' : Active}
variable {S : Sem Call World}

/-- A command sends what its words ask for, if it sends something. -/
theorem request_eq (c : CommandLine) :
    (c.Sends ∧ c.run.2 = some c.asks) ∨ (¬ c.Sends ∧ c.run.2 = none) := by
  rw [run_eq, Sends]
  cases c.refused with
  | some rc => exact .inr ⟨fun h => Option.some_ne_none rc h.1, rfl⟩
  | none =>
      rw [outcome]
      split_ifs with hconnect
      · exact .inl ⟨⟨rfl, hconnect⟩, rfl⟩
      · exact .inr ⟨fun h => hconnect h.2, rfl⟩

theorem Step.cases (h : Step S e w w') :
    (¬ e.1.Sends ∧ e.2 = none ∧ w' = w) ∨
      ∃ rc, e.1.Sends ∧ e.2 = some rc ∧ AnswerStep S (e.1.asks, rc) w w' := by
  obtain ⟨c, reply⟩ := e
  simp only [Step] at h
  rcases c.request_eq with ⟨hsends, hrun⟩ | ⟨hsends, hrun⟩
  · rw [hrun] at h
    cases reply with
    | none => exact h.elim
    | some rc => exact .inr ⟨rc, hsends, rfl, h⟩
  · rw [hrun] at h
    cases reply with
    | none => exact .inl ⟨hsends, rfl, h⟩
    | some rc => exact h.elim

theorem Step.errno (h : Step World.tellingSem e w w') : Step World.errnoSem e w w' := by
  obtain ⟨c, reply⟩ := e
  simp only [Step] at h ⊢
  generalize c.run.2 = request at h ⊢
  cases request <;> cases reply
  · exact h
  · exact h
  · exact h
  · exact AnswerStep.mono errnoSem_of_tellingSem h

theorem shown_of_step (h : w.Shown names) (hstep : Step World.errnoSem e w w') :
    w'.Shown names := by
  rcases hstep.cases with ⟨-, -, rfl⟩ | ⟨rc, -, -, hanswer⟩
  · exact h
  · exact h.step hanswer

theorem distinct_of_step (h : w.Shown names) (hdistinct : (w.active names).Distinct)
    (hstep : Step World.errnoSem e w w') : (w'.active names).Distinct := by
  rcases hstep.cases with ⟨-, -, rfl⟩ | ⟨rc, -, -, hanswer⟩
  · exact hdistinct
  · exact hdistinct.errnoStep h hanswer

theorem shown_of_commandLines {w₀ : World} {history : List (CommandLine × Option ℤ)}
    (hqueues : w₀.queues = .empty) (hthreads : w₀.threads = [])
    (hnames : names.Inverts w₀.iface) (hrun : Runs (Step World.errnoSem) history w₀ w) :
    w.Shown names ∧ (w.active names).Distinct := by
  have hstep : ∀ (e : CommandLine × Option ℤ) s s',
      World.Shown names s ∧ (s.active names).Distinct → Step World.errnoSem e s s' →
      World.Shown names s' ∧ (s'.active names).Distinct :=
    fun _ _ _ ⟨hs, hdistinct⟩ h => ⟨shown_of_step hs h, distinct_of_step hs hdistinct h⟩
  have hinit : World.Shown names w₀ ∧ (w₀.active names).Distinct :=
    ⟨⟨Registered.empty hqueues hthreads, hnames⟩, active_of_empty hqueues ▸ .none⟩
  have hend := hrun.inv_of_runs hstep hinit
  exact hend

end Run

section Example

def anyWords : List (List Byte) :=
  ["--interface", "any", "--pcap", "a", "--frame-number", "8"].map text

def anyLine : CommandLine where
  words := .captureStart anyWords
  env := fun _ => ⟨fun _ => .ok [], fun _ => true, fun _ => true⟩
  connect := fun _ _ => true

theorem step_anyLine {w : World}
    (hrun : (dabbadCaptureStart anyRequest).run World.handle goodScript .boot = some (0, w)) :
    Runs (Step World.errnoSem) [(anyLine, some 0)] .boot w := by
  have hline : anyLine.run.2 = some (.captureStart anyRequest) := rfl
  refine .single ?_
  simp only [Step, hline]
  refine Prog.exec_of_run (fun n _ _ _ => ?_) hrun
  unfold goodScript laterScript
  split_ifs <;> exact Outcome.noConfusion

end Example

section Typed

/-- A command to stop what has the id, typed as it is printed. -/
def stopLine (type : PacketThreadType) (id : ℕ)
    (connect : AddressType → List Byte → Bool) : CommandLine where
  words :=
    match type with
    | .capture => .captureStop [text "--id", numeral 10 id]
    | .replay => .replayStop [text "--id", numeral 10 id]
  env := fun _ => ⟨fun _ => .ok [], fun _ => true, fun _ => true⟩
  connect := connect

theorem answered_stopLine (type : PacketThreadType) (id : ℕ)
    (connect : AddressType → List Byte → Bool) :
    (stopLine type id connect).answered = [((some .id, some (numeral 10 id)), 0)] := by
  have hread : reading cmdStop.options (text "--id") =
      .option ⟨"id", .required, .id⟩ none := rfl
  have hanswers : answers cmdStop [text "--id", numeral 10 id] =
      [((some .id, some (numeral 10 id)), 0)] := by
    rw [answers, getoptAll, hread]
    rfl
  cases type <;> exact hanswers

variable {w w' : World} {names : Names} {type : PacketThreadType} {id : ℕ} {rc : ℤ}
variable {connect : AddressType → List Byte → Bool} {a a' : Active}

theorem stops_stopLine (hid : id < 2 ^ 64) :
    (stopLine type id connect).asks.stops = some (type, id) := by
  have hasked : (idOf (stopLine type id connect).answered).toNat = id := by
    rw [answered_stopLine]
    change (strtoull (numeral 10 id)).toNat = id
    rw [strtoull_numeral hid, BitVec.toNat_ofNat, Nat.mod_eq_of_lt hid]
  cases type <;> exact congrArg (fun i => some (_, i)) hasked

theorem sends_stopLine (hconnect : connect .tcp defaultTcpServerName = true) :
    (stopLine type id connect).Sends := by
  have hserver : serverOf (stopLine type id connect).answered = (.tcp, defaultTcpServerName) := by
    rw [answered_stopLine]
    rfl
  have hrefused : (stopLine type id connect).answered.findSome? (refusal [.id]) = none := by
    rw [answered_stopLine]
    rfl
  refine ⟨?_, ?_⟩
  · cases type <;> exact hrefused
  · rw [hserver]
    exact hconnect

theorem not_starts_of_stops {rpc : Rpc} (hrpc : rpc.stops = some (type, id)) :
    ¬ rpc.starts.isSome := by
  cases rpc <;> cases hrpc <;> exact Bool.false_ne_true

theorem unknown_of_step {rpc : Rpc} (hrpc : rpc.stops = some (type, id))
    (h : w.Shown names) (hstep : AnswerStep World.errnoSem (rpc, rc) w w')
    (hnot : ¬ w.Running type id) : rc = einval := by
  have hspec := (rpc.spec_of_exec h.registered (hstep.mono anySem_of_errnoSem).exec).2
  cases rpc with
  | captureStop i =>
      cases hrpc
      exact hspec.unknown hnot
  | replayStop i =>
      cases hrpc
      exact hspec.unknown hnot
  | _ => cases hrpc

theorem mem_active_iff : id ∈ (w.active names type).map Prod.fst ↔ w.Running type id := by
  simp only [World.active, List.map_map, List.mem_map, World.Running]
  rfl

/-- In every state that commands lead to, the command to stop an id, typed as the lists print
it, sends its request, if it reaches the server. If the answer is zero, the id was listed,
and its entry is gone, and every other one is left. Otherwise everything is as it was; and
an id that is not listed is refused. -/
theorem stopLine_exact {w₀ : World} {history : List (CommandLine × Option ℤ)}
    (hqueues : w₀.queues = .empty) (hthreads : w₀.threads = [])
    (hnames : names.Inverts w₀.iface) (hrun : Runs (Step World.errnoSem) history w₀ w)
    (hid : id < 2 ^ 64) (hconnect : connect .tcp defaultTcpServerName = true)
    {reply : Option ℤ}
    (hstep : Step World.errnoSem (stopLine type id connect, reply) w w') :
    ∃ rc, reply = some rc ∧
      (rc ≠ 0 → w'.active names = w.active names) ∧
      (rc = 0 → id ∈ (w.active names type).map Prod.fst ∧ w'.active names =
        (w.active names).set type ((w.active names type).filter fun e => e.1 ≠ id)) ∧
      (id ∉ (w.active names type).map Prod.fst → rc = einval) := by
  obtain ⟨hshown, hdistinct⟩ := shown_of_commandLines hqueues hthreads hnames hrun
  rcases hstep.cases with ⟨hsends, -, -⟩ | ⟨rc, -, hreply, hanswer⟩
  · exact absurd (sends_stopLine hconnect) hsends
  have hstops : (stopLine type id connect).asks.stops = some (type, id) := stops_stopLine hid
  have hanswers := (answers_of_errnoStep hshown hanswer).resolve_right fun hunstarted =>
    not_starts_of_stops hstops hunstarted.1
  refine ⟨rc, hreply, ?_, ?_, fun hnot => ?_⟩
  · rcases hdistinct.stopped hstops hanswers with ⟨-, hsame⟩ | ⟨hrc, -, -⟩
    · exact fun _ => hsame
    · exact fun hne => absurd hrc hne
  · rcases hdistinct.stopped hstops hanswers with ⟨hrc, -⟩ | ⟨-, hgone⟩
    · exact fun hzero => absurd hzero hrc
    · exact fun _ => hgone
  · exact unknown_of_step hstops hshown hanswer (mt mem_active_iff.2 hnot)

/-- The capture that was started is stopped by its id. -/
theorem stopLine_exact_anyLine : ∃ w w' : World,
    w.active bootNames .capture = [(11, ⟨anyInterface, 8, 2048, []⟩)] ∧
    ∃ rc : ℤ, some (0 : ℤ) = some rc ∧
      (rc ≠ 0 → w'.active bootNames = w.active bootNames) ∧
      (rc = 0 → 11 ∈ (w.active bootNames .capture).map Prod.fst ∧ w'.active bootNames =
        (w.active bootNames).set .capture
          ((w.active bootNames .capture).filter fun e => e.1 ≠ 11)) ∧
      (11 ∉ (w.active bootNames .capture).map Prod.fst → rc = einval) := by
  obtain ⟨w, w', hrun, hactive, hstop⟩ : ∃ w w' : World,
      (dabbadCaptureStart anyRequest).run World.handle goodScript .boot = some (0, w) ∧
        w.active bootNames .capture = [(11, ⟨anyInterface, 8, 2048, []⟩)] ∧
        (dabbadCaptureStop 11).run World.handle (fun _ => .ok 0) w = some (0, w') :=
    ⟨_, _, rfl, rfl, rfl⟩
  have hline : (stopLine .capture 11 fun _ _ => true).run.2 = some (.captureStop 11) := rfl
  have hstep : Step World.errnoSem (stopLine .capture 11 fun _ _ => true, some 0) w w' := by
    simp only [Step, hline]
    exact Prog.exec_of_run (fun _ _ _ _ => Outcome.noConfusion) hstop
  exact ⟨w, w', hactive, stopLine_exact rfl rfl bootNames_inverts (step_anyLine hrun)
    (by decide) rfl hstep⟩

end Typed

end CommandLine

end Dabbad
