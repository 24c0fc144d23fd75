import Dabba.Cli.Print
import Dabba.Dabbad.CommandLine

/-!
# What the printed lists tell

In every state that commands lead to, the text that a get command prints tells the list that
the daemon has sent: two lists are printed alike only if they are the same. The size of a
frame, which is printed as a factor only, can be told because every record that is listed has
frames, and its numbers are too small for the product to wrap.
-/

namespace Dabbad

open Posix Stdio Program Tpacket Transition Cli CommandLine

def Active.Sized (a : Active) : Prop := ∀ type, ∀ e ∈ a type, e.2.frameNr ≠ 0

section Sized

variable {w w' : World} {names : Names} {a a' : Active} {rpc : Rpc} {rc : ℤ}

theorem startTask_of_invalid {type : PacketThreadType} {ringType : PacketMmapType}
    {s : Settings} {openPcap : Path → Prog Call ℤ} {attach : ℤ → Prog Call (ℤ × Sfp)}
    {sfpDestroy : Sfp → Prog Call Unit} (h : s.areValid = false) :
    startTask type ringType s openPcap attach sfpDestroy = pure (einval : ℤ) := by
  rw [startTask, openTask, if_pos h]
  rfl

theorem areValid_of_frameNr {s : Settings} (h : s.frameNr = 0) : s.areValid = false := by
  unfold Settings.areValid
  split_ifs <;> rfl

theorem frameNr_ne_of_started {type : PacketThreadType} {asked : Asked}
    (hrpc : rpc.starts = some (type, asked))
    (hstep : AnswerStep World.errnoSem (rpc, 0) w w') :
    asked.frameNr ≠ 0 := by
  intro hzero
  have hrefused : rpc.handler = pure (einval : ℤ) := by
    cases rpc with
    | captureStart r =>
        cases hrpc
        exact startTask_of_invalid (areValid_of_frameNr hzero)
    | replayStart r =>
        cases hrpc
        exact startTask_of_invalid (areValid_of_frameNr hzero)
    | _ => cases hrpc
  have hwlp : rpc.handler.wlp World.errnoSem (fun rc _ => rc = einval) w := by
    rw [hrefused]
    exact rfl
  have hrc : (0 : ℤ) = einval := hstep.exec.of_wlp _ hwlp
  exact absurd hrc (by decide)

theorem Active.Sized.set (h : a.Sized) {type : PacketThreadType} {l : List (ℕ × Asked)}
    (hl : ∀ e ∈ l, e.2.frameNr ≠ 0) : (a.set type l).Sized := by
  intro type' e he
  rcases eq_or_ne type' type with rfl | hne
  · rw [Active.set, Function.update_self] at he
    exact hl e he
  · rw [Active.set, Function.update_of_ne hne] at he
    exact h type' e he

theorem Active.Sized.step (h : (w.active names).Sized) (hw : w.Shown names)
    (hstep : AnswerStep World.errnoSem (rpc, rc) w w') : (w'.active names).Sized := by
  rcases answers_of_errnoStep hw hstep with hanswers | ⟨-, -, heq⟩
  swap
  · exact heq ▸ h
  generalize w'.active names = a' at hanswers
  generalize w.active names = a at h hanswers
  cases hanswers with
  | nothing _ => exact h
  | @started _ type asked _ id hstarts hid =>
      refine h.set fun e he => ?_
      rcases List.mem_append.1 he with he | he
      · exact h type e he
      · rw [List.mem_singleton.1 he]
        exact frameNr_ne_of_started hstarts hstep
  | @stopped _ type id _ pre post asked hstops hlist =>
      refine h.set fun e he => h type e ?_
      rw [hlist]
      rcases List.mem_append.1 he with he | he
      · exact List.mem_append_left _ he
      · exact List.mem_append_right _ (List.mem_cons_of_mem _ he)
  | @stoppedAll _ _ type _ stopped rest hall hlist hrc =>
      refine h.set fun e he => h type e ?_
      rw [hlist]
      exact List.mem_append_right _ he

end Sized

/-- Commands lead to the state from a daemon without captures and replays. -/
def Reached (names : Names) (w : World) : Prop :=
  ∃ (w₀ : World) (history : List (CommandLine × Option ℤ)), w₀.queues = .empty ∧
    w₀.threads = [] ∧ names.Inverts w₀.iface ∧ Runs (CommandLine.Step World.errnoSem) history w₀ w

namespace Reached

variable {w : World} {names : Names}

theorem shown_sized (h : Reached names w) : w.Shown names ∧ (w.active names).Sized := by
  obtain ⟨w₀, history, hqueues, hthreads, hnames, hrun⟩ := h
  have hstep : ∀ (e : CommandLine × Option ℤ) s s',
      World.Shown names s ∧ (s.active names).Sized → CommandLine.Step World.errnoSem e s s' →
      World.Shown names s' ∧ (s'.active names).Sized := by
    rintro e s s' ⟨hs, hsized⟩ hstep
    refine ⟨shown_of_step hs hstep, ?_⟩
    rcases hstep.cases with ⟨-, -, rfl⟩ | ⟨rc, -, -, hanswer⟩
    · exact hsized
    · exact hsized.step hs hanswer
  have hsized : (w₀.active names).Sized := by
    rw [active_of_empty hqueues]
    exact fun _ _ he => absurd he List.not_mem_nil
  have hinit : World.Shown names w₀ ∧ (w₀.active names).Sized :=
    ⟨⟨Registered.empty hqueues hthreads, hnames⟩, hsized⟩
  have hend := hrun.inv_of_runs hstep hinit
  exact hend

end Reached

/-- The strings of the kernel have no newline. -/
structure Names.Plain (names : Names) : Prop where
  path : ∀ fd, newline ∉ names.path fd
  devname : ∀ ifindex, newline ∉ names.devname ifindex
  affinity : ∀ id, newline ∉ (names.affinity id).2

section Entries

variable {w : World} {names : Names} {type : PacketThreadType}

def World.entries (names : Names) (w : World) (type : PacketThreadType) : List TaskEntry :=
  (w.queues.task type).nodes.map (names.taskEntry (shownFilter type))

theorem plain_of_mem_entries (h : names.Plain) :
    ∀ e ∈ w.entries names type, PlainTask e := by
  intro e he
  obtain ⟨task, -, rfl⟩ := List.mem_map.1 he
  exact ⟨h.path _, h.devname _⟩

theorem sound_of_mem_entries (h : Reached names w)
    (hids : ∀ type, ∀ task ∈ (w.queues.task type).nodes, task.thread.id < 2 ^ 64) :
    ∀ e ∈ w.entries names type, SoundTask e := by
  intro e he
  obtain ⟨task, htask, rfl⟩ := List.mem_map.1 he
  have hlt : ∀ x : BitVec 32, (x.setWidth 64).toNat < 2 ^ 32 := by
    intro x
    rw [BitVec.toNat_setWidth_of_le (by decide)]
    exact x.isLt
  exact ⟨hids type task htask, h.shown_sized.2 type _ (List.mem_map_of_mem htask), hlt _, hlt _⟩

end Entries

section Tell

variable {E α : Type}

/-- Whatever ids are named, the texts that are printed of the replies in two states are the
same exactly if the lists are alike. -/
def TellsLists (print : Option (List E) → List Byte) (alike : List E → List E → Prop)
    (names names' : Names) (get get' : List ℕ → Prog GetCall (Option (List E))) : Prop :=
  ∀ idList idList', (get idList).wp names.sem (fun reply _ =>
    (get' idList').wp names'.sem (fun reply' _ =>
      (print reply = print reply' ↔ alike (reply.getD []) (reply'.getD []))) ()) ()

theorem getD_reply (l : List α) (f : α → E) :
    (if l = [] then none else some (l.map f)).getD [] = l.map f := by
  split_ifs with h
  · rw [h]
    rfl
  · rfl

theorem tellsLists {print : Option (List E) → List Byte} {alike : List E → List E → Prop}
    {names names' : Names} {get get' : List ℕ → Prog GetCall (Option (List E))}
    {l l' : List α} {f f' : α → E}
    (hget : ∀ idList, (get idList).wp names.sem (fun reply _ =>
      reply = if l = [] then none else some (l.map f)) ())
    (hget' : ∀ idList, (get' idList).wp names'.sem (fun reply _ =>
      reply = if l' = [] then none else some (l'.map f')) ())
    (hprint : ∀ reply reply', reply.getD [] = l.map f → reply'.getD [] = l'.map f' →
      (print reply = print reply' ↔ alike (l.map f) (l'.map f'))) :
    TellsLists print alike names names' get get' := by
  intro idList idList'
  refine Prog.wp_mono _ (hget idList) ?_
  rintro reply _ rfl
  refine Prog.wp_mono _ (hget' idList') ?_
  rintro reply' _ rfl
  rw [getD_reply, getD_reply]
  exact hprint _ _ (getD_reply l f) (getD_reply l' f')

variable {w w' : World} {names names' : Names}

theorem eq_of_map_printedTask {l l' : List TaskEntry} (h : ∀ e ∈ l, SoundTask e)
    (h' : ∀ e ∈ l', SoundTask e) (heq : l.map printedTask = l'.map printedTask) : l = l' := by
  induction l generalizing l' with
  | nil => exact (List.map_eq_nil_iff.1 heq.symm).symm
  | cons e l ih =>
      cases l' with
      | nil => cases heq
      | cons e' l' =>
          obtain ⟨hhead, htail⟩ := List.cons.inj heq
          rw [printedTask_inj (h e List.mem_cons_self) (h' e' List.mem_cons_self) hhead,
            ih (fun x hx => h x (List.mem_cons_of_mem e hx))
              (fun x hx => h' x (List.mem_cons_of_mem e' hx)) htail]

theorem map_printedTask_replay (w : World) (names : Names) :
    (w.entries names .replay).map (fun e => printedTask { e with sfp := [] }) =
      (w.entries names .replay).map printedTask := by
  refine List.map_congr_left fun e he => ?_
  obtain ⟨task, -, rfl⟩ := List.mem_map.1 he
  rfl

/-- In all states that commands lead to, the text that `capture get` or `replay get` prints
tells the list that the daemon has sent, with the ids, the files, the interfaces, the sizes
and the filters, and the text of `thread get` tells it up to policies without a name. -/
theorem printed_tells (errors : ErrorTexts) (h : Reached names w) (h' : Reached names' w')
    (hplain : names.Plain) (hplain' : names'.Plain)
    (hids : ∀ type, ∀ task ∈ (w.queues.task type).nodes, task.thread.id < 2 ^ 64)
    (hids' : ∀ type, ∀ task ∈ (w'.queues.task type).nodes, task.thread.id < 2 ^ 64) :
    TellsLists (captureSettingsPrint errors) (· = ·) names names'
        (dabbadCaptureGet w.queues) (dabbadCaptureGet w'.queues) ∧
      TellsLists (replaySettingsPrint errors) (· = ·) names names'
        (dabbadReplayGet w.queues) (dabbadReplayGet w'.queues) ∧
      TellsLists (threadPrint errors) (fun l l' => l.map printedThread = l'.map printedThread)
        names names' (dabbadThreadGet w.queues) (dabbadThreadGet w'.queues) := by
  have hlisted := h.shown_sized.1.registered.listed names
  have hlisted' := h'.shown_sized.1.registered.listed names'
  refine ⟨tellsLists (fun i => (hlisted i).capture) (fun i => (hlisted' i).capture) ?_,
    tellsLists (fun i => (hlisted i).replay) (fun i => (hlisted' i).replay) ?_,
    tellsLists (fun i => (hlisted i).thread) (fun i => (hlisted' i).thread) ?_⟩
  · intro reply reply' hreply hreply'
    rw [captureSettingsPrint, captureSettingsPrint, hreply, hreply']
    change (captureLayout errors).print (w.entries names .capture) =
      (captureLayout errors).print (w'.entries names' .capture) ↔
        w.entries names .capture = w'.entries names' .capture
    rw [Layout.print_eq_iff captureLayout_seen
      (fun e he => captureLayout_plain (plain_of_mem_entries hplain e he))
      (fun e he => captureLayout_plain (plain_of_mem_entries hplain' e he))]
    exact ⟨eq_of_map_printedTask (sound_of_mem_entries h hids) (sound_of_mem_entries h' hids'),
      fun heq => heq ▸ rfl⟩
  · intro reply reply' hreply hreply'
    rw [replaySettingsPrint, replaySettingsPrint, hreply, hreply']
    change (replayLayout errors).print (w.entries names .replay) =
      (replayLayout errors).print (w'.entries names' .replay) ↔
        w.entries names .replay = w'.entries names' .replay
    rw [Layout.print_eq_iff (fun e e' => taskLines_inj)
      (fun e he => replayLayout_plain (plain_of_mem_entries hplain e he))
      (fun e he => replayLayout_plain (plain_of_mem_entries hplain' e he)),
      map_printedTask_replay, map_printedTask_replay]
    exact ⟨eq_of_map_printedTask (sound_of_mem_entries h hids) (sound_of_mem_entries h' hids'),
      fun heq => heq ▸ rfl⟩
  · intro reply reply' hreply hreply'
    rw [threadPrint, threadPrint, hreply, hreply']
    refine Layout.print_eq_iff threadLayout_seen (fun e he => threadLayout_plain ?_)
      fun e he => threadLayout_plain ?_
    · obtain ⟨node, -, rfl⟩ := List.mem_map.1 he
      exact hplain.affinity node.id
    · obtain ⟨node, -, rfl⟩ := List.mem_map.1 he
      exact hplain'.affinity node.id

end Tell

section Example

theorem bootNames_plain : bootNames.Plain := by
  refine ⟨fun _ => List.not_mem_nil, fun ifindex => ?_, fun _ => List.not_mem_nil⟩
  simp only [bootNames]
  split_ifs <;> decide

def noTexts : ErrorTexts := ⟨fun _ => [], fun _ => List.not_mem_nil⟩

theorem reached_boot : Reached bootNames .boot :=
  ⟨.boot, [], rfl, rfl, bootNames_inverts, .nil _⟩

/-- The list with a capture and the empty list are told apart. -/
theorem printed_tells_anyLine : ∃ w : World,
    w.active bootNames .capture = [(11, ⟨anyInterface, 8, 2048, []⟩)] ∧
    TellsLists (captureSettingsPrint noTexts) (· = ·) bootNames bootNames
        (dabbadCaptureGet w.queues) (dabbadCaptureGet World.boot.queues) ∧
      TellsLists (replaySettingsPrint noTexts) (· = ·) bootNames bootNames
        (dabbadReplayGet w.queues) (dabbadReplayGet World.boot.queues) ∧
      TellsLists (threadPrint noTexts)
        (fun l l' => l.map printedThread = l'.map printedThread) bootNames bootNames
        (dabbadThreadGet w.queues) (dabbadThreadGet World.boot.queues) := by
  obtain ⟨w, hrun, hactive, hcapture, hreplay⟩ : ∃ w : World,
      (dabbadCaptureStart anyRequest).run World.handle goodScript .boot = some (0, w) ∧
        w.active bootNames .capture = [(11, ⟨anyInterface, 8, 2048, []⟩)] ∧
        (w.queues.task .capture).nodes.map (fun task => task.thread.id) = [11] ∧
        (w.queues.task .replay).nodes = [] := ⟨_, rfl, rfl, rfl, rfl⟩
  have hids : ∀ type, ∀ task ∈ (w.queues.task type).nodes, task.thread.id < 2 ^ 64 := by
    intro type task htask
    cases type with
    | capture =>
        have hid : task.thread.id ∈ [11] := by
          rw [← hcapture]
          exact List.mem_map_of_mem htask
        rw [List.mem_singleton.1 hid]
        decide
    | replay =>
        rw [hreplay] at htask
        exact absurd htask List.not_mem_nil
  have hids' : ∀ type, ∀ task ∈ (World.boot.queues.task type).nodes,
      task.thread.id < 2 ^ 64 := by
    intro type task htask
    cases type <;> exact absurd htask List.not_mem_nil
  exact ⟨w, hactive, printed_tells noTexts
    ⟨.boot, _, rfl, rfl, bootNames_inverts, step_anyLine hrun⟩ reached_boot
    bootNames_plain bootNames_plain hids hids'⟩

end Example

end Dabbad
