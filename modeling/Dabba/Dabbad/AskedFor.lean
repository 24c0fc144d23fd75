import Dabba.Dabbad.Run

/-!
# Getting only what was asked for

A request to list captures, replays or threads may name the ids it is about. The handlers
list everything that runs, so the reply is the one that was asked for if and only if no
id was named, or every running thread was.
-/

namespace Dabbad

open Posix Program Transition

def AskedFor (idList : List ℕ) (id : ℕ) : Prop := idList = [] ∨ id ∈ idList

instance (idList : List ℕ) (id : ℕ) : Decidable (AskedFor idList id) :=
  inferInstanceAs (Decidable (_ ∨ _))

section Reply

variable {α E : Type}

/-- Every run of a get handler replies with the entries of the nodes that were asked for,
in the order of the queue. No reply is an empty one. -/
def RepliesWith (names : Names) (get : Prog GetCall (Option (List E))) (nodes : List α)
    (id : α → ℕ) (entry : α → E) (idList : List ℕ) : Prop :=
  get.wp names.sem (fun reply _ => reply.getD [] =
    (nodes.filter fun node => AskedFor idList (id node)).map entry) ()

variable {names : Names} {get : Prog GetCall (Option (List E))} {nodes : List α}
variable {id : α → ℕ} {entry : α → E} {idList : List ℕ}

theorem map_filter_eq_map_iff (entry : α → E) {p : α → Bool} :
    nodes.map entry = (nodes.filter p).map entry ↔ ∀ node ∈ nodes, p node = true := by
  rw [← List.length_filter_eq_length_iff]
  constructor
  · intro h
    have hlength := congrArg List.length h
    rw [List.length_map, List.length_map] at hlength
    exact hlength.symm
  · intro h
    rw [List.filter_eq_self.2 (List.length_filter_eq_length_iff.1 h)]

theorem Names.exists_answer (names : Names) {β : Type} (op : GetCall β) (u : Unit) :
    ∃ r u', names.sem op u r u' := by
  cases op with
  | allocs => exact ⟨fun _ => true, u, fun _ => rfl⟩
  | _ => exact ⟨_, u, rfl⟩

/-- A handler that lists all nodes gives what was asked for if and only if they all were
asked for. -/
theorem repliesWith_iff (hget : get.wp names.sem (fun reply _ =>
      reply = if nodes = [] then none else some (nodes.map entry)) ()) :
    RepliesWith names get nodes id entry idList ↔
      idList = [] ∨ ∀ node ∈ nodes, id node ∈ idList := by
  have hall : (∀ node ∈ nodes, decide (AskedFor idList (id node)) = true) ↔
      idList = [] ∨ ∀ node ∈ nodes, id node ∈ idList := by
    simp only [decide_eq_true_iff]
    by_cases hempty : idList = []
    · exact iff_of_true (fun _ _ => .inl hempty) (.inl hempty)
    · simp only [AskedFor, hempty, false_or]
  rw [← hall, ← map_filter_eq_map_iff entry]
  have hreply : ∀ reply : Option (List E),
      reply = (if nodes = [] then none else some (nodes.map entry)) →
        reply.getD [] = nodes.map entry := by
    rintro _ rfl
    split
    case isTrue h => rw [h]; rfl
    case isFalse => rfl
  constructor
  · intro h
    obtain ⟨reply, -, ⟨hsome, hasked⟩, -⟩ := Prog.exists_of_wp names.sem
      (fun op u _ => (names.exists_answer op u).imp fun _ h => h.imp fun _ h => ⟨h, trivial⟩)
      ((Prog.wp_and names.sem).2 ⟨hget, h⟩) trivial
    exact (hreply reply hsome).symm.trans hasked
  · intro h
    refine Prog.wp_mono _ hget fun reply _ hsome => ?_
    exact (hreply reply hsome).trans h

end Reply

section Get

variable (names : Names) (w : World) (idList : List ℕ)

/-- `dabbadCaptureGet` replies with the captures that were asked for. -/
def CapturesAskedFor : Prop :=
  RepliesWith names (dabbadCaptureGet w.queues idList) (w.queues.task .capture).nodes
    (·.thread.id) (names.taskEntry Names.captureFilter) idList

/-- `dabbadReplayGet` replies with the replays that were asked for. -/
def ReplaysAskedFor : Prop :=
  RepliesWith names (dabbadReplayGet w.queues idList) (w.queues.task .replay).nodes
    (·.thread.id) (names.taskEntry fun _ => []) idList

/-- `dabbadThreadGet` replies with the threads that were asked for. -/
def ThreadsAskedFor : Prop :=
  RepliesWith names (dabbadThreadGet w.queues idList) w.queues.packetThread.nodes
    PacketThread.id names.threadEntry idList

end Get

/-- In every state that a daemon without captures and replays reaches, each get handler
replies with what was asked for if and only if no id was named or every id that runs was. -/
theorem askedFor_iff_of_reaches {w₀ w : World} (hqueues : w₀.queues = .empty)
    (hthreads : w₀.threads = []) (hrun : Reaches RpcStep w₀ w) (names : Names)
    (idList : List ℕ) :
    (CapturesAskedFor names w idList ↔
      idList = [] ∨ ∀ task ∈ (w.queues.task .capture).nodes, task.thread.id ∈ idList) ∧
    (ReplaysAskedFor names w idList ↔
      idList = [] ∨ ∀ task ∈ (w.queues.task .replay).nodes, task.thread.id ∈ idList) ∧
    (ThreadsAskedFor names w idList ↔
      idList = [] ∨ ∀ node ∈ w.queues.packetThread.nodes, node.id ∈ idList) := by
  have hlisted := (registered_of_reaches hqueues hthreads hrun).listed names idList
  exact ⟨repliesWith_iff hlisted.capture, repliesWith_iff hlisted.replay,
    repliesWith_iff hlisted.thread⟩

theorem exists_reaches_one_capture : ∃ w, Reaches RpcStep .boot w ∧
    (w.queues.task .capture).nodes.map (·.thread.id) = [11] ∧
    w.queues.packetThread.nodes.map PacketThread.id = [11] := by
  obtain ⟨x, hrun, hids⟩ : ∃ x : ℤ × World,
      (dabbadCaptureStart anyRequest).run World.handle goodScript .boot = some x ∧
        (x.2.queues.task .capture).nodes.map (·.thread.id) = [11] ∧
        x.2.queues.packetThread.nodes.map PacketThread.id = [11] := ⟨_, rfl, rfl, rfl⟩
  exact ⟨x.2, .single ⟨.captureStart anyRequest, x.1, exec_of_run hrun⟩, hids⟩

theorem forall_id_mem_iff {α : Type} {nodes : List α} {id : α → ℕ} {n : ℕ}
    (h : nodes.map id = [n]) (idList : List ℕ) :
    (∀ node ∈ nodes, id node ∈ idList) ↔ n ∈ idList := by
  rw [← List.forall_mem_map (P := (· ∈ idList)), h, List.forall_mem_singleton]

theorem askedFor_iff_of_reaches_one_capture : ∃ w, Reaches RpcStep .boot w ∧
    (w.queues.task .capture).nodes.map (·.thread.id) = [11] ∧
    ∀ names, CapturesAskedFor names w [11] ∧ ThreadsAskedFor names w [12, 11] := by
  obtain ⟨w, hrun, hcapture, hthread⟩ := exists_reaches_one_capture
  refine ⟨w, hrun, hcapture, fun names => ⟨?_, ?_⟩⟩
  · refine (askedFor_iff_of_reaches rfl rfl hrun names [11]).1.2 (.inr ?_)
    rw [forall_id_mem_iff hcapture]
    decide
  · refine (askedFor_iff_of_reaches rfl rfl hrun names [12, 11]).2.2.2 (.inr ?_)
    rw [forall_id_mem_iff hthread]
    decide

/-- The capture that runs is listed to a client that asks for another one. -/
theorem not_capturesAskedFor_twelve : ∃ w, Reaches RpcStep .boot w ∧
    (w.queues.task .capture).nodes.map (·.thread.id) = [11] ∧
    ∀ names, ¬ CapturesAskedFor names w [12] := by
  obtain ⟨w, hrun, hcapture, -⟩ := exists_reaches_one_capture
  refine ⟨w, hrun, hcapture, fun names h => ?_⟩
  have hlisted := (registered_of_reaches rfl rfl hrun).listed names [12]
  rcases (repliesWith_iff hlisted.capture).1 h with hempty | hall
  · exact List.cons_ne_nil _ _ hempty
  · rw [forall_id_mem_iff hcapture] at hall
    exact absurd hall (by decide)

end Dabbad
