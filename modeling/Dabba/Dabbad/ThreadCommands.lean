import Dabba.Cli.ThreadModify
import Dabba.Dabbad.ThreadReply
import Dabba.Transition.Labeled

/-!
# From the command line to the scheduling of threads

A command to modify a thread fetches what is in force for the thread and applies all of it
again, with the settings of its words in place of what was fetched. Over any commands, each
with any outcome of the calls that apply something, every setting of every thread is in the
end what the last command that reached the thread, gave the setting and could apply it has
given.
-/

namespace Dabbad

open Posix Program Transition Cli Last

/-- A command to modify a thread: its words, the outcomes of its allocations, and the servers
that it reaches, and on the side of the daemon the threads that run, the fuel for the list
of CPUs, and what the calls on threads return. -/
structure ThreadCommand where
  argv : List (List Byte)
  malloc : ℕ → Bool
  connect : AddressType → List Byte → Bool
  queue : Tailq.Queue PacketThread
  fuel : ℕ
  calls : Answers

namespace ThreadCommand

/-- The request that the command sends, if it sends one. The id is required in the message:
without it there is no request. The list of CPUs arrives with its end. -/
def request (c : ThreadCommand) : Option ThreadRequest :=
  (cmdThreadModify.run c.malloc c.connect c.argv).2.bind fun s => s.id.map fun id => {
    id := strtoull id
    cpuSet := s.message.cpuSet.map (· ++ [0])
    schedPolicy := s.message.schedPolicy
    schedPriority := s.message.schedPriority }

/-- A command and what the daemon answers, if it is asked. -/
def Step (e : ThreadCommand × Option (BitVec 32)) (threads threads' : ℕ → ThreadSettings) :
    Prop :=
  match e.1.request, e.2 with
  | none, none => threads' = threads
  | some r, some rc => modify e.1.fuel e.1.queue r e.1.calls threads = some (some rc, threads')
  | _, _ => False

section Words

variable (c : ThreadCommand)

def answers : List (ModifyCommand.Answer ThreadParam) := getoptAll cmdThreadModify.options c.argv

def given (p : ThreadParam) : Option ThreadValue := lastOf (cmdThreadModify.given p) c.answers

def target : Option (BitVec 64) := (lastOf ModifyCommand.names c.answers).map strtoull

def server : AddressType × List Byte :=
  (lastOf ModifyCommand.server c.answers).getD (.tcp, defaultTcpServerName)

def Sends : Prop :=
  cmdThreadModify.firstRefusal c.malloc 0 c.answers = none ∧
    c.connect c.server.1 c.server.2 = true

instance : Decidable c.Sends := inferInstanceAs (Decidable (_ ∧ _))

def asks : Option ThreadRequest :=
  c.target.map fun id => {
    id := id
    cpuSet := (c.given .cpuAffinity).map fun v => v.toList ++ [0]
    schedPolicy := (c.given .schedPolicy).map ThreadValue.toWord
    schedPriority := (c.given .schedPriority).map ThreadValue.toWord }

/-- The command is about the thread, is sent, and finds it running. -/
def Reaches (id : ℕ) : Prop :=
  c.Sends ∧ c.target.map BitVec.toNat = some id ∧ ∃ node ∈ c.queue.nodes, node.id = id

instance (id : ℕ) : Decidable (c.Reaches id) := inferInstanceAs (Decidable (_ ∧ _))

def policySaid (id : ℕ) : Option (BitVec 32) :=
  if c.Reaches id ∧ c.calls.setschedparam = 0 then
    (c.given .schedPolicy).map ThreadValue.toWord
  else none

/-- The priority that the command puts into force for a thread, if it does. A number goes
through 16 bits. -/
def prioritySaid (id : ℕ) : Option (BitVec 32) :=
  if c.Reaches id ∧ c.calls.setschedparam = 0 then
    (c.given .schedPriority).map fun v => throughInt16 v.toWord
  else none

/-- The CPUs that the command puts into force for a thread, if it does: what was read of the
list, also if the list has an error. -/
def affinitySaid (id : ℕ) : Option (CpuSet cpuSetsize) :=
  if c.Reaches id ∧ c.calls.setschedparam = 0 ∧ c.calls.setaffinityNp = 0 then
    (c.given .cpuAffinity).bind fun v =>
      (str2cpuAffinity cpuSetsize c.fuel (v.toList ++ [0])).map Prod.snd
  else none

def said (id : ℕ) (s : ThreadSettings) : ThreadSettings where
  policy := (c.policySaid id).getD s.policy
  priority := (c.prioritySaid id).getD s.priority
  affinity := (c.affinitySaid id).getD s.affinity

/-- The calls that fetch what is in force succeed. -/
def Fetches : Prop := c.calls.getschedparam = 0 ∧ c.calls.getaffinityNp = 0

end Words

end ThreadCommand

/-- What is in force for a thread passes through 16 bits unchanged. -/
structure ThreadSettings.Fits (s : ThreadSettings) : Prop where
  policy : throughInt16 s.policy = s.policy
  priority : throughInt16 s.priority = s.priority

namespace ThreadCommand

section Sent

variable {c : ThreadCommand}

theorem toWord_of_map (o : Option (BitVec 32)) :
    (o.map ThreadValue.word).map ThreadValue.toWord = o := by
  cases o <;> rfl

theorem toList_of_map (o : Option (List Byte)) :
    (o.map ThreadValue.list).map (fun v => v.toList ++ [0]) = o.map (· ++ [0]) := by
  cases o <;> rfl

/-- The request that is sent is what the words ask for. -/
theorem request_eq (c : ThreadCommand) : c.request = if c.Sends then c.asks else none := by
  obtain ⟨hrefused, hsent⟩ := cmdThreadModify.exact c.malloc c.connect c.argv
  rw [request]
  cases hfirst : cmdThreadModify.firstRefusal c.malloc 0 c.answers with
  | some rc =>
      have hnot : ¬ c.Sends := fun h => Option.some_ne_none rc (hfirst.symm.trans h.1)
      rw [hrefused rc hfirst, if_neg hnot]
      rfl
  | none =>
      obtain ⟨s, hfield, hid, hserver, hrun⟩ := hsent hfirst
      have hpolicy : s.message.schedPolicy = (c.given .schedPolicy).map ThreadValue.toWord := by
        rw [given, answers, ← hfield]
        exact (toWord_of_map _).symm
      have hpriority :
          s.message.schedPriority = (c.given .schedPriority).map ThreadValue.toWord := by
        rw [given, answers, ← hfield]
        exact (toWord_of_map _).symm
      have hlist : s.message.cpuSet.map (· ++ [0]) =
          (c.given .cpuAffinity).map fun v => v.toList ++ [0] := by
        rw [given, answers, ← hfield]
        exact (toList_of_map _).symm
      have hconnect : c.Sends ↔ c.connect s.serverType s.serverId = true := by
        rw [Sends, server, answers, ← hserver]
        exact and_iff_right hfirst
      rw [hrun, asks, target, answers, ← hid, ← hpolicy, ← hpriority, ← hlist]
      by_cases hreached : c.connect s.serverType s.serverId = true
      · rw [if_pos hreached, if_pos (hconnect.2 hreached), Option.map_map]
        rfl
      · rw [if_neg hreached, if_neg (mt hconnect.1 hreached)]
        rfl

/-- A name of a policy stands for a number that fits. -/
theorem throughInt16_given {v : ThreadValue} (h : c.given .schedPolicy = some v) :
    throughInt16 v.toWord = v.toWord := by
  obtain ⟨⟨code, optarg⟩, -, hanswer⟩ := exists_of_lastOf h
  have hnamed : ∀ str, throughInt16 (str2schedPolicy str) = str2schedPolicy str := by
    intro str
    unfold str2schedPolicy
    split_ifs <;> rfl
  cases code with
  | none => cases hanswer
  | some opt =>
      cases opt with
      | setting p =>
          cases p with
          | schedPolicy =>
              obtain rfl := Option.some.inj hanswer
              exact hnamed _
          | _ => cases hanswer
      | _ => cases hanswer

end Sent

section Served

variable (fuel : ℕ) (queue : Tailq.Queue PacketThread) (r : ThreadRequest) (o : Answers)
variable (threads : ℕ → ThreadSettings) {c : ThreadCommand} {rc : BitVec 32}
variable {threads' : ℕ → ThreadSettings} {id : ℕ}

/-- A list that uses up the fuel is never answered. -/
theorem modify_of_unread (h : Running queue r)
    (hset : overlayCpuSet fuel r.cpuSet (fetched o (threads r.id.toNat)).affinity = none) :
    modify fuel queue r o threads = some (none, threads) := by
  obtain ⟨node, hnode, hid⟩ := h
  obtain ⟨found, hfound⟩ : ∃ found, dabbadThreadFind queue r.id = some found := by
    rw [← Option.isSome_iff_exists, dabbadThreadFind, List.find?_isSome]
    exact ⟨node, hnode, by simpa using hid⟩
  have hid' : found.id = r.id.toNat := by
    have hsome := List.find?_some hfound
    simpa using hsome
  simp only [modify, dabbadThreadModify, hfound, dabbadThreadSchedParamGet,
    dabbadThreadSchedAffinityGet, Prog.bind_eq, Prog.liftM_eq, Prog.perform_bind,
    Prog.call_bind, Prog.pure_eq, Prog.ret_bind, Prog.run_call, hid',
    handle_getschedparam, handle_getaffinityNp, hset]
  rfl

/-- What is in force for the thread of a request behind it. -/
def inForce (s : ThreadSettings) : ThreadSettings :=
  if o.setschedparam = 0 then {
    policy := throughInt16 (r.schedPolicy.getD s.policy)
    priority := throughInt16 (r.schedPriority.getD s.priority)
    affinity :=
      if o.setaffinityNp = 0 then
        (r.cpuSet.bind fun str => (str2cpuAffinity cpuSetsize fuel str).map Prod.snd).getD
          s.affinity
      else s.affinity }
  else s

variable {fuel queue r o threads}

/-- A request that is answered changes the settings of its thread, and no others. -/
theorem settings_of_modify (hparam : o.getschedparam = 0) (hmask : o.getaffinityNp = 0)
    (hrun : Running queue r) (h : modify fuel queue r o threads = some (some rc, threads')) :
    threads' =
      Function.update threads r.id.toNat (inForce fuel r o (threads r.id.toNat)) := by
  have hfetched : ∀ s, fetched o s = s := by
    intro s
    rw [fetched, if_pos hparam, if_pos hparam, if_pos hmask]
  cases hset : overlayCpuSet fuel r.cpuSet (fetched o (threads r.id.toNat)).affinity with
  | none =>
      rw [modify_of_unread fuel queue r o threads hrun hset] at h
      cases h
  | some runOn =>
      have hread : (r.cpuSet.bind fun str =>
          (str2cpuAffinity cpuSetsize fuel str).map Prod.snd).getD
            (threads r.id.toNat).affinity = runOn := by
        rw [hfetched] at hset
        cases hlist : r.cpuSet with
        | none =>
            rw [hlist] at hset
            exact Option.some.inj hset
        | some str =>
            rw [hlist, overlayCpuSet] at hset
            rw [Option.bind_some, hset, Option.getD_some]
      rw [modify_of_running fuel queue r o threads hrun hset] at h
      unfold inForce
      by_cases hset : o.setschedparam = 0
      · rw [if_neg (not_not.2 hset)] at h
        rw [if_pos hset]
        by_cases haffinity : o.setaffinityNp = 0
        · rw [if_neg (not_not.2 haffinity)] at h
          rw [if_pos haffinity, hread, ← (Prod.mk.inj (Option.some.inj h)).2, applied, hfetched]
        · rw [if_pos haffinity] at h
          rw [if_neg haffinity, ← (Prod.mk.inj (Option.some.inj h)).2, applied, hfetched]
      · rw [if_pos hset] at h
        rw [if_neg hset, Function.update_eq_self, (Prod.mk.inj (Option.some.inj h)).2]

theorem said_of_not_reaches (h : ¬ c.Reaches id) (s : ThreadSettings) : c.said id s = s := by
  rw [said, policySaid, prioritySaid, affinitySaid, if_neg fun hc => h hc.1,
    if_neg fun hc => h hc.1, if_neg fun hc => h hc.1]
  rfl

/-- What a command says fits again. -/
theorem fits_said {s : ThreadSettings} (hs : s.Fits) : (c.said id s).Fits := by
  have hthrough : ∀ v, throughInt16 (throughInt16 v) = throughInt16 v := by
    intro v
    have hlow : ((v.setWidth 16).signExtend 32).setWidth 16 = v.setWidth 16 := by
      ext i hi
      have hlt : i < 32 := hi.trans (by decide)
      rw [BitVec.getElem_setWidth, BitVec.getLsbD_signExtend, if_pos hi, decide_eq_true hlt,
        Bool.true_and, BitVec.getLsbD_eq_getElem hi]
    rw [throughInt16, throughInt16, hlow]
  refine ⟨?_, ?_⟩
  · rw [said, policySaid]
    split_ifs
    · cases hgiven : c.given .schedPolicy with
      | none => exact hs.policy
      | some v => exact throughInt16_given hgiven
    · exact hs.policy
  · rw [said, prioritySaid]
    split_ifs
    · cases c.given .schedPriority with
      | none => exact hs.priority
      | some v => exact hthrough _
    · exact hs.priority

/-- A command that reaches a thread puts into force what it says about it. -/
theorem inForce_eq_said {r : ThreadRequest} {s : ThreadSettings} (hs : s.Fits)
    (hreaches : c.Reaches id) (hasks : c.asks = some r) :
    inForce c.fuel r c.calls s = c.said id s := by
  obtain ⟨tid, -, rfl⟩ := Option.map_eq_some_iff.1 hasks
  by_cases hparam : c.calls.setschedparam = 0
  · have hpolicy : c.policySaid id = (c.given .schedPolicy).map ThreadValue.toWord :=
      if_pos ⟨hreaches, hparam⟩
    have hpriority : c.prioritySaid id =
        (c.given .schedPriority).map fun v => throughInt16 v.toWord :=
      if_pos ⟨hreaches, hparam⟩
    rw [inForce, if_pos hparam, said, hpolicy, hpriority]
    ext1
    · cases hgiven : c.given .schedPolicy with
      | none => exact hs.policy
      | some v => exact throughInt16_given hgiven
    · cases c.given .schedPriority with
      | none => exact hs.priority
      | some v => rfl
    · dsimp only
      rw [affinitySaid]
      by_cases haffinity : c.calls.setaffinityNp = 0
      · rw [if_pos haffinity, if_pos ⟨hreaches, hparam, haffinity⟩]
        cases c.given .cpuAffinity <;> rfl
      · rw [if_neg haffinity, if_neg fun hc => haffinity hc.2.2]
        rfl
  · rw [inForce, if_neg hparam, said, policySaid, prioritySaid, affinitySaid,
      if_neg fun hc => hparam hc.2, if_neg fun hc => hparam hc.2,
      if_neg fun hc => hparam hc.2.1]
    rfl

theorem reaches_iff {r : ThreadRequest} (hsends : c.Sends) (hasks : c.asks = some r) :
    c.Reaches id ↔ id = r.id.toNat ∧ Running c.queue r := by
  obtain ⟨tid, htarget, rfl⟩ := Option.map_eq_some_iff.1 hasks
  rw [Reaches, htarget, Option.map_some, Option.some_inj]
  constructor
  · rintro ⟨-, rfl, hrun⟩
    exact ⟨rfl, hrun⟩
  · rintro ⟨rfl, hrun⟩
    exact ⟨hsends, rfl, hrun⟩

theorem said_of_modify {r : ThreadRequest} (hfit : ∀ id, (threads id).Fits)
    (hfetch : c.Fetches) (hsends : c.Sends) (hasks : c.asks = some r)
    (h : modify c.fuel c.queue r c.calls threads = some (some rc, threads')) (id : ℕ) :
    threads' id = c.said id (threads id) := by
  by_cases hrun : Running c.queue r
  · rw [settings_of_modify hfetch.1 hfetch.2 hrun h]
    by_cases hthread : id = r.id.toNat
    · subst hthread
      rw [Function.update_self]
      exact inForce_eq_said (hfit _) ((reaches_iff hsends hasks).2 ⟨rfl, hrun⟩) hasks
    · rw [Function.update_of_ne hthread,
        said_of_not_reaches fun hc => hthread ((reaches_iff hsends hasks).1 hc).1]
  · rw [modify_of_not_running _ _ _ _ _ hrun] at h
    rw [← (Prod.mk.inj (Option.some.inj h)).2,
      said_of_not_reaches fun hc => hrun ((reaches_iff hsends hasks).1 hc).2]

/-- A command does to every thread what it says about it. -/
theorem said_of_step {reply : Option (BitVec 32)} (hfit : ∀ id, (threads id).Fits)
    (hfetch : c.Fetches) (h : Step (c, reply) threads threads') (id : ℕ) :
    threads' id = c.said id (threads id) := by
  have hunsent : c.request = none → ¬ c.Reaches id → threads' id = c.said id (threads id) := by
    intro hnone hnot
    simp only [Step, hnone] at h
    rw [said_of_not_reaches hnot]
    cases reply with
    | none => rw [h]
    | some rc => exact h.elim
  by_cases hsends : c.Sends
  · cases hasks : c.asks with
    | none =>
        refine hunsent (by rw [request_eq, if_pos hsends, hasks]) fun hc => ?_
        have htarget : c.target = none := Option.map_eq_none_iff.1 hasks
        exact absurd hc.2.1 (by rw [htarget]; exact (Option.some_ne_none id).symm)
    | some r =>
        have hrequest : c.request = some r := by rw [request_eq, if_pos hsends, hasks]
        simp only [Step, hrequest] at h
        cases reply with
        | none => exact h.elim
        | some rc => exact said_of_modify hfit hfetch hsends hasks h id
  · exact hunsent (by rw [request_eq, if_neg hsends]) fun hc => hsends hc.1

end Served

section Run

variable {history : List (ThreadCommand × Option (BitVec 32))}
variable {threads threads' : ℕ → ThreadSettings}

/-- Over any commands to modify threads, with any words and any outcomes of the calls that
apply something: what is in force for each thread is the last policy and the last priority
of the commands that reached it and could set them, and the last CPUs of those that could
set them too. Every command applies again what it has fetched, and it changes nothing by
that, for this thread or another. -/
theorem threadCommands_inForce (hrun : Runs Step history threads threads')
    (hfit : ∀ id, (threads id).Fits) (hfetch : ∀ e ∈ history, e.1.Fetches) (id : ℕ) :
    threads' id = {
      policy := (lastOf (fun e => e.1.policySaid id) history).getD (threads id).policy
      priority := (lastOf (fun e => e.1.prioritySaid id) history).getD (threads id).priority
      affinity :=
        (lastOf (fun e => e.1.affinitySaid id) history).getD (threads id).affinity } := by
  have hstep : ∀ e ∈ history, ∀ s s' : ℕ → ThreadSettings, (∀ id, (s id).Fits) →
      Step e s s' → (∀ id, (s' id).Fits) ∧ s' id = e.1.said id (s id) := by
    rintro ⟨c, reply⟩ he s s' hs hlast
    have hsaid := said_of_step hs (hfetch _ he) hlast
    refine ⟨fun id => ?_, hsaid id⟩
    rw [hsaid id]
    exact fits_said (hs id)
  ext1
  · exact (hrun.lastOf_of_runs (fun e he s s' hs h =>
      (hstep e he s s' hs h).imp_right (congrArg ThreadSettings.policy)) hfit).2
  · exact (hrun.lastOf_of_runs (fun e he s s' hs h =>
      (hstep e he s s' hs h).imp_right (congrArg ThreadSettings.priority)) hfit).2
  · exact (hrun.lastOf_of_runs (fun e he s s' hs h =>
      (hstep e he s s' hs h).imp_right (congrArg ThreadSettings.affinity)) hfit).2

end Run

section Example

def fifoCommand : ThreadCommand where
  argv := ["--id", "1", "--sched-policy", "fifo", "--sched-prio", "7"].map text
  malloc := fun _ => true
  connect := fun _ _ => true
  queue := oneThread
  fuel := 0
  calls := accepted

theorem fits_anywhere (id : ℕ) : (anywhere id).Fits := ⟨rfl, rfl⟩

theorem threadCommands_inForce_fifoCommand : ∃ threads' : ℕ → ThreadSettings,
    (threads' 1).policy = 1 ∧ (threads' 1).priority = 7 ∧
    threads' 1 = {
      policy :=
        (lastOf (fun e => e.1.policySaid 1) [(fifoCommand, some (0 : BitVec 32))]).getD
          (anywhere 1).policy
      priority :=
        (lastOf (fun e => e.1.prioritySaid 1) [(fifoCommand, some (0 : BitVec 32))]).getD
          (anywhere 1).priority
      affinity :=
        (lastOf (fun e => e.1.affinitySaid 1) [(fifoCommand, some (0 : BitVec 32))]).getD
          (anywhere 1).affinity } := by
  have hrequest : fifoCommand.request = some ⟨1, none, some 1, some 7⟩ := rfl
  obtain ⟨threads', hmodify, hpolicy, hpriority⟩ : ∃ threads' : ℕ → ThreadSettings,
      modify 0 oneThread ⟨1, none, some 1, some 7⟩ accepted anywhere =
        some (some 0, threads') ∧ (threads' 1).policy = 1 ∧ (threads' 1).priority = 7 :=
    ⟨_, rfl, rfl, rfl⟩
  have hstep : Step (fifoCommand, some 0) anywhere threads' := by
    simp only [Step, hrequest]
    exact hmodify
  refine ⟨threads', hpolicy, hpriority,
    threadCommands_inForce (.single hstep) fits_anywhere (fun e he => ?_) 1⟩
  rw [List.mem_singleton.1 he]
  exact ⟨rfl, rfl⟩

end Example

end ThreadCommand

end Dabbad
