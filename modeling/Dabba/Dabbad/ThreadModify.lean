import Dabba.Dabbad.CpuList
import Dabba.Dabbad.World

/-!
# Modifying a thread

`dabbadThreadModify` fetches the settings of a thread, replaces the ones the request
has, and applies them all with two calls. The policy and the priority pass through
16-bit variables. What the getters and the CPU list report is dropped, and a thread
that is not there is no error.
-/

namespace Dabbad

open Posix Program

abbrev cpuSetsize : ℕ := 1024

/-- The scheduling of a thread, as it is in force. -/
@[ext] structure ThreadSettings where
  policy : BitVec 32
  priority : BitVec 32
  affinity : CpuSet cpuSetsize

/-- The calls on a thread. A getter returns its result and what it leaves in the
variables of its caller. -/
inductive PthreadCall : Type → Type
  | getschedparam (id : ℕ) : PthreadCall (BitVec 32 × BitVec 32 × BitVec 32)
  | setschedparam (id : ℕ) (policy priority : BitVec 32) : PthreadCall (BitVec 32)
  | getaffinityNp (id : ℕ) : PthreadCall (BitVec 32 × CpuSet cpuSetsize)
  | setaffinityNp (id : ℕ) (runOn : CpuSet cpuSetsize) : PthreadCall (BitVec 32)

/-- What the calls of one request return, zero for success, and what the variables
that are not initialised hold when a getter fails. -/
structure Answers where
  getschedparam : BitVec 32
  policy : BitVec 32
  getaffinityNp : BitVec 32
  runOn : CpuSet cpuSetsize
  setschedparam : BitVec 32
  setaffinityNp : BitVec 32

/-- The calls act on the settings of all threads. A setter stores what it is given, or
fails and changes nothing. -/
def PthreadCall.handle : Handler PthreadCall Answers (ℕ → ThreadSettings)
  | _, .getschedparam id, o, threads =>
      (if o.getschedparam = 0 then (0, (threads id).policy, (threads id).priority)
        else (o.getschedparam, o.policy, 0), threads)
  | _, .getaffinityNp id, o, threads =>
      (if o.getaffinityNp = 0 then (0, (threads id).affinity)
        else (o.getaffinityNp, o.runOn), threads)
  | _, .setschedparam id policy priority, o, threads =>
      (o.setschedparam, if o.setschedparam = 0 then Function.update threads id
        { threads id with policy := policy, priority := priority } else threads)
  | _, .setaffinityNp id runOn, o, threads =>
      (o.setaffinityNp, if o.setaffinityNp = 0 then Function.update threads id
        { threads id with affinity := runOn } else threads)

def dabbadThreadSchedParamSet (pktThread : PacketThread)
    (schedPrio schedPolicy : BitVec 16) : Prog PthreadCall (BitVec 32) := do
  let rc ← PthreadCall.setschedparam pktThread.id (schedPolicy.signExtend 32)
    (schedPrio.signExtend 32)
  return rc

def dabbadThreadSchedParamGet (pktThread : PacketThread) :
    Prog PthreadCall (BitVec 32 × BitVec 16 × BitVec 16) := do
  let (rc, policy, priority) ← PthreadCall.getschedparam pktThread.id
  return (rc, priority.setWidth 16, policy.setWidth 16)

def dabbadThreadSchedAffinitySet (pktThread : PacketThread)
    (runOn : CpuSet cpuSetsize) : Prog PthreadCall (BitVec 32) := do
  let rc ← PthreadCall.setaffinityNp pktThread.id runOn
  return rc

def dabbadThreadSchedAffinityGet (pktThread : PacketThread) :
    Prog PthreadCall (BitVec 32 × CpuSet cpuSetsize) := do
  let (rc, runOn) ← PthreadCall.getaffinityNp pktThread.id
  return (rc, runOn)

def dabbadThreadFind (queue : Tailq.Queue PacketThread) (id : BitVec 64) :
    Option PacketThread :=
  queue.nodes.find? fun node => node.id == id.toNat

/-- What a request to modify a thread carries, a `thread` message. -/
structure ThreadRequest where
  id : BitVec 64
  cpuSet : Option (List Byte)
  schedPolicy : Option (BitVec 32)
  schedPriority : Option (BitVec 32)

/-- The CPU set after the list of a request was read into it, if there is one. What
`str2cpuAffinity` returns is dropped; `none` means that the fuel is used up. -/
def overlayCpuSet (fuel : ℕ) (cpuSet : Option (List Byte)) (runOn : CpuSet cpuSetsize) :
    Option (CpuSet cpuSetsize) :=
  match cpuSet with
  | none => some runOn
  | some str => (str2cpuAffinity cpuSetsize fuel str).map Prod.snd

/-- Modifies a thread; the result is the code of the reply, `none` when the fuel for the
CPU list is used up. -/
def dabbadThreadModify (fuel : ℕ) (queue : Tailq.Queue PacketThread)
    (thread : ThreadRequest) : Prog PthreadCall (Option (BitVec 32)) := do
  match dabbadThreadFind queue thread.id with
  | none => return some 0
  | some pktThread =>
      let (_, schedPrio, schedPolicy) ← dabbadThreadSchedParamGet pktThread
      let (_, runOn) ← dabbadThreadSchedAffinityGet pktThread
      let schedPolicy := match thread.schedPolicy with
        | some policy => policy.setWidth 16
        | none => schedPolicy
      let schedPrio := match thread.schedPriority with
        | some priority => priority.setWidth 16
        | none => schedPrio
      match overlayCpuSet fuel thread.cpuSet runOn with
      | none => return none
      | some runOn =>
          let rc ← dabbadThreadSchedParamSet pktThread schedPrio schedPolicy
          if rc ≠ 0 then
            return some rc
          else
            let rc ← dabbadThreadSchedAffinitySet pktThread runOn
            return some rc

/-- A value that has been through a variable of type `int16_t`. -/
def throughInt16 (v : BitVec 32) : BitVec 32 := (v.setWidth 16).signExtend 32

/-- The value can be stored in a variable of type `int16_t`. -/
def FitsInt16 (v : BitVec 32) : Prop := -2 ^ 15 ≤ v.toInt ∧ v.toInt < 2 ^ 15

instance : DecidablePred FitsInt16 := fun _ => inferInstanceAs (Decidable (_ ∧ _))

theorem throughInt16_eq_iff (v : BitVec 32) : throughInt16 v = v ↔ FitsInt16 v := by
  rw [← BitVec.toInt_inj, throughInt16, BitVec.toInt_signExtend_of_le (by decide),
    BitVec.toInt_setWidth, FitsInt16, BitVec.toInt_eq_toNat_bmod, Int.bmod_def, Int.bmod_def]
  have hlt := v.isLt
  omega

section

variable (fuel : ℕ) (queue : Tailq.Queue PacketThread) (r : ThreadRequest) (o : Answers)
  (threads : ℕ → ThreadSettings)

def modify : Option (Option (BitVec 32) × (ℕ → ThreadSettings)) :=
  (dabbadThreadModify fuel queue r).run PthreadCall.handle (fun _ => o) threads

/-- The thread of the request is one of the running threads. -/
def Running : Prop := ∃ node ∈ queue.nodes, node.id = r.id.toNat

def fetched (s : ThreadSettings) : ThreadSettings where
  policy := if o.getschedparam = 0 then s.policy else o.policy
  priority := if o.getschedparam = 0 then s.priority else 0
  affinity := if o.getaffinityNp = 0 then s.affinity else o.runOn

theorem handle_getschedparam (id : ℕ) :
    PthreadCall.handle (.getschedparam id) o threads =
      ((o.getschedparam, (fetched o (threads id)).policy,
        (fetched o (threads id)).priority), threads) := by
  by_cases hok : o.getschedparam = 0
  · simp only [PthreadCall.handle, fetched, hok, if_true]
  · simp only [PthreadCall.handle, fetched, if_neg hok]

theorem handle_getaffinityNp (id : ℕ) :
    PthreadCall.handle (.getaffinityNp id) o threads =
      ((o.getaffinityNp, (fetched o (threads id)).affinity), threads) := by
  by_cases hok : o.getaffinityNp = 0
  · simp only [PthreadCall.handle, fetched, hok, if_true]
  · simp only [PthreadCall.handle, fetched, if_neg hok]

def applied (runOn : CpuSet cpuSetsize) (s : ThreadSettings) : ThreadSettings where
  policy := throughInt16 (r.schedPolicy.getD (fetched o s).policy)
  priority := throughInt16 (r.schedPriority.getD (fetched o s).priority)
  affinity := runOn

theorem modify_of_not_running (h : ¬ Running queue r) :
    modify fuel queue r o threads = some (some 0, threads) := by
  have hfind : dabbadThreadFind queue r.id = none := by
    rw [dabbadThreadFind, List.find?_eq_none]
    intro node hnode heq
    exact h ⟨node, hnode, by simpa using heq⟩
  simp only [modify, dabbadThreadModify, hfind]
  rfl

/-- The setters are called up to the first one that fails. -/
theorem run_setters (pktThread : PacketThread) (schedPrio schedPolicy : BitVec 16)
    (runOn : CpuSet cpuSetsize) :
    ((dabbadThreadSchedParamSet pktThread schedPrio schedPolicy).bind fun rc =>
        if rc ≠ 0 then .ret (some rc)
        else (dabbadThreadSchedAffinitySet pktThread runOn).bind fun rc =>
          .ret (some rc)).run PthreadCall.handle (fun _ => o) threads =
      if o.setschedparam ≠ 0 then some (some o.setschedparam, threads)
      else if o.setaffinityNp ≠ 0 then
        some (some o.setaffinityNp, Function.update threads pktThread.id
          ⟨schedPolicy.signExtend 32, schedPrio.signExtend 32,
            (threads pktThread.id).affinity⟩)
      else some (some 0, Function.update threads pktThread.id
        ⟨schedPolicy.signExtend 32, schedPrio.signExtend 32, runOn⟩) := by
  by_cases hparam : o.setschedparam = 0#32
  · by_cases hmask : o.setaffinityNp = 0#32
    · simp [dabbadThreadSchedParamSet, dabbadThreadSchedAffinitySet, Prog.run,
        PthreadCall.handle, hparam, hmask]
    · simp [dabbadThreadSchedParamSet, dabbadThreadSchedAffinitySet, Prog.run,
        PthreadCall.handle, hparam, hmask]
  · simp [dabbadThreadSchedParamSet, Prog.run, PthreadCall.handle, hparam]

/-- A request for a running thread applies the scheduling and then the CPU set, up to
the first call that fails. -/
theorem modify_of_running (h : Running queue r) {runOn : CpuSet cpuSetsize}
    (hset : overlayCpuSet fuel r.cpuSet
      (fetched o (threads r.id.toNat)).affinity = some runOn) :
    modify fuel queue r o threads =
      if o.setschedparam ≠ 0 then some (some o.setschedparam, threads)
      else if o.setaffinityNp ≠ 0 then
        some (some o.setaffinityNp, Function.update threads r.id.toNat
          { applied r o runOn (threads r.id.toNat) with
            affinity := (threads r.id.toNat).affinity })
      else some (some 0, Function.update threads r.id.toNat
        (applied r o runOn (threads r.id.toNat))) := by
  obtain ⟨node, hnode, hid⟩ := h
  obtain ⟨found, hfound⟩ : ∃ found, dabbadThreadFind queue r.id = some found := by
    rw [← Option.isSome_iff_exists, dabbadThreadFind, List.find?_isSome]
    exact ⟨node, hnode, by simpa using hid⟩
  have hid' : found.id = r.id.toNat := by
    have hsome := List.find?_some hfound
    simpa using hsome
  have hpolicy : (match r.schedPolicy with
      | some policy => policy.setWidth 16
      | none => (fetched o (threads r.id.toNat)).policy.setWidth 16 : BitVec 16) =
        (r.schedPolicy.getD (fetched o (threads r.id.toNat)).policy).setWidth 16 := by
    cases r.schedPolicy <;> rfl
  have hpriority : (match r.schedPriority with
      | some priority => priority.setWidth 16
      | none => (fetched o (threads r.id.toNat)).priority.setWidth 16 : BitVec 16) =
        (r.schedPriority.getD (fetched o (threads r.id.toNat)).priority).setWidth 16 := by
    cases r.schedPriority <;> rfl
  simp only [modify, dabbadThreadModify, hfound, dabbadThreadSchedParamGet,
    dabbadThreadSchedAffinityGet, Prog.bind_eq, Prog.liftM_eq, Prog.perform_bind,
    Prog.call_bind, Prog.pure_eq, Prog.ret_bind, Prog.run_call, hid',
    handle_getschedparam, handle_getaffinityNp, hset, hpolicy, hpriority]
  rw [run_setters, hid']
  rfl

theorem modify_of_accepted (h : Running queue r) {runOn : CpuSet cpuSetsize}
    (hset : overlayCpuSet fuel r.cpuSet
      (fetched o (threads r.id.toNat)).affinity = some runOn)
    (hparam : o.setschedparam = 0) (hmask : o.setaffinityNp = 0) :
    modify fuel queue r o threads = some (some 0, Function.update threads r.id.toNat
      (applied r o runOn (threads r.id.toNat))) := by
  rw [modify_of_running fuel queue r o threads h hset, if_neg (not_not.2 hparam),
    if_neg (not_not.2 hmask)]

theorem modify_of_refused (h : Running queue r) {runOn : CpuSet cpuSetsize}
    (hset : overlayCpuSet fuel r.cpuSet
      (fetched o (threads r.id.toNat)).affinity = some runOn)
    (hrefused : o.setschedparam ≠ 0 ∨ o.setaffinityNp ≠ 0) :
    ∃ rc threads', modify fuel queue r o threads = some (some rc, threads') ∧ rc ≠ 0 ∧
      ∀ id, (threads' id).affinity = (threads id).affinity := by
  rw [modify_of_running fuel queue r o threads h hset]
  by_cases hparam : o.setschedparam = 0
  · have hmask := hrefused.resolve_left (not_not.2 hparam)
    rw [if_neg (not_not.2 hparam), if_pos hmask]
    refine ⟨_, _, rfl, hmask, fun id => ?_⟩
    by_cases hid : id = r.id.toNat
    · rw [hid, Function.update_self]
    · rw [Function.update_of_ne hid]
  · rw [if_pos hparam]
    exact ⟨_, _, rfl, hparam, fun _ => rfl⟩

end

end Dabbad
