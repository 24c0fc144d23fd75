import Dabba.Dabbad.ThreadModify
import Dabba.Dabbad.CpuTokens

/-!
# What the reply to a modify request means

A reply of zero does not mean that the request was carried out. A CPU list that cannot
be read is applied as far as it was read, the request for a thread that is not running
succeeds, and a policy or priority that does not fit 16 bits is applied as another one.
The reply is right where a setter fails, or where everything the handler passes on is
what was asked for.
-/

namespace Dabbad

open Posix Stdio

variable (fuel : ℕ) (queue : Tailq.Queue PacketThread) (r : ThreadRequest) (o : Answers)
  (threads : ℕ → ThreadSettings)

section Malformed

/-- The list of the request is an error. -/
def Malformed : Prop :=
  ∃ str rc mask, r.cpuSet = some str ∧
    str2cpuAffinity cpuSetsize fuel str = some (rc, mask) ∧ rc ≠ 0

/-- The reply is an error, and the affinity of every thread is what it was. -/
def ChangesNoAffinity : Prop :=
  ∃ rc threads', modify fuel queue r o threads = some (some rc, threads') ∧ rc ≠ 0 ∧
    ∀ id, (threads' id).affinity = (threads id).affinity

/-- A request with a malformed list is rejected if and only if the thread is running and
the kernel refuses one of the two settings. -/
theorem changesNoAffinity_iff (hlist : Malformed fuel r) :
    ChangesNoAffinity fuel queue r o threads ↔
      Running queue r ∧ (o.setschedparam ≠ 0 ∨ o.setaffinityNp ≠ 0) := by
  obtain ⟨str, rc, mask, hstr, hread, -⟩ := hlist
  by_cases hrun : Running queue r
  · have hset : ∀ runOn, overlayCpuSet fuel r.cpuSet runOn = some mask := by
      intro runOn
      rw [hstr, overlayCpuSet, hread, Option.map_some]
    by_cases hrefused : o.setschedparam ≠ 0 ∨ o.setaffinityNp ≠ 0
    · exact iff_of_true (modify_of_refused fuel queue r o threads hrun (hset _) hrefused)
        ⟨hrun, hrefused⟩
    · -- Both settings are accepted, and the reply is zero.
      rw [not_or, not_not, not_not] at hrefused
      rw [ChangesNoAffinity, modify_of_accepted fuel queue r o threads hrun (hset _)
        hrefused.1 hrefused.2]
      refine iff_of_false ?_ fun h => h.2.elim (· hrefused.1) (· hrefused.2)
      rintro ⟨rc, threads', heq, hrc, -⟩
      simp only [Option.some.injEq, Prod.mk.injEq] at heq
      exact hrc heq.1.symm
  · rw [ChangesNoAffinity, modify_of_not_running fuel queue r o threads hrun]
    refine iff_of_false ?_ fun h => hrun h.1
    rintro ⟨rc, threads', heq, hrc, -⟩
    simp only [Option.some.injEq, Prod.mk.injEq] at heq
    exact hrc heq.1.symm

def oneThread : Tailq.Queue PacketThread := ⟨[⟨0, 1, .capture⟩], 1⟩

def anywhere : ℕ → ThreadSettings := fun _ => ⟨0, 0, BitVec.allOnes cpuSetsize⟩

def accepted : Answers := ⟨0, 0, 0, 0, 0, 0⟩

def malformedRequest : ThreadRequest where
  id := 1
  cpuSet := some ("3,x".toList.map ascii ++ [0])
  schedPolicy := none
  schedPriority := none

theorem str2cpuAffinity_malformedRequest :
    str2cpuAffinity cpuSetsize 8 ("3,x".toList.map ascii ++ [0]) =
      some ((-einval : ℤ), (0b1000 : CpuSet cpuSetsize)) := by
  decide +kernel

theorem malformed_malformedRequest : Malformed 8 malformedRequest :=
  ⟨_, _, _, rfl, str2cpuAffinity_malformedRequest, by decide⟩

theorem running_oneThread : Running oneThread malformedRequest :=
  ⟨_, List.mem_singleton_self _, rfl⟩

theorem changesNoAffinity_iff_malformedRequest :
    ChangesNoAffinity 8 oneThread malformedRequest accepted anywhere ↔
      Running oneThread malformedRequest ∧
        (accepted.setschedparam ≠ 0 ∨ accepted.setaffinityNp ≠ 0) :=
  changesNoAffinity_iff 8 oneThread malformedRequest accepted anywhere
    malformed_malformedRequest

/-- The thread is put on CPU 3, and the reply is zero. -/
theorem not_changesNoAffinity_malformedRequest :
    Malformed 8 malformedRequest ∧
      ¬ ChangesNoAffinity 8 oneThread malformedRequest accepted anywhere ∧
      ∃ threads', modify 8 oneThread malformedRequest accepted anywhere =
          some (some 0, threads') ∧ (threads' 1).affinity = 0b1000 := by
  have hset : ∀ runOn, overlayCpuSet 8 malformedRequest.cpuSet runOn = some 0b1000 := by
    intro runOn
    rw [malformedRequest, overlayCpuSet, str2cpuAffinity_malformedRequest]
    rfl
  have hmodify := modify_of_accepted 8 oneThread malformedRequest accepted anywhere
    running_oneThread (hset _) rfl rfl
  refine ⟨malformed_malformedRequest, ?_, _, hmodify, ?_⟩
  · rintro ⟨rc, threads', heq, hrc, -⟩
    rw [hmodify] at heq
    simp only [Option.some.injEq, Prod.mk.injEq] at heq
    exact hrc heq.1.symm
  · rw [show 1 = malformedRequest.id.toNat from rfl, Function.update_self, applied]

end Malformed

section Done

variable (mask : Option (CpuSet cpuSetsize))

/-- The CPU set a request with a list that can be read asks for. -/
def AsksFor : Prop :=
  match r.cpuSet with
  | none => mask = none
  | some str => ∃ m, mask = some m ∧ str2cpuAffinity cpuSetsize fuel str = some (0, m)

def asked (s : ThreadSettings) : ThreadSettings where
  policy := r.schedPolicy.getD s.policy
  priority := r.schedPriority.getD s.priority
  affinity := mask.getD s.affinity

/-- If the reply is zero, the thread is running and has the settings asked for, and all
other threads have theirs. -/
def SuccessMeansDone : Prop :=
  ∃ rc threads', modify fuel queue r o threads = some (some rc, threads') ∧
    (rc = 0 → Running queue r ∧ threads' =
      Function.update threads r.id.toNat (asked r mask (threads r.id.toNat)))

/-- What the handler passes on for a thread is what was asked for: a value of the
request fits 16 bits, and one that is not in the request was fetched and fits too, or
what the handler has in its place happens to be the previous value. -/
structure PassesOn (s : ThreadSettings) : Prop where
  policy : ∀ v, r.schedPolicy = some v → FitsInt16 v
  priority : ∀ v, r.schedPriority = some v → FitsInt16 v
  oldPolicy : r.schedPolicy = none → throughInt16 (fetched o s).policy = s.policy
  oldPriority : r.schedPriority = none → throughInt16 (fetched o s).priority = s.priority
  oldAffinity : mask = none → (fetched o s).affinity = s.affinity

theorem applied_eq_asked_iff (s : ThreadSettings) :
    applied r o (mask.getD (fetched o s).affinity) s = asked r mask s ↔
      PassesOn r o mask s := by
  rw [ThreadSettings.ext_iff]
  constructor
  · rintro ⟨hpolicy, hpriority, haffinity⟩
    refine ⟨fun v hv => ?_, fun v hv => ?_, fun hnone => ?_, fun hnone => ?_,
      fun hnone => ?_⟩
    · simpa [applied, asked, hv, throughInt16_eq_iff] using hpolicy
    · simpa [applied, asked, hv, throughInt16_eq_iff] using hpriority
    · simpa [applied, asked, hnone] using hpolicy
    · simpa [applied, asked, hnone] using hpriority
    · simpa [applied, asked, hnone] using haffinity
  · intro h
    refine ⟨?_, ?_, ?_⟩
    · cases hv : r.schedPolicy with
      | none => simpa [applied, asked, hv] using h.oldPolicy hv
      | some v =>
          simpa [applied, asked, hv, throughInt16_eq_iff] using h.policy v hv
    · cases hv : r.schedPriority with
      | none => simpa [applied, asked, hv] using h.oldPriority hv
      | some v =>
          simpa [applied, asked, hv, throughInt16_eq_iff] using h.priority v hv
    · cases hv : mask with
      | none => simpa [applied, asked] using h.oldAffinity hv
      | some m => rfl

/-- A reply of zero means that the request was carried out if and only if the thread is
running, and a setter fails or everything that was asked for is passed on. -/
theorem successMeansDone_iff (hmask : AsksFor fuel r mask) :
    SuccessMeansDone fuel queue r o threads mask ↔
      Running queue r ∧ (o.setschedparam ≠ 0 ∨ o.setaffinityNp ≠ 0 ∨
        PassesOn r o mask (threads r.id.toNat)) := by
  have hset : ∀ runOn, overlayCpuSet fuel r.cpuSet runOn = some (mask.getD runOn) := by
    intro runOn
    cases hstr : r.cpuSet with
    | none =>
        rw [AsksFor, hstr] at hmask
        rw [hmask]
        rfl
    | some str =>
        rw [AsksFor, hstr] at hmask
        obtain ⟨m, rfl, hread⟩ := hmask
        rw [overlayCpuSet, hread]
        rfl
  by_cases hrun : Running queue r
  · by_cases hrefused : o.setschedparam ≠ 0 ∨ o.setaffinityNp ≠ 0
    · obtain ⟨rc, threads', hmodify, hrc, -⟩ :=
        modify_of_refused fuel queue r o threads hrun (hset _) hrefused
      exact iff_of_true ⟨rc, threads', hmodify, fun h => absurd h hrc⟩
        ⟨hrun, hrefused.imp_right .inl⟩
    · rw [not_or, not_not, not_not] at hrefused
      obtain ⟨hparam, haffinity⟩ := hrefused
      rw [SuccessMeansDone, modify_of_accepted fuel queue r o threads hrun (hset _) hparam
        haffinity, ← applied_eq_asked_iff]
      constructor
      · rintro ⟨rc, threads', heq, hdone⟩
        simp only [Option.some.injEq, Prod.mk.injEq] at heq
        obtain ⟨rfl, rfl⟩ := heq
        have hthread := congrFun (hdone rfl).2 r.id.toNat
        rw [Function.update_self, Function.update_self] at hthread
        exact ⟨hrun, .inr (.inr hthread)⟩
      · rintro ⟨-, h | h | h⟩
        · exact absurd hparam h
        · exact absurd haffinity h
        · exact ⟨_, _, rfl, fun _ => ⟨hrun, by rw [h]⟩⟩
  · rw [SuccessMeansDone, modify_of_not_running fuel queue r o threads hrun]
    refine iff_of_false ?_ fun h => hrun h.1
    rintro ⟨rc, threads', heq, hdone⟩
    simp only [Option.some.injEq, Prod.mk.injEq] at heq
    exact hrun (hdone heq.1.symm).1

def highPriority (id : BitVec 64) : ThreadRequest where
  id := id
  cpuSet := none
  schedPolicy := none
  schedPriority := some 65537

theorem successMeansDone_iff_highPriority :
    SuccessMeansDone 0 oneThread (highPriority 1) accepted anywhere none ↔
      Running oneThread (highPriority 1) ∧ (accepted.setschedparam ≠ 0 ∨
        accepted.setaffinityNp ≠ 0 ∨ PassesOn (highPriority 1) accepted none
          (anywhere (highPriority 1).id.toNat)) :=
  successMeansDone_iff 0 oneThread (highPriority 1) accepted anywhere none rfl

/-- The priority 65537 is applied as 1, and a request for a thread that is not running
succeeds. -/
theorem not_successMeansDone_highPriority :
    ¬ SuccessMeansDone 0 oneThread (highPriority 1) accepted anywhere none ∧
      ¬ SuccessMeansDone 0 oneThread (highPriority 7) accepted anywhere none := by
  constructor
  · have hrun : Running oneThread (highPriority 1) := ⟨_, List.mem_singleton_self _, rfl⟩
    rintro ⟨rc, threads', heq, hdone⟩
    rw [modify_of_accepted 0 oneThread (highPriority 1) accepted anywhere hrun rfl rfl
      rfl] at heq
    simp only [Option.some.injEq, Prod.mk.injEq] at heq
    obtain ⟨rfl, rfl⟩ := heq
    have hthread := congrFun (hdone rfl).2 (highPriority 1).id.toNat
    rw [Function.update_self, Function.update_self] at hthread
    exact absurd (congrArg ThreadSettings.priority hthread) (by decide)
  · have hrun : ¬ Running oneThread (highPriority 7) := by
      rintro ⟨node, hnode, hid⟩
      rw [List.mem_singleton.1 hnode] at hid
      exact absurd hid (by decide)
    rintro ⟨rc, threads', heq, hdone⟩
    rw [modify_of_not_running 0 oneThread (highPriority 7) accepted anywhere hrun] at heq
    simp only [Option.some.injEq, Prod.mk.injEq] at heq
    exact hrun (hdone heq.1.symm).1

end Done

end Dabbad
