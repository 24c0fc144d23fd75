import Dabba.BitEdit.Basic
import Dabba.Interface.Device

/-!
# The word of flags

Large receive offload and receive hashing have no ethtool command of their own: each is one
bit of a word that a call fetches, edits and writes back. Either of the two requests of a
call may fail. A call that succeeds is an edit of its bit, and one that fails is none, so
the calls of a sequence are told by the last success for each bit.
-/

namespace Interface

open Posix Program BitEdit Last

/-- The features that share the word of flags. -/
inductive WordFlag
  | lro
  | rxhash
deriving DecidableEq

namespace WordFlag

def bit : WordFlag → ℕ
  | .lro => 15
  | .rxhash => 28

variable (dev : List Byte)

def get : WordFlag → Prog DevCall (BitVec 32 × BitVec 32)
  | .lro => ldabDevLargeRcvOffloadGet dev
  | .rxhash => ldabDevRxHashOffloadGet dev

def set (value : BitVec 32) : WordFlag → Prog DevCall (BitVec 32)
  | .lro => ldabDevLargeRcvOffloadSet dev value
  | .rxhash => ldabDevRxHashOffloadSet dev value

theorem get_eq (f : WordFlag) : f.get dev = devFlagGet dev (1#32 <<< f.bit) := by
  cases f <;> rfl

theorem set_eq (value : BitVec 32) (f : WordFlag) :
    f.set dev value = devFlagSet dev (1#32 <<< f.bit) value := by
  cases f <;> rfl

theorem bit_lt (f : WordFlag) : f.bit < 32 := by
  cases f <;> decide

theorem bit_injective : Function.Injective bit := by
  intro f g h
  cases f <;> cases g <;> first | rfl | exact absurd h (by decide)

end WordFlag

/-- A call that sets a flag, with the outcomes of its requests. -/
structure FlagCall where
  flag : WordFlag
  value : BitVec 32
  script : ℕ → BitVec 32

section Calls

variable (dev : List Byte)

def runFlagCalls : List FlagCall → Devices → Option (List (FlagCall × BitVec 32) × Devices)
  | [], s => some ([], s)
  | c :: calls, s =>
      match (c.flag.set dev c.value).run DevCall.handle c.script s with
      | none => none
      | some (rc, s) => (runFlagCalls calls s).map fun r => ((c, rc) :: r.1, r.2)

def flagWord (s : Devices) : BitVec 32 := (s.device (deviceName dev)).ethFlags

def withFlagWord (s : Devices) (word : BitVec 32) : Devices :=
  s.set (deviceName dev) { s.device (deviceName dev) with ethFlags := word }

def setTo (f : WordFlag) (c : FlagCall × BitVec 32) : Option Bool :=
  if c.2 = 0 ∧ c.1.flag = f then some (c.1.value ≠ 0) else none

/-- After calls with these codes, each flag has the value of the last one that succeeded
for it, and nothing else is changed. -/
structure FlagsKept (s : Devices) (done : List (FlagCall × BitVec 32)) (s' : Devices) :
    Prop where
  flag : ∀ f : WordFlag, (flagWord dev s').getLsbD f.bit =
    (lastOf (setTo f) done).getD ((flagWord dev s).getLsbD f.bit)
  other : ∀ i, (∀ f : WordFlag, i ≠ f.bit) →
    (flagWord dev s').getLsbD i = (flagWord dev s).getLsbD i
  rest : s' = withFlagWord dev s (flagWord dev s')

/-- The flags are edited independently of each other. -/
structure FlagsIndependent (s : Devices) : Prop where
  kept : ∀ calls, ∃ done s', runFlagCalls dev calls s = some (done, s') ∧
    done.map Prod.fst = calls ∧ FlagsKept dev s done s'
  refused : ∀ (c : FlagCall) rc s',
    (c.flag.set dev c.value).run DevCall.handle c.script s = some (rc, s') →
      rc ≠ 0 → s' = s
  commute : ∀ c c' : FlagCall, c.flag ≠ c'.flag → ∃ rc rc' s',
    runFlagCalls dev [c, c'] s = some ([(c, rc), (c', rc')], s') ∧
      runFlagCalls dev [c', c] s = some ([(c', rc'), (c, rc)], s')
  reported : ∀ (f : WordFlag) script, ∃ rc value,
    (f.get dev).run DevCall.handle script s = some ((rc, value), s) ∧
      (rc = 0 → (value ≠ 0 ↔ (flagWord dev s).getLsbD f.bit = true))

/-- The code of a request that may fail with the error number `e`. -/
def requestCode (e : BitVec 32) (s : Devices) : BitVec 32 :=
  if e ≠ 0 then e else if deviceName dev ∈ s.names then 0 else enodev

/-- The code of a call: that of the first request that fails. -/
def FlagCall.code (c : FlagCall) (s : Devices) : BitVec 32 :=
  if requestCode dev (c.script 0) s ≠ 0 then requestCode dev (c.script 0) s
  else requestCode dev (c.script 1) s

def flagEdit (c : FlagCall × BitVec 32) (w : BitVec 32 × Bool) : BitVec 32 × Bool :=
  if c.2 = 0 then (put w.1 c.1.flag.bit (c.1.value ≠ 0), true) else w

section Request

variable (s : Devices)

theorem request_gflags (e : BitVec 32) : ∃ word,
    s.request (ifrName dev) (.value .gflags 0) e = ((requestCode dev e s, word), s) ∧
      (requestCode dev e s = 0 → word = some (flagWord dev s)) := by
  rw [Devices.request_ifrName_eq dev s rfl, requestCode]
  split
  case isTrue he => exact ⟨none, rfl, fun h => absurd h he⟩
  case isFalse he =>
      split
      case isTrue => exact ⟨_, congrArg _ (s.set_device _), fun _ => rfl⟩
      case isFalse => exact ⟨none, rfl, fun h => absurd h (by decide)⟩

theorem request_sflags (e word : BitVec 32) : ∃ answer,
    s.request (ifrName dev) (.value .sflags word) e =
      ((requestCode dev e s, answer),
        if requestCode dev e s = 0 then withFlagWord dev s word else s) := by
  rw [Devices.request_ifrName_eq dev s rfl, requestCode]
  split
  case isTrue he => exact ⟨none, rfl⟩
  case isFalse he =>
      split
      case isTrue => exact ⟨_, rfl⟩
      case isFalse => exact ⟨none, rfl⟩

theorem run_gflags {A : Type} (k : BitVec 32 × BitVec 32 → Prog DevCall A)
    (script : ℕ → BitVec 32) : ∃ word : BitVec 32,
    ((devEthtoolRequest dev .gflags 0).bind k).run DevCall.handle script s =
      (k (requestCode dev (script 0) s, word)).run DevCall.handle
        (fun n => script (n + 1)) s ∧
      (requestCode dev (script 0) s = 0 → word = flagWord dev s) := by
  obtain ⟨word, hrequest, hword⟩ := request_gflags dev s (script 0)
  refine ⟨word.getD 0, ?_, fun h => by rw [hword h, Option.getD_some]⟩
  rw [devEthtoolRequest_bind, Prog.run_call, DevCall.handle, hrequest]

theorem run_sflags (word : BitVec 32) (script : ℕ → BitVec 32) :
    (devValueSet dev .sflags word).run DevCall.handle script s =
      some (requestCode dev (script 0) s,
        if requestCode dev (script 0) s = 0 then withFlagWord dev s word else s) := by
  obtain ⟨answer, hrequest⟩ := request_sflags dev s (script 0) word
  have hrun : (devValueSet dev .sflags word).run DevCall.handle script s =
      some ((s.request (ifrName dev) (.value .sflags word) (script 0)).1.1,
        (s.request (ifrName dev) (.value .sflags word) (script 0)).2) := rfl
  rw [hrun, hrequest]

end Request

section Step

variable {dev} (s : Devices)

@[simp] theorem flagWord_withFlagWord (word : BitVec 32) :
    flagWord dev (withFlagWord dev s word) = word := by
  simp [flagWord, withFlagWord]

@[simp] theorem withFlagWord_flagWord : withFlagWord dev s (flagWord dev s) = s :=
  s.set_device (deviceName dev)

@[simp] theorem withFlagWord_withFlagWord (word word' : BitVec 32) :
    withFlagWord dev (withFlagWord dev s word) word' = withFlagWord dev s word' := by
  simp [withFlagWord]

@[simp] theorem code_withFlagWord (c : FlagCall) (word : BitVec 32) :
    c.code dev (withFlagWord dev s word) = c.code dev s := rfl

/-- A call edits the word of flags if it succeeds, and otherwise changes nothing. -/
theorem run_set (c : FlagCall) (noted : Bool) :
    (c.flag.set dev c.value).run DevCall.handle c.script s =
      some (c.code dev s, withFlagWord dev s
        (flagEdit (c, c.code dev s) (flagWord dev s, noted)).1) := by
  have hstay : ∀ rc : BitVec 32, rc ≠ 0 →
      withFlagWord dev s (flagEdit (c, rc) (flagWord dev s, noted)).1 = s := by
    intro rc hrc
    rw [flagEdit, if_neg hrc, withFlagWord_flagWord]
  obtain ⟨word, hrun, hword⟩ := run_gflags dev s
    (fun r => if r.1 ≠ 0 then return r.1 else devValueSet dev .sflags
      (if c.value ≠ 0 then r.2 ||| 1#32 <<< c.flag.bit else r.2 &&& ~~~(1#32 <<< c.flag.bit)))
    c.script
  rw [WordFlag.set_eq]
  refine hrun.trans ?_
  unfold FlagCall.code
  split
  case isTrue hget =>
      rw [hstay _ hget]
      rfl
  case isFalse hget =>
      rw [run_sflags, hword (not_not.1 hget)]
      by_cases hset : requestCode dev (c.script 1) s = 0
      · rw [if_pos hset, flagEdit, if_pos hset, put]
        simp only [decide_eq_true_eq]
      · rw [if_neg hset, hstay _ hset]

theorem run_flagCalls (calls : List FlagCall) (noted : Bool) :
    runFlagCalls dev calls s =
      some (calls.map fun c => (c, c.code dev s), withFlagWord dev s
        ((calls.map fun c => (c, c.code dev s)).foldl (fun w c => flagEdit c w)
          (flagWord dev s, noted)).1) := by
  induction calls generalizing s noted with
  | nil => exact congrArg (fun s => some ([], s)) (withFlagWord_flagWord s).symm
  | cons c calls ih =>
      rw [runFlagCalls, run_set s c noted]
      dsimp only
      rw [ih _ (flagEdit (c, c.code dev s) (flagWord dev s, noted)).2]
      simp only [code_withFlagWord, flagWord_withFlagWord, withFlagWord_withFlagWord,
        Option.map_some, List.map_cons, List.foldl_cons, Prod.mk.eta]

end Step

def flagWritten (c : FlagCall × BitVec 32) (i : ℕ) : Option Bool :=
  if c.2 = 0 ∧ i = c.1.flag.bit then some (c.1.value ≠ 0) else none

theorem edits_flagEdit (c : FlagCall × BitVec 32) :
    Edits 32 (flagWritten c) (flagEdit c) := by
  by_cases hrc : c.2 = 0
  · have hedit : flagEdit c = fun w => (put w.1 c.1.flag.bit (c.1.value ≠ 0), true) :=
      funext fun _ => if_pos hrc
    rw [hedit]
    exact (Edits.put c.1.flag.bit_lt _).congr fun i => by simp [flagWritten, hrc]
  · have hedit : flagEdit c = id := funext fun _ => if_neg hrc
    rw [hedit]
    exact Edits.none.congr fun i => if_neg fun h => hrc h.1

theorem flagWritten_bit (f : WordFlag) (c : FlagCall × BitVec 32) :
    flagWritten c f.bit = setTo f c := by
  simp only [flagWritten, setTo, WordFlag.bit_injective.eq_iff, eq_comm]

theorem apart_flagWritten {c c' : FlagCall × BitVec 32} (h : c.1.flag ≠ c'.1.flag) :
    Apart (flagWritten c) (flagWritten c') := by
  intro i
  by_cases hi : i = c.1.flag.bit
  · refine .inr (if_neg fun h' => h ?_)
    exact WordFlag.bit_injective (hi.symm.trans h'.2)
  · exact .inl (if_neg fun h' => hi h'.2)

variable (s : Devices)

/-- In a sequence of calls, each flag gets the value of the last success for it. -/
theorem flagsKept (calls : List FlagCall) : ∃ done s',
    runFlagCalls dev calls s = some (done, s') ∧ done.map Prod.fst = calls ∧
      FlagsKept dev s done s' := by
  let done := calls.map fun c => (c, c.code dev s)
  let word := (done.foldl (fun w c => flagEdit c w) (flagWord dev s, false)).1
  have hbit : ∀ i < 32, word.getLsbD i =
      (lastOf (fun c => flagWritten c i) done).getD ((flagWord dev s).getLsbD i) :=
    (Edits.foldl edits_flagEdit done).bit _
  refine ⟨done, withFlagWord dev s word, run_flagCalls s calls false, ?_, ?_, ?_, ?_⟩
  · rw [List.map_map]
    exact List.map_id calls
  · intro f
    rw [flagWord_withFlagWord, hbit f.bit f.bit_lt]
    simp only [flagWritten_bit]
  · intro i hi
    rw [flagWord_withFlagWord]
    have hnone : ∀ c ∈ done, flagWritten c i = none :=
      fun c _ => if_neg fun h => hi c.1.flag h.2
    rcases lt_or_ge i 32 with hlt | hge
    · rw [hbit i hlt, lastOf_eq_none hnone, Option.getD_none]
    · rw [BitVec.getLsbD_of_ge _ _ hge, BitVec.getLsbD_of_ge _ _ hge]
  · rw [flagWord_withFlagWord]

theorem set_refused (c : FlagCall) {rc : BitVec 32} {s' : Devices}
    (h : (c.flag.set dev c.value).run DevCall.handle c.script s = some (rc, s'))
    (hrc : rc ≠ 0) : s' = s := by
  rw [run_set s c false] at h
  cases h
  rw [flagEdit, if_neg hrc, withFlagWord_flagWord]

theorem set_comm {c c' : FlagCall} (h : c.flag ≠ c'.flag) : ∃ rc rc' s',
    runFlagCalls dev [c, c'] s = some ([(c, rc), (c', rc')], s') ∧
      runFlagCalls dev [c', c] s = some ([(c', rc'), (c, rc)], s') := by
  refine ⟨c.code dev s, c'.code dev s, _, run_flagCalls s [c, c'] false, ?_⟩
  rw [run_flagCalls s [c', c] false]
  have hcomm := (edits_flagEdit (c, c.code dev s)).comm (edits_flagEdit (c', c'.code dev s))
    (apart_flagWritten h)
  exact congrArg (fun f => some (_, withFlagWord dev s (f (flagWord dev s, false)).1))
    hcomm.symm

theorem get_reported (f : WordFlag) (script : ℕ → BitVec 32) : ∃ rc value,
    (f.get dev).run DevCall.handle script s = some ((rc, value), s) ∧
      (rc = 0 → (value ≠ 0 ↔ (flagWord dev s).getLsbD f.bit = true)) := by
  obtain ⟨word, hrun, hword⟩ := run_gflags dev s
    (fun r => return (r.1, r.2 &&& 1#32 <<< f.bit)) script
  refine ⟨requestCode dev (script 0) s, word &&& 1#32 <<< f.bit, ?_, fun h => ?_⟩
  · rw [WordFlag.get_eq]
    exact hrun
  · rw [hword h]
    exact and_shiftLeft_ne_zero_iff f.bit_lt _

end Calls

/-- The two features that share the word of flags are edited independently, whatever
requests fail. -/
theorem flagsIndependent (dev : List Byte) (s : Devices) : FlagsIndependent dev s where
  kept := flagsKept dev s
  refused c _ _ := set_refused dev s c
  commute _ _ := set_comm dev s
  reported := get_reported dev s

end Interface
