import Dabba.Cli.ModifyCommands

/-!
# Modifying coalescing parameters from the command line

Three tables have to agree on the coalescing parameters: the documented names, the option
table, and the switch. They do for all parameters but one, whose option is in the table and
has no case in the switch.
-/

namespace Cli

open Posix Stdio Last

namespace CoalesceParam

/-- The name of the option for a parameter. -/
def optionName : CoalesceParam → String
  | .adaptiveRx => "adaptive-rx"
  | .adaptiveTx => "adaptive-tx"
  | .rxUsecs => "rx-usecs"
  | .rxUsecsIrq => "rx-usecs-irq"
  | .rxUsecsLow => "rx-usecs-low"
  | .rxUsecsHigh => "rx-usecs-high"
  | .rxFrames => "rx-frames"
  | .rxFramesIrq => "rx-frames-irq"
  | .rxFramesLow => "rx-frames-low"
  | .rxFramesHigh => "rx-frames-high"
  | .txUsecs => "tx-usecs"
  | .txUsecsIrq => "tx-usecs-irq"
  | .txUsecsLow => "tx-usecs-low"
  | .txUsecsHigh => "tx-usecs-high"
  | .txFrames => "tx-frames"
  | .txFramesIrq => "tx-frames-irq"
  | .txFramesLow => "tx-frames-low"
  | .txFramesHigh => "tx-frames-high"
  | .packetRateHigh => "pkt-rate-high"
  | .packetRateLow => "pkt-rate-low"
  | .sampleInterval => "sample-interval"
  | .statsBlock => "stats-block-usecs"

/-- The text is a value of the parameter: `true` or `false` for the adaptive ones, else a
decimal number of 32 bits. -/
def Written (str : List Byte) : CoalesceParam → ModifyValue → Prop
  | .adaptiveRx, .flag b => str = text (if b then "true" else "false")
  | .adaptiveTx, .flag b => str = text (if b then "true" else "false")
  | .adaptiveRx, .word _ => False
  | .adaptiveTx, .word _ => False
  | _, .flag _ => False
  | _, .word v => ∃ n : Numeral 10, str = n.digits ∧ v.toNat = n.value

end CoalesceParam

/-- A parameter with its value, as it is given on the command line. -/
structure Setting where
  param : CoalesceParam
  str : List Byte
  value : ModifyValue
  written : param.Written str value

/-- An option of the command with its value. -/
inductive CoalesceOption
  | setting (s : Setting)
  | id (name : List Byte)
  | tcp (server : Option (List Byte))
  | localServer (path : Option (List Byte))

namespace CoalesceOption

def words : CoalesceOption → List (List Byte)
  | .setting s => [optionWord s.param.optionName none, s.str]
  | .id name => [optionWord "id" none, name]
  | .tcp server => [optionWord "tcp" server]
  | .localServer path => [optionWord "local" path]

def answer : CoalesceOption → ModifyCommand.Answer CoalesceParam
  | .setting s => (some (.setting s.param), some s.str)
  | .id name => (some .interfaceId, some name)
  | .tcp server => (some .tcp, server)
  | .localServer path => (some .localServer, path)

def value? (p : CoalesceParam) : CoalesceOption → Option ModifyValue
  | .setting s => if s.param = p then some s.value else none
  | _ => none

def name? : CoalesceOption → Option (List Byte)
  | .id name => some name
  | _ => none

end CoalesceOption

/-- The command accepts the options, and its request has the last value of each parameter
that occurs, the last interface id, and nothing else. -/
def ReachesFields (options : List CoalesceOption) : Prop :=
  ∃ s, cmdInterfaceCoalesceModify.run (fun _ => true) (fun _ _ => true)
      (options.flatMap CoalesceOption.words) = (0, some s) ∧
    (∀ p, cmdInterfaceCoalesceModify.field s.message p =
      lastOf (CoalesceOption.value? p) options) ∧
    s.id = lastOf CoalesceOption.name? options

def CoalesceOption.Handled : CoalesceOption → Prop
  | .setting s => s.param ≠ .statsBlock
  | _ => True

section Words

theorem plainNames_coalesce : PlainNames cmdInterfaceCoalesceModify.options := by
  constructor <;> decide +kernel

theorem optionName_mem (p : CoalesceParam) :
    ⟨p.optionName, .required, .setting p⟩ ∈ cmdInterfaceCoalesceModify.options := by
  cases p <;> simp [cmdInterfaceCoalesceModify, CoalesceParam.optionName]

theorem getoptAll_coalesceWords (o : CoalesceOption) (argv : List (List Byte)) :
    getoptAll cmdInterfaceCoalesceModify.options (o.words ++ argv) =
      o.answer :: getoptAll cmdInterfaceCoalesceModify.options argv := by
  cases o with
  | setting s => exact getoptAll_required plainNames_coalesce (optionName_mem s.param) rfl _ _
  | id name =>
      exact getoptAll_required plainNames_coalesce
        (show ⟨"id", .required, .interfaceId⟩ ∈ cmdInterfaceCoalesceModify.options by
          simp [cmdInterfaceCoalesceModify]) rfl _ _
  | tcp server =>
      exact getoptAll_optional plainNames_coalesce
        (show ⟨"tcp", .optional, .tcp⟩ ∈ cmdInterfaceCoalesceModify.options by
          simp [cmdInterfaceCoalesceModify]) rfl _ _
  | localServer path =>
      exact getoptAll_optional plainNames_coalesce
        (show ⟨"local", .optional, .localServer⟩ ∈ cmdInterfaceCoalesceModify.options by
          simp [cmdInterfaceCoalesceModify]) rfl _ _

theorem getoptAll_coalesceOptions (options : List CoalesceOption) :
    getoptAll cmdInterfaceCoalesceModify.options (options.flatMap CoalesceOption.words) =
      options.map CoalesceOption.answer := by
  induction options with
  | nil => rfl
  | cons o options ih => rw [List.flatMap_cons, getoptAll_coalesceWords, ih, List.map_cons]

end Words

section Answers

variable {s : Setting} {o : CoalesceOption}

/-- A text that is a value of a parameter is read as it, if there is a case for it. -/
theorem value_written (h : s.param ≠ .statsBlock) :
    cmdInterfaceCoalesceModify.value s.param s.str = some s.value := by
  obtain ⟨p, str, value, hwritten⟩ := s
  cases p with
  | adaptiveRx =>
      cases value with
      | word v => exact absurd hwritten not_false
      | flag b =>
          obtain rfl := hwritten
          exact congrArg (Option.map ModifyValue.flag) (str2bool_text b)
  | adaptiveTx =>
      cases value with
      | word v => exact absurd hwritten not_false
      | flag b =>
          obtain rfl := hwritten
          exact congrArg (Option.map ModifyValue.flag) (str2bool_text b)
  | statsBlock => exact absurd rfl h
  | _ =>
      cases value with
      | flag b => exact absurd hwritten not_false
      | word v =>
          obtain ⟨n, rfl, hn⟩ := hwritten
          exact congrArg (some ∘ ModifyValue.word) (strtoulTen_digits n hn)

theorem refusal_answer : cmdInterfaceCoalesceModify.refusal true o.answer = none ↔ o.Handled := by
  cases o with
  | setting s =>
      by_cases h : s.param = .statsBlock
      · have hrefused : cmdInterfaceCoalesceModify.refusal true
            (CoalesceOption.setting s).answer = some (-1) := by
          simp [ModifyCommand.refusal, CoalesceOption.answer, cmdInterfaceCoalesceModify, h]
        rw [hrefused]
        exact iff_of_false (Option.some_ne_none _) fun hhandled => hhandled h
      · have hcase : cmdInterfaceCoalesceModify.handles s.param = true := decide_eq_true h
        refine iff_of_true ?_ h
        rw [CoalesceOption.answer, ModifyCommand.refusal, if_neg (ne_false_of_eq_true hcase),
          Option.getD_some, value_written h]
        rfl
  | _ => exact iff_of_true rfl trivial

theorem given_answer (p : CoalesceParam) (h : o.Handled) :
    cmdInterfaceCoalesceModify.given p o.answer = o.value? p := by
  cases o with
  | setting s =>
      rw [CoalesceOption.answer, ModifyCommand.given, Option.getD_some, value_written h]
      rfl
  | _ => rfl

theorem names_answer : ModifyCommand.names o.answer = o.name? := by
  cases o <;> rfl

end Answers

section Command

variable {options : List CoalesceOption}

theorem run_not_handled (h : ∃ o ∈ options, ¬ o.Handled) :
    (cmdInterfaceCoalesceModify.run (fun _ => true) (fun _ _ => true)
      (options.flatMap CoalesceOption.words)).2 = none := by
  obtain ⟨hrefused, -⟩ := cmdInterfaceCoalesceModify.exact (fun _ => true) (fun _ _ => true)
    (options.flatMap CoalesceOption.words)
  cases hfirst : cmdInterfaceCoalesceModify.firstRefusal (fun _ => true) 0
      (getoptAll cmdInterfaceCoalesceModify.options
        (options.flatMap CoalesceOption.words)) with
  | some rc => rw [hrefused rc hfirst]
  | none =>
      rw [getoptAll_coalesceOptions, ModifyCommand.firstRefusal_eq_none] at hfirst
      obtain ⟨o, ho, hhandled⟩ := h
      exact absurd (refusal_answer.1 (hfirst _ (List.mem_map_of_mem ho))) hhandled

theorem reachesFields_of_handled (h : ∀ o ∈ options, o.Handled) : ReachesFields options := by
  obtain ⟨-, hsent⟩ := cmdInterfaceCoalesceModify.exact (fun _ => true) (fun _ _ => true)
    (options.flatMap CoalesceOption.words)
  rw [getoptAll_coalesceOptions] at hsent
  obtain ⟨s, hfield, hid, -, hrun⟩ := hsent <| by
    rw [ModifyCommand.firstRefusal_eq_none, List.forall_mem_map]
    exact fun o ho => refusal_answer.2 (h o ho)
  refine ⟨s, hrun, fun p => ?_, ?_⟩
  · rw [hfield, lastOf_comp, lastOf_congr fun o ho => given_answer p (h o ho)]
  · rw [hid, lastOf_comp, lastOf_congr fun o _ => names_answer]

/-- The options reach their fields if and only if the one for the statistics block does not
occur. -/
theorem reachesFields_iff (options : List CoalesceOption) :
    ReachesFields options ↔
      ∀ s, CoalesceOption.setting s ∈ options → s.param ≠ .statsBlock := by
  have hhandled : (∀ s, CoalesceOption.setting s ∈ options → s.param ≠ .statsBlock) ↔
      ∀ o ∈ options, o.Handled := by
    constructor
    · intro h o ho
      cases o with
      | setting s => exact h s ho
      | id name => trivial
      | tcp server => trivial
      | localServer path => trivial
    · exact fun h s hs => h _ hs
  rw [hhandled]
  refine ⟨?_, reachesFields_of_handled⟩
  rintro ⟨s, hrun, -⟩
  by_contra h
  push Not at h
  have hnone := run_not_handled h
  rw [hrun] at hnone
  cases hnone

/-- The delay of statistics updates, as it is documented. -/
def statsBlockFifty : Setting where
  param := .statsBlock
  str := text "50"
  value := .word 50
  written := ⟨⟨text "50", by decide, by decide⟩, rfl, by decide⟩

theorem not_reachesFields_statsBlockFifty :
    ¬ ReachesFields [.id (text "eth0"), .setting statsBlockFifty] := by
  rintro ⟨s, hrun, -⟩
  have hmem : .setting statsBlockFifty ∈
      [CoalesceOption.id (text "eth0"), .setting statsBlockFifty] := by simp
  have hnone := run_not_handled ⟨_, hmem, fun h => h rfl⟩
  rw [hrun] at hnone
  cases hnone

end Command

end Cli
