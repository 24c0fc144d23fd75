import Mathlib.Data.List.Nodup
import Dabba.Cli.Arguments

/-!
# Options in an argument vector

`getopt_long_only` goes over the words of an argument vector behind its first one. A word
with one or two dashes is an option, by its name or by a beginning of it that no other
option has; its value stands behind an equals sign, or in the next word where one is
required. Words that are no options are left for the end.
-/

namespace Cli

open Posix Stdio

/-- What a word of the argument vector is. -/
inductive Reading (α : Type)
  | operand
  | stop
  | unknown
  | option (opt : LongOption α) (value : Option (List Byte))

/-- A word behind its dashes. A single dash is no option. -/
def undash : List Byte → Option (List Byte)
  | dash :: c :: s =>
      if dash = ascii '-' then some (if c = ascii '-' then s else c :: s) else none
  | _ => none

section Table

variable {α : Type} (options : List (LongOption α))

/-- The entry with the name, or else the only one whose name begins like it. -/
def findOption (name : List Byte) : Option (LongOption α) :=
  match options.find? fun opt => text opt.name = name with
  | some opt => some opt
  | none =>
      match options.filter fun opt => name.isPrefixOf (text opt.name) with
      | [opt] => some opt
      | _ => none

def attached (s : List Byte) : Option (List Byte) :=
  match s.dropWhile (· ≠ ascii '=') with
  | [] => none
  | _ :: value => some value

/-- Reads a word; two dashes alone end the options. -/
def reading (word : List Byte) : Reading α :=
  match undash word with
  | none => .operand
  | some [] => .stop
  | some s =>
      match findOption options (s.takeWhile (· ≠ ascii '=')) with
      | none => .unknown
      | some opt => .option opt (attached s)

/-- The word for an option, with the value behind an equals sign if there is one. -/
def optionWord (name : String) : Option (List Byte) → List Byte
  | none => ascii '-' :: ascii '-' :: text name
  | some value => ascii '-' :: ascii '-' :: (text name ++ ascii '=' :: value)

/-- The answers of `getopt_long_only`, called until there are no more options: the code,
and the value. -/
def getoptAll : List (List Byte) → List (Option α × Option (List Byte))
  | [] => []
  | word :: argv =>
      match reading options word with
      | .operand => getoptAll argv
      | .stop => []
      | .unknown => (none, none) :: getoptAll argv
      | .option opt value =>
          match opt.hasArg, value, argv with
          | .required, none, optarg :: argv =>
              (getoptLongOnly options ⟨opt.name, some optarg⟩, some optarg) :: getoptAll argv
          | _, _, argv =>
              (getoptLongOnly options ⟨opt.name, value⟩, value) :: getoptAll argv

/-- The names of the options differ, and none of them is empty or has an equals sign. -/
structure PlainNames : Prop where
  distinct : (options.map fun opt => text opt.name).Nodup
  plain : ∀ opt ∈ options, text opt.name ≠ [] ∧ ascii '=' ∉ text opt.name

end Table

section

variable {α : Type} {options : List (LongOption α)}

/-- The entry that is found has the name, or is the only one whose name begins like it. -/
theorem findOption_cases {name : List Byte} {opt : LongOption α}
    (h : findOption options name = some opt) :
    opt ∈ options ∧ text opt.name = name ∨
      options.filter (fun opt => name.isPrefixOf (text opt.name)) = [opt] := by
  unfold findOption at h
  split at h
  case h_1 opt' hfind =>
      obtain rfl := Option.some.inj h
      exact .inl ⟨List.mem_of_find?_eq_some hfind, by simpa using List.find?_some hfind⟩
  case h_2 =>
      split at h
      case h_1 opt' hfilter =>
          obtain rfl := Option.some.inj h
          exact .inr hfilter
      case h_2 => cases h

theorem mem_of_findOption {name : List Byte} {opt : LongOption α}
    (h : findOption options name = some opt) : opt ∈ options := by
  obtain ⟨hmem, -⟩ | hfilter := findOption_cases h
  · exact hmem
  · have hmem : opt ∈ options.filter fun opt => name.isPrefixOf (text opt.name) := by
      rw [hfilter]
      exact List.mem_singleton_self opt
    exact (List.mem_filter.1 hmem).1

theorem undash_cases {word s : List Byte} (h : undash word = some s) :
    word = ascii '-' :: ascii '-' :: s ∨ word = ascii '-' :: s := by
  unfold undash at h
  split at h
  case h_1 dash c rest =>
      split at h
      case isTrue hdash =>
          obtain rfl := Option.some.inj h
          subst hdash
          split
          case isTrue hc => exact .inl (by rw [hc])
          case isFalse => exact .inr rfl
      case isFalse => cases h
  case h_2 => cases h

theorem reading_cases {word : List Byte} {opt : LongOption α}
    {value : Option (List Byte)} (h : reading options word = .option opt value) :
    ∃ s, undash word = some s ∧
      findOption options (s.takeWhile (· ≠ ascii '=')) = some opt ∧ value = attached s := by
  unfold reading at h
  split at h
  case h_1 => cases h
  case h_2 => cases h
  case h_3 s _ hundash =>
      split at h
      case h_1 => cases h
      case h_2 hfind =>
          cases h
          exact ⟨s, hundash, hfind, rfl⟩

theorem mem_of_reading {word : List Byte} {opt : LongOption α}
    {value : Option (List Byte)} (h : reading options word = .option opt value) :
    opt ∈ options := by
  obtain ⟨s, -, hfind, -⟩ := reading_cases h
  exact mem_of_findOption hfind

theorem find?_of_nodup {β : Type} [DecidableEq β] {key : LongOption α → β}
    {opt : LongOption α} (hkey : (options.map key).Nodup) (hopt : opt ∈ options) :
    options.find? (fun opt' => key opt' = key opt) = some opt := by
  cases hfind : options.find? fun opt' => key opt' = key opt with
  | none => exact absurd (decide_eq_true rfl) (List.find?_eq_none.1 hfind opt hopt)
  | some opt' =>
      have hmem := List.mem_of_find?_eq_some hfind
      have heq : key opt' = key opt := by simpa using List.find?_some hfind
      rw [List.inj_on_of_nodup_map hkey hmem hopt heq]

variable {opt : LongOption α} (hnames : PlainNames options) (hopt : opt ∈ options)
include hnames hopt

theorem findOption_of_mem : findOption options (text opt.name) = some opt := by
  rw [findOption, find?_of_nodup hnames.distinct hopt]

/-- The word for an option is read as it. -/
theorem reading_optionWord (value : Option (List Byte)) :
    reading options (optionWord opt.name value) = .option opt value := by
  obtain ⟨hne, heq⟩ := hnames.plain opt hopt
  have hname : ∀ c ∈ text opt.name, decide (c ≠ ascii '=') = true :=
    fun c hc => decide_eq_true (ne_of_mem_of_not_mem hc heq)
  obtain ⟨c, s, hcs⟩ := List.exists_cons_of_ne_nil hne
  cases value with
  | none =>
      have htake : (text opt.name).takeWhile (· ≠ ascii '=') = text opt.name :=
        List.takeWhile_eq_self_iff.2 hname
      have hdrop : (text opt.name).dropWhile (· ≠ ascii '=') = [] :=
        List.dropWhile_eq_nil_iff.2 hname
      have hattached : attached (text opt.name) = none := by rw [attached, hdrop]
      have hundash : undash (optionWord opt.name none) = some (c :: s) := by
        rw [optionWord, hcs]
        rfl
      rw [reading, hundash]
      dsimp only
      rw [← hcs, htake, findOption_of_mem hnames hopt, hattached]
  | some value =>
      have htake : (text opt.name ++ ascii '=' :: value).takeWhile (· ≠ ascii '=') =
          text opt.name := by
        rw [List.takeWhile_append_of_pos hname, List.takeWhile_cons_of_neg (by simp),
          List.append_nil]
      have hattached : attached (text opt.name ++ ascii '=' :: value) = some value := by
        rw [attached, List.dropWhile_append_of_pos hname, List.dropWhile_cons_of_neg (by simp)]
      have hundash : undash (optionWord opt.name (some value)) =
          some (c :: (s ++ ascii '=' :: value)) := by
        rw [optionWord, hcs]
        rfl
      rw [reading, hundash]
      dsimp only
      rw [← List.cons_append, ← hcs, htake, findOption_of_mem hnames hopt, hattached]

theorem getoptLongOnly_of_mem {value : Option (List Byte)}
    (harg : opt.hasArg = .required ∧ value.isSome ∨ opt.hasArg = .optional) :
    getoptLongOnly options ⟨opt.name, value⟩ = some opt.val := by
  have hdistinct : (options.map LongOption.name).Nodup := by
    refine List.Nodup.of_map text ?_
    rw [List.map_map]
    exact hnames.distinct
  rw [getoptLongOnly, find?_of_nodup hdistinct hopt]
  obtain ⟨harg, hvalue⟩ | harg := harg
  · obtain ⟨v, rfl⟩ := Option.isSome_iff_exists.1 hvalue
    simp only [harg]
  · simp only [harg]

theorem getoptAll_required (harg : opt.hasArg = .required) (value : List Byte)
    (argv : List (List Byte)) :
    getoptAll options (optionWord opt.name none :: value :: argv) =
      (some opt.val, some value) :: getoptAll options argv := by
  rw [getoptAll, reading_optionWord hnames hopt]
  simp only [harg]
  rw [getoptLongOnly_of_mem hnames hopt (.inl ⟨harg, rfl⟩)]

theorem getoptAll_optional (harg : opt.hasArg = .optional) (value : Option (List Byte))
    (argv : List (List Byte)) :
    getoptAll options (optionWord opt.name value :: argv) =
      (some opt.val, value) :: getoptAll options argv := by
  rw [getoptAll, reading_optionWord hnames hopt]
  simp only [harg]
  rw [getoptLongOnly_of_mem hnames hopt (.inr harg)]

end

end Cli
