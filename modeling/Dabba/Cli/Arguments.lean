import Dabba.Last.Basic
import Dabba.Stdio.Field

/-!
# Arguments of a command

The long options of a command are a table, and `getopt_long_only` answers every word of
the command line with the code of its entry. A value is a text that the command turns into
a number or a truth value.
-/

namespace Cli

open Posix Stdio Last

inductive HasArg
  | no
  | required
  | optional
deriving DecidableEq

structure LongOption (α : Type) where
  name : String
  hasArg : HasArg
  val : α

/-- A word of the command line: the name of an option, and the value given with it. -/
structure Word where
  name : String
  optarg : Option (List Byte)

/-- The code that `getopt_long_only` returns for a word. Nothing stands for the question
mark: no entry has the name, or the value is missing or one too many. -/
def getoptLongOnly {α : Type} (options : List (LongOption α)) (word : Word) : Option α :=
  match options.find? (·.name = word.name) with
  | none => none
  | some opt =>
      match opt.hasArg, word.optarg with
      | .required, none => none
      | .no, some _ => none
      | _, _ => some opt.val

def text (s : String) : List Byte := s.toList.map ascii

def tolower (c : Byte) : Byte :=
  if ascii 'A' ≤ c ∧ c ≤ ascii 'Z' then c + 32 else c

/-- The texts are the same when case is ignored; the code has `!strcasecmp`. -/
def strcaseeq (s t : List Byte) : Bool := s.map tolower = t.map tolower

/-- Parses a truth value; nothing stands for `EINVAL`. -/
def str2bool (str : List Byte) : Option Bool :=
  if strcaseeq str (text "false") then some false
  else if strcaseeq str (text "true") then some true
  else none

/-- `strtoul` in base ten, stored with its low 32 bits. Without a number it is zero. -/
def strtoulTen (str : List Byte) : BitVec 32 :=
  match scanField .u none str with
  | none => 0
  | some (v, _) => v

/-- `strtoull` in base ten. Without a number it is zero, and a number that is too large
becomes the largest one. -/
def strtoull (str : List Byte) : BitVec 64 :=
  let (neg, s) := scanSign (str.dropWhile isspace)
  let v := (scanDigits 10 0 s).1
  if 2 ^ 64 ≤ v then BitVec.ofNat 64 (2 ^ 64 - 1)
  else if neg then -BitVec.ofNat 64 v
  else BitVec.ofNat 64 v

inductive AddressType
  | tcp
  | localSocket

def defaultTcpServerName : List Byte := text "localhost:55994"

def defaultLocalServerName : List Byte := text "/var/run/dabba/dabba"

theorem str2bool_text (b : Bool) :
    str2bool (text (if b then "true" else "false")) = some b := by
  cases b <;> decide

theorem strtoulTen_digits (n : Numeral 10) {x : BitVec 32} (h : x.toNat = n.value) :
    strtoulTen n.digits = x := by
  have hread := scanField_digits .u n.ne_nil n.isDigit atEnd_nil
  rw [List.append_nil] at hread
  rw [strtoulTen, hread]
  exact Conversion.value_of_toNat .u h

theorem strtoull_numeral {n : ℕ} (h : n < 2 ^ 64) :
    strtoull (numeral 10 n) = BitVec.ofNat 64 n := by
  have hdigits : ∀ c ∈ numeral 10 n, (digit? 10 c).isSome = true :=
    fun c hc => isSome_digit?_of_mem_numeral (by decide) (by decide) hc
  have hspace : (numeral 10 n).dropWhile isspace = numeral 10 n := by
    have hspace := @dropWhile_isspace_digits .u _ (numeral_ne_nil 10 n) hdigits []
    rwa [List.append_nil] at hspace
  have hsign : scanSign (numeral 10 n) = (false, numeral 10 n) := by
    obtain ⟨c, t, ht⟩ := List.exists_cons_of_ne_nil (numeral_ne_nil 10 n)
    rw [ht] at hdigits ⊢
    obtain ⟨-, hminus, hplus, -⟩ := of_isSome_digit? (hdigits c List.mem_cons_self)
    rw [scanSign, if_neg hminus, if_neg hplus]
  have hread := scanDigits_numeral (b := 10) (by decide) (by decide) n (noDigit_nil 10)
  rw [List.append_nil] at hread
  rw [strtoull, hspace, hsign]
  dsimp only
  rw [hread, if_neg (Nat.not_le.2 h), if_neg Bool.false_ne_true]

theorem strtoull_dash {c : Byte} (hc : digit? 10 c = none) (s : List Byte) :
    strtoull (ascii '-' :: c :: s) = 0 := by
  have hspace : (ascii '-' :: c :: s).dropWhile isspace = ascii '-' :: c :: s :=
    List.dropWhile_cons_of_neg (by decide)
  have hsign : scanSign (ascii '-' :: c :: s) = (true, c :: s) := rfl
  have hno : NoDigit 10 (c :: s) := by
    intro c' hc'
    obtain rfl := Option.some.inj hc'
    exact hc
  have hbound : ¬ 2 ^ 64 ≤ 0 := by decide
  rw [strtoull, hspace, hsign]
  dsimp only
  rw [scanDigits_of_noDigit hno, if_neg hbound, if_pos rfl, BitVec.neg_zero]
  rfl

end Cli
