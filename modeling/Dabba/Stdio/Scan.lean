import Dabba.Stdio.Numeral
import Mathlib.Data.List.DropRight

/-!
# Formatted input

`sscanf` with the directives `%d`, `%u` and `%x`, an optional field width,
literal characters and white space. A conversion skips white space, takes the
longest beginning of the text that is a sign, a prefix `0x` where the base is
sixteen, and digits, and stores the low 32 bits of its value. The text of a C
string ends before its first null byte.
-/

namespace Stdio

open Posix

/-- The conversions to an integer of 32 bits. -/
inductive Conversion where
  | d
  | u
  | x
deriving DecidableEq, Repr

def Conversion.base : Conversion → ℕ
  | .d => 10
  | .u => 10
  | .x => 16

/-- The low 32 bits of a number read by `strtoul`: a value beyond the largest
`unsigned long` becomes that one, any other is negated after a minus sign. -/
def strtoul (neg : Bool) (v : ℕ) : BitVec 32 :=
  if 2 ^ 64 ≤ v then BitVec.ofNat 32 (2 ^ 64 - 1)
  else if neg then -BitVec.ofNat 32 v
  else BitVec.ofNat 32 v

/-- The low 32 bits of a number read by `strtol`, which is kept between the
smallest and the largest `long`. -/
def strtol (neg : Bool) (v : ℕ) : BitVec 32 :=
  if neg then -BitVec.ofNat 32 (min v (2 ^ 63))
  else BitVec.ofNat 32 (min v (2 ^ 63 - 1))

def Conversion.value : Conversion → Bool → ℕ → BitVec 32
  | .d => strtol
  | .u => strtoul
  | .x => strtoul

def isspace (c : Byte) : Bool :=
  c = ascii ' ' ∨ BitVec.ofNat 8 9 ≤ c ∧ c ≤ BitVec.ofNat 8 13

def scanSign : List Byte → Bool × List Byte
  | [] => (false, [])
  | c :: s =>
      if c = ascii '-' then (true, s)
      else if c = ascii '+' then (false, s)
      else (false, c :: s)

def dropPrefix : Conversion → List Byte → List Byte
  | .x, z :: c :: s =>
      if z = ascii '0' ∧ (c = ascii 'x' ∨ c = ascii 'X') then s else z :: c :: s
  | _, s => s

/-- Reads one number from the beginning of a text: its value and the text
behind it. Without a digit nothing is converted. -/
def scanNumber (conv : Conversion) (s : List Byte) :
    Option (BitVec 32 × List Byte) :=
  let (neg, s) := scanSign s
  match dropPrefix conv s with
  | [] => none
  | c :: s =>
      if (digit? conv.base c).isSome then
        let (v, rest) := scanDigits conv.base 0 (c :: s)
        some (conv.value neg v, rest)
      else none

inductive Directive where
  /-- White space of any length. -/
  | space
  /-- One character. -/
  | lit (c : Byte)
  /-- A number of at most `width` characters. -/
  | number (conv : Conversion) (width : Option ℕ)

/-- Reads one number behind white space, within the field width. -/
def scanField (conv : Conversion) (width : Option ℕ) (s : List Byte) :
    Option (BitVec 32 × List Byte) :=
  let s := s.dropWhile isspace
  match width with
  | none => scanNumber conv s
  | some w => (scanNumber conv (s.take w)).map fun r => (r.1, r.2 ++ s.drop w)

/-- The values stored while the text matches the format, in order. Their number
is what `sscanf` returns; where there is none it may return `EOF` instead. -/
def scan : List Directive → List Byte → List (BitVec 32)
  | [], _ => []
  | .space :: fmt, s => scan fmt (s.dropWhile isspace)
  | .lit _ :: _, [] => []
  | .lit c :: fmt, c' :: s => if c' = c then scan fmt s else []
  | .number conv width :: fmt, s =>
      match scanField conv width s with
      | none => []
      | some (v, rest) => v :: scan fmt rest

def cstring (buff : List Byte) : List Byte :=
  buff.takeWhile (· ≠ 0)

def sscanf (fmt : List Directive) (buff : List Byte) : List (BitVec 32) :=
  scan fmt (cstring buff)

theorem cstring_append_null {t : List Byte} (ht : (0 : Byte) ∉ t) (post : List Byte) :
    cstring (t ++ 0 :: post) = t := by
  rw [cstring, List.takeWhile_append_of_pos]
  · simp
  · intro c hc
    refine decide_eq_true ?_
    rintro rfl
    exact ht hc

theorem cstring_of_not_mem {t : List Byte} (ht : (0 : Byte) ∉ t) : cstring t = t := by
  rw [cstring, List.takeWhile_eq_self_iff]
  intro c hc
  refine decide_eq_true ?_
  rintro rfl
  exact ht hc

theorem Conversion.one_lt_base (conv : Conversion) : 1 < conv.base := by
  cases conv <;> decide

theorem Conversion.base_le (conv : Conversion) : conv.base ≤ 16 := by
  cases conv <;> decide

def EndsNumber (c : Byte) : Prop :=
  digitValue c = none ∧ c ≠ ascii 'x' ∧ c ≠ ascii 'X'

instance (c : Byte) : Decidable (EndsNumber c) :=
  inferInstanceAs (Decidable (_ ∧ _))

/-- A number at the beginning of the text would end there. -/
def AtEnd (s : List Byte) : Prop :=
  ∀ c ∈ s.head?, EndsNumber c

theorem atEnd_nil : AtEnd [] := by
  intro c hc
  simp at hc

theorem atEnd_cons {c : Byte} (h : EndsNumber c) (s : List Byte) : AtEnd (c :: s) := by
  intro c' hc'
  rw [List.head?_cons, Option.mem_some_iff] at hc'
  rwa [← hc']

theorem AtEnd.noDigit {s : List Byte} (h : AtEnd s) (b : ℕ) : NoDigit b s := by
  intro c hc
  rw [digit?, (h c hc).1]
  rfl

theorem of_isspace {c : Byte} (h : isspace c = true) : EndsNumber c ∧ c ≠ 0 := by
  revert h
  exact (by decide : ∀ c : Byte, isspace c = true → EndsNumber c ∧ c ≠ 0) c

theorem of_isSome_digit? {b : ℕ} {c : Byte} (h : (digit? b c).isSome = true) :
    isspace c = false ∧ c ≠ ascii '-' ∧ c ≠ ascii '+' ∧ c ≠ ascii 'x' ∧
      c ≠ ascii 'X' := by
  have hvalue : (digitValue c).isSome = true := Option.isSome_of_isSome_filter _ _ h
  revert hvalue
  exact (by decide : ∀ c : Byte, (digitValue c).isSome = true → isspace c = false ∧
    c ≠ ascii '-' ∧ c ≠ ascii '+' ∧ c ≠ ascii 'x' ∧ c ≠ ascii 'X') c

section

variable {conv : Conversion} {t : List Byte}

/-- The prefix of base sixteen is not found in a run of digits. -/
theorem dropPrefix_digits (hdigits : ∀ c ∈ t, (digit? conv.base c).isSome = true)
    {s : List Byte} (hs : AtEnd s) : dropPrefix conv (t ++ s) = t ++ s := by
  match conv, t with
  | .d, _ => rfl
  | .u, _ => rfl
  | .x, [] =>
      match s with
      | [] => rfl
      | [_] => rfl
      | z :: c :: s =>
          have hz : z ≠ ascii '0' := by
            rintro rfl
            have hzero : digitValue (ascii '0') = none := (hs (ascii '0') (by simp)).1
            exact absurd hzero (by decide)
          exact if_neg fun h => hz h.1
  | .x, [z] =>
      match s with
      | [] => rfl
      | c :: s =>
          have hc := (hs c (by simp)).2
          exact if_neg fun h => h.2.elim hc.1 hc.2
  | .x, z :: c :: t =>
      have hc := (of_isSome_digit? (hdigits c (by simp))).2.2.2
      exact if_neg fun h => h.2.elim hc.1 hc.2

theorem scanNumber_digits (ht : t ≠ [])
    (hdigits : ∀ c ∈ t, (digit? conv.base c).isSome = true) {s : List Byte}
    (hs : AtEnd s) {v : ℕ} (hv : scanDigits conv.base 0 (t ++ s) = (v, s)) :
    scanNumber conv (t ++ s) = some (conv.value false v, s) := by
  have hprefix := dropPrefix_digits hdigits hs
  obtain ⟨c, t, rfl⟩ := List.exists_cons_of_ne_nil ht
  have hc := hdigits c (by simp)
  obtain ⟨-, hminus, hplus, -⟩ := of_isSome_digit? hc
  rw [List.cons_append] at hprefix hv ⊢
  have hsign : scanSign (c :: (t ++ s)) = (false, c :: (t ++ s)) := by
    rw [scanSign, if_neg hminus, if_neg hplus]
  simp only [scanNumber, hsign, hprefix, hc, if_true, hv]

theorem dropWhile_isspace_digits (ht : t ≠ [])
    (hdigits : ∀ c ∈ t, (digit? conv.base c).isSome = true) (s : List Byte) :
    (t ++ s).dropWhile isspace = t ++ s := by
  obtain ⟨c, t, rfl⟩ := List.exists_cons_of_ne_nil ht
  have hspace := (of_isSome_digit? (hdigits c (by simp))).1
  rw [List.cons_append, List.dropWhile_cons_of_neg (by simp [hspace])]

end

section Digits

variable (conv : Conversion) {t s : List Byte}

theorem scanField_digits (ht : t ≠ [])
    (hdigits : ∀ c ∈ t, (digit? conv.base c).isSome = true) (hs : AtEnd s) :
    scanField conv none (t ++ s) =
      some (conv.value false (digitsValue conv.base t), s) := by
  rw [scanField, dropWhile_isspace_digits ht hdigits]
  exact scanNumber_digits ht hdigits hs (scanDigits_digits hdigits (hs.noDigit _))

theorem AtEnd.take (hs : AtEnd s) (n : ℕ) : AtEnd (s.take n) := by
  intro c hc
  rw [List.head?_take] at hc
  split at hc
  case isTrue => cases hc
  case isFalse => exact hs c hc

theorem scanField_digits_width (w : ℕ) (hw : 0 < w) (ht : t ≠ [])
    (hdigits : ∀ c ∈ t, (digit? conv.base c).isSome = true) (hs : AtEnd s) :
    ∃ rest, scanField conv (some w) (t ++ s) =
      some (conv.value false (digitsValue conv.base (t.take w)), rest) := by
  have htake : t.take w ≠ [] := by
    rw [ne_eq, List.take_eq_nil_iff]
    rintro (h | h)
    · omega
    · exact ht h
  have hdigits' : ∀ c ∈ t.take w, (digit? conv.base c).isSome = true :=
    fun c hc => hdigits c (List.mem_of_mem_take hc)
  have hend := hs.take (w - t.length)
  have hread := scanNumber_digits htake hdigits' hend
    (scanDigits_digits hdigits' (hend.noDigit _))
  refine ⟨s.take (w - t.length) ++ (t ++ s).drop w, ?_⟩
  rw [scanField, dropWhile_isspace_digits ht hdigits, List.take_append, hread]
  rfl

end Digits

/-- A number filled up to the field width is read as a whole. -/
theorem scanField_padded (conv : Conversion) {w n : ℕ} (hw : 0 < w)
    (hn : n < conv.base ^ w) (s : List Byte) :
    scanField conv (some w) (padded w conv.base n ++ s) =
      some (conv.value false n, s) := by
  have hb := conv.one_lt_base
  have hb' := conv.base_le
  have hdigits : ∀ c ∈ padded w conv.base n, (digit? conv.base c).isSome = true :=
    fun c hc => isSome_digit?_of_mem_padded hb hb' hc
  have hlen := length_padded hb hw hn
  have hne : padded w conv.base n ≠ [] := by
    rw [← List.length_pos_iff, hlen]
    exact hw
  have hread : scanNumber conv (padded w conv.base n) =
      some (conv.value false n, []) := by
    have h := scanNumber_digits hne hdigits atEnd_nil
      (scanDigits_padded hb hb' w n (noDigit_nil _))
    rwa [List.append_nil] at h
  rw [scanField, dropWhile_isspace_digits hne hdigits]
  rw [List.take_left' hlen, List.drop_left' hlen, hread]
  rfl

theorem strtoul_false {n : ℕ} (hn : n < 2 ^ 64) :
    strtoul false n = BitVec.ofNat 32 n := by
  rw [strtoul, if_neg (by omega), if_neg Bool.false_ne_true]

theorem strtol_false {n : ℕ} (hn : n < 2 ^ 63) :
    strtol false n = BitVec.ofNat 32 n := by
  rw [strtol, if_neg Bool.false_ne_true, min_eq_left (by omega)]

theorem Conversion.value_false (conv : Conversion) {n : ℕ} (hn : n < 2 ^ 63) :
    conv.value false n = BitVec.ofNat 32 n := by
  cases conv with
  | d => exact strtol_false hn
  | u => exact strtoul_false (by omega)
  | x => exact strtoul_false (by omega)

theorem Conversion.value_of_toNat (conv : Conversion) {x : BitVec 32} {n : ℕ}
    (h : x.toNat = n) : conv.value false n = x := by
  have hlt := x.isLt
  rw [Conversion.value_false _ (by omega), ← h, BitVec.ofNat_toNat, BitVec.setWidth_eq]

section

variable (fmt : List Directive)

theorem scan_lit (c : Byte) (s : List Byte) :
    scan (.lit c :: fmt) (c :: s) = scan fmt s := by
  rw [scan, if_pos rfl]

theorem scan_number {conv : Conversion} {width : Option ℕ} {s rest : List Byte}
    {v : BitVec 32} (h : scanField conv width s = some (v, rest)) :
    scan (.number conv width :: fmt) s = v :: scan fmt rest := by
  rw [scan, h]

theorem scan_space_number (conv : Conversion) (width : Option ℕ) (s : List Byte) :
    scan (.space :: .number conv width :: fmt) s =
      scan (.number conv width :: fmt) s := by
  have hfield : scanField conv width (s.dropWhile isspace) = scanField conv width s := by
    simp only [scanField, List.dropWhile_idempotent isspace s]
  rw [scan, scan, scan, hfield]

theorem scan_space_cons {c : Byte} (hc : isspace c = true) (s : List Byte) :
    scan (.space :: fmt) (c :: s) = scan (.space :: fmt) s := by
  rw [scan, scan, List.dropWhile_cons_of_pos hc]

theorem scan_space_append {w : List Byte} (hw : ∀ c ∈ w, isspace c = true)
    (s : List Byte) : scan (.space :: fmt) (w ++ s) = scan (.space :: fmt) s := by
  induction w with
  | nil => rfl
  | cons c w ih =>
      rw [List.cons_append, scan_space_cons _ (hw c List.mem_cons_self)]
      exact ih fun c' hc' => hw c' (List.mem_cons_of_mem c hc')

theorem scan_space_of_not {c : Byte} (hc : isspace c = false) (s : List Byte) :
    scan (.space :: fmt) (c :: s) = scan fmt (c :: s) := by
  rw [scan, List.dropWhile_cons_of_neg (by simp [hc])]

end

section Literals

def literals (fmt : List Directive) : List Byte :=
  fmt.filterMap fun
    | .lit c => some c
    | _ => none

def conversions (fmt : List Directive) : ℕ :=
  fmt.countP fun
    | .number _ _ => true
    | _ => false

variable {conv : Conversion} {width : Option ℕ} {s rest : List Byte} {v : BitVec 32}

theorem scanSign_sublist (s : List Byte) : (scanSign s).2.Sublist s := by
  unfold scanSign
  split
  case h_1 => exact .slnil
  case h_2 c s =>
      split
      · exact List.sublist_cons_self c s
      · split
        · exact List.sublist_cons_self c s
        · exact .refl _

theorem dropPrefix_sublist (conv : Conversion) (s : List Byte) :
    (dropPrefix conv s).Sublist s := by
  unfold dropPrefix
  split
  case h_1 z c s =>
      split
      · exact (List.sublist_cons_self c s).cons z
      · exact .refl _
  case h_2 => exact .refl _

theorem scanDigits_sublist (b v : ℕ) (s : List Byte) : (scanDigits b v s).2.Sublist s := by
  induction s generalizing v with
  | nil => exact .slnil
  | cons c s ih =>
      rw [scanDigits]
      split
      · exact (ih _).cons c
      · exact .refl _

theorem scanNumber_sublist (h : scanNumber conv s = some (v, rest)) : rest.Sublist s := by
  have hbegin := (dropPrefix_sublist conv (scanSign s).2).trans (scanSign_sublist s)
  rw [scanNumber] at h
  dsimp only at h
  split at h
  case h_1 => cases h
  case h_2 c t heq =>
      split at h
      case isTrue =>
          obtain rfl := (Prod.ext_iff.1 (Option.some.inj h)).2
          rw [heq] at hbegin
          exact (scanDigits_sublist _ _ _).trans hbegin
      case isFalse => cases h

theorem scanField_sublist (h : scanField conv width s = some (v, rest)) :
    rest.Sublist s := by
  have hspace := List.dropWhile_sublist isspace (l := s)
  cases width with
  | none => exact (scanNumber_sublist h).trans hspace
  | some w =>
      rw [scanField] at h
      obtain ⟨⟨v', rest'⟩, hread, heq⟩ := Option.map_eq_some_iff.1 h
      obtain rfl := (Prod.ext_iff.1 heq).2
      have htake := (scanNumber_sublist hread).append_right ((s.dropWhile isspace).drop w)
      rw [List.take_append_drop] at htake
      exact htake.trans hspace

theorem conversions_number (pre : List Directive) :
    conversions (.number conv width :: pre) = conversions pre + 1 :=
  List.countP_cons_of_pos rfl

/-- No more numbers are stored than the format asks for. -/
theorem length_scan_le (fmt : List Directive) (s : List Byte) :
    (scan fmt s).length ≤ conversions fmt := by
  induction fmt generalizing s with
  | nil => exact Nat.zero_le _
  | cons d fmt ih =>
      cases d with
      | space => exact ih _
      | lit c =>
          cases s with
          | nil => exact Nat.zero_le _
          | cons c' s =>
              rw [scan]
              split
              · exact ih s
              · exact Nat.zero_le _
      | number conv width =>
          rw [scan, conversions_number]
          split
          · exact Nat.zero_le _
          · exact Nat.succ_le_succ (ih _)

theorem scan_eq_nil {fmt : List Directive} (h : conversions fmt = 0) (s : List Byte) :
    scan fmt s = [] := by
  have hlen := length_scan_le fmt s
  rw [h] at hlen
  exact List.eq_nil_of_length_eq_zero (Nat.le_zero.1 hlen)

/-- Where a number is stored, the characters that the format asks for in front of it stand
in the text. -/
theorem literals_sublist {pre post : List Directive} {s : List Byte}
    (h : conversions pre < (scan (pre ++ post) s).length) : (literals pre).Sublist s := by
  induction pre generalizing s with
  | nil => exact List.nil_sublist s
  | cons d pre ih =>
      cases d with
      | space => exact (ih h).trans (List.dropWhile_sublist isspace)
      | lit c =>
          cases s with
          | nil => exact absurd h (Nat.not_lt_zero _)
          | cons c' s =>
              rw [List.cons_append, scan] at h
              split at h
              case isTrue heq =>
                  rw [heq]
                  exact (ih h).cons_cons c
              case isFalse => exact absurd h (Nat.not_lt_zero _)
      | number conv width =>
          rw [List.cons_append, scan] at h
          split at h
          case h_1 => exact absurd h (Nat.not_lt_zero _)
          case h_2 v rest heq =>
              rw [conversions_number] at h
              exact (ih (Nat.lt_of_succ_lt_succ h)).trans (scanField_sublist heq)

end Literals

end Stdio
