import Dabba.Posix.Bytes
import Mathlib.Data.List.Induction

/-!
# Numerals

Numbers as sequences of characters: `numeral b n` writes `n` in base `b` without
leading zeros, the digits above nine as lower-case letters, and `scanDigits`
reads the longest run of digits a text begins with. Both work in any base up to
sixteen, and reading what was written gives the number back whatever follows it,
as long as the next character is not a digit itself.
-/

namespace Stdio

open Posix

def ascii (c : Char) : Byte := BitVec.ofNat 8 c.toNat

/-- The value of a digit in any base up to sixteen, upper case included. -/
def digitValue (c : Byte) : Option ℕ :=
  if ascii '0' ≤ c ∧ c ≤ ascii '9' then some (c.toNat - 48)
  else if ascii 'a' ≤ c ∧ c ≤ ascii 'f' then some (c.toNat - 87)
  else if ascii 'A' ≤ c ∧ c ≤ ascii 'F' then some (c.toNat - 55)
  else none

def digit? (b : ℕ) (c : Byte) : Option ℕ :=
  (digitValue c).filter (· < b)

/-- The number `n` in base `b`, without leading zeros. -/
def numeral (b n : ℕ) : List Byte :=
  (Nat.toDigits b n).map ascii

/-- The number `n` in base `b`, filled up with zeros to `w` digits. -/
def padded (w b n : ℕ) : List Byte :=
  List.replicate (w - (numeral b n).length) (ascii '0') ++ numeral b n

/-- Reads the longest run of digits: its value, counted on from `v`, and the
text behind it. -/
def scanDigits (b : ℕ) : ℕ → List Byte → ℕ × List Byte
  | v, [] => (v, [])
  | v, c :: s =>
      match digit? b c with
      | some d => scanDigits b (b * v + d) s
      | none => (v, c :: s)

def digitsValue (b : ℕ) (t : List Byte) : ℕ :=
  t.foldl (fun v c => b * v + (digit? b c).getD 0) 0

/-- The text does not begin with a digit of base `b`. -/
def NoDigit (b : ℕ) (s : List Byte) : Prop :=
  ∀ c ∈ s.head?, digit? b c = none

theorem noDigit_nil (b : ℕ) : NoDigit b [] := by
  intro c hc
  simp at hc

theorem digit?_digitChar {b d : ℕ} (hd : d < b) (hb : b ≤ 16) :
    digit? b (ascii d.digitChar) = some d := by
  have hvalue : ∀ d : Fin 16, digitValue (ascii d.val.digitChar) = some d.val := by
    decide
  rw [digit?, hvalue ⟨d, hd.trans_le hb⟩]
  exact Option.filter_some_pos (decide_eq_true hd)

theorem numeral_of_lt {b n : ℕ} (h : n < b) : numeral b n = [ascii n.digitChar] := by
  rw [numeral, Nat.toDigits_of_lt_base h]
  rfl

theorem numeral_of_le {b n : ℕ} (hb : 1 < b) (h : b ≤ n) :
    numeral b n = numeral b (n / b) ++ [ascii (n % b).digitChar] := by
  rw [numeral, Nat.toDigits_of_base_le hb h, List.map_append]
  rfl

theorem numeral_ne_nil (b n : ℕ) : numeral b n ≠ [] := by
  rw [numeral, ne_eq, List.map_eq_nil_iff]
  exact Nat.toDigits_ne_nil

theorem isSome_digit?_of_mem_numeral {b n : ℕ} (hb : 1 < b) (hb' : b ≤ 16)
    {c : Byte} (hc : c ∈ numeral b n) : (digit? b c).isSome = true := by
  induction n using Nat.strong_induction_on with
  | _ n ih =>
      rcases lt_or_ge n b with h | h
      · rw [numeral_of_lt h, List.mem_singleton] at hc
        rw [hc, digit?_digitChar h hb', Option.isSome_some]
      · rw [numeral_of_le hb h, List.mem_append, List.mem_singleton] at hc
        rcases hc with hc | rfl
        · exact ih (n / b) (Nat.div_lt_self (by omega) hb) hc
        · rw [digit?_digitChar (Nat.mod_lt n (by omega)) hb', Option.isSome_some]

theorem scanDigits_of_noDigit {b : ℕ} {s : List Byte} (h : NoDigit b s) (v : ℕ) :
    scanDigits b v s = (v, s) := by
  cases s with
  | nil => rfl
  | cons c s => rw [scanDigits, h c (by simp)]

theorem scanDigits_append {b : ℕ} {t : List Byte}
    (ht : ∀ c ∈ t, (digit? b c).isSome = true) (v : ℕ) (s : List Byte) :
    scanDigits b v (t ++ s) = scanDigits b (scanDigits b v t).1 s := by
  induction t generalizing v with
  | nil => rfl
  | cons c t ih =>
      obtain ⟨d, hd⟩ := Option.isSome_iff_exists.1 (ht c List.mem_cons_self)
      have hread : ∀ s, scanDigits b v (c :: s) = scanDigits b (b * v + d) s := by
        intro s
        rw [scanDigits, hd]
      rw [List.cons_append, hread, hread,
        ih fun c' hc' => ht c' (List.mem_cons_of_mem c hc')]

theorem scanDigits_eq_foldl {b : ℕ} {t : List Byte}
    (ht : ∀ c ∈ t, (digit? b c).isSome = true) (v : ℕ) :
    (scanDigits b v t).1 = t.foldl (fun v c => b * v + (digit? b c).getD 0) v := by
  induction t generalizing v with
  | nil => rfl
  | cons c t ih =>
      obtain ⟨d, hd⟩ := Option.isSome_iff_exists.1 (ht c List.mem_cons_self)
      rw [scanDigits, hd, List.foldl_cons, hd]
      exact ih (fun c' hc' => ht c' (List.mem_cons_of_mem c hc')) _

theorem scanDigits_digits {b : ℕ} {t : List Byte}
    (ht : ∀ c ∈ t, (digit? b c).isSome = true) {s : List Byte} (hs : NoDigit b s) :
    scanDigits b 0 (t ++ s) = (digitsValue b t, s) := by
  rw [scanDigits_append ht, scanDigits_of_noDigit hs, scanDigits_eq_foldl ht, digitsValue]

theorem digit?_lt {b d : ℕ} {c : Byte} (h : digit? b c = some d) : d < b := by
  simpa using (Option.filter_eq_some_iff.1 h).2

theorem digitsValue_lt {b : ℕ} (hb : 0 < b) (t : List Byte) :
    digitsValue b t < b ^ t.length := by
  induction t using List.reverseRecOn with
  | nil => exact Nat.one_pos
  | append_singleton t c ih =>
      have hdigit : (digit? b c).getD 0 < b := by
        cases hd : digit? b c with
        | none => exact hb
        | some d => exact digit?_lt hd
      have hvalue : digitsValue b (t ++ [c]) =
          b * digitsValue b t + (digit? b c).getD 0 := by
        rw [digitsValue, List.foldl_append]
        rfl
      rw [hvalue, List.length_append, List.length_singleton, Nat.pow_succ, Nat.mul_comm _ b]
      calc b * digitsValue b t + (digit? b c).getD 0
          < b * digitsValue b t + b := by omega
        _ = b * (digitsValue b t + 1) := by rw [Nat.mul_succ]
        _ ≤ b * b ^ t.length := Nat.mul_le_mul_left b ih

theorem scanDigits_digitChar {b d : ℕ} (hd : d < b) (hb : b ≤ 16) (v : ℕ)
    (s : List Byte) :
    scanDigits b v (ascii d.digitChar :: s) = scanDigits b (b * v + d) s := by
  rw [scanDigits, digit?_digitChar hd hb]

theorem scanDigits_replicate {b : ℕ} (hb : 1 < b) (hb' : b ≤ 16) (k : ℕ)
    (s : List Byte) :
    scanDigits b 0 (List.replicate k (ascii '0') ++ s) = scanDigits b 0 s := by
  induction k with
  | zero => rfl
  | succ k ih =>
      have hzero : scanDigits b 0 (ascii '0' :: (List.replicate k (ascii '0') ++ s)) =
          scanDigits b (b * 0 + 0) (List.replicate k (ascii '0') ++ s) :=
        scanDigits_digitChar (d := 0) (by omega) hb' 0 _
      rw [List.replicate_succ, List.cons_append, hzero]
      exact ih

theorem scanDigits_numeral_append {b : ℕ} (hb : 1 < b) (hb' : b ≤ 16) (n : ℕ)
    (s : List Byte) :
    scanDigits b 0 (numeral b n ++ s) = scanDigits b n s := by
  induction n using Nat.strong_induction_on generalizing s with
  | _ n ih =>
      rcases lt_or_ge n b with h | h
      · rw [numeral_of_lt h, List.singleton_append, scanDigits_digitChar h hb',
          Nat.mul_zero, Nat.zero_add]
      · have hlt : n / b < n := Nat.div_lt_self (by omega) hb
        rw [numeral_of_le hb h, List.append_assoc, ih _ hlt, List.singleton_append,
          scanDigits_digitChar (Nat.mod_lt n (by omega)) hb', Nat.div_add_mod]

theorem scanDigits_numeral {b : ℕ} (hb : 1 < b) (hb' : b ≤ 16) (n : ℕ)
    {s : List Byte} (hs : NoDigit b s) :
    scanDigits b 0 (numeral b n ++ s) = (n, s) := by
  rw [scanDigits_numeral_append hb hb', scanDigits_of_noDigit hs]

theorem scanDigits_padded {b : ℕ} (hb : 1 < b) (hb' : b ≤ 16) (w n : ℕ)
    {s : List Byte} (hs : NoDigit b s) :
    scanDigits b 0 (padded w b n ++ s) = (n, s) := by
  rw [padded, List.append_assoc, scanDigits_replicate hb hb',
    scanDigits_numeral hb hb' n hs]

theorem digitsValue_numeral {b : ℕ} (hb : 1 < b) (hb' : b ≤ 16) (n : ℕ) :
    digitsValue b (numeral b n) = n := by
  have hread := scanDigits_numeral hb hb' n (noDigit_nil b)
  rw [scanDigits_digits (fun _ hc => isSome_digit?_of_mem_numeral hb hb' hc)
    (noDigit_nil b)] at hread
  exact congrArg Prod.fst hread

theorem isSome_digit?_of_mem_padded {b w n : ℕ} (hb : 1 < b) (hb' : b ≤ 16)
    {c : Byte} (hc : c ∈ padded w b n) : (digit? b c).isSome = true := by
  rw [padded, List.mem_append] at hc
  rcases hc with hc | hc
  · have hzero : digit? b (ascii (Nat.digitChar 0)) = some 0 :=
      digit?_digitChar (by omega) hb'
    rw [(List.mem_replicate.1 hc).2]
    exact Option.isSome_iff_exists.2 ⟨0, hzero⟩
  · exact isSome_digit?_of_mem_numeral hb hb' hc

theorem digitsValue_padded {b : ℕ} (hb : 1 < b) (hb' : b ≤ 16) (w n : ℕ) :
    digitsValue b (padded w b n) = n := by
  have hread := scanDigits_padded hb hb' w n (noDigit_nil b)
  rw [scanDigits_digits (fun _ hc => isSome_digit?_of_mem_padded hb hb' hc)
    (noDigit_nil b)] at hread
  exact congrArg Prod.fst hread

theorem length_numeral_le {w b n : ℕ} (hb : 1 < b) (hw : 0 < w) (h : n < b ^ w) :
    (numeral b n).length ≤ w := by
  rw [numeral, List.length_map]
  exact (Nat.length_toDigits_le_iff hb hw).2 h

theorem length_padded {w b n : ℕ} (hb : 1 < b) (hw : 0 < w) (h : n < b ^ w) :
    (padded w b n).length = w := by
  have hlen := length_numeral_le hb hw h
  rw [padded, List.length_append, List.length_replicate]
  omega

end Stdio
