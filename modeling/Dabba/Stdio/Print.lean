import Dabba.Stdio.Numeral

/-!
# Formatted output into a buffer

A text that is put together by calls `off += snprintf(&str[off], len - off, ..)`.
Each call writes what fits and a null byte, and returns the length of the whole
text. The offset and the size are 64 bits wide, so a size behind the end of the
buffer wraps; a call that would write outside the buffer has no result. While
the text fits, the buffer holds it as a C string.
-/

namespace Stdio

open Posix

/-- A buffer and the offset of the next call. -/
structure Out where
  str : List Byte
  off : BitVec 64
deriving DecidableEq, Repr

/-- Stores some bytes at an offset, `none` if one of them is outside the
buffer. -/
def store (str : List Byte) (off : ℕ) (bytes : List Byte) : Option (List Byte) :=
  if bytes = [] then some str
  else if off + bytes.length ≤ str.length then
    some (str.take off ++ bytes ++ str.drop (off + bytes.length))
  else none

/-- One call that prints `text` into a buffer of `len` bytes. -/
def snprintf (len : BitVec 64) (text : List Byte) (out : Out) : Option Out :=
  let size := (len - out.off).toNat
  let bytes := if size = 0 then [] else text.take (size - 1) ++ [0]
  (store out.str out.off.toNat bytes).map fun str =>
    ⟨str, out.off + BitVec.ofNat 64 text.length⟩

/-- The calls so far have printed `text` into a buffer of `len` bytes. -/
structure Printed (len : BitVec 64) (text : List Byte) (out : Out) : Prop where
  length : out.str.length = len.toNat
  off : out.off.toNat = text.length
  take : out.str.take text.length = text
  -- Before the first call the buffer may hold anything.
  null : text ≠ [] → out.str[text.length]? = some 0

theorem printed_nil {len : BitVec 64} {str : List Byte} (hlen : str.length = len.toNat) :
    Printed len [] ⟨str, 0⟩ :=
  ⟨hlen, rfl, rfl, fun h => absurd rfl h⟩

/-- A text that fits is printed behind the text before it. -/
theorem snprintf_of_printed {len : BitVec 64} {text t : List Byte} {out : Out}
    (h : Printed len text out) (hfit : (text ++ t).length < len.toNat) :
    ∃ out', snprintf len t out = some out' ∧ Printed len (text ++ t) out' := by
  have hlen := len.isLt
  rw [List.length_append] at hfit
  have hsize : (len - out.off).toNat = len.toNat - text.length := by
    rw [BitVec.toNat_sub_of_le (by rw [BitVec.le_def, h.off]; omega), h.off]
  have hbytes : t.take (len.toNat - text.length - 1) ++ [0] = t ++ [0] := by
    rw [List.take_of_length_le (by omega)]
  have htext : (text ++ t ++ [0]).length = text.length + (t ++ [0]).length := by
    simp only [List.length_append, List.length_singleton]
    omega
  have hroom : text.length + (t ++ [0]).length ≤ out.str.length := by
    rw [h.length, List.length_append, List.length_singleton]
    omega
  have hoff : (out.off + BitVec.ofNat 64 t.length).toNat = (text ++ t).length := by
    rw [BitVec.toNat_add, BitVec.toNat_ofNat, h.off, List.length_append]
    omega
  refine ⟨⟨text ++ t ++ [0] ++ out.str.drop (text.length + (t ++ [0]).length),
    out.off + BitVec.ofNat 64 t.length⟩, ?_, ?_, hoff, ?_, fun _ => ?_⟩
  · simp only [snprintf, hsize, h.off, store]
    rw [if_neg (by omega : ¬ len.toNat - text.length = 0), hbytes, if_neg (by simp),
      if_pos hroom, h.take, Option.map_some]
    simp only [List.append_assoc]
  · rw [← h.length, List.length_append, htext, List.length_drop]
    omega
  · rw [List.append_assoc (text ++ t)]
    exact List.take_left
  · rw [List.append_assoc (text ++ t), List.getElem?_append_right le_rfl]
    simp

theorem Printed.takeWhile_ne {len : BitVec 64} {text : List Byte} {out : Out}
    (h : Printed len text out) (hne : text ≠ []) (htext : (0 : Byte) ∉ text) :
    out.str.takeWhile (· ≠ 0) = text := by
  have hnull := List.getElem?_eq_some_iff.1 (h.null hne)
  obtain ⟨hlt, hzero⟩ := hnull
  have hsplit : out.str = text ++ 0 :: out.str.drop (text.length + 1) := by
    conv_lhs => rw [← List.take_append_drop text.length out.str, h.take,
      List.drop_eq_getElem_cons hlt, hzero]
  rw [hsplit, List.takeWhile_append_of_pos]
  · simp
  · intro c hc
    refine decide_eq_true ?_
    rintro rfl
    exact htext hc

def printAll (len : BitVec 64) (ts : List (List Byte)) (out : Out) : Option Out :=
  ts.foldlM (fun out t => snprintf len t out) out

theorem printAll_cons (len : BitVec 64) (t : List Byte) (ts : List (List Byte))
    (out : Out) :
    printAll len (t :: ts) out = (snprintf len t out).bind (printAll len ts) := rfl

theorem printAll_append (len : BitVec 64) (ts ts' : List (List Byte)) (out : Out) :
    printAll len (ts ++ ts') out = (printAll len ts out).bind (printAll len ts') :=
  List.foldlM_append ..

/-- Every call finds its offset inside the buffer or right behind it, and writes inside
the buffer only. -/
def PrintsInside (len : BitVec 64) (ts : List (List Byte)) (out : Out) : Prop :=
  ∀ pre t post, ts = pre ++ t :: post → ∃ out₁ out₂, printAll len pre out = some out₁ ∧
    out₁.off ≤ len ∧ snprintf len t out₁ = some out₂

theorem off_of_snprintf {len : BitVec 64} {t : List Byte} {out out' : Out}
    (h : snprintf len t out = some out') :
    out'.off = out.off + BitVec.ofNat 64 t.length := by
  obtain ⟨str, -, rfl⟩ := Option.map_eq_some_iff.1 h
  rfl

theorem off_of_printAll {len : BitVec 64} {ts : List (List Byte)} {out out' : Out}
    (h : printAll len ts out = some out') :
    out'.off = out.off + BitVec.ofNat 64 ts.flatten.length := by
  induction ts generalizing out with
  | nil =>
      cases h
      simp
  | cons t ts ih =>
      obtain ⟨out₁, hfirst, hrest⟩ := Option.bind_eq_some_iff.1 h
      rw [ih hrest, off_of_snprintf hfirst, List.flatten_cons, List.length_append,
        BitVec.ofNat_add, BitVec.add_assoc]

theorem store_of_le {str bytes : List Byte} {off : ℕ}
    (hroom : off + bytes.length ≤ str.length) :
    ∃ str', store str off bytes = some str' ∧ str'.length = str.length := by
  by_cases hne : bytes = []
  · exact ⟨str, by rw [store, if_pos hne], rfl⟩
  · refine ⟨_, by rw [store, if_neg hne, if_pos hroom], ?_⟩
    simp only [List.length_append, List.length_take, List.length_drop]
    omega

theorem snprintf_of_off_le {len : BitVec 64} {out : Out} (t : List Byte)
    (hlen : out.str.length = len.toNat) (hoff : out.off ≤ len) :
    ∃ out', snprintf len t out = some out' ∧ out'.str.length = len.toNat := by
  have hle : out.off.toNat ≤ len.toNat := hoff
  have hsize : (len - out.off).toNat = len.toNat - out.off.toNat :=
    BitVec.toNat_sub_of_le hoff
  have hbytes : (if (len - out.off).toNat = 0 then []
      else t.take ((len - out.off).toNat - 1) ++ [0]).length ≤
        len.toNat - out.off.toNat := by
    rw [hsize]
    split_ifs
    · exact Nat.zero_le _
    · rw [List.length_append, List.length_take, List.length_singleton]
      omega
  have hroom := Nat.add_le_of_le_sub' hle hbytes
  rw [← hlen] at hroom
  obtain ⟨str', hstore, hlen'⟩ := store_of_le hroom
  exact ⟨⟨str', out.off + BitVec.ofNat 64 t.length⟩,
    by rw [snprintf, hstore, Option.map_some], hlen'.trans hlen⟩

/-- The calls stay inside a buffer if and only if the text in front of each of them
is, modulo `2 ^ 64`, no longer than the buffer. -/
theorem printsInside_iff {len : BitVec 64} {str : List Byte}
    (hlen : str.length = len.toNat) (ts : List (List Byte)) :
    PrintsInside len ts ⟨str, 0⟩ ↔
      ∀ k < ts.length, (ts.take k).flatten.length % 2 ^ 64 ≤ len.toNat := by
  have hoff : ∀ {ts : List (List Byte)} {out : Out},
      printAll len ts ⟨str, 0⟩ = some out → out.off.toNat = ts.flatten.length % 2 ^ 64 := by
    intro ts out h
    rw [off_of_printAll h]
    simp
  constructor
  · intro h k hk
    obtain ⟨out₁, -, hout₁, hle, -⟩ := h (ts.take k) ts[k] (ts.drop (k + 1))
      (by rw [← List.drop_eq_getElem_cons hk, List.take_append_drop])
    rw [← hoff hout₁]
    exact hle
  · intro h
    -- The calls so far are inside, and so is the next one.
    have hprint : ∀ k ≤ ts.length, ∃ out,
        printAll len (ts.take k) ⟨str, 0⟩ = some out ∧ out.str.length = len.toNat := by
      intro k
      induction k with
      | zero => exact fun _ => ⟨⟨str, 0⟩, rfl, hlen⟩
      | succ k ih =>
          intro hk
          obtain ⟨out, hout, hlen'⟩ := ih (by omega)
          obtain ⟨out', hout', hlen''⟩ := snprintf_of_off_le ts[k] hlen'
            (by rw [BitVec.le_def, hoff hout]; exact h k hk)
          refine ⟨out', ?_, hlen''⟩
          rw [List.take_succ_eq_append_getElem hk, printAll_append, hout, Option.bind_some,
            printAll_cons, hout']
          rfl
    rintro pre t post rfl
    have hk : pre.length < (pre ++ t :: post).length := by simp
    obtain ⟨out₁, hout₁, hlen'⟩ := hprint pre.length hk.le
    rw [List.take_left] at hout₁
    have hle : out₁.off ≤ len := by
      have hpre := h pre.length hk
      rwa [List.take_left, ← hoff hout₁] at hpre
    obtain ⟨out₂, hout₂, -⟩ := snprintf_of_off_le t hlen' hle
    exact ⟨out₁, out₂, hout₁, hle, hout₂⟩

/-- In front of each text the offset, which goes on from `off`, is modulo `2 ^ 64` at most
`len`. -/
def OffsetsFit (len : ℕ) : ℕ → List (List Byte) → Prop
  | _, [] => True
  | off, t :: ts => off % 2 ^ 64 ≤ len ∧ OffsetsFit len (off + t.length) ts

theorem offsetsFit_iff (len off : ℕ) (ts : List (List Byte)) :
    OffsetsFit len off ts ↔
      ∀ k < ts.length, (off + (ts.take k).flatten.length) % 2 ^ 64 ≤ len := by
  induction ts generalizing off with
  | nil => exact iff_of_true trivial fun k hk => absurd hk (Nat.not_lt_zero k)
  | cons t ts ih =>
      rw [OffsetsFit, ih, List.length_cons, Nat.forall_lt_succ_left']
      simp only [List.take_zero, List.flatten_nil, List.length_nil, Nat.add_zero,
        List.take_succ_cons, List.flatten_cons, List.length_append, Nat.add_assoc]

theorem printsInside_iff_offsetsFit {len : BitVec 64} {str : List Byte}
    (hlen : str.length = len.toNat) (ts : List (List Byte)) :
    PrintsInside len ts ⟨str, 0⟩ ↔ OffsetsFit len.toNat 0 ts := by
  rw [printsInside_iff hlen, offsetsFit_iff]
  simp only [Nat.zero_add]

/-- Texts that end below `2 ^ 64` stay inside a buffer if and only if all of them but
the last fit. -/
theorem printsInside_iff_of_lt {len : BitVec 64} {str : List Byte}
    (hlen : str.length = len.toNat) {ts : List (List Byte)}
    (hts : ts.flatten.length < 2 ^ 64) :
    PrintsInside len ts ⟨str, 0⟩ ↔ ts.dropLast.flatten.length ≤ len.toNat := by
  have hle : ∀ ts' : List (List Byte), ts' <+: ts →
      ts'.flatten.length ≤ ts.flatten.length := by
    rintro ts' ⟨post, rfl⟩
    rw [List.flatten_append, List.length_append]
    exact Nat.le_add_right _ _
  have hmod : ∀ k, (ts.take k).flatten.length % 2 ^ 64 = (ts.take k).flatten.length :=
    fun k => Nat.mod_eq_of_lt ((hle _ (List.take_prefix k ts)).trans_lt hts)
  simp only [printsInside_iff hlen, hmod]
  constructor
  · intro h
    rcases Nat.eq_zero_or_pos ts.length with hzero | hpos
    · rw [List.length_eq_zero_iff.1 hzero]
      exact Nat.zero_le _
    · rw [List.dropLast_eq_take]
      exact h _ (by omega)
  · intro h k hk
    refine le_trans ?_ h
    have hpre : ts.take k <+: ts.dropLast := by
      rw [List.dropLast_eq_take]
      exact List.take_prefix_take_left (by omega)
    obtain ⟨post, hpost⟩ := hpre
    rw [← hpost, List.flatten_append, List.length_append]
    exact Nat.le_add_right _ _

end Stdio
