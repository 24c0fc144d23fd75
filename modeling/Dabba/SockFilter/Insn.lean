import Dabba.SockFilter.Convert
import Dabba.Stdio.Field
import Dabba.Stdio.Stream

/-!
# The text of an instruction

An instruction of a filter file is `{ 0x<hex>, <dec>, <dec>, 0x<hex> }` with an optional
comma, and white space may stand where the format has a blank. The numbers in front of
the last one are read in full whatever follows them; of the last one at most eight
digits are read. The line that is written for a native instruction has one blank in each
place and exactly eight digits there, so that it is read back.
-/

namespace SockFilter

open Posix Stdio

/-- The format an instruction is read with, `{ 0x%x, %d, %d, 0x%08x },`. -/
def insnFormat : List Directive :=
  [.lit (ascii '{'), .space, .lit (ascii '0'), .lit (ascii 'x'), .number .x none,
    .lit (ascii ','), .space, .number .d none,
    .lit (ascii ','), .space, .number .d none,
    .lit (ascii ','), .space, .lit (ascii '0'), .lit (ascii 'x'), .number .x (some 8),
    .space, .lit (ascii '}'), .lit (ascii ',')]

/-- A well-formed instruction, `{ 0x<hex>, <dec>, <dec>, 0x<hex> }` with an optional
comma. White space may stand where the format has a blank. -/
structure InsnText where
  code : Numeral 16
  jt : Numeral 10
  jf : Numeral 10
  k : Numeral 16
  blank : Fin 5 → Blank
  comma : Bool

namespace InsnText

def header (t : InsnText) : List Byte :=
  ascii '{' :: ((t.blank 0).text ++ ascii '0' :: ascii 'x' :: (t.code.digits ++
    ascii ',' :: ((t.blank 1).text ++ (t.jt.digits ++
      ascii ',' :: ((t.blank 2).text ++ (t.jf.digits ++
        ascii ',' :: ((t.blank 3).text ++ [ascii '0', ascii 'x'])))))))

def trailer (t : InsnText) : List Byte :=
  (t.blank 4).text ++ ascii '}' :: if t.comma then [ascii ','] else []

def text (t : InsnText) : List Byte := t.header ++ (t.k.digits ++ t.trailer)

/-- The text is that of the instruction with these numbers. -/
structure Denotes (t : InsnText) (p : PbufSockFilter) : Prop where
  code : p.code.toNat = t.code.value
  jt : p.jt.toNat = t.jt.value
  jf : p.jf.toNat = t.jf.value
  k : p.k.toNat = t.k.value

/-- The text of a native instruction as it is written to a file. -/
def ofInsn (p : Bpf.SockFilter) : InsnText where
  code := .ofNat 16 p.code.toNat (by decide) (by decide)
  jt := .ofNat 10 p.jt.toNat (by decide) (by decide)
  jf := .ofNat 10 p.jf.toNat (by decide) (by decide)
  k := .padded 16 p.k.toNat (by decide) (by decide) 8
  blank _ := ⟨[ascii ' '], by decide⟩
  comma := true

end InsnText

section

variable (t : InsnText) {p : PbufSockFilter}

/-- What holds of the characters of the format, of every digit and of the white space
holds of every character of the line. -/
theorem forall_mem_text {P : Byte → Prop}
    (hlit : ∀ c ∈ ['{', '0', 'x', ',', '}'].map ascii, P c)
    (hdigit : ∀ c, (digitValue c).isSome = true → P c)
    (hblank : ∀ i, ∀ c ∈ (t.blank i).text, P c) : ∀ c ∈ t.text, P c := by
  have hnumeral : ∀ {b : ℕ} (n : Numeral b), ∀ c ∈ n.digits, P c := fun n c hc =>
    hdigit c (Option.isSome_of_isSome_filter _ _ (n.isDigit c hc))
  have hcomma : ∀ c ∈ (if t.comma then [ascii ','] else []), P c := by
    intro c hc
    split at hc
    · exact hlit c (by simp at hc ⊢; tauto)
    · cases hc
  simp only [List.map_cons, List.map_nil, List.forall_mem_cons] at hlit
  obtain ⟨hopen, hzero, hx, hsep, hclose, -⟩ := hlit
  simp only [InsnText.text, InsnText.header, InsnText.trailer, List.forall_mem_append,
    List.forall_mem_cons]
  exact ⟨⟨hopen, hblank 0, hzero, hx, hnumeral t.code, hsep, hblank 1, hnumeral t.jt,
    hsep, hblank 2, hnumeral t.jf, hsep, hblank 3, hzero, hx, fun _ h => nomatch h⟩,
    hnumeral t.k, hblank 4, hclose, hcomma⟩

theorem zero_not_mem_text : (0 : Byte) ∉ t.text := by
  have hne : ∀ c ∈ t.text, c ≠ 0 := forall_mem_text t (by decide) (by decide)
    fun i c hc => (of_isspace ((t.blank i).isSpace c hc)).2
  exact fun h => hne 0 h rfl

theorem atEnd_trailer (e : List Byte) : AtEnd (t.trailer ++ e) := by
  unfold InsnText.trailer
  rcases hw : (t.blank 4).text with _ | ⟨c, w⟩
  · exact atEnd_cons (by decide) _
  · refine atEnd_cons (of_isspace ((t.blank 4).isSpace c ?_)).1 _
    rw [hw]
    exact List.mem_cons_self

/-- The conversions in front of the last number, whatever follows them. -/
theorem scan_header (h : t.Denotes p) (s : List Byte) :
    scan insnFormat (t.header ++ s) = p.code :: p.jt :: p.jf ::
      scan [.number .x (some 8), .space, .lit (ascii '}'), .lit (ascii ',')] s := by
  have hcomma : ∀ s, AtEnd (ascii ',' :: s) := atEnd_cons (by decide)
  have hzero : isspace (ascii '0') = false := by decide
  have hcode : ∀ s, scanField .x none (t.code.digits ++ ascii ',' :: s) =
      some (p.code, ascii ',' :: s) := by
    intro s
    rw [← Conversion.value_of_toNat .x h.code]
    exact scanField_digits .x t.code.ne_nil t.code.isDigit (hcomma s)
  have hjt : ∀ s, scanField .d none (t.jt.digits ++ ascii ',' :: s) =
      some (p.jt, ascii ',' :: s) := by
    intro s
    rw [← Conversion.value_of_toNat .d h.jt]
    exact scanField_digits .d t.jt.ne_nil t.jt.isDigit (hcomma s)
  have hjf : ∀ s, scanField .d none (t.jf.digits ++ ascii ',' :: s) =
      some (p.jf, ascii ',' :: s) := by
    intro s
    rw [← Conversion.value_of_toNat .d h.jf]
    exact scanField_digits .d t.jf.ne_nil t.jf.isDigit (hcomma s)
  simp only [insnFormat, InsnText.header, List.append_assoc, List.cons_append,
    List.nil_append]
  rw [scan_lit, scan_space_append _ (t.blank 0).isSpace, scan_space_of_not _ hzero,
    scan_lit, scan_lit, scan_number _ (hcode _),
    scan_lit, scan_space_append _ (t.blank 1).isSpace, scan_space_number,
    scan_number _ (hjt _),
    scan_lit, scan_space_append _ (t.blank 2).isSpace, scan_space_number,
    scan_number _ (hjf _),
    scan_lit, scan_space_append _ (t.blank 3).isSpace, scan_space_of_not _ hzero,
    scan_lit, scan_lit]

end

/-- The line of an instruction, `{ 0x%x, %d, %d, 0x%08x },`. -/
def insnLine (p : Bpf.SockFilter) : List Byte :=
  ['{', ' ', '0', 'x'].map ascii ++ (numeral 16 p.code.toNat ++
    ([',', ' '].map ascii ++ (numeral 10 p.jt.toNat ++
      ([',', ' '].map ascii ++ (numeral 10 p.jf.toNat ++
        ([',', ' ', '0', 'x'].map ascii ++ (padded 8 16 p.k.toNat ++
          [' ', '}', ','].map ascii)))))))

section Written

variable (p : Bpf.SockFilter)

theorem text_ofInsn : (InsnText.ofInsn p).text = insnLine p := by
  simp [InsnText.text, InsnText.header, InsnText.trailer, InsnText.ofInsn, insnLine,
    Numeral.ofNat, Numeral.padded]

theorem denotes_widen : (InsnText.ofInsn p).Denotes (widen p) where
  code := by
    rw [widen, BitVec.toNat_setWidth_of_le (by decide), InsnText.ofInsn,
      Numeral.value_ofNat]
  jt := by
    rw [widen, BitVec.toNat_setWidth_of_le (by decide), InsnText.ofInsn,
      Numeral.value_ofNat]
  jf := by
    rw [widen, BitVec.toNat_setWidth_of_le (by decide), InsnText.ofInsn,
      Numeral.value_ofNat]
  k := by rw [widen, InsnText.ofInsn, Numeral.value_padded]

theorem ne_of_mem_insnLine {c : Byte} (hc : c ∈ insnLine p) : c ≠ newline ∧ c ≠ 0 := by
  have hblank : ∀ i, ∀ c ∈ ((InsnText.ofInsn p).blank i).text, c ≠ newline ∧ c ≠ 0 := by
    intro _ c hc
    rw [InsnText.ofInsn, List.mem_singleton] at hc
    subst hc
    decide
  rw [← text_ofInsn] at hc
  exact forall_mem_text _ (by decide) (by decide) hblank c hc

theorem length_insnLine_lt : (insnLine p).length < 127 := by
  have hcode : (numeral 16 p.code.toNat).length ≤ 4 :=
    length_numeral_le (by decide) (by decide) p.code.isLt
  have hjt : (numeral 10 p.jt.toNat).length ≤ 3 :=
    length_numeral_le (by decide) (by decide) (p.jt.isLt.trans (by decide))
  have hjf : (numeral 10 p.jf.toNat).length ≤ 3 :=
    length_numeral_le (by decide) (by decide) (p.jf.isLt.trans (by decide))
  have hk : (padded 8 16 p.k.toNat).length = 8 :=
    length_padded (by decide) (by decide) p.k.isLt
  simp only [insnLine, List.length_append, List.length_map, List.length_cons,
    List.length_nil]
  omega

theorem scan_insnLine (s : List Byte) :
    scan insnFormat (insnLine p ++ s) =
      [p.code.setWidth 32, p.jt.setWidth 32, p.jf.setWidth 32, p.k] := by
  have hk := p.k.isLt
  have hlast : scanField .x (some 8)
      ((InsnText.ofInsn p).k.digits ++ ((InsnText.ofInsn p).trailer ++ s)) =
        some (p.k, (InsnText.ofInsn p).trailer ++ s) := by
    rw [← Conversion.value_of_toNat .x (rfl : p.k.toNat = p.k.toNat)]
    exact scanField_padded .x (by decide) hk _
  rw [← text_ofInsn, InsnText.text, List.append_assoc, List.append_assoc,
    scan_header _ (denotes_widen p), scan_number _ hlast,
    scan_eq_nil rfl]
  rfl

theorem sscanf_insnLine {s : List Byte} (hs : (0 : Byte) ∉ s) :
    sscanf insnFormat (insnLine p ++ s) =
      [p.code.setWidth 32, p.jt.setWidth 32, p.jf.setWidth 32, p.k] := by
  have hline : (0 : Byte) ∉ insnLine p := fun h => (ne_of_mem_insnLine p h).2 rfl
  rw [sscanf, cstring_of_not_mem (List.not_mem_append hline hs), scan_insnLine]

end Written

end SockFilter
