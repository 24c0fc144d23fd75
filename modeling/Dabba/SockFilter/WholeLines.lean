import Dabba.SockFilter.Parse
import Dabba.Stdio.Pieces
import Mathlib.Data.List.Forall2

/-!
# Filter files with lines of any length

A filter file is well formed when every line that begins with a brace is an instruction.
`sockFilterParse` sees the pieces of the lines that fit its buffer, and it counts the
numbers that were read and nothing else. So a line that goes on behind its last number as
it likes is taken for an instruction, a long remark is taken for one where a brace begins
a piece of it, and of the last number only eight digits are read, those that the first
piece holds.
-/

namespace SockFilter

open Posix Stdio

/-- The last number has the value of those of its first eight digits that stand in the
first 127 characters of the line. -/
def InsnText.InBuffer (t : InsnText) : Prop :=
  t.header.length < 127 ∧
    digitsValue 16 (t.k.digits.take (min 8 (127 - t.header.length))) = t.k.value

def IsInsn (line : List Byte) (p : PbufSockFilter) : Prop :=
  ∃ t : InsnText, t.text = line ∧ t.Denotes p

def insnLines (file : List Byte) : List (List Byte) := beginsWith (ascii '{') (linesOf file)

def parsed (file : List Byte) : ℕ × List PbufSockFilter :=
  sockFilterParse (fun _ => true) (fun _ => true) (.ok file) []

/-- The file is parsed line by line: without an error if and only if all lines that begin
with a brace are instructions, and then to these. -/
def ParsesWholeLines (file : List Byte) : Prop :=
  ((parsed file).1 = 0 ↔ ∀ line ∈ insnLines file, ∃ p, IsInsn line p) ∧
    ((parsed file).1 = 0 → List.Forall₂ IsInsn (insnLines file) (parsed file).2)

section Scan

variable (t : InsnText) {p : PbufSockFilter}

/-- The letter of the prefixes stands twice in front of the last number, the second time
at the end. -/
theorem count_take_header {n : ℕ} (hn : n < t.header.length) :
    (t.header.take n).count (ascii 'x') < 2 := by
  have hnum : ∀ {b : ℕ} (n : Numeral b), n.digits.count (ascii 'x') = 0 := fun n =>
    List.count_eq_zero_of_not_mem fun h =>
      (of_isSome_digit? (n.isDigit _ h)).2.2.2.1 rfl
  have hblank : ∀ i, (t.blank i).text.count (ascii 'x') = 0 := fun i =>
    List.count_eq_zero_of_not_mem fun h =>
      (of_isspace ((t.blank i).isSpace _ h)).1.2.1 rfl
  have hlit : (ascii '{' == ascii 'x') = false ∧ (ascii '0' == ascii 'x') = false ∧
      (ascii ',' == ascii 'x') = false := by decide
  obtain ⟨opening, hopening, hcount⟩ : ∃ opening, t.header = opening ++ [ascii 'x'] ∧
      opening.count (ascii 'x') = 1 := by
    refine ⟨ascii '{' :: ((t.blank 0).text ++ ascii '0' :: ascii 'x' :: (t.code.digits ++
      ascii ',' :: ((t.blank 1).text ++ (t.jt.digits ++
        ascii ',' :: ((t.blank 2).text ++ (t.jf.digits ++
          ascii ',' :: ((t.blank 3).text ++ [ascii '0']))))))), ?_, ?_⟩
    · simp [InsnText.header]
    · simp [List.count_append, List.count_cons, hnum, hblank, hlit]
  rw [hopening, List.length_append, List.length_singleton] at hn
  rw [hopening, List.take_append_of_le_length (by omega)]
  exact ((List.take_sublist n opening).count_le _).trans_lt (by omega)

theorem digitsValue_take_lt (n : ℕ) :
    digitsValue 16 (t.k.digits.take (min 8 n)) < 2 ^ 32 := by
  refine (digitsValue_lt (by decide) _).trans_le
    (Nat.pow_le_pow_right (by decide) ?_ : (16 : ℕ) ^ _ ≤ 16 ^ 8)
  rw [List.length_take]
  omega

theorem scan_last {n : ℕ} (hn : 0 < n) (e : List Byte) :
    scan [.number .x (some 8), .space, .lit (ascii '}'), .lit (ascii ',')]
        ((t.k.digits ++ (t.trailer ++ e)).take n) =
      [BitVec.ofNat 32 (digitsValue 16 (t.k.digits.take (min 8 n)))] := by
  have htake : t.k.digits.take n ≠ [] := by
    rw [ne_eq, List.take_eq_nil_iff]
    rintro (h | h)
    · omega
    · exact t.k.ne_nil h
  obtain ⟨rest, hread⟩ := scanField_digits_width .x 8 (by decide) htake
    (fun c hc => t.k.isDigit c (List.mem_of_mem_take hc))
    ((atEnd_trailer t e).take (n - t.k.digits.length))
  have hlt := digitsValue_take_lt t n
  rw [List.take_take] at hread
  rw [List.take_append, scan_number _ hread, Conversion.base,
    Conversion.value_false _ (by omega), scan_eq_nil rfl rest]

/-- The conversions of the first piece of a line with an instruction. -/
theorem sscanf_piece (h : t.Denotes p) {e : List Byte} (he : e = [] ∨ e = [newline]) :
    sscanf insnFormat ((t.text ++ e).take 127) = [p.code, p.jt, p.jf, p.k] ↔
      t.InBuffer := by
  have hnull : (0 : Byte) ∉ (t.text ++ e).take 127 := by
    intro hmem
    rcases List.mem_append.1 (List.mem_of_mem_take hmem) with hmem | hmem
    · exact zero_not_mem_text t hmem
    · rcases he with rfl | rfl <;> exact absurd hmem (by decide)
  rw [sscanf, cstring_of_not_mem hnull, InsnText.text, List.append_assoc, List.append_assoc]
  rcases lt_or_ge t.header.length 127 with hlt | hge
  · rw [List.take_append, List.take_of_length_le hlt.le, scan_header t h,
      scan_last t (by omega)]
    simp only [List.cons.injEq, and_true, true_and, InsnText.InBuffer, hlt, ← h.k]
    rw [← BitVec.toNat_inj, BitVec.toNat_ofNat,
      Nat.mod_eq_of_lt (digitsValue_take_lt t _)]
  · refine iff_of_false (fun hread => ?_) fun hbuf => absurd hbuf.1 (by omega)
    rw [List.take_append_of_le_length hge] at hread
    rcases hge.eq_or_lt with heq | hlt
    · -- The piece ends in front of the digits.
      have hheader := scan_header t h []
      rw [List.append_nil] at hheader
      rw [heq, List.take_length, hheader] at hread
      cases hread
    · -- The piece ends in front of the second prefix.
      have hconv : conversions (insnFormat.take 15) <
          (scan (insnFormat.take 15 ++ insnFormat.drop 15) (t.header.take 127)).length := by
        rw [List.take_append_drop, hread]
        show 3 < 4
        decide
      have hcount := (literals_sublist hconv).count_le (ascii 'x')
      have hliterals : (literals (insnFormat.take 15)).count (ascii 'x') = 2 := by decide
      have hlt := count_take_header t hlt
      omega

end Scan

def ReadAs (buff : List Byte) (p : PbufSockFilter) : Prop :=
  sscanf insnFormat buff = [p.code, p.jt, p.jf, p.k]

/-- When nothing else fails, the loop ends without an error if and only if every buffer
that begins with a brace holds four numbers, and then with the instructions of these. -/
theorem sockFilterParseLoop_spec (pbufSfp : List PbufSockFilter)
    (buffs : List (List Byte)) :
    let r := sockFilterParseLoop (fun _ => true) (fun _ => true) pbufSfp buffs
    (r.1 = 0 ↔ ∀ buff ∈ beginsWith (ascii '{') buffs, (sscanf insnFormat buff).length = 4) ∧
      (r.1 = 0 → ∃ ps, r.2 = pbufSfp ++ ps ∧
        List.Forall₂ ReadAs (beginsWith (ascii '{') buffs) ps) := by
  induction buffs generalizing pbufSfp with
  | nil =>
      exact ⟨iff_of_true rfl fun _ h => absurd h List.not_mem_nil,
        fun _ => ⟨[], (List.append_nil pbufSfp).symm, .nil⟩⟩
  | cons buff buffs ih =>
      rw [sockFilterParseLoop, beginsWith_cons, firstPiece]
      by_cases hhead : buff.head? = some (ascii '{')
      · rw [if_neg (not_not_intro hhead), if_neg (by decide), if_pos hhead]
        split
        case h_1 code jt jf k hread =>
            rw [if_neg (by decide)]
            obtain ⟨hrc, hps⟩ := ih (pbufSfp ++ [⟨code, jt, jf, k⟩])
            refine ⟨?_, fun h => ?_⟩
            · rw [hrc, List.singleton_append, List.forall_mem_cons, hread]
              exact (and_iff_right rfl).symm
            · obtain ⟨ps, heq, hall⟩ := hps h
              refine ⟨⟨code, jt, jf, k⟩ :: ps, ?_, .cons hread hall⟩
              rw [heq, List.append_assoc]
              rfl
        case h_2 hread =>
            have hrc : einval ≠ 0 := by decide
            refine ⟨iff_of_false hrc fun hall => ?_, fun h => absurd h hrc⟩
            obtain ⟨code, jt, jf, k, hscan⟩ :=
              List.length_eq_four.1 (hall buff List.mem_cons_self)
            exact hread code jt jf k hscan
      · rw [if_pos hhead, if_neg hhead]
        exact ih pbufSfp

def Readable (line : List Byte) : Prop :=
  ∃ t : InsnText, t.text = line ∧ (∃ p, t.Denotes p) ∧ t.InBuffer

/-- All lines that begin with a brace are instructions with their last number in the
buffer, and no later piece of a line begins with a brace. -/
def ReadAsWritten (file : List Byte) : Prop :=
  (∀ line ∈ insnLines file, Readable line) ∧
    ∀ line ∈ linesOf file, NoLater 127 (ascii '{') line

/-- The text is that of an instruction up to the beginning of the last number: each number
may have a sign, a second prefix, and white space in front. -/
def HoldsFour (s : List Byte) : Prop :=
  ∃ (w w' w'' : Blank) (code : Field .x) (jt jf : Field .d) (k : List Byte),
    s = ascii '{' :: (w.text ++ ascii '0' :: ascii 'x' :: (code.text ++
      ascii ',' :: (jt.text ++ ascii ',' :: (jf.text ++
        ascii ',' :: (w'.text ++ ascii '0' :: ascii 'x' :: (w''.text ++ k)))))) ∧
    StartsNumber .x k

/-- Some line that begins with a brace is no instruction, and some piece that begins with
one does not hold four numbers. -/
def RefusedAsWritten (file : List Byte) : Prop :=
  (∃ line ∈ insnLines file, ∀ p, ¬ IsInsn line p) ∧
    ∃ buff ∈ beginsWith (ascii '{') (fgetsAll 128 file), ¬ HoldsFour (cstring buff)

section Whole

variable {line piece file : List Byte} {lines pieces : List (List Byte)}
variable {p : PbufSockFilter} {ps : List PbufSockFilter}

/-- Four numbers are stored exactly for the texts that hold them. -/
theorem length_sscanf_iff (buff : List Byte) :
    (sscanf insnFormat buff).length = 4 ↔ HoldsFour (cstring buff) := by
  have hle : (scan insnFormat (cstring buff)).length ≤ 4 :=
    length_scan_le insnFormat (cstring buff)
  have hlt : (sscanf insnFormat buff).length = 4 ↔
      3 < (scan insnFormat (cstring buff)).length := by
    rw [sscanf]
    omega
  have hcomma : EndsNumber (ascii ',') := by decide
  have hzero : isspace (ascii '0') = false := by decide
  rw [hlt]
  simp only [insnFormat, scan_space_number, lt_length_scan_lit,
    lt_length_scan_space_lit hzero, lt_length_scan_number_lit hcomma,
    lt_length_scan_width 4]
  constructor
  · rintro ⟨_, hs, w, _, rfl, _, rfl, code, _, rfl, jt, _, rfl, jf, _, rfl, w', _, rfl, _,
      rfl, w'', k, rfl, hk⟩
    exact ⟨w, w', w'', code, jt, jf, k, hs, hk⟩
  · rintro ⟨w, w', w'', code, jt, jf, k, hs, hk⟩
    exact ⟨_, hs, w, _, rfl, _, rfl, code, _, rfl, jt, _, rfl, jf, _, rfl, w', _, rfl, _,
      rfl, w'', k, rfl, hk⟩

theorem Readable.isInsn (h : Readable line) : ∃ p, IsInsn line p := by
  obtain ⟨t, htext, ⟨p, hp⟩, -⟩ := h
  exact ⟨p, t, htext, hp⟩

theorem Readable.readAs (h : Readable line) (hpiece : IsFirstPiece 127 line piece) :
    ∃ p, IsInsn line p ∧ ReadAs piece p := by
  obtain ⟨t, rfl, ⟨p, hp⟩, hbuf⟩ := h
  obtain ⟨e, he, rfl⟩ := hpiece
  exact ⟨p, ⟨t, rfl, hp⟩, (sscanf_piece t hp he).2 hbuf⟩

theorem ReadAs.inj {q : PbufSockFilter} (hp : ReadAs piece p) (hq : ReadAs piece q) :
    p = q := by
  have heq := hp.symm.trans hq
  simp only [List.cons.injEq, and_true] at heq
  cases p
  cases q
  simpa using heq

/-- What the first piece of a line is read as is its instruction if and only if the line
is readable. -/
theorem isInsn_iff_readable (hpiece : IsFirstPiece 127 line piece) (hread : ReadAs piece p) :
    IsInsn line p ↔ Readable line := by
  constructor
  · rintro ⟨t, rfl, hp⟩
    obtain ⟨e, he, rfl⟩ := hpiece
    exact ⟨t, rfl, ⟨p, hp⟩, (sscanf_piece t hp he).1 hread⟩
  · intro h
    obtain ⟨q, hinsn, hq⟩ := h.readAs hpiece
    rwa [hread.inj hq]

theorem forall₂_isInsn_iff (hpieces : List.Forall₂ (IsFirstPiece 127) lines pieces)
    (hread : List.Forall₂ ReadAs pieces ps) :
    List.Forall₂ IsInsn lines ps ↔ ∀ line ∈ lines, Readable line := by
  induction hpieces generalizing ps with
  | nil =>
      cases hread
      exact iff_of_true .nil fun _ h => absurd h List.not_mem_nil
  | cons hpiece hpieces ih =>
      cases hread with
      | cons hread hreads =>
          rw [List.forall₂_cons, List.forall_mem_cons, ih hreads,
            isInsn_iff_readable hpiece hread]

theorem length_sscanf_of_readable (hpieces : List.Forall₂ (IsFirstPiece 127) lines pieces)
    (h : ∀ line ∈ lines, Readable line) :
    ∀ piece ∈ pieces, (sscanf insnFormat piece).length = 4 := by
  induction hpieces with
  | nil => exact fun _ h => absurd h List.not_mem_nil
  | cons hpiece hpieces ih =>
      rw [List.forall_mem_cons] at h ⊢
      obtain ⟨p, -, hread⟩ := h.1.readAs hpiece
      exact ⟨congrArg List.length hread, ih h.2⟩

theorem parsed_spec (file : List Byte) :
    ((parsed file).1 = 0 ↔ ∀ buff ∈ beginsWith (ascii '{') (fgetsAll 128 file),
        (sscanf insnFormat buff).length = 4) ∧
      ((parsed file).1 = 0 → List.Forall₂ ReadAs
        (beginsWith (ascii '{') (fgetsAll 128 file)) (parsed file).2) := by
  obtain ⟨hrc, hps⟩ := sockFilterParseLoop_spec [] (fgetsAll 128 file)
  refine ⟨hrc, fun h => ?_⟩
  obtain ⟨ps, heq, hread⟩ := hps h
  rwa [← List.nil_append ps, ← heq] at hread

/-- The file is parsed without an error to the instructions of its lines exactly when it
is read as it was written. -/
theorem parsed_iff_readAsWritten (file : List Byte) :
    ((parsed file).1 = 0 ∧ List.Forall₂ IsInsn (insnLines file) (parsed file).2) ↔
      ReadAsWritten file := by
  obtain ⟨firsts, hfirsts⟩ := exists_firsts 128 (ascii '{') (by decide) (by decide) file
  obtain ⟨hrc, hreads⟩ := parsed_spec file
  have hfirst := hfirsts.first
  constructor
  · rintro ⟨h, hinsns⟩
    have hread := hreads h
    have hlen : firsts.length = (beginsWith (ascii '{') (fgetsAll 128 file)).length :=
      calc firsts.length = (insnLines file).length := hfirst.length_eq.symm
        _ = (parsed file).2.length := hinsns.length_eq
        _ = (beginsWith (ascii '{') (fgetsAll 128 file)).length := hread.length_eq.symm
    have hall := hfirsts.sublist.eq_of_length hlen
    rw [hall] at hfirst
    exact ⟨(forall₂_isInsn_iff hfirst hread).1 hinsns, hfirsts.all.1 hall⟩
  · rintro ⟨hreadable, hlater⟩
    rw [hfirsts.all.2 hlater] at hfirst
    have h := hrc.2 (length_sscanf_of_readable hfirst hreadable)
    exact ⟨h, (forall₂_isInsn_iff hfirst (hreads h)).2 hreadable⟩

end Whole

/-- A file is parsed by whole lines if and only if it is read, or refused, as it was
written. -/
theorem parsesWholeLines_iff (file : List Byte) :
    ParsesWholeLines file ↔ ReadAsWritten file ∨ RefusedAsWritten file := by
  have hrc := (parsed_spec file).1
  simp only [length_sscanf_iff] at hrc
  unfold ParsesWholeLines
  rw [← parsed_iff_readAsWritten]
  constructor
  · rintro ⟨hiff, hinsns⟩
    by_cases h : (parsed file).1 = 0
    · exact .inl ⟨h, hinsns h⟩
    · have hline := mt hiff.2 h
      have hbuff := mt hrc.2 h
      push Not at hline hbuff
      exact .inr ⟨hline, hbuff⟩
  · rintro (⟨h, hinsns⟩ | ⟨⟨line, hmem, hline⟩, buff, hbuff, hlen⟩)
    · have hreadable := (parsed_iff_readAsWritten file).1 ⟨h, hinsns⟩
      exact ⟨iff_of_true h fun line hline => (hreadable.1 line hline).isInsn,
        fun _ => hinsns⟩
    · have h : (parsed file).1 ≠ 0 := fun h => hlen (hrc.1 h buff hbuff)
      refine ⟨iff_of_false h fun hall => ?_, fun h' => absurd h' h⟩
      obtain ⟨p, hp⟩ := hall line hmem
      exact hline p hp

def longRemark : List Byte :=
  List.replicate 127 (ascii '#') ++ [ascii '{', newline]

/-- The remark is refused, although no line begins with a brace. -/
theorem not_parsesWholeLines_longRemark : ¬ ParsesWholeLines longRemark := by
  intro h
  have hlines : insnLines longRemark = [] := by decide
  have hrc : (parsed longRemark).1 = einval := by decide +kernel
  have hzero := h.1.2 (by
    rw [hlines]
    exact fun _ hline => absurd hline List.not_mem_nil)
  exact absurd (hrc.symm.trans hzero) (by decide)

end SockFilter
