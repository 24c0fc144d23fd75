import Dabba.SockFilter.Insn

/-!
# Filter files

`sockFilterParse` reads a filter file line by line into a message: a line that
begins with a brace is an instruction, every other line is skipped. The buffer
holds 127 characters, so a longer line is seen in pieces. A file that was
written one instruction per line is read back exactly, whatever short lines
stand in between, and the message becomes the native filter and the message
again without a change.
-/

namespace SockFilter

open Posix Stdio

/-- The loop over the buffers of the file. `malloc` and `realloc` tell whether
the instruction and the array of a message with that many instructions could be
allocated. -/
def sockFilterParseLoop (malloc realloc : ℕ → Bool) :
    List PbufSockFilter → List (List Byte) → ℕ × List PbufSockFilter
  | pbufSfp, [] => (0, pbufSfp)
  | pbufSfp, buff :: buffs =>
      -- Not a socket filter instruction: the line is skipped.
      if buff.head? ≠ some (ascii '{') then
        sockFilterParseLoop malloc realloc pbufSfp buffs
      else if malloc pbufSfp.length = false then (enomem, pbufSfp)
      else
        match sscanf insnFormat buff with
        | [code, jt, jf, k] =>
            if realloc pbufSfp.length = false then (enomem, pbufSfp)
            else
              sockFilterParseLoop malloc realloc (pbufSfp ++ [⟨code, jt, jf, k⟩])
                buffs
        | _ => (einval, pbufSfp)

/-- Parses a filter file behind the instructions of a message. `fopen` is the
content of the file, or the error number of opening it. -/
def sockFilterParse (malloc realloc : ℕ → Bool) (fopen : Except ℕ (List Byte))
    (pbufSfp : List PbufSockFilter) : ℕ × List PbufSockFilter :=
  match fopen with
  | .error errno => (errno, pbufSfp)
  | .ok file => sockFilterParseLoop malloc realloc pbufSfp (fgetsAll 128 file)

/-- A line that is no instruction and fits the buffer. -/
structure OtherLine where
  text : List Byte
  oneLine : newline ∉ text
  short : text.length < 127
  noInsn : text.head? ≠ some (ascii '{')

/-- A line of a filter file. -/
inductive Line where
  | insn (p : Bpf.SockFilter)
  | other (line : OtherLine)

def Line.text : Line → List Byte
  | .insn p => insnLine p
  | .other line => line.text

def Line.insn? : Line → Option Bpf.SockFilter
  | .insn p => some p
  | .other _ => none

def SockFprog.ofProgram (ps : List Bpf.SockFilter) : SockFprog where
  len := BitVec.ofNat 16 ps.length
  filter := ps
  readable := by
    rw [BitVec.toNat_ofNat]
    exact Nat.mod_le _ _

theorem Line.fits (line : Line) :
    newline ∉ line.text ∧ line.text.length + 1 < 128 := by
  cases line with
  | insn p =>
      have hlen := length_insnLine_lt p
      exact ⟨fun h => (ne_of_mem_insnLine p h).1 rfl, by
        rw [Line.text]
        omega⟩
  | other line => exact ⟨line.oneLine, Nat.succ_lt_succ line.short⟩

section

variable {malloc realloc : ℕ → Bool} (hmalloc : ∀ a, malloc a = true)
  (hrealloc : ∀ a, realloc a = true)

include hmalloc hrealloc in
/-- One line adds its instruction to the message. -/
theorem sockFilterParseLoop_line (line : Line) {s : List Byte}
    (hs : s = [newline] ∨ s = []) (pbufSfp : List PbufSockFilter)
    (buffs : List (List Byte)) :
    sockFilterParseLoop malloc realloc pbufSfp ((line.text ++ s) :: buffs) =
      sockFilterParseLoop malloc realloc
        (pbufSfp ++ line.insn?.toList.map widen) buffs := by
  cases line with
  | insn p =>
      have hnull : (0 : Byte) ∉ s := by
        rcases hs with rfl | rfl <;> decide
      have hhead : (insnLine p ++ s).head? = some (ascii '{') := rfl
      rw [sockFilterParseLoop, Line.text, hhead, if_neg (not_not_intro rfl), hmalloc,
        if_neg (by decide), sscanf_insnLine p hnull]
      dsimp only
      rw [hrealloc, if_neg (by decide)]
      rfl
  | other line =>
      have hhead : (line.text ++ s).head? ≠ some (ascii '{') := by
        have hno := line.noInsn
        cases h : line.text with
        | nil =>
            rcases hs with rfl | rfl <;> decide
        | cons c text =>
            rw [h] at hno
            exact hno
      rw [sockFilterParseLoop, Line.text, if_pos hhead, Line.insn?, Option.toList_none,
        List.map_nil, List.append_nil]

theorem sockFilterParseLoop_filter (pbufSfp : List PbufSockFilter)
    (buffs : List (List Byte)) :
    sockFilterParseLoop malloc realloc pbufSfp (buffs.filter fun buff => !buff.isEmpty) =
      sockFilterParseLoop malloc realloc pbufSfp buffs := by
  induction buffs generalizing pbufSfp with
  | nil => rfl
  | cons buff buffs ih =>
      cases buff with
      | nil =>
          rw [List.filter_cons_of_neg (by simp), ih, sockFilterParseLoop, if_pos (by simp)]
      | cons c buff =>
          rw [List.filter_cons_of_pos (by simp), sockFilterParseLoop, sockFilterParseLoop]
          simp only [ih]

include hmalloc hrealloc in
/-- The loop collects the instructions of the lines in order. -/
theorem sockFilterParseLoop_terminated (last : Bool) (lines : List Line)
    (pbufSfp : List PbufSockFilter) :
    sockFilterParseLoop malloc realloc pbufSfp (terminated last (lines.map Line.text)) =
      (0, pbufSfp ++ (lines.filterMap Line.insn?).map widen) := by
  have hstep := sockFilterParseLoop_line hmalloc hrealloc
  have hinsns : ∀ (line : Line) (lines : List Line),
      (line :: lines).filterMap Line.insn? =
        line.insn?.toList ++ lines.filterMap Line.insn? := by
    intro line lines
    cases line <;> rfl
  induction lines generalizing pbufSfp with
  | nil => simp [terminated, sockFilterParseLoop]
  | cons line lines ih =>
      rw [hinsns, List.map_append, ← List.append_assoc]
      cases lines with
      | nil =>
          have hend : (if last then [newline] else []) = [newline] ∨
              (if last then [newline] else []) = [] := by
            cases last <;> simp
          rw [List.map_singleton, terminated, hstep line hend, sockFilterParseLoop]
          simp
      | cons line' lines =>
          rw [List.map_cons, List.map_cons, terminated, hstep line (.inl rfl), ← ih]
          rfl

include hmalloc hrealloc in
theorem sockFilterParse_unlines (last : Bool) (lines : List Line) :
    sockFilterParse malloc realloc (.ok (unlines last (lines.map Line.text))) [] =
      (0, (lines.filterMap Line.insn?).map widen) := by
  have hlines : ∀ line ∈ lines.map Line.text,
      newline ∉ line ∧ line.length + 1 < 128 := by
    intro text htext
    obtain ⟨line, -, rfl⟩ := List.mem_map.1 htext
    exact line.fits
  rw [sockFilterParse, fgetsAll_unlines last hlines, sockFilterParseLoop_filter,
    sockFilterParseLoop_terminated hmalloc hrealloc, List.nil_append]

end

section Files

/-- The instructions of a filter file. A file that cannot be opened has none. -/
def fileInsns (fopen : Except ℕ (List Byte)) : List PbufSockFilter :=
  (sockFilterParse (fun _ => true) (fun _ => true) fopen []).2

variable {malloc realloc : ℕ → Bool} {acc sfp : List PbufSockFilter}

/-- Buffers that are read without an error add the instructions that they add to every
message, whatever could be allocated. -/
theorem sockFilterParseLoop_ok {buffs : List (List Byte)}
    (h : sockFilterParseLoop malloc realloc acc buffs = (0, sfp)) :
    ∃ ps, sfp = acc ++ ps ∧ ∀ acc', sockFilterParseLoop (fun _ => true) (fun _ => true) acc'
      buffs = (0, acc' ++ ps) := by
  induction buffs generalizing acc with
  | nil =>
      obtain rfl := (Prod.mk.inj h).2
      exact ⟨[], by simp, fun acc' => by simp [sockFilterParseLoop]⟩
  | cons buff buffs ih =>
      rw [sockFilterParseLoop] at h
      by_cases hhead : buff.head? ≠ some (ascii '{')
      · rw [if_pos hhead] at h
        obtain ⟨ps, hps, hrest⟩ := ih h
        refine ⟨ps, hps, fun acc' => ?_⟩
        rw [sockFilterParseLoop, if_pos hhead, hrest]
      · rw [if_neg hhead] at h
        by_cases hmalloc : malloc acc.length = false
        · rw [if_pos hmalloc] at h
          cases (Prod.mk.inj h).1
        rw [if_neg hmalloc] at h
        split at h
        case h_1 code jt jf k hscan =>
            by_cases hrealloc : realloc acc.length = false
            · rw [if_pos hrealloc] at h
              cases (Prod.mk.inj h).1
            rw [if_neg hrealloc] at h
            obtain ⟨ps, hps, hrest⟩ := ih h
            refine ⟨⟨code, jt, jf, k⟩ :: ps, by simp [hps], fun acc' => ?_⟩
            rw [sockFilterParseLoop, if_neg hhead, if_neg (by decide), hscan]
            dsimp only
            rw [if_neg (by decide), hrest, List.append_assoc]
            rfl
        case h_2 => cases (Prod.mk.inj h).1

/-- A file that is read without an error adds its instructions behind those of the
message. -/
theorem sockFilterParse_ok {fopen : Except ℕ (List Byte)}
    (h : (sockFilterParse malloc realloc fopen acc).1 = 0) :
    (sockFilterParse malloc realloc fopen acc).2 = acc ++ fileInsns fopen := by
  cases fopen with
  | error errno => exact (List.append_nil acc).symm
  | ok file =>
      obtain ⟨ps, hps, hrest⟩ := sockFilterParseLoop_ok (Prod.ext h rfl)
      have hfile : fileInsns (.ok file) = ps := congrArg Prod.snd (hrest [])
      rw [hfile]
      exact hps

end Files

theorem narrow_widen (p : Bpf.SockFilter) : (widen p).narrow = p := by
  simp [widen, PbufSockFilter.narrow]

theorem ofPbuf_map_widen (ps : List Bpf.SockFilter) :
    SockFprog.ofPbuf (ps.map widen) = .ofProgram ps := by
  have hnarrow : PbufSockFilter.narrow ∘ widen = id := funext narrow_widen
  simp [SockFprog.ofPbuf, SockFprog.ofProgram, hnarrow]

theorem program_ofProgram {ps : List Bpf.SockFilter} (hlen : ps.length ≤ 65535) :
    (SockFprog.ofProgram ps).program = ps := by
  have hlen' : (SockFprog.ofProgram ps).len.toNat = ps.length := by
    rw [SockFprog.ofProgram, BitVec.toNat_ofNat, Nat.mod_eq_of_lt (by omega)]
  rw [SockFprog.program, hlen']
  exact List.take_length

/-- The filter file, the attached filter and the reported filter agree: the
instructions of a file whose program is accepted come back as the message, as
the native filter made from it, and as the message made from that. -/
theorem sockFilterParse_roundTrip {malloc realloc : ℕ → Bool}
    (hmalloc : ∀ a, malloc a = true) (hrealloc : ∀ a, realloc a = true)
    (last : Bool) {lines : List Line} {ps : List Bpf.SockFilter}
    (hps : lines.filterMap Line.insn? = ps) (hlen : ps.length ≤ 65535)
    (hvalid : ldabSockFilterIsValid (some (.ofProgram ps)) = true) :
    sockFilterParse malloc realloc (.ok (unlines last (lines.map Line.text))) [] =
        (0, ps.map widen) ∧
      dabbadPbufSfp2Sfp true (ps.map widen) = (0, .ofProgram ps) ∧
      dabbadSfp2PbufSfp true malloc (.ofProgram ps) = (0, ps.map widen) := by
  refine ⟨?_, ?_, ?_⟩
  · rw [sockFilterParse_unlines hmalloc hrealloc, hps]
  · simp only [dabbadPbufSfp2Sfp, ofPbuf_map_widen, hvalid]
    rfl
  · rw [dabbadSfp2PbufSfp_eq_map hmalloc, program_ofProgram hlen]

def remark : Line :=
  .other
    { text := ['#', ' ', 'r', 'e', 't'].map ascii
      oneLine := by decide
      short := by decide
      noInsn := by decide }

/-- Packets with the Ethernet type of IPv4: a load, a jump and two returns. -/
def ipProgram : List Bpf.SockFilter :=
  [⟨0x28, 0, 0, 12⟩, ⟨0x15, 0, 1, 0x800⟩, ⟨6, 0, 0, 0xffff⟩, ⟨6, 0, 0, 0⟩]

def ipLines : List Line :=
  [remark, .insn ⟨0x28, 0, 0, 12⟩, .insn ⟨0x15, 0, 1, 0x800⟩, remark, remark,
    .insn ⟨6, 0, 0, 0xffff⟩, .insn ⟨6, 0, 0, 0⟩, remark]

theorem sockFilterParse_roundTrip_ipProgram :
    let malloc : ℕ → Bool := fun _ => true
    sockFilterParse malloc malloc (.ok (unlines true (ipLines.map Line.text))) [] =
        (0, ipProgram.map widen) ∧
      dabbadPbufSfp2Sfp true (ipProgram.map widen) = (0, .ofProgram ipProgram) ∧
      dabbadSfp2PbufSfp true malloc (.ofProgram ipProgram) = (0, ipProgram.map widen) := by
  have hps : ipLines.filterMap Line.insn? = ipProgram := rfl
  exact sockFilterParse_roundTrip (fun _ => rfl) (fun _ => rfl) true hps (by decide)
    (by decide)

end SockFilter
