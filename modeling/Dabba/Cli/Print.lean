import Dabba.Cli.Arguments
import Dabba.Dabbad.Get
import Dabba.Stdio.Listing

/-!
# What the get commands print

The lists of captures, replays and threads are printed as text, a block of lines for each
entry. Two lists are printed alike exactly if they agree in what the entries show: all of it
but the size of a frame, of which only the product with the number of frames is printed, and
a scheduling policy that has no name.
-/

namespace Cli

open Posix Stdio SockFilter Dabbad

/-- The texts of the error numbers, each of them in one line. -/
structure ErrorTexts where
  strerror : ℤ → List Byte
  oneLine : ∀ e, newline ∉ strerror e

def rpcHeaderPrint (title : String) : List (List Byte) :=
  [text "---", text "  " ++ text title ++ text ":"]

def rpcErrorCodePrint (errors : ErrorTexts) (errorCode : ℤ) : List Byte :=
  text "  rc: " ++ signed errorCode ++ text " # " ++ errors.strerror errorCode

/-- The line of an id, of 64 bits, which begins an entry. -/
def idLine (id : ℕ) : List Byte := text "    - id: " ++ numeral 10 (id % 2 ^ 64)

def beginsEntry (bytes : List Byte) : Bool := bytes[4]? == some (ascii '-')

def statusLine (errors : ErrorTexts) (status : ℤ) : List Byte :=
  text "    " ++ rpcErrorCodePrint errors status

section Lines

variable {errors : ErrorTexts}

theorem rpcHeaderPrint_oneLine {title : String} (h : newline ∉ text title) :
    ∀ line ∈ rpcHeaderPrint title, newline ∉ line := by
  intro line hline
  rcases List.mem_cons.1 hline with rfl | hline
  · decide
  · rw [List.mem_singleton.1 hline, List.mem_append, List.mem_append, not_or, not_or]
    exact ⟨⟨by decide, h⟩, by decide⟩

theorem idLine_inj {i j : ℕ} : idLine i = idLine j ↔ i % 2 ^ 64 = j % 2 ^ 64 := by
  rw [idLine, idLine, List.append_cancel_left_eq, numeral_inj (by decide) (by decide)]

theorem statusLine_inj {i j : ℤ} : statusLine errors i = statusLine errors j ↔ i = j := by
  have hblank : ∀ i, ascii ' ' ∉ signed i := fun i => notMem_signed (by decide) (by decide)
  refine ⟨fun h => ?_, fun h => h ▸ rfl⟩
  simp only [statusLine, rpcErrorCodePrint, List.append_assoc, List.append_cancel_left_eq] at h
  exact signed_inj.1 ((append_sep_inj (hblank i) (hblank j)).1 h).1

theorem notMem_statusLine (status : ℤ) : newline ∉ statusLine errors status := by
  have hsigned : newline ∉ signed status := notMem_signed (by decide) (by decide)
  have herror := errors.oneLine status
  simp only [statusLine, rpcErrorCodePrint, List.mem_append, not_or]
  exact ⟨by decide, ⟨⟨by decide, hsigned⟩, by decide⟩, herror⟩

end Lines

section Tasks

def taskLines (errors : ErrorTexts) (e : TaskEntry) : List (List Byte) :=
  [statusLine errors e.status,
    text "      packet mmap size: " ++ numeral 10 (e.frameNr * e.frameSize).toNat,
    text "      frame number: " ++ numeral 10 e.frameNr.toNat,
    text "      pcap: " ++ e.pcap,
    text "      interface: " ++ e.interface]

def sockFilterLine (sf : PbufSockFilter) : List Byte :=
  text "        - \x7b code: " ++ altHex sf.code.toNat ++ text ", jt: " ++ altHex sf.jt.toNat ++
    text ", jf: " ++ altHex sf.jf.toNat ++ text ", k: " ++ altHex sf.k.toNat ++ text " \x7d"

theorem sockFilterLine_inj {p q : PbufSockFilter} :
    sockFilterLine p = sockFilterLine q ↔ p = q := by
  have hcomma : ∀ n, ascii ',' ∉ altHex n := fun n => notMem_altHex (by decide) (by decide)
  refine ⟨fun h => ?_, fun h => h ▸ rfl⟩
  simp only [sockFilterLine, List.append_assoc, List.append_cancel_left_eq] at h
  obtain ⟨hcode, h⟩ := (append_sep_inj (hcomma _) (hcomma _)).1 h
  obtain ⟨hjt, h⟩ := (append_sep_inj (hcomma _) (hcomma _)).1 h
  obtain ⟨hjf, h⟩ := (append_sep_inj (hcomma _) (hcomma _)).1 h
  rw [List.append_cancel_right_eq] at h
  obtain ⟨code, jt, jf, k⟩ := p
  obtain ⟨code', jt', jf', k'⟩ := q
  rw [PbufSockFilter.mk.injEq]
  exact ⟨BitVec.eq_of_toNat_eq (altHex_inj.1 hcode), BitVec.eq_of_toNat_eq (altHex_inj.1 hjt),
    BitVec.eq_of_toNat_eq (altHex_inj.1 hjf), BitVec.eq_of_toNat_eq (altHex_inj.1 h)⟩

theorem beginsEntry_taskLines {errors : ErrorTexts} {e : TaskEntry} :
    ∀ line ∈ taskLines errors e, beginsEntry line = false := by
  simp only [taskLines, List.forall_mem_cons]
  exact ⟨rfl, rfl, rfl, rfl, rfl, fun _ h => absurd h List.not_mem_nil⟩

/-- The blocks of `capture get`. -/
def captureLayout (errors : ErrorTexts) : Layout TaskEntry where
  header := rpcHeaderPrint "captures"
  head e := idLine e.id
  tail e := taskLines errors e ++ text "      socket filter: " :: e.sfp.map sockFilterLine
  mark := beginsEntry
  header_oneLine := rpcHeaderPrint_oneLine (by decide)
  mark_head _ := rfl
  mark_tail e line hline := by
    rcases List.mem_append.1 hline with hline | hline
    · exact beginsEntry_taskLines line hline
    · rcases List.mem_cons.1 hline with rfl | hline
      · rfl
      · obtain ⟨sf, -, rfl⟩ := List.mem_map.1 hline
        rfl

def replayLayout (errors : ErrorTexts) : Layout TaskEntry where
  header := rpcHeaderPrint "replays"
  head e := idLine e.id
  tail e := taskLines errors e
  mark := beginsEntry
  header_oneLine := rpcHeaderPrint_oneLine (by decide)
  mark_head _ := rfl
  mark_tail _ := beginsEntry_taskLines

def captureSettingsPrint (errors : ErrorTexts) (result : Option (List TaskEntry)) :
    List Byte :=
  (captureLayout errors).print (result.getD [])

def replaySettingsPrint (errors : ErrorTexts) (result : Option (List TaskEntry)) :
    List Byte :=
  (replayLayout errors).print (result.getD [])

/-- What is printed of an entry: the size of a frame only as a factor. -/
def printedTask (e : TaskEntry) : TaskEntry :=
  { e with id := e.id % 2 ^ 64, frameSize := e.frameNr * e.frameSize }

theorem taskLines_inj {errors : ErrorTexts} {e e' : TaskEntry} :
    idLine e.id = idLine e'.id ∧ taskLines errors e = taskLines errors e' ↔
      printedTask { e with sfp := [] } = printedTask { e' with sfp := [] } := by
  simp only [taskLines, List.cons.injEq, List.append_cancel_left_eq, idLine_inj,
    statusLine_inj, numeral_inj (b := 10) (by decide) (by decide), BitVec.toNat_inj,
    printedTask, TaskEntry.mk.injEq, and_true]
  tauto

theorem captureLayout_seen {errors : ErrorTexts} (e e' : TaskEntry) :
    (captureLayout errors).head e = (captureLayout errors).head e' ∧
      (captureLayout errors).tail e = (captureLayout errors).tail e' ↔
      printedTask e = printedTask e' := by
  have hlength : (taskLines errors e).length = (taskLines errors e').length := rfl
  have hfilter : e.sfp.map sockFilterLine = e'.sfp.map sockFilterLine ↔ e.sfp = e'.sfp :=
    List.map_inj_right fun _ _ => sockFilterLine_inj.1
  have hlines : (captureLayout errors).tail e = (captureLayout errors).tail e' ↔
      taskLines errors e = taskLines errors e' ∧ e.sfp = e'.sfp := by
    rw [← hfilter]
    refine ⟨fun h => ?_, fun h => ?_⟩
    · obtain ⟨htask, hrest⟩ := List.append_inj h hlength
      exact ⟨htask, (List.cons.inj hrest).2⟩
    · simp only [captureLayout, h.1, h.2]
  have hhead : (captureLayout errors).head e = (captureLayout errors).head e' ↔
      idLine e.id = idLine e'.id := Iff.rfl
  rw [hlines, hhead, ← and_assoc, taskLines_inj]
  simp only [printedTask, TaskEntry.mk.injEq, and_true, and_assoc]

def PlainTask (e : TaskEntry) : Prop := newline ∉ e.pcap ∧ newline ∉ e.interface

theorem notMem_idLine (id : ℕ) : newline ∉ idLine id := by
  rw [idLine, List.mem_append, not_or]
  exact ⟨by decide, notMem_numeral (by decide) (by decide) (by decide)⟩

theorem replayLayout_plain {errors : ErrorTexts} {e : TaskEntry} (h : PlainTask e) :
    (replayLayout errors).Plain e := by
  have hnumeral : ∀ n, newline ∉ numeral 10 n := fun n =>
    notMem_numeral (by decide) (by decide) (by decide)
  refine ⟨notMem_idLine e.id, ?_⟩
  simp only [replayLayout, taskLines, List.forall_mem_cons, List.mem_append, not_or, hnumeral,
    h.1, h.2, notMem_statusLine, not_false_eq_true, and_true, true_and]
  exact ⟨by decide, by decide, by decide, by decide, fun _ h => absurd h List.not_mem_nil⟩

theorem captureLayout_plain {errors : ErrorTexts} {e : TaskEntry} (h : PlainTask e) :
    (captureLayout errors).Plain e := by
  have hhex : ∀ n, newline ∉ altHex n := fun n => notMem_altHex (by decide) (by decide)
  have htask : (replayLayout errors).Plain e := replayLayout_plain h
  refine ⟨notMem_idLine e.id, fun line hline => ?_⟩
  rcases List.mem_append.1 hline with hline | hline
  · exact htask.2 line hline
  · rcases List.mem_cons.1 hline with rfl | hline
    · decide
    · obtain ⟨sf, -, rfl⟩ := List.mem_map.1 hline
      simp only [sockFilterLine, List.mem_append, not_or, hhex, not_false_eq_true, and_true]
      decide

/-- An entry whose numbers have the widths that they have in a ring, and that has frames. -/
structure SoundTask (e : TaskEntry) : Prop where
  id_lt : e.id < 2 ^ 64
  frameNr_ne : e.frameNr ≠ 0
  frameNr_lt : e.frameNr.toNat < 2 ^ 32
  frameSize_lt : e.frameSize.toNat < 2 ^ 32

/-- With those widths the product of the sizes does not wrap, and the size of a frame is found
again. -/
theorem printedTask_inj {e e' : TaskEntry} (h : SoundTask e) (h' : SoundTask e')
    (heq : printedTask e = printedTask e') : e = e' := by
  have hproduct : ∀ {e : TaskEntry}, SoundTask e →
      (e.frameNr * e.frameSize).toNat = e.frameNr.toNat * e.frameSize.toNat := by
    intro e h
    have hlt : e.frameNr.toNat * e.frameSize.toNat < 2 ^ 64 :=
      (Nat.mul_lt_mul'' h.frameNr_lt h.frameSize_lt).trans_le (by decide)
    rw [BitVec.toNat_mul, Nat.mod_eq_of_lt hlt]
  obtain ⟨status, id, pcap, interface, frameNr, frameSize, sfp⟩ := e
  obtain ⟨status', id', pcap', interface', frameNr', frameSize', sfp'⟩ := e'
  simp only [printedTask, TaskEntry.mk.injEq] at heq
  obtain ⟨rfl, hid, rfl, rfl, rfl, hsize, rfl⟩ := heq
  have hid' : id = id' := by
    rwa [Nat.mod_eq_of_lt h.id_lt, Nat.mod_eq_of_lt h'.id_lt] at hid
  have hpos : 0 < frameNr.toNat := by
    refine Nat.pos_of_ne_zero fun hzero => h.frameNr_ne ?_
    exact BitVec.eq_of_toNat_eq hzero
  have hmul : frameNr.toNat * frameSize.toNat = frameNr.toNat * frameSize'.toNat :=
    (hproduct h).symm.trans ((congrArg BitVec.toNat hsize).trans (hproduct h'))
  rw [hid', BitVec.eq_of_toNat_eq (Nat.eq_of_mul_eq_mul_left hpos hmul)]

end Tasks

section Threads

def schedPolicy2str (policy : ℤ) : List Byte :=
  if policy = 0 then text "other"
  else if policy = 1 then text "fifo"
  else if policy = 2 then text "rr"
  else text "unknown"

def namedPolicy (policy : ℤ) : Option ℤ := if policy ∈ [0, 1, 2] then some policy else none

def threadType2str : PacketThreadType → List Byte
  | .capture => text "capture"
  | .replay => text "replay"

/-- The blocks of `thread get`. -/
def threadLayout (errors : ErrorTexts) : Layout ThreadEntry where
  header := rpcHeaderPrint "threads"
  head e := idLine e.id
  tail e :=
    [statusLine errors e.status,
      text "      type: " ++ threadType2str e.type,
      text "      scheduling policy: " ++ schedPolicy2str e.schedPolicy,
      text "      scheduling priority: " ++ signed e.schedPriority,
      text "      cpu affinity: " ++ e.cpuSet]
  mark := beginsEntry
  header_oneLine := rpcHeaderPrint_oneLine (by decide)
  mark_head _ := rfl
  mark_tail e := by
    simp only [List.forall_mem_cons]
    exact ⟨rfl, rfl, rfl, rfl, rfl, fun _ h => absurd h List.not_mem_nil⟩

def threadPrint (errors : ErrorTexts) (result : Option (List ThreadEntry)) : List Byte :=
  (threadLayout errors).print (result.getD [])

theorem schedPolicy2str_eq_iff {p q : ℤ} :
    schedPolicy2str p = schedPolicy2str q ↔ namedPolicy p = namedPolicy q := by
  have hother : ∀ i ∈ ([0, 1, 2] : List ℤ), schedPolicy2str i ≠ text "unknown" := by decide
  have hinj : ∀ i ∈ ([0, 1, 2] : List ℤ), ∀ j ∈ ([0, 1, 2] : List ℤ),
      schedPolicy2str i = schedPolicy2str j → i = j := by decide
  have hnone : ∀ {i : ℤ}, i ∉ ([0, 1, 2] : List ℤ) → schedPolicy2str i = text "unknown" := by
    intro i hi
    simp only [List.mem_cons, List.not_mem_nil, or_false, not_or] at hi
    rw [schedPolicy2str, if_neg hi.1, if_neg hi.2.1, if_neg hi.2.2]
  unfold namedPolicy
  by_cases hp : p ∈ ([0, 1, 2] : List ℤ) <;> by_cases hq : q ∈ ([0, 1, 2] : List ℤ)
  · rw [if_pos hp, if_pos hq, Option.some_inj]
    exact ⟨hinj p hp q hq, fun h => h ▸ rfl⟩
  · rw [if_pos hp, if_neg hq, hnone hq]
    exact iff_of_false (hother p hp) (Option.some_ne_none p)
  · rw [if_neg hp, if_pos hq, hnone hp]
    exact iff_of_false (hother q hq).symm (Option.some_ne_none q).symm
  · rw [if_neg hp, if_neg hq, hnone hp, hnone hq]
    exact iff_of_true rfl rfl

theorem threadType2str_inj {t t' : PacketThreadType} :
    threadType2str t = threadType2str t' ↔ t = t' := by
  cases t <;> cases t' <;> decide

def printedThread (e : ThreadEntry) : ℕ × ℤ × PacketThreadType × Option ℤ × ℤ × List Byte :=
  (e.id % 2 ^ 64, e.status, e.type, namedPolicy e.schedPolicy, e.schedPriority, e.cpuSet)

theorem threadLayout_seen {errors : ErrorTexts} (e e' : ThreadEntry) :
    (threadLayout errors).head e = (threadLayout errors).head e' ∧
      (threadLayout errors).tail e = (threadLayout errors).tail e' ↔
      printedThread e = printedThread e' := by
  simp only [threadLayout, List.cons.injEq, List.append_cancel_left_eq, idLine_inj,
    statusLine_inj, threadType2str_inj, schedPolicy2str_eq_iff, signed_inj, printedThread,
    Prod.mk.injEq, and_true]

def PlainThread (e : ThreadEntry) : Prop := newline ∉ e.cpuSet

theorem threadLayout_plain {errors : ErrorTexts} {e : ThreadEntry} (h : PlainThread e) :
    (threadLayout errors).Plain e := by
  have hsigned : newline ∉ signed e.schedPriority := notMem_signed (by decide) (by decide)
  have htype : newline ∉ threadType2str e.type := by cases e.type <;> decide
  have hpolicy : newline ∉ schedPolicy2str e.schedPolicy := by
    unfold schedPolicy2str
    split_ifs <;> decide
  have hset : newline ∉ e.cpuSet := h
  refine ⟨notMem_idLine e.id, ?_⟩
  simp only [threadLayout, List.forall_mem_cons, List.mem_append, not_or, hsigned, htype,
    hpolicy, hset, notMem_statusLine, not_false_eq_true, and_true, true_and]
  exact ⟨by decide, by decide, by decide, by decide, fun _ h => absurd h List.not_mem_nil⟩

end Threads

end Cli
