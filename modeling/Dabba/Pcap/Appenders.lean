import Dabba.Pcap.ByteOrder
import Dabba.Pcap.Opening

/-!
# Several writers on one file

`ldabPcapOpen` takes `O_APPEND` away and seeks to the end of the file instead, once.
From then on every descriptor writes at its own offset. The writes of several
descriptors are kept exactly when each is made where the file ends.
-/

namespace Pcap

open Posix Program

/-- The bytes hold the records in this order, with anything between them. -/
inductive Holds : List Record → List Byte → Prop
  | nil (bytes : List Byte) : Holds [] bytes
  | cons {r : Record} {rs : List Record} {post : List Byte} (gap : List Byte)
      (h : Holds rs post) : Holds (r :: rs) (gap ++ (r.bytes ++ post))

namespace Holds

variable {rs : List Record} {bytes : List Byte}

theorem append (h : Holds rs bytes) (more : List Byte) : Holds rs (bytes ++ more) := by
  induction h with
  | nil bytes => exact .nil _
  | cons gap _ ih =>
      rw [List.append_assoc, List.append_assoc]
      exact .cons gap ih

theorem snoc (h : Holds rs bytes) (r : Record) : Holds (rs ++ [r]) (bytes ++ r.bytes) := by
  induction h with
  | nil bytes =>
      have hcons := Holds.cons (r := r) bytes (.nil [])
      rwa [List.append_nil] at hcons
  | cons gap _ ih =>
      rw [List.append_assoc, List.append_assoc]
      exact .cons gap ih

theorem length_le (h : Holds rs bytes) : (recordsBytes rs).length ≤ bytes.length := by
  induction h with
  | nil bytes => exact Nat.zero_le _
  | cons gap _ ih =>
      rw [recordsBytes_cons, List.length_append, List.length_append, List.length_append]
      omega

end Holds

/-- The writers of a file: the descriptors they opened, and the packets of the calls
that returned success, in the order of the calls. -/
structure Writers (S : Type) where
  os : Os S
  fds : List ℤ
  packets : List Packet

/-- What a writer does: it opens the file to append to it, or writes a packet to a
descriptor. -/
inductive Action
  | opens (script : ℕ → Outcome)
  | writes (fd : ℤ) (call : WriteCall)

namespace Action

variable {S : Type}

def step (path : Path) : Action → Writers S → Option (Writers S)
  | .opens script, s =>
      ((ldabPcapOpen path (oRdwr ||| oAppend)).run Os.handle script s.os).map
        fun x : ℤ × Os S => { s with os := x.2, fds := if 0 < x.1 then x.1 :: s.fds else s.fds }
  | .writes fd c, s =>
      if fd ∈ s.fds then
        (c.run fd s.os).map fun x =>
          { s with
            os := x.2
            packets := if x.1 = -1 then s.packets else s.packets ++ [c.packet] }
      else none

/-- A write that transfers anything is made where the file ends. -/
def AtEnd : Action → Writers S → Prop
  | .opens _, _ => True
  | .writes fd c, s => c.taken = 0 ∨ ∃ f, s.os.fds fd = some (.file f) ∧
      f.offset = (s.os.data f.inode).length

/-- A write transfers its whole record or nothing. -/
def AllOrNothing : Action → Prop
  | .opens _ => True
  | .writes _ c => c.Succeeds ∨ c.taken = 0

end Action

def runActions {S : Type} (path : Path) : List Action → Writers S → Option (Writers S)
  | [], s => some s
  | a :: as, s => (a.step path s).bind (runActions path as)

/-- Every write of the run is made where the file ends. -/
def AllAtEnd {S : Type} (path : Path) : List Action → Writers S → Prop
  | [], _ => True
  | a :: as, s => a.AtEnd s ∧ ∀ s', a.step path s = some s' → AllAtEnd path as s'

/-- The file keeps the bytes it had, and holds the packets of all successful calls
behind them, in order. -/
def Appended {S : Type} (i : ℕ) (start : List Byte) (s : Writers S) : Prop :=
  ∃ tail, s.os.data i = start ++ tail ∧ Holds (records s.packets) tail

section Run

variable {S : Type} {path : Path} {i : ℕ} {start : List Byte} {s s' : Writers S}
  {a : Action} {actions : List Action}

/-- The descriptors are open on the file and not beyond its end. -/
structure Writers.OnFile (path : Path) (i : ℕ) (s : Writers S) : Prop where
  dir : s.os.dir path = some i
  fds : ∀ fd ∈ s.fds, 0 < fd ∧ ∃ f, s.os.fds fd = some (.file f) ∧ f.inode = i ∧
    f.writable ∧ f.flags &&& oAppend ≠ oAppend ∧ f.offset ≤ (s.os.data i).length

/-- What one action does: it opens a descriptor, or puts the bytes of a call at the
offset of a descriptor. -/
theorem Writers.OnFile.step_cases (h : s.OnFile path i) (hstep : a.step path s = some s') :
    s'.OnFile path i ∧
      ((∃ script, a = .opens script ∧ s'.os.data i = s.os.data i ∧
          s'.packets = s.packets) ∨
        ∃ fd c f, a = .writes fd c ∧ s.os.fds fd = some (.file f) ∧ f.inode = i ∧
          f.offset ≤ (s.os.data i).length ∧
          s'.os.data i = writeAt (s.os.data i) f.offset c.bytes ∧
          s'.packets = if c.Succeeds then s.packets ++ [c.packet] else s.packets) := by
  cases a with
  | opens script =>
      obtain ⟨⟨fd, os'⟩, hrun, rfl⟩ := Option.map_eq_some_iff.1 hstep
      obtain ⟨hwithin, hopened⟩ := (Os.exec_of_run hrun).of_wlp _
        (wlp_ldabPcapOpen_append path s.os)
      have hdata := hwithin.data_eq
      refine ⟨⟨hwithin.dir_eq ▸ h.dir, fun fd' hmem => ?_⟩,
        Or.inl ⟨script, rfl, congrFun hdata i, rfl⟩⟩
      have hold : ∀ fd' ∈ s.fds, 0 < fd' ∧ ∃ f, os'.fds fd' = some (.file f) ∧ f.inode = i ∧
          f.writable ∧ f.flags &&& oAppend ≠ oAppend ∧ f.offset ≤ (os'.data i).length := by
        intro fd' hmem
        obtain ⟨hpos, f, hfd, hf⟩ := h.fds fd' hmem
        refine ⟨hpos, f, ?_, hdata ▸ hf⟩
        rw [hwithin.fds fd' (by simp [hfd]), hfd]
      by_cases hpos : 0 < fd
      · rw [if_pos hpos] at hmem
        rcases List.mem_cons.1 hmem with rfl | hmem
        · obtain ⟨f, hfd, -, hdir, hflags, hoff⟩ := hopened hpos
          rw [h.dir] at hdir
          have hinode : f.inode = i := (Option.some.inj hdir).symm
          refine ⟨hpos, f, hfd, hinode, ?_, ?_, ?_⟩
          · rw [OpenFile.writable, hflags]
            decide
          · rw [hflags]
            decide
          · rw [hoff, hdata, hinode]
        · exact hold fd' hmem
      · rw [if_neg hpos] at hmem
        exact hold fd' hmem
  | writes fd c =>
      rw [Action.step] at hstep
      split_ifs at hstep with hmem
      obtain ⟨⟨rc, os'⟩, hrun, rfl⟩ := Option.map_eq_some_iff.1 hstep
      obtain ⟨hpos, f, hfd, rfl, hw, happend, hoff⟩ := h.fds fd hmem
      obtain ⟨os'', hrun', hwrote⟩ := c.run_eq hpos hfd hw happend hoff
      rw [hrun] at hrun'
      obtain ⟨rfl, rfl⟩ := Prod.mk.inj (Option.some.inj hrun')
      have hdata := hwrote.data_self
      have hlen : f.offset + c.bytes.length ≤ (os'.data f.inode).length := by
        rw [hdata, length_writeAt hoff]
        exact le_max_right _ _
      have hle : (s.os.data f.inode).length ≤ (os'.data f.inode).length := by
        rw [hdata, length_writeAt hoff]
        exact le_max_left _ _
      refine ⟨⟨hwrote.dir ▸ h.dir, fun fd' hmem' => ?_⟩,
        Or.inr ⟨fd, c, f, rfl, hfd, rfl, hoff, hdata, ?_⟩⟩
      · obtain ⟨hpos', f', hfd', hinode, hw', happend', hoff'⟩ := h.fds fd' hmem'
        refine ⟨hpos', ?_⟩
        by_cases hne : fd' = fd
        · subst hne
          exact ⟨_, hwrote.fds_self, rfl, hw, happend, hlen⟩
        · refine ⟨f', ?_, hinode, hw', happend', hoff'.trans hle⟩
          rw [hwrote.fds_of_ne hne, hfd']
      · by_cases hc : c.Succeeds
        · rw [if_pos hc, if_pos hc, if_neg (by omega)]
        · rw [if_neg hc, if_neg hc, if_pos rfl]

def Writers.size (s : Writers S) : ℕ := (recordsBytes (records s.packets)).length

theorem size_of_packets_append {c : WriteCall} (hc : c.Succeeds)
    (h : s'.packets = s.packets ++ [c.packet]) : s'.size = s.size + c.taken := by
  rw [Writers.size, h, records_append, recordsBytes_append, List.length_append, hc]
  simp only [records, List.map_cons, List.map_nil, recordsBytes_cons, recordsBytes_nil,
    List.append_nil, Writers.size]

/-- A write at the end of the file keeps what the file holds. -/
theorem Appended.step (happended : Appended i start s) (h : s.OnFile path i)
    (hend : a.AtEnd s) (hstep : a.step path s = some s') : Appended i start s' := by
  obtain ⟨tail, hdata, hholds⟩ := happended
  obtain ⟨-, ⟨script, rfl, hdata', hpackets⟩ |
    ⟨fd, c, f, rfl, hfd, rfl, hoff, hdata', hpackets⟩⟩ := h.step_cases hstep
  · exact ⟨tail, hdata'.trans hdata, hpackets ▸ hholds⟩
  · have hlast : f.offset = (s.os.data f.inode).length ∨ c.taken = 0 := by
      rcases hend with hnone | ⟨f', hfd', hlast⟩
      · exact Or.inr hnone
      · rw [hfd] at hfd'
        cases hfd'
        exact Or.inl hlast
    have hfile : s'.os.data f.inode = s.os.data f.inode ++ c.bytes := by
      rcases hlast with hlast | hnone
      · rw [hdata', hlast, writeAt_length]
      · rw [hdata', WriteCall.bytes, hnone, List.take_zero, writeAt_nil hoff, List.append_nil]
    refine ⟨tail ++ c.bytes, by rw [hfile, hdata, List.append_assoc], ?_⟩
    by_cases hc : c.Succeeds
    · rw [hpackets, if_pos hc, records_append, WriteCall.bytes_of_succeeds hc]
      exact hholds.snoc c.packet.record
    · rw [hpackets, if_neg hc]
      exact hholds.append _

/-- The file grows by no more than what is written with success, and by less when a write
is not made at its end. -/
theorem Writers.OnFile.step_length_le (h : s.OnFile path i) (hall : a.AllOrNothing)
    (hstep : a.step path s = some s') :
    (s'.os.data i).length + s.size ≤ (s.os.data i).length + s'.size ∧
      (¬ a.AtEnd s →
        (s'.os.data i).length + s.size < (s.os.data i).length + s'.size) := by
  obtain ⟨-, ⟨script, rfl, hdata', hpackets⟩ |
    ⟨fd, c, f, rfl, hfd, rfl, hoff, hdata', hpackets⟩⟩ := h.step_cases hstep
  · rw [hdata', Writers.size, Writers.size, hpackets]
    exact ⟨le_rfl, fun hend => (hend trivial).elim⟩
  · have hlen : (s'.os.data f.inode).length =
        max (s.os.data f.inode).length (f.offset + c.taken) := by
      rw [hdata', length_writeAt hoff, c.length_bytes]
    have hpos : 0 < c.packet.record.bytes.length := by
      rw [Record.length_bytes]
      exact Nat.add_pos_left (by decide) _
    by_cases hc : c.Succeeds
    · rw [if_pos hc] at hpackets
      rw [size_of_packets_append hc hpackets, hlen]
      refine ⟨by omega, fun hend => ?_⟩
      have hbefore : f.offset ≠ (s.os.data f.inode).length :=
        fun hlast => hend (Or.inr ⟨f, hfd, hlast⟩)
      have htaken : 0 < c.taken := hc ▸ hpos
      omega
    · rw [if_neg hc] at hpackets
      have hnone := hall.resolve_left hc
      have hsize : s'.size = s.size := by rw [Writers.size, hpackets, Writers.size]
      rw [hsize, hlen]
      exact ⟨by omega, fun hend => (hend (Or.inl hnone)).elim⟩

theorem Appended.run (happended : Appended i start s) (h : s.OnFile path i)
    (hend : AllAtEnd path actions s) (hrun : runActions path actions s = some s') :
    Appended i start s' := by
  induction actions generalizing s with
  | nil =>
      cases hrun
      exact happended
  | cons a as ih =>
      obtain ⟨s₁, hstep, hrest⟩ := Option.bind_eq_some_iff.1 hrun
      exact ih (happended.step h hend.1 hstep) (h.step_cases hstep).1 (hend.2 s₁ hstep) hrest

/-- Over a run the file grows by no more than what is written with success, and by less
when a write is not made at its end. -/
theorem Writers.OnFile.run_length_le (h : s.OnFile path i)
    (hall : ∀ a ∈ actions, a.AllOrNothing) (hrun : runActions path actions s = some s') :
    (s'.os.data i).length + s.size ≤ (s.os.data i).length + s'.size ∧
      (¬ AllAtEnd path actions s →
        (s'.os.data i).length + s.size < (s.os.data i).length + s'.size) := by
  induction actions generalizing s with
  | nil =>
      cases hrun
      exact ⟨le_rfl, fun hend => (hend trivial).elim⟩
  | cons a as ih =>
      obtain ⟨s₁, hstep, hrest⟩ := Option.bind_eq_some_iff.1 hrun
      obtain ⟨hle, hlt⟩ := h.step_length_le (hall a List.mem_cons_self) hstep
      obtain ⟨hle', hlt'⟩ := ih (h.step_cases hstep).1
        (fun a' ha' => hall a' (List.mem_cons_of_mem a ha')) hrest
      refine ⟨by omega, fun hend => ?_⟩
      by_cases ha : a.AtEnd s
      · have hlater : ¬ AllAtEnd path as s₁ := by
          intro hlater
          refine hend ⟨ha, fun s₂ hstep₂ => ?_⟩
          rw [hstep] at hstep₂
          cases hstep₂
          exact hlater
        have hless := hlt' hlater
        omega
      · have hless := hlt ha
        omega

/-- The start of a run, before any descriptor is opened. -/
structure Writers.Initial (path : Path) (i : ℕ) (s : Writers S) : Prop where
  dir : s.os.dir path = some i
  fds : s.fds = []
  packets : s.packets = []

namespace Writers.Initial

theorem onFile (h : s.Initial path i) : s.OnFile path i :=
  ⟨h.dir, fun _ hmem => absurd (h.fds ▸ hmem) List.not_mem_nil⟩

theorem appended (h : s.Initial path i) : Appended i (s.os.data i) s :=
  ⟨[], (List.append_nil _).symm, by rw [h.packets]; exact .nil _⟩

/-- A write that is not made at the end of the file destroys bytes for good. -/
theorem allAtEnd (h : s.Initial path i) (hall : ∀ a ∈ actions, a.AllOrNothing)
    (hrun : runActions path actions s = some s')
    (happended : Appended i (s.os.data i) s') : AllAtEnd path actions s := by
  by_contra hend
  have hlt := (h.onFile.run_length_le hall hrun).2 hend
  obtain ⟨tail, hdata, hholds⟩ := happended
  have hle := hholds.length_le
  have hsize : s.size = 0 := by
    rw [Writers.size, h.packets]
    rfl
  rw [hdata, List.length_append, hsize] at hlt
  rw [Writers.size] at hlt
  omega

end Writers.Initial

/-- What several writers append is kept when every write is made where the file ends. When
no write fails half-way, it is kept only then. -/
theorem appended_iff (h : s.Initial path i) (hrun : runActions path actions s = some s') :
    (AllAtEnd path actions s → Appended i (s.os.data i) s') ∧
      ((∀ a ∈ actions, a.AllOrNothing) →
        (Appended i (s.os.data i) s' ↔ AllAtEnd path actions s)) :=
  ⟨fun hend => h.appended.run h.onFile hend hrun,
    fun hall => ⟨h.allAtEnd hall hrun, fun hend => h.appended.run h.onFile hend hrun⟩⟩

end Run

/-- The file of a process, and no writers yet. -/
def noWriters : Writers Unit where
  os := fileOs [0x61] (createdHeader linktypeEn10mb).bytes
  fds := []
  packets := []

def opensAs (n : ℕ) : Action := .opens fun k => if k = 0 then .ok n else .ok 0

def twoWriters : List Action :=
  [opensAs 3, opensAs 4, .writes 3 (.complete bytePacket), .writes 4 (.complete bytePacket)]

theorem noWriters_initial : noWriters.Initial [0x61] 0 := ⟨rfl, rfl, rfl⟩

theorem appended_iff_oneWriter :
    ∃ s, runActions [0x61] [opensAs 3, .writes 3 (.complete bytePacket)] noWriters = some s ∧
      (AllAtEnd [0x61] [opensAs 3, .writes 3 (.complete bytePacket)] noWriters →
        Appended 0 (noWriters.os.data 0) s) ∧
      ((∀ a ∈ [opensAs 3, .writes 3 (.complete bytePacket)], a.AllOrNothing) →
        (Appended 0 (noWriters.os.data 0) s ↔
          AllAtEnd [0x61] [opensAs 3, .writes 3 (.complete bytePacket)] noWriters)) := by
  obtain ⟨s, hrun⟩ : ∃ s, runActions [0x61]
      [opensAs 3, .writes 3 (.complete bytePacket)] noWriters = some s :=
    Option.isSome_iff_exists.1 rfl
  exact ⟨s, hrun, appended_iff noWriters_initial hrun⟩

/-- The second writer overwrites the packet of the first. -/
theorem not_appended_twoWriters :
    ∃ s, runActions [0x61] twoWriters noWriters = some s ∧
      ¬ Appended 0 (noWriters.os.data 0) s := by
  obtain ⟨s, hrun⟩ : ∃ s, runActions [0x61] twoWriters noWriters = some s :=
    Option.isSome_iff_exists.1 rfl
  have hlen : (runActions [0x61] twoWriters noWriters).map
      (fun s => ((s.os.data 0).length, s.size)) = some (41, 34) := rfl
  rw [hrun, Option.map_some, Option.some.injEq, Prod.mk.injEq] at hlen
  refine ⟨s, hrun, fun ⟨tail, hdata, hholds⟩ => ?_⟩
  have hle := hholds.length_le
  have hstart : (noWriters.os.data 0).length = 24 := rfl
  rw [hdata, List.length_append, hstart, Writers.size] at hlen
  omega

end Pcap
