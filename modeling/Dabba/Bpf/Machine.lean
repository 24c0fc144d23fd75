import Mathlib.Logic.Relation
import Dabba.Bpf.Opcode

/-!
# The classic BPF machine

The machine reads a packet and runs a program on two registers and a scratch
memory. A step either goes on or stops, and `Stop` keeps apart the ways in
which a run can end: at a return instruction, at an undefined code, at one of
the two run-time checks, at a scratch word that does not exist, or past the end
of the program. The next program counter is computed in unsigned 32-bit
arithmetic.
-/

namespace Bpf

/-- The registers and the scratch memory. -/
structure State where
  pc : BitVec 32
  a : BitVec 32
  x : BitVec 32
  mem : Fin bpfMemwords → BitVec 32

/-- The ways in which a run ends. -/
inductive Stop
  | ret (v : BitVec 32)
  | undefined
  | packetBounds
  | divByZero
  | scratchBounds
  | offEnd
deriving DecidableEq

inductive Result
  | next (s : State)
  | stop (r : Stop)

/-- `n` bytes of the packet from `off` on, most significant byte first. -/
def load (pkt : List (BitVec 8)) (off n : ℕ) : Option (BitVec 32) :=
  if off + n ≤ pkt.length then
    some (((pkt.drop off).take n).foldl
      (fun acc b => (acc <<< 8) ||| b.setWidth 32) 0)
  else none

def AluOp.eval : AluOp → BitVec 32 → BitVec 32 → BitVec 32
  | .add, a, v => a + v
  | .sub, a, v => a - v
  | .mul, a, v => a * v
  | .div, a, v => a / v
  | .or, a, v => a ||| v
  | .and, a, v => a &&& v
  | .lsh, a, v => a <<< v
  | .rsh, a, v => a >>> v

def JmpOp.eval : JmpOp → BitVec 32 → BitVec 32 → Bool
  | .jeq, a, v => a == v
  | .jgt, a, v => v < a
  | .jge, a, v => v ≤ a
  | .jset, a, v => a &&& v != 0

def Source.eval (s : State) (k : BitVec 32) : Source → BitVec 32
  | .k => k
  | .x => s.x

/-- The state with the program counter `d` instructions past the next one. -/
def State.jump (s : State) (d : BitVec 32) : State :=
  { s with pc := s.pc + 1 + d }

def State.advance (s : State) : State := s.jump 0

@[simp] theorem State.jump_pc (s : State) (d : BitVec 32) :
    (s.jump d).pc = s.pc + 1 + d := rfl

@[simp] theorem State.advance_pc (s : State) : s.advance.pc = s.pc + 1 := by
  simp [advance]

/-- Executes one decoded instruction. -/
def exec (pkt : List (BitVec 8)) (s : State) (p : SockFilter) :
    Opcode → Result
  | .ldAbs size =>
      match load pkt p.k.toNat size.bytes with
      | some v => .next { s.advance with a := v }
      | none => .stop .packetBounds
  | .ldInd size =>
      match load pkt (s.x.toNat + p.k.toNat) size.bytes with
      | some v => .next { s.advance with a := v }
      | none => .stop .packetBounds
  | .ldImm => .next { s.advance with a := p.k }
  | .ldMem =>
      if h : p.k.toNat < bpfMemwords then
        .next { s.advance with a := s.mem ⟨p.k.toNat, h⟩ }
      else .stop .scratchBounds
  | .ldLen => .next { s.advance with a := BitVec.ofNat 32 pkt.length }
  | .ldxImm => .next { s.advance with x := p.k }
  | .ldxMem =>
      if h : p.k.toNat < bpfMemwords then
        .next { s.advance with x := s.mem ⟨p.k.toNat, h⟩ }
      else .stop .scratchBounds
  | .ldxLen => .next { s.advance with x := BitVec.ofNat 32 pkt.length }
  | .ldxMsh =>
      match load pkt p.k.toNat 1 with
      | some v => .next { s.advance with x := (v &&& 0xf) <<< 2 }
      | none => .stop .packetBounds
  | .st =>
      if h : p.k.toNat < bpfMemwords then
        .next { s.advance with mem := Function.update s.mem ⟨p.k.toNat, h⟩ s.a }
      else .stop .scratchBounds
  | .stx =>
      if h : p.k.toNat < bpfMemwords then
        .next { s.advance with mem := Function.update s.mem ⟨p.k.toNat, h⟩ s.x }
      else .stop .scratchBounds
  | .alu op src =>
      if op = .div ∧ src.eval s p.k = 0 then .stop .divByZero
      else .next { s.advance with a := op.eval s.a (src.eval s p.k) }
  | .neg => .next { s.advance with a := -s.a }
  | .ja => .next (s.jump p.k)
  | .jmp op src =>
      .next (s.jump
        (if op.eval s.a (src.eval s p.k) then p.jt.setWidth 32
          else p.jf.setWidth 32))
  | .retK => .stop (.ret p.k)
  | .retA => .stop (.ret s.a)
  | .tax => .next { s.advance with x := s.a }
  | .txa => .next { s.advance with a := s.x }

def step (prog : List SockFilter) (pkt : List (BitVec 8)) (s : State) :
    Result :=
  match prog[s.pc.toNat]? with
  | none => .stop .offEnd
  | some p =>
      match decode p.code with
      | none => .stop .undefined
      | some op => exec pkt s p op

def run (prog : List SockFilter) (pkt : List (BitVec 8)) : ℕ → State → Result
  | 0, s => .next s
  | n + 1, s =>
      match step prog pkt s with
      | .next s' => run prog pkt n s'
      | .stop r => .stop r

/-- The states a run from `s` goes through. -/
def Reaches (prog : List SockFilter) (pkt : List (BitVec 8)) :
    State → State → Prop :=
  Relation.ReflTransGen fun s s' => step prog pkt s = .next s'

def State.init (a x : BitVec 32) (mem : Fin bpfMemwords → BitVec 32) : State :=
  ⟨0, a, x, mem⟩

/-- The instruction reads or writes the scratch word of index `k`. -/
def SockFilter.AccessesScratch (p : SockFilter) : Prop :=
  p.code = Opcode.ldMem.code ∨ p.code = Opcode.ldxMem.code ∨
    p.code = Opcode.st.code ∨ p.code = Opcode.stx.code

def SockFilter.IsRet (p : SockFilter) : Prop :=
  p.code = Opcode.retK.code ∨ p.code = Opcode.retA.code

theorem step_of_getElem? {prog : List SockFilter} {pkt : List (BitVec 8)}
    {s : State} {p : SockFilter} (h : prog[s.pc.toNat]? = some p) :
    step prog pkt s =
      match decode p.code with
      | none => .stop .undefined
      | some op => exec pkt s p op := by
  rw [step, h]

/-- The distances a step can jump over: the next instruction, the offset of an
unconditional jump, or one of the two offsets of a conditional jump. -/
inductive Displaces (p : SockFilter) : Opcode → BitVec 32 → Prop
  | fall (op : Opcode) (hja : op ≠ .ja) (hjmp : ∀ o src, op ≠ .jmp o src)
      (hretK : op ≠ .retK) (hretA : op ≠ .retA) : Displaces p op 0
  | ja : Displaces p .ja p.k
  | jt (o : JmpOp) (src : Source) :
      Displaces p (.jmp o src) (p.jt.setWidth 32)
  | jf (o : JmpOp) (src : Source) :
      Displaces p (.jmp o src) (p.jf.setWidth 32)

/-- What a step that goes on does to the program counter. -/
theorem exec_next {pkt : List (BitVec 8)} {s s' : State} {p : SockFilter}
    {op : Opcode} (h : exec pkt s p op = .next s') :
    ∃ d, Displaces p op d ∧ s'.pc = s.pc + 1 + d := by
  cases op with
  | ja =>
      cases h
      exact ⟨p.k, .ja, rfl⟩
  | jmp o src =>
      cases h
      by_cases ho : o.eval s.a (src.eval s p.k)
      · exact ⟨_, .jt o src, by simp [ho]⟩
      · exact ⟨_, .jf o src, by simp [ho]⟩
  | retK => cases h
  | retA => cases h
  | _ =>
      refine ⟨0, .fall _ (by simp) (by simp) (by simp) (by simp), ?_⟩
      simp only [exec] at h
      first
        | (cases h; simp)
        | (split at h <;> cases h; simp)

/-- Control can pass from index `i` to index `j`, whatever a branch decides. -/
def Follows (prog : List SockFilter) (i j : BitVec 32) : Prop :=
  ∃ p op d, prog[i.toNat]? = some p ∧ decode p.code = some op ∧
    Displaces p op d ∧ j = i + 1 + d

/-- The paths of the control flow graph. -/
def Flows (prog : List SockFilter) : BitVec 32 → BitVec 32 → Prop :=
  Relation.ReflTransGen (Follows prog)

/-- The instruction ends no run by itself and has one successor only. -/
def Proceeds (p : SockFilter) : Opcode → Prop
  | .ldAbs _ => False
  | .ldInd _ => False
  | .ldxMsh => False
  | .alu .div .k => p.k ≠ 0
  | .alu .div .x => False
  | .jmp _ _ => p.jt = p.jf
  | .retK => False
  | .retA => False
  | _ => True

/-- Control always passes from index `i` to index `j`. -/
def Passes (prog : List SockFilter) (i j : BitVec 32) : Prop :=
  ∃ p op d, prog[i.toNat]? = some p ∧ decode p.code = some op ∧
    Proceeds p op ∧ Displaces p op d ∧ j = i + 1 + d

/-- The paths that every run takes. -/
def Straight (prog : List SockFilter) : BitVec 32 → BitVec 32 → Prop :=
  Relation.ReflTransGen (Passes prog)

theorem follows_of_step {prog : List SockFilter} {pkt : List (BitVec 8)}
    {s s' : State} (h : step prog pkt s = .next s') :
    Follows prog s.pc s'.pc := by
  unfold step at h
  split at h
  · cases h
  · rename_i p hp
    split at h
    · cases h
    · rename_i op hop
      obtain ⟨d, hd, hpc⟩ := exec_next h
      exact ⟨p, op, d, hp, hop, hd, hpc⟩

theorem flows_of_reaches {prog : List SockFilter} {pkt : List (BitVec 8)}
    {s s' : State} (h : Reaches prog pkt s s') : Flows prog s.pc s'.pc :=
  Relation.ReflTransGen.lift State.pc (fun _ _ => follows_of_step) _ _ h

/-- An instruction that proceeds goes on, if its scratch word exists. -/
theorem exec_of_proceeds {pkt : List (BitVec 8)} {s : State} {p : SockFilter}
    {op : Opcode} {d : BitVec 32} (hgo : Proceeds p op) (hd : Displaces p op d)
    (hmem : (op = .ldMem ∨ op = .ldxMem ∨ op = .st ∨ op = .stx) →
      p.k.toNat < bpfMemwords) :
    ∃ s', exec pkt s p op = .next s' ∧ s'.pc = s.pc + 1 + d := by
  cases hd with
  | ja => exact ⟨s.jump p.k, rfl, rfl⟩
  | jt o src =>
      refine ⟨s.jump (p.jt.setWidth 32), ?_, rfl⟩
      simp only [exec]
      rw [← show p.jt = p.jf from hgo, ite_self]
  | jf o src =>
      refine ⟨s.jump (p.jf.setWidth 32), ?_, rfl⟩
      simp only [exec]
      rw [show p.jt = p.jf from hgo, ite_self]
  | fall _ hja hjmp hretK hretA =>
      cases op with
      | ldAbs | ldInd | ldxMsh | retK | retA => exact hgo.elim
      | ja => exact absurd rfl hja
      | jmp o src => exact absurd rfl (hjmp o src)
      | ldMem | ldxMem | st | stx =>
          have hk := hmem (by simp)
          simp [exec, hk]
      | alu o src =>
          have hne : ¬ (o = .div ∧ src.eval s p.k = 0) := by
            rintro ⟨rfl, hzero⟩
            cases src with
            | k => exact hgo hzero
            | x => exact hgo
          simp only [exec, if_neg hne]
          exact ⟨_, rfl, by simp⟩
      | _ => simp [exec]

/-- The ways in which a single instruction can end a run. -/
theorem exec_stop {pkt : List (BitVec 8)} {s : State} {p : SockFilter}
    {op : Opcode} {r : Stop} (h : exec pkt s p op = .stop r) :
    ((op = .retK ∨ op = .retA) ∧ ∃ v, r = .ret v) ∨ r = .packetBounds ∨
      r = .divByZero ∨
      (¬ p.k.toNat < bpfMemwords ∧
        (op = .ldMem ∨ op = .ldxMem ∨ op = .st ∨ op = .stx)) := by
  cases op with
  | retK =>
      cases h
      exact .inl ⟨.inl rfl, p.k, rfl⟩
  | retA =>
      cases h
      exact .inl ⟨.inr rfl, s.a, rfl⟩
  | ja => cases h
  | jmp o src => cases h
  | ldMem | ldxMem | st | stx =>
      simp only [exec] at h
      split at h
      · cases h
      · exact .inr (.inr (.inr ⟨‹_›, by simp⟩))
  | _ =>
      simp only [exec] at h
      first
        | cases h
        | (split at h <;> cases h; simp)

theorem reaches_of_run_eq_stop {prog : List SockFilter}
    {pkt : List (BitVec 8)} {n : ℕ} {s : State} {r : Stop}
    (h : run prog pkt n s = .stop r) :
    ∃ s', Reaches prog pkt s s' ∧ step prog pkt s' = .stop r := by
  induction n generalizing s with
  | zero => cases h
  | succ n ih =>
      rw [run] at h
      cases hstep : step prog pkt s with
      | next s₁ =>
          rw [hstep] at h
          obtain ⟨s', hreach, hstop⟩ := ih h
          exact ⟨s', .head hstep hreach, hstop⟩
      | stop r' =>
          rw [hstep] at h
          cases h
          exact ⟨s, .refl, hstep⟩

/-- A program whose every step moves the program counter forward, and keeps it
below a bound, stops within that many steps. -/
theorem run_stops_of_pc_increasing {prog : List SockFilter}
    {pkt : List (BitVec 8)} {bound : ℕ}
    (hstep : ∀ s s' : State, step prog pkt s = .next s' →
      s.pc.toNat < s'.pc.toNat ∧ s'.pc.toNat < bound) :
    ∀ (n : ℕ) (s : State), s.pc.toNat < bound → bound ≤ s.pc.toNat + n →
      ∃ r, run prog pkt n s = .stop r
  | 0, s, hlt, hle => absurd hlt (by omega)
  | n + 1, s, hlt, hle => by
      rw [run]
      cases h : step prog pkt s with
      | next s' =>
          obtain ⟨hinc, hbound⟩ := hstep s s' h
          exact run_stops_of_pc_increasing hstep n s' hbound (by omega)
      | stop r => exact ⟨r, rfl⟩

end Bpf
