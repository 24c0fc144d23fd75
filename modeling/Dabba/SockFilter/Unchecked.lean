import Dabba.SockFilter.Sound

/-!
# What the validator does not look at

The check for a division by the constant zero masks the code with `BPF_RVAL`,
which overlaps `BPF_DIV`: the value it compares is never `BPF_K`, and an
accepted filter may divide by zero. Of the other codes the validator reads the
class, the mode of a load and the operation of an arithmetic instruction or a
jump. It ignores the high byte, every width, the operand bit of the operations
that have no operand, and all other bits of a store, a return or a register
move, so an accepted filter may hold codes that the standard leaves undefined.
-/

namespace SockFilter

open Bpf

section Division

/-- The instruction divides by the constant zero. -/
def IsZeroDivision (p : Bpf.SockFilter) : Prop :=
  p.code = (Opcode.alu .div .k).code ∧ p.k = 0

/-- Every run comes to the end of a straight path of an accepted filter. -/
theorem reaches_of_straight {prog : SockFprog}
    (hvalid : ldabSockFilterIsValid (some prog) = true)
    {pkt : List (BitVec 8)} {s : State} {i : BitVec 32}
    (hpath : Straight prog.program s.pc i) :
    ∃ s', Reaches prog.program pkt s s' ∧ s'.pc = i := by
  induction hpath with
  | refl => exact ⟨s, .refl, rfl⟩
  | tail _ hpass ih =>
      obtain ⟨s₁, hreach, hpc⟩ := ih
      obtain ⟨p, op, d, hp, hop, hgo, hd, hj⟩ := hpass
      rw [← hpc] at hp hj
      have hinsn := insnIsValid_of_ldabSockFilterIsValid hvalid hp
      have hcode := code_of_decode hop
      have hmem : (op = .ldMem ∨ op = .ldxMem ∨ op = .st ∨ op = .stx) →
          p.k.toNat < bpfMemwords := by
        intro h
        refine scratch_lt_of_insnIsValid hinsn ?_
        rcases h with rfl | rfl | rfl | rfl <;>
          simp [SockFilter.AccessesScratch, ← hcode]
      obtain ⟨s₂, hexec, hpc₂⟩ :
          ∃ s₂, exec pkt s₁ p op = .next s₂ ∧ s₂.pc = s₁.pc + 1 + d :=
        exec_of_proceeds hgo hd hmem
      have hstep : step prog.program pkt s₁ = .next s₂ := by
        rw [step_of_getElem? hp, hop]
        exact hexec
      exact ⟨s₂, hreach.tail hstep, by rw [hpc₂, hj]⟩

/-- An accepted filter never divides by the constant zero if no path of its
control flow graph leads to such a division, and always does if a straight path
does. -/
theorem ldabSockFilterIsValid_zeroDivision (prog : SockFprog)
    (hvalid : ldabSockFilterIsValid (some prog) = true) :
    ((∀ i p, Flows prog.program 0 i → prog.program[i.toNat]? = some p →
        ¬ IsZeroDivision p) →
      ∀ pkt a x mem s p, Reaches prog.program pkt (State.init a x mem) s →
        prog.program[s.pc.toNat]? = some p → ¬ IsZeroDivision p) ∧
    ((∃ i p, Straight prog.program 0 i ∧ prog.program[i.toNat]? = some p ∧
        IsZeroDivision p) →
      ∀ pkt a x mem, ∃ s p, Reaches prog.program pkt (State.init a x mem) s ∧
        prog.program[s.pc.toNat]? = some p ∧ IsZeroDivision p) := by
  constructor
  · intro hflow pkt a x mem s p hreach hp
    exact hflow s.pc p (flows_of_reaches hreach) hp
  · rintro ⟨i, p, hpath, hp, hzero⟩ pkt a x mem
    obtain ⟨s, hreach, hpc⟩ :
        ∃ s, Reaches prog.program pkt (State.init a x mem) s ∧ s.pc = i :=
      reaches_of_straight hvalid hpath
    exact ⟨s, p, hreach, by rw [hpc]; exact hp, hzero⟩

def zeroDivision : SockFprog where
  len := 2
  filter := [⟨(Opcode.alu .div .k).code, 0, 0, 0⟩, ⟨Opcode.retK.code, 0, 0, 0⟩]
  readable := by decide

/-- The validator accepts a filter whose first step divides by zero. -/
theorem zeroDivision_isValid :
    ldabSockFilterIsValid (some zeroDivision) = true ∧
      (∃ p, zeroDivision.program[(State.init 1 0 fun _ => 0).pc.toNat]? = some p ∧
        IsZeroDivision p) ∧
      step zeroDivision.program [] (State.init 1 0 fun _ => 0) =
        .stop .divByZero := by
  refine ⟨by decide, ⟨_, rfl, rfl, rfl⟩, rfl⟩

theorem ldabSockFilterIsValid_zeroDivision_zeroDivision :
    ∃ s p, Reaches zeroDivision.program [] (State.init 1 0 fun _ => 0) s ∧
      zeroDivision.program[s.pc.toNat]? = some p ∧ IsZeroDivision p :=
  (ldabSockFilterIsValid_zeroDivision zeroDivision (by decide)).2
    ⟨0, _, .refl, rfl, rfl, rfl⟩ [] 1 0 fun _ => 0

end Division

section Undefined

/-- The parts of a code that the validator compares have a meaning: the mode of
a load and the operation of an arithmetic instruction or a jump. -/
def PartsKnown (code : BitVec 16) : Prop :=
  ((bpfClass code = bpfLd ∨ bpfClass code = bpfLdx) →
      bpfMode code ∈ [bpfImm, bpfAbs, bpfInd, bpfMsh, bpfMem, bpfLen]) ∧
    (bpfClass code = bpfAlu →
      bpfOp code ∈ [bpfAdd, bpfSub, bpfMul, bpfOr, bpfAnd, bpfLsh, bpfRsh,
        bpfNeg, bpfDiv]) ∧
    (bpfClass code = bpfJmp →
      bpfOp code ∈ [bpfJa, bpfJeq, bpfJgt, bpfJge, bpfJset])

instance : DecidablePred PartsKnown := fun _ => inferInstanceAs (Decidable (_ ∧ _))

/-- The parts of a code that the validator ignores are as the standard has
them. -/
def RestRegular (code : BitVec 16) : Prop :=
  code >>> 8 = 0 ∧
    (bpfClass code = bpfLd →
      if bpfMode code = bpfAbs ∨ bpfMode code = bpfInd then
        bpfSize code ∈ [bpfW, bpfH, bpfB]
      else bpfMode code ≠ bpfMsh ∧ bpfSize code = bpfW) ∧
    (bpfClass code = bpfLdx →
      if bpfMode code = bpfMsh then bpfSize code = bpfB
      else bpfMode code ≠ bpfAbs ∧ bpfMode code ≠ bpfInd ∧
        bpfSize code = bpfW) ∧
    ((bpfClass code = bpfSt ∨ bpfClass code = bpfStx) → code &&& 0xf8 = 0) ∧
    (bpfClass code = bpfAlu → bpfOp code = bpfNeg → bpfSrc code = 0) ∧
    (bpfClass code = bpfJmp → bpfOp code = bpfJa → bpfSrc code = 0) ∧
    (bpfClass code = bpfRet → code &&& 0xf8 ∈ [bpfK, bpfA]) ∧
    (bpfClass code = bpfMisc → code &&& 0xf8 ∈ [bpfTax, bpfTxa])

instance : DecidablePred RestRegular := fun _ => inferInstanceAs (Decidable (_ ∧ _))

theorem partsKnown_of_insnIsValid {len : BitVec 16} {i : BitVec 32}
    {p : Bpf.SockFilter} (h : insnIsValid len i p = true) :
    PartsKnown p.code := by
  refine ⟨fun hcls => ?_, fun hcls => ?_, fun hcls => ?_⟩
  · simp only [insnIsValid, hcls, if_true] at h
    simp only [List.mem_cons]
    split_ifs at h <;> tauto
  · simp only [insnIsValid, hcls] at h
    simp [bpfAlu] at h ⊢
    tauto
  · simp only [insnIsValid, hcls] at h
    simp at h ⊢
    split at h <;> tauto

theorem decode_isSome_iff_of_byte : ∀ c : Fin 256,
    PartsKnown (BitVec.ofNat 16 c) →
      ((decode (BitVec.ofNat 16 c)).isSome = true ↔
        RestRegular (BitVec.ofNat 16 c)) := by
  decide +kernel

theorem code_lt_of_decode {code : BitVec 16} {op : Opcode}
    (h : decode code = some op) : code.toNat < 256 := by
  rw [← code_of_decode h]
  cases op with
  | ldAbs size => cases size <;> decide
  | ldInd size => cases size <;> decide
  | alu op src => cases op <;> cases src <;> decide
  | jmp op src => cases op <;> cases src <;> decide
  | _ => decide

theorem code_lt_of_restRegular {code : BitVec 16} (h : RestRegular code) :
    code.toNat < 256 := by
  have hhigh := congrArg BitVec.toNat h.1
  rw [BitVec.toNat_ushiftRight, Nat.shiftRight_eq_div_pow] at hhigh
  simp at hhigh
  omega

/-- Among the codes that pass the comparisons of the validator, the ones with a
meaning are those whose other bits are regular. -/
theorem decode_isSome_iff {code : BitVec 16} (hparts : PartsKnown code) :
    (decode code).isSome = true ↔ RestRegular code := by
  by_cases hlt : code.toNat < 256
  · have h := decode_isSome_iff_of_byte ⟨code.toNat, hlt⟩
    simp only [BitVec.ofNat_toNat, BitVec.setWidth_eq] at h
    exact h hparts
  · refine ⟨fun h => ?_, fun h => absurd (code_lt_of_restRegular h) hlt⟩
    obtain ⟨op, hop⟩ := Option.isSome_iff_exists.1 h
    exact absurd (code_lt_of_decode hop) hlt

/-- Every instruction exists and every step of every run is defined. -/
def AllDefined (prog : SockFprog) : Prop :=
  (∀ p ∈ prog.program, ∃ op : Opcode, p.code = op.code) ∧
    ∀ pkt a x mem s, Reaches prog.program pkt (State.init a x mem) s →
      step prog.program pkt s ≠ .stop .undefined ∧
        step prog.program pkt s ≠ .stop .offEnd

/-- An accepted filter consists of existing instructions, and every step of its
runs is defined, exactly when the parts of the codes that the validator ignores
are regular. -/
theorem ldabSockFilterIsValid_allDefined_iff (prog : SockFprog)
    (hvalid : ldabSockFilterIsValid (some prog) = true) :
    AllDefined prog ↔ ∀ p ∈ prog.program, RestRegular p.code := by
  have hparts : ∀ p ∈ prog.program, PartsKnown p.code := by
    intro p hp
    obtain ⟨j, hj⟩ := List.getElem?_of_mem hp
    exact partsKnown_of_insnIsValid
      (insnIsValid_of_ldabSockFilterIsValid hvalid hj)
  constructor
  · rintro ⟨hcodes, -⟩ p hp
    obtain ⟨op, hop⟩ := hcodes p hp
    rw [← decode_isSome_iff (hparts p hp), hop, decode_code]
    rfl
  · intro hrest
    have hdecode : ∀ p ∈ prog.program, ∃ op, decode p.code = some op := by
      intro p hp
      exact Option.isSome_iff_exists.1
        ((decode_isSome_iff (hparts p hp)).2 (hrest p hp))
    constructor
    · intro p hp
      obtain ⟨op, hop⟩ := hdecode p hp
      exact ⟨op, (code_of_decode hop).symm⟩
    · intro pkt a x mem s hreach
      have hinit : (State.init a x mem).pc.toNat < prog.len.toNat :=
        ((ldabSockFilterIsValid_iff prog).1 hvalid).1
      have hpc := pc_lt_of_reaches hvalid hinit hreach
      have hends : ∀ r, step prog.program pkt s = .stop r →
          r ≠ .undefined ∧ r ≠ .offEnd := by
        intro r hstop
        obtain ⟨p, hp, hend⟩ := endsAt_of_pc_lt hvalid hpc hstop
        obtain ⟨op, hop⟩ := hdecode p (List.mem_of_getElem? hp)
        rcases hend with ⟨-, v, rfl⟩ | ⟨hnone, -⟩ | rfl | rfl
        · simp
        · rw [hnone] at hop
          cases hop
        · simp
        · simp
      exact ⟨fun h => (hends _ h).1 rfl, fun h => (hends _ h).2 rfl⟩

theorem ldabSockFilterIsValid_allDefined_iff_zeroDivision :
    AllDefined zeroDivision ↔ ∀ p ∈ zeroDivision.program, RestRegular p.code :=
  ldabSockFilterIsValid_allDefined_iff zeroDivision (by decide)

def oddReturn : SockFprog where
  len := 1
  filter := [⟨0xff0e, 0, 0, 0⟩]
  readable := by decide

/-- The validator accepts a filter whose only instruction does not exist. -/
theorem oddReturn_isValid_not_allDefined :
    ldabSockFilterIsValid (some oddReturn) = true ∧ ¬ AllDefined oddReturn ∧
      step oddReturn.program [] (State.init 0 0 fun _ => 0) =
        .stop .undefined := by
  refine ⟨by decide, ?_, rfl⟩
  rintro ⟨-, hrun⟩
  exact (hrun [] 0 0 (fun _ => 0) _ .refl).1 rfl

end Undefined

end SockFilter
