import Dabba.SockFilter.Valid

/-!
# Accepted filters run inside their bounds

The validator looks at one instruction at a time. What it checks there bounds a
single step of the machine: a scratch word exists, and the instruction reached
next has an index below the length. The last instruction is a return, so no
other instruction falls through past the end. The run lemma carries the bound on
the program counter through every step of every execution.
-/

namespace SockFilter

open Bpf

theorem scratch_lt_of_insnIsValid {len : BitVec 16} {i : BitVec 32}
    {p : Bpf.SockFilter} (h : insnIsValid len i p = true)
    (hacc : p.AccessesScratch) : p.k.toNat < bpfMemwords := by
  have hk : ¬ (p.k ≥ BitVec.ofNat 32 bpfMemwords) := by
    rcases hacc with hcode | hcode | hcode | hcode
    · have hcls : bpfClass p.code = bpfLd := by rw [hcode]; rfl
      have hmode : bpfMode p.code = bpfMem := by rw [hcode]; rfl
      simpa [insnIsValid, hcls, hmode] using h
    · have hcls : bpfClass p.code = bpfLdx := by rw [hcode]; rfl
      have hmode : bpfMode p.code = bpfMem := by rw [hcode]; rfl
      simpa [insnIsValid, hcls, hmode] using h
    · have hcls : bpfClass p.code = bpfSt := by rw [hcode]; rfl
      simpa [insnIsValid, hcls] using h
    · have hcls : bpfClass p.code = bpfStx := by rw [hcode]; rfl
      simpa [insnIsValid, hcls] using h
  rw [ge_iff_le, BitVec.le_def, BitVec.toNat_ofNat] at hk
  omega

def IsJa (p : Bpf.SockFilter) : Prop :=
  bpfClass p.code = bpfJmp ∧ bpfOp p.code = bpfJa

def IsCondJmp (p : Bpf.SockFilter) : Prop :=
  bpfClass p.code = bpfJmp ∧
    (bpfOp p.code = bpfJeq ∨ bpfOp p.code = bpfJgt ∨ bpfOp p.code = bpfJge ∨
      bpfOp p.code = bpfJset)

/-- The target of an accepted unconditional jump, in wrapping arithmetic. -/
theorem ja_lt_of_insnIsValid {len : BitVec 16} {i : BitVec 32}
    {p : Bpf.SockFilter} (h : insnIsValid len i p = true) (hja : IsJa p) :
    i + 1 + p.k < len.setWidth 32 := by
  obtain ⟨hcls, hop⟩ := hja
  simpa [insnIsValid, hcls, hop] using h

/-- The two targets of an accepted conditional jump, in wrapping arithmetic. -/
theorem jmp_lt_of_insnIsValid {len : BitVec 16} {i : BitVec 32}
    {p : Bpf.SockFilter} (h : insnIsValid len i p = true)
    (hjmp : IsCondJmp p) :
    i + 1 + p.jt.setWidth 32 < len.setWidth 32 ∧
      i + 1 + p.jf.setWidth 32 < len.setWidth 32 := by
  obtain ⟨hcls, hop⟩ := hjmp
  rcases hop with hop | hop | hop | hop <;>
    simpa [insnIsValid, hcls, hop] using h

theorem isJa_of_code {p : Bpf.SockFilter} (h : p.code = Opcode.ja.code) :
    IsJa p := by
  constructor <;> rw [h] <;> rfl

theorem isCondJmp_of_code {p : Bpf.SockFilter} {o : JmpOp} {src : Source}
    (h : p.code = (Opcode.jmp o src).code) : IsCondJmp p := by
  refine ⟨?_, ?_⟩
  · rw [h]
    cases o <;> cases src <;> rfl
  · rw [h]
    cases o <;> cases src <;> decide

theorem isRet_of_bpfClass {op : Opcode} (h : bpfClass op.code = bpfRet) :
    op = .retK ∨ op = .retA := by
  cases op with
  | retK => exact .inl rfl
  | retA => exact .inr rfl
  | ldAbs size => cases size <;> exact absurd h (by decide)
  | ldInd size => cases size <;> exact absurd h (by decide)
  | alu op src => cases op <;> cases src <;> exact absurd h (by decide)
  | jmp op src => cases op <;> cases src <;> exact absurd h (by decide)
  | _ => exact absurd h (by decide)

theorem ofNat_toNat_pc (pc : BitVec 32) : BitVec.ofNat 32 pc.toNat = pc := by
  simp

/-- One step of an accepted filter keeps the program counter below the
length. -/
theorem pc_lt_of_step {prog : SockFprog}
    (hvalid : ldabSockFilterIsValid (some prog) = true)
    {pkt : List (BitVec 8)} {s s' : State}
    (hstep : step prog.program pkt s = .next s') :
    s'.pc.toNat < prog.len.toNat := by
  unfold step at hstep
  split at hstep
  · cases hstep
  · rename_i p hp
    split at hstep
    · cases hstep
    · rename_i op hdec
      have hcode := code_of_decode hdec
      have hinsn := insnIsValid_of_ldabSockFilterIsValid hvalid hp
      rw [ofNat_toNat_pc] at hinsn
      have hpc : s.pc.toNat < prog.len.toNat := by
        rw [← prog.length_program]
        exact (List.getElem?_eq_some_iff.1 hp).1
      obtain ⟨d, hd, hpc'⟩ := exec_next hstep
      have hlen : (prog.len.setWidth 32).toNat = prog.len.toNat := by
        simp only [BitVec.toNat_setWidth]
        have := prog.len.isLt
        omega
      rw [hpc']
      cases hd with
      | ja =>
          have h := ja_lt_of_insnIsValid hinsn (isJa_of_code hcode.symm)
          rwa [BitVec.lt_def, hlen] at h
      | jt o src =>
          have h := (jmp_lt_of_insnIsValid hinsn
            (isCondJmp_of_code hcode.symm)).1
          rwa [BitVec.lt_def, hlen] at h
      | jf o src =>
          have h := (jmp_lt_of_insnIsValid hinsn
            (isCondJmp_of_code hcode.symm)).2
          rwa [BitVec.lt_def, hlen] at h
      | fall _ hja hjmp hretK hretA =>
          -- The last instruction is a return, and returns do not go on.
          have hlast : s.pc.toNat ≠ prog.len.toNat - 1 := by
            intro heq
            rw [heq] at hp
            have hret := last_isRet_of_ldabSockFilterIsValid hvalid hp
            rw [← hcode] at hret
            rcases isRet_of_bpfClass hret with h | h
            · exact hretK h
            · exact hretA h
          have hlt := prog.len.isLt
          have hadd : (s.pc + 1 + 0).toNat = s.pc.toNat + 1 := by bv_omega
          rw [hadd]
          omega

/-- Every state of every run of an accepted filter has its program counter
below the length. -/
theorem pc_lt_of_reaches {prog : SockFprog}
    (hvalid : ldabSockFilterIsValid (some prog) = true)
    {pkt : List (BitVec 8)} {s s' : State}
    (hs : s.pc.toNat < prog.len.toNat) (hreach : Reaches prog.program pkt s s') :
    s'.pc.toNat < prog.len.toNat := by
  induction hreach with
  | refl => exact hs
  | tail _ hstep _ => exact pc_lt_of_step hvalid hstep

/-- How a run may end at the instruction `p`: a return returns, an undefined
code stops, or a packet bounds or division check fails. -/
def EndsAt (p : Bpf.SockFilter) (r : Stop) : Prop :=
  (p.IsRet ∧ ∃ v, r = .ret v) ∨ (decode p.code = none ∧ r = .undefined) ∨
    r = .packetBounds ∨ r = .divByZero

/-- Below the length an accepted filter ends in one of the ways of `EndsAt`. -/
theorem endsAt_of_pc_lt {prog : SockFprog}
    (hvalid : ldabSockFilterIsValid (some prog) = true)
    {pkt : List (BitVec 8)} {s : State} (hs : s.pc.toNat < prog.len.toNat)
    {r : Stop} (hstop : step prog.program pkt s = .stop r) :
    ∃ p, prog.program[s.pc.toNat]? = some p ∧ EndsAt p r := by
  rw [← prog.length_program] at hs
  have hp := List.getElem?_eq_getElem hs
  refine ⟨_, hp, ?_⟩
  rw [step_of_getElem? hp] at hstop
  cases hdec : decode (prog.program[s.pc.toNat]).code with
  | none =>
      rw [hdec] at hstop
      cases hstop
      exact .inr (.inl ⟨hdec, rfl⟩)
  | some op =>
      rw [hdec] at hstop
      have hcode := code_of_decode hdec
      rcases exec_stop hstop with ⟨hop, hret⟩ | h | h | ⟨hk, hop⟩
      · refine .inl ⟨?_, hret⟩
        rcases hop with rfl | rfl
        · exact .inl hcode.symm
        · exact .inr hcode.symm
      · exact .inr (.inr (.inl h))
      · exact .inr (.inr (.inr h))
      · exfalso
        have hinsn := insnIsValid_of_ldabSockFilterIsValid hvalid hp
        refine hk (scratch_lt_of_insnIsValid hinsn ?_)
        rcases hop with rfl | rfl | rfl | rfl
        · exact .inl hcode.symm
        · exact .inr (.inl hcode.symm)
        · exact .inr (.inr (.inl hcode.symm))
        · exact .inr (.inr (.inr hcode.symm))

/-- Soundness of the validator for execution: in every state that an accepted
filter reaches the program counter is below the length, the scratch word that
the instruction there accesses exists, and a run ends only at a return, at an
undefined code, or by a packet bounds or division check. -/
theorem ldabSockFilterIsValid_sound (prog : SockFprog)
    (hvalid : ldabSockFilterIsValid (some prog) = true)
    (pkt : List (BitVec 8)) (a x : BitVec 32)
    (mem : Fin bpfMemwords → BitVec 32) (s : State)
    (hreach : Reaches prog.program pkt (State.init a x mem) s) :
    s.pc.toNat < prog.len.toNat ∧
      (∀ p, prog.program[s.pc.toNat]? = some p → p.AccessesScratch →
        p.k.toNat < bpfMemwords) ∧
      (∀ r, step prog.program pkt s = .stop r →
        ∃ p, prog.program[s.pc.toNat]? = some p ∧ EndsAt p r) := by
  have hinit : (State.init a x mem).pc.toNat < prog.len.toNat :=
    ((ldabSockFilterIsValid_iff prog).1 hvalid).1
  have hpc := pc_lt_of_reaches hvalid hinit hreach
  refine ⟨hpc, ?_, ?_⟩
  · intro p hp hacc
    exact scratch_lt_of_insnIsValid
      (insnIsValid_of_ldabSockFilterIsValid hvalid hp) hacc
  · intro r hstop
    exact endsAt_of_pc_lt hvalid hpc hstop

def scratchFilter : SockFprog where
  len := 4
  filter :=
    [⟨Opcode.st.code, 0, 0, 5⟩, ⟨Opcode.ldMem.code, 0, 0, 5⟩,
      ⟨(Opcode.jmp .jgt .k).code, 0, 0, 7⟩, ⟨Opcode.retA.code, 0, 0, 0⟩]
  readable := by decide

theorem ldabSockFilterIsValid_sound_scratchFilter :
    ldabSockFilterIsValid (some scratchFilter) = true ∧
      (∀ p, scratchFilter.program[1]? = some p → p.AccessesScratch →
        p.k.toNat < bpfMemwords) := by
  refine ⟨by decide, ?_⟩
  have hreach : Reaches scratchFilter.program [] (State.init 8 0 fun _ => 0)
      ⟨1, 8, 0, Function.update (fun _ => 0) 5 8⟩ :=
    .tail .refl rfl
  exact (ldabSockFilterIsValid_sound scratchFilter (by decide) [] 8 0
    (fun _ => 0) _ hreach).2.1

end SockFilter
