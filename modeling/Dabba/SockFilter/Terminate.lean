import Dabba.SockFilter.Sound
import Mathlib.Algebra.Group.Nat.Defs

/-!
# Termination of accepted filters

The target of an unconditional jump is the index of the next instruction plus a
32-bit offset, and the validator compares that sum after it may have wrapped. An
accepted jump that does not wrap goes forward; one that does goes back to an
index at most its own, and the run may never end. So an accepted filter has only
forward branches exactly when none of its unconditional jumps wraps, and then
every run ends within as many steps as there are instructions.
-/

namespace SockFilter

open Bpf

/-- Every branch goes strictly forward inside the program, its target computed
over the unbounded integers. -/
def BranchesForward (prog : SockFprog) : Prop :=
  ∀ i p, prog.program[i]? = some p →
    (IsJa p → i + 1 + p.k.toNat < prog.len.toNat) ∧
      (IsCondJmp p → i + 1 + p.jt.toNat < prog.len.toNat ∧
        i + 1 + p.jf.toNat < prog.len.toNat)

/-- No unconditional jump has a target past the 32-bit integers. -/
def NoJaWraps (prog : SockFprog) : Prop :=
  ∀ i p, prog.program[i]? = some p → IsJa p → i + 1 + p.k.toNat < 2 ^ 32

/-- On every packet and from any registers and scratch memory the machine
returns within as many steps as there are instructions, unless an undefined code
or a run-time check ends the run there before. -/
def ReturnsWithinLen (prog : SockFprog) : Prop :=
  ∀ (pkt : List (BitVec 8)) (a x : BitVec 32)
    (mem : Fin bpfMemwords → BitVec 32),
    ∃ r s p, run prog.program pkt prog.len.toNat (State.init a x mem) = .stop r ∧
      Reaches prog.program pkt (State.init a x mem) s ∧
      step prog.program pkt s = .stop r ∧
      prog.program[s.pc.toNat]? = some p ∧ EndsAt p r

theorem index_lt_len {prog : SockFprog} {i : ℕ} {p : Bpf.SockFilter}
    (hp : prog.program[i]? = some p) : i < prog.len.toNat := by
  rw [← prog.length_program]
  exact (List.getElem?_eq_some_iff.1 hp).1

theorem add_lt_of_bitVec_lt {len : BitVec 16} {i : ℕ} {d : BitVec 32}
    (hwrap : i + 1 + d.toNat < 2 ^ 32)
    (h : BitVec.ofNat 32 i + 1 + d < len.setWidth 32) :
    i + 1 + d.toNat < len.toNat := by
  bv_omega

theorem branchesForward_of_noJaWraps {prog : SockFprog}
    (hvalid : ldabSockFilterIsValid (some prog) = true)
    (hwrap : NoJaWraps prog) : BranchesForward prog := by
  intro i p hp
  have hinsn := insnIsValid_of_ldabSockFilterIsValid hvalid hp
  have hi := index_lt_len hp
  have hlen := prog.len.isLt
  refine ⟨?_, ?_⟩
  · intro hja
    exact add_lt_of_bitVec_lt (hwrap i p hp hja) (ja_lt_of_insnIsValid hinsn hja)
  · intro hjmp
    obtain ⟨hjt, hjf⟩ := jmp_lt_of_insnIsValid hinsn hjmp
    have hjt' := add_lt_of_bitVec_lt (by bv_omega) hjt
    have hjf' := add_lt_of_bitVec_lt (by bv_omega) hjf
    constructor <;> bv_omega

theorem noJaWraps_of_branchesForward {prog : SockFprog}
    (hforward : BranchesForward prog) : NoJaWraps prog := by
  intro i p hp hja
  have h := (hforward i p hp).1 hja
  have hlen := prog.len.isLt
  omega

/-- One step of a filter with forward branches moves the program counter
forward. -/
theorem pc_increasing_of_step {prog : SockFprog}
    (hvalid : ldabSockFilterIsValid (some prog) = true)
    (hforward : BranchesForward prog) (pkt : List (BitVec 8)) {s s' : State}
    (hstep : step prog.program pkt s = .next s') :
    s.pc.toNat < s'.pc.toNat ∧ s'.pc.toNat < prog.len.toNat := by
  refine ⟨?_, pc_lt_of_step hvalid hstep⟩
  unfold step at hstep
  split at hstep
  · cases hstep
  · rename_i p hp
    split at hstep
    · cases hstep
    · rename_i op hdec
      have hcode := code_of_decode hdec
      have hpc := index_lt_len hp
      have hlen := prog.len.isLt
      obtain ⟨d, hd, hpc'⟩ := exec_next hstep
      have hd' : s.pc.toNat + 1 + d.toNat < 2 ^ 32 := by
        cases hd with
        | fall _ _ _ _ _ => bv_omega
        | ja =>
            have h := (hforward _ p hp).1 (isJa_of_code hcode.symm)
            omega
        | jt o src =>
            have h := ((hforward _ p hp).2 (isCondJmp_of_code hcode.symm)).1
            bv_omega
        | jf o src =>
            have h := ((hforward _ p hp).2 (isCondJmp_of_code hcode.symm)).2
            bv_omega
      rw [hpc']
      bv_omega

theorem returnsWithinLen_of_branchesForward {prog : SockFprog}
    (hvalid : ldabSockFilterIsValid (some prog) = true)
    (hforward : BranchesForward prog) : ReturnsWithinLen prog := by
  intro pkt a x mem
  have hinit : (State.init a x mem).pc.toNat < prog.len.toNat :=
    ((ldabSockFilterIsValid_iff prog).1 hvalid).1
  obtain ⟨r, hrun⟩ := run_stops_of_pc_increasing
    (fun _ _ => pc_increasing_of_step hvalid hforward pkt)
    prog.len.toNat _ hinit (Nat.le_add_left _ _)
  obtain ⟨s, hreach, hstop⟩ := reaches_of_run_eq_stop hrun
  obtain ⟨p, hp, hends⟩ :=
    endsAt_of_pc_lt hvalid (pc_lt_of_reaches hvalid hinit hreach) hstop
  exact ⟨r, s, p, hrun, hreach, hstop, hp, hends⟩

/-- An accepted filter has only forward branches and returns within as many
steps as it has instructions, exactly when none of its unconditional jumps
wraps. -/
theorem ldabSockFilterIsValid_terminates_iff (prog : SockFprog)
    (hvalid : ldabSockFilterIsValid (some prog) = true) :
    (BranchesForward prog ∧ ReturnsWithinLen prog) ↔ NoJaWraps prog := by
  constructor
  · rintro ⟨hforward, -⟩
    exact noJaWraps_of_branchesForward hforward
  · intro hwrap
    have hforward := branchesForward_of_noJaWraps hvalid hwrap
    exact ⟨hforward, returnsWithinLen_of_branchesForward hvalid hforward⟩

theorem ldabSockFilterIsValid_terminates_iff_scratchFilter :
    (BranchesForward scratchFilter ∧ ReturnsWithinLen scratchFilter) ↔
      NoJaWraps scratchFilter :=
  ldabSockFilterIsValid_terminates_iff scratchFilter (by decide)

def selfLoop : SockFprog where
  len := 2
  filter := [⟨Opcode.ja.code, 0, 0, 0xffffffff⟩, ⟨Opcode.retK.code, 0, 0, 0⟩]
  readable := by decide

theorem step_selfLoop (pkt : List (BitVec 8)) (a x : BitVec 32)
    (mem : Fin bpfMemwords → BitVec 32) :
    step selfLoop.program pkt (State.init a x mem) =
      .next (State.init a x mem) := by
  have hfetch : selfLoop.program[(State.init a x mem).pc.toNat]? =
      some ⟨Opcode.ja.code, 0, 0, 0xffffffff⟩ := rfl
  have htarget : (0 : BitVec 32) + 1 + 0xffffffff = 0 := by decide
  rw [step_of_getElem? hfetch, decode_code]
  simp only [exec, State.jump, State.init, htarget]

theorem run_selfLoop (pkt : List (BitVec 8)) (a x : BitVec 32)
    (mem : Fin bpfMemwords → BitVec 32) (n : ℕ) :
    run selfLoop.program pkt n (State.init a x mem) =
      .next (State.init a x mem) := by
  induction n with
  | zero => rfl
  | succ n ih =>
      rw [run, step_selfLoop]
      exact ih

/-- The validator accepts a filter that jumps to itself for ever. -/
theorem selfLoop_isValid_not_terminates :
    ldabSockFilterIsValid (some selfLoop) = true ∧
      ¬ BranchesForward selfLoop ∧ ¬ ReturnsWithinLen selfLoop := by
  refine ⟨by decide, ?_, ?_⟩
  · intro hforward
    exact absurd ((hforward 0 _ rfl).1 ⟨rfl, rfl⟩) (by decide)
  · intro hreturns
    obtain ⟨r, s, p, hrun, -⟩ := hreturns [] 0 0 fun _ => 0
    rw [run_selfLoop] at hrun
    cases hrun

end SockFilter
