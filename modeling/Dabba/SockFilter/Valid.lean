import Dabba.Bpf.Machine

/-!
# The socket filter validator

`ldabSockFilterIsValid` walks once over a native socket filter and checks each
instruction by itself. All comparisons are unsigned 32-bit ones: an instruction
index, a jump offset and the 16-bit length are widened first, and an index plus
an offset may wrap.
-/

namespace SockFilter

open Bpf

/-- A native socket filter, `struct sock_fprog`: a length and an array that
holds at least that many instructions. -/
structure SockFprog where
  len : BitVec 16
  filter : List Bpf.SockFilter
  readable : len.toNat ≤ filter.length
deriving DecidableEq

def SockFprog.program (prog : SockFprog) : List Bpf.SockFilter :=
  prog.filter.take prog.len.toNat

@[simp] theorem SockFprog.length_program (prog : SockFprog) :
    prog.program.length = prog.len.toNat := by
  simp [program, prog.readable]

/-- The check of the instruction `p` at index `i` of a filter of length `len`,
one iteration of the loop. -/
def insnIsValid (len : BitVec 16) (i : BitVec 32) (p : Bpf.SockFilter) :
    Bool :=
  let cls := bpfClass p.code
  if cls = bpfLd ∨ cls = bpfLdx then
    let mode := bpfMode p.code
    if mode = bpfImm then true
    else if mode = bpfAbs ∨ mode = bpfInd ∨ mode = bpfMsh then true
    else if mode = bpfMem then !decide (p.k ≥ BitVec.ofNat 32 bpfMemwords)
    else if mode = bpfLen then true
    else false
  else if cls = bpfSt ∨ cls = bpfStx then
    !decide (p.k ≥ BitVec.ofNat 32 bpfMemwords)
  else if cls = bpfAlu then
    let op := bpfOp p.code
    if op = bpfAdd ∨ op = bpfSub ∨ op = bpfMul ∨ op = bpfOr ∨ op = bpfAnd ∨
        op = bpfLsh ∨ op = bpfRsh ∨ op = bpfNeg then true
    else if op = bpfDiv then !decide (bpfRval p.code = bpfK ∧ p.k = 0)
    else false
  else if cls = bpfJmp then
    let origin := i + 1
    let op := bpfOp p.code
    if op = bpfJa then !decide (origin + p.k ≥ len.setWidth 32)
    else if op = bpfJeq ∨ op = bpfJgt ∨ op = bpfJge ∨ op = bpfJset then
      !decide (origin + p.jt.setWidth 32 ≥ len.setWidth 32 ∨
        origin + p.jf.setWidth 32 ≥ len.setWidth 32)
    else false
  else if cls = bpfRet then true
  else if cls = bpfMisc then true
  else false

/-- The loop over the instructions from index `i` on. -/
def loopIsValid (len : BitVec 16) : BitVec 32 → List Bpf.SockFilter → Bool
  | _, [] => true
  | i, p :: ps => insnIsValid len i p && loopIsValid len (i + 1) ps

/-- Checks a socket filter; `none` is the null pointer. -/
def ldabSockFilterIsValid : Option SockFprog → Bool
  | none => false
  | some bpf =>
      if bpf.len < 1 then false
      else if loopIsValid bpf.len 0 bpf.program then
        match bpf.program[bpf.len.toNat - 1]? with
        | none => false
        | some p => bpfClass p.code == bpfRet
      else false

/-- What acceptance means: the filter is not empty, the loop passes, and the
last instruction is a return. -/
theorem ldabSockFilterIsValid_iff (prog : SockFprog) :
    ldabSockFilterIsValid (some prog) = true ↔
      0 < prog.len.toNat ∧ loopIsValid prog.len 0 prog.program = true ∧
        ∃ p, prog.program[prog.len.toNat - 1]? = some p ∧
          bpfClass p.code = bpfRet := by
  have hlt : prog.len < 1 ↔ ¬ 0 < prog.len.toNat := by
    rw [BitVec.lt_def, show (1 : BitVec 16).toNat = 1 from rfl]
    omega
  simp only [ldabSockFilterIsValid, hlt]
  by_cases hpos : 0 < prog.len.toNat
  · cases h : prog.program[prog.len.toNat - 1]? with
    | none => simp
    | some p => simp [hpos]
  · simp [hpos]

theorem insnIsValid_of_loopIsValid {len : BitVec 16} {i : BitVec 32}
    {ps : List Bpf.SockFilter} (h : loopIsValid len i ps = true) {j : ℕ}
    {p : Bpf.SockFilter} (hp : ps[j]? = some p) :
    insnIsValid len (i + BitVec.ofNat 32 j) p = true := by
  induction ps generalizing i j with
  | nil => simp at hp
  | cons q qs ih =>
      simp only [loopIsValid, Bool.and_eq_true] at h
      cases j with
      | zero =>
          simp only [List.getElem?_cons_zero, Option.some.injEq] at hp
          subst hp
          simpa using h.1
      | succ j =>
          rw [List.getElem?_cons_succ] at hp
          have hj := ih h.2 hp
          have hindex : i + 1 + BitVec.ofNat 32 j = i + BitVec.ofNat 32 (j + 1) := by
            rw [BitVec.ofNat_add, BitVec.add_assoc, BitVec.add_comm 1]
            rfl
          rwa [hindex] at hj

theorem insnIsValid_of_ldabSockFilterIsValid {prog : SockFprog}
    (h : ldabSockFilterIsValid (some prog) = true) {j : ℕ}
    {p : Bpf.SockFilter} (hp : prog.program[j]? = some p) :
    insnIsValid prog.len (BitVec.ofNat 32 j) p = true := by
  have hloop := ((ldabSockFilterIsValid_iff prog).1 h).2.1
  simpa using insnIsValid_of_loopIsValid hloop hp

theorem last_isRet_of_ldabSockFilterIsValid {prog : SockFprog}
    (h : ldabSockFilterIsValid (some prog) = true) {p : Bpf.SockFilter}
    (hp : prog.program[prog.len.toNat - 1]? = some p) :
    bpfClass p.code = bpfRet := by
  obtain ⟨q, hq, hret⟩ := ((ldabSockFilterIsValid_iff prog).1 h).2.2
  rw [hp] at hq
  cases hq
  exact hret

end SockFilter
