import Mathlib.Data.List.Basic
import Mathlib.Tactic.TypeStar

/-!
# Classic BPF instructions

An instruction carries a 16-bit code, two 8-bit jump offsets and a 32-bit
constant. The code packs a class, a size or an operation, and a mode or a
source; the masks that take it apart are the ones of `<linux/filter.h>`. The
standard gives a meaning to finitely many codes only. They are listed by
`Opcode`, written back to their bits by `Opcode.code`, and `decode` is the
partial inverse: every other code is undefined.
-/

namespace Bpf

/-- One instruction of a classic BPF program, `struct sock_filter`. -/
structure SockFilter where
  code : BitVec 16
  jt : BitVec 8
  jf : BitVec 8
  k : BitVec 32
deriving DecidableEq, Repr

abbrev bpfMemwords : ℕ := 16

def bpfClass (code : BitVec 16) : BitVec 16 := code &&& 0x07
def bpfSize (code : BitVec 16) : BitVec 16 := code &&& 0x18
def bpfMode (code : BitVec 16) : BitVec 16 := code &&& 0xe0
def bpfOp (code : BitVec 16) : BitVec 16 := code &&& 0xf0
def bpfSrc (code : BitVec 16) : BitVec 16 := code &&& 0x08
def bpfRval (code : BitVec 16) : BitVec 16 := code &&& 0x18

abbrev bpfLd : BitVec 16 := 0x00
abbrev bpfLdx : BitVec 16 := 0x01
abbrev bpfSt : BitVec 16 := 0x02
abbrev bpfStx : BitVec 16 := 0x03
abbrev bpfAlu : BitVec 16 := 0x04
abbrev bpfJmp : BitVec 16 := 0x05
abbrev bpfRet : BitVec 16 := 0x06
abbrev bpfMisc : BitVec 16 := 0x07

abbrev bpfW : BitVec 16 := 0x00
abbrev bpfH : BitVec 16 := 0x08
abbrev bpfB : BitVec 16 := 0x10

abbrev bpfImm : BitVec 16 := 0x00
abbrev bpfAbs : BitVec 16 := 0x20
abbrev bpfInd : BitVec 16 := 0x40
abbrev bpfMem : BitVec 16 := 0x60
abbrev bpfLen : BitVec 16 := 0x80
abbrev bpfMsh : BitVec 16 := 0xa0

abbrev bpfAdd : BitVec 16 := 0x00
abbrev bpfSub : BitVec 16 := 0x10
abbrev bpfMul : BitVec 16 := 0x20
abbrev bpfDiv : BitVec 16 := 0x30
abbrev bpfOr : BitVec 16 := 0x40
abbrev bpfAnd : BitVec 16 := 0x50
abbrev bpfLsh : BitVec 16 := 0x60
abbrev bpfRsh : BitVec 16 := 0x70
abbrev bpfNeg : BitVec 16 := 0x80

abbrev bpfJa : BitVec 16 := 0x00
abbrev bpfJeq : BitVec 16 := 0x10
abbrev bpfJgt : BitVec 16 := 0x20
abbrev bpfJge : BitVec 16 := 0x30
abbrev bpfJset : BitVec 16 := 0x40

abbrev bpfK : BitVec 16 := 0x00
abbrev bpfX : BitVec 16 := 0x08
abbrev bpfA : BitVec 16 := 0x10

abbrev bpfTax : BitVec 16 := 0x00
abbrev bpfTxa : BitVec 16 := 0x80

inductive Size
  | w
  | h
  | b
deriving DecidableEq, Repr

def Size.bytes : Size → ℕ
  | .w => 4
  | .h => 2
  | .b => 1

def Size.code : Size → BitVec 16
  | .w => bpfW
  | .h => bpfH
  | .b => bpfB

/-- The second operand of an arithmetic instruction or of a comparison. -/
inductive Source
  | k
  | x
deriving DecidableEq, Repr

def Source.code : Source → BitVec 16
  | .k => bpfK
  | .x => bpfX

inductive AluOp
  | add
  | sub
  | mul
  | div
  | or
  | and
  | lsh
  | rsh
deriving DecidableEq, Repr

def AluOp.code : AluOp → BitVec 16
  | .add => bpfAdd
  | .sub => bpfSub
  | .mul => bpfMul
  | .div => bpfDiv
  | .or => bpfOr
  | .and => bpfAnd
  | .lsh => bpfLsh
  | .rsh => bpfRsh

inductive JmpOp
  | jeq
  | jgt
  | jge
  | jset
deriving DecidableEq, Repr

def JmpOp.code : JmpOp → BitVec 16
  | .jeq => bpfJeq
  | .jgt => bpfJgt
  | .jge => bpfJge
  | .jset => bpfJset

inductive Opcode
  | ldAbs (size : Size)
  | ldInd (size : Size)
  | ldImm
  | ldMem
  | ldLen
  | ldxImm
  | ldxMem
  | ldxLen
  | ldxMsh
  | st
  | stx
  | alu (op : AluOp) (src : Source)
  | neg
  | ja
  | jmp (op : JmpOp) (src : Source)
  | retK
  | retA
  | tax
  | txa
deriving DecidableEq, Repr

namespace Opcode

/-- The code of an operation, as the kernel headers spell it. -/
def code : Opcode → BitVec 16
  | ldAbs size => bpfLd ||| size.code ||| bpfAbs
  | ldInd size => bpfLd ||| size.code ||| bpfInd
  | ldImm => bpfLd ||| bpfImm
  | ldMem => bpfLd ||| bpfMem
  | ldLen => bpfLd ||| bpfW ||| bpfLen
  | ldxImm => bpfLdx ||| bpfW ||| bpfImm
  | ldxMem => bpfLdx ||| bpfW ||| bpfMem
  | ldxLen => bpfLdx ||| bpfW ||| bpfLen
  | ldxMsh => bpfLdx ||| bpfB ||| bpfMsh
  | st => bpfSt
  | stx => bpfStx
  | alu op src => bpfAlu ||| op.code ||| src.code
  | neg => bpfAlu ||| bpfNeg
  | ja => bpfJmp ||| bpfJa
  | jmp op src => bpfJmp ||| op.code ||| src.code
  | retK => bpfRet ||| bpfK
  | retA => bpfRet ||| bpfA
  | tax => bpfMisc ||| bpfTax
  | txa => bpfMisc ||| bpfTxa

def allAlu (src : Source) : List Opcode :=
  [.add, .sub, .mul, .div, .or, .and, .lsh, .rsh].map (alu · src)

def allJmp (src : Source) : List Opcode :=
  [.jeq, .jgt, .jge, .jset].map (jmp · src)

def all : List Opcode :=
  [ldAbs .w, ldAbs .h, ldAbs .b, ldInd .w, ldInd .h, ldInd .b, ldImm, ldMem,
    ldLen, ldxImm, ldxMem, ldxLen, ldxMsh, st, stx, neg, ja, retK, retA, tax,
    txa] ++ allAlu .k ++ allAlu .x ++ allJmp .k ++ allJmp .x

end Opcode

/-- The operation a code stands for, `none` where the standard leaves the code
undefined. -/
def decode (code : BitVec 16) : Option Opcode :=
  Opcode.all.find? fun op => op.code == code

theorem code_of_decode {code : BitVec 16} {op : Opcode}
    (h : decode code = some op) : op.code = code := by
  have hfound := List.find?_some h
  simpa using hfound

@[simp] theorem decode_code (op : Opcode) : decode op.code = some op := by
  cases op with
  | ldAbs size => cases size <;> rfl
  | ldInd size => cases size <;> rfl
  | alu op src => cases op <;> cases src <;> rfl
  | jmp op src => cases op <;> cases src <;> rfl
  | _ => rfl

end Bpf
