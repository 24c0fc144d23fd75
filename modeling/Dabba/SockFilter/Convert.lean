import Dabba.Posix.File
import Dabba.SockFilter.Valid

/-!
# Socket filters in messages

A message carries the fields of every instruction as 32-bit numbers, and any
number of instructions. The native filter is narrower, and the conversion
narrows each field without looking at what it drops; only the narrowed filter is
checked. An accepted message is therefore installed unchanged exactly when
all of its numbers fit their native fields.
-/

namespace SockFilter

open Posix Bpf

/-- One instruction of a message, `Dabba__SockFilter`. -/
structure PbufSockFilter where
  code : BitVec 32
  jt : BitVec 32
  jf : BitVec 32
  k : BitVec 32
deriving DecidableEq, Repr

def PbufSockFilter.narrow (p : PbufSockFilter) : Bpf.SockFilter where
  code := p.code.setWidth 16
  jt := p.jt.setWidth 8
  jf := p.jf.setWidth 8
  k := p.k

def widen (p : Bpf.SockFilter) : PbufSockFilter where
  code := p.code.setWidth 32
  jt := p.jt.setWidth 32
  jf := p.jf.setWidth 32
  k := p.k

def SockFprog.zero : SockFprog where
  len := 0
  filter := []
  readable := by decide

/-- `dabbad_sfp_destroy`: the array is freed and the length cleared. -/
def dabbadSfpDestroy (_ : SockFprog) : SockFprog := .zero

/-- The native filter with all instructions of a message: the number of
instructions is narrowed to the 16-bit length. -/
def SockFprog.ofPbuf (pbufSf : List PbufSockFilter) : SockFprog where
  len := BitVec.ofNat 16 pbufSf.length
  filter := pbufSf.map PbufSockFilter.narrow
  readable := by
    rw [List.length_map, BitVec.toNat_ofNat]
    exact Nat.mod_le _ _

/-- Converts a message to a native filter. The result is the error number and
the filter left behind; `calloc` tells whether the array could be allocated. -/
def dabbadPbufSfp2Sfp (calloc : Bool) (pbufSf : List PbufSockFilter) :
    ℕ × SockFprog :=
  if calloc = false then (enomem, .zero)
  else
    let sfp := SockFprog.ofPbuf pbufSf
    if ldabSockFilterIsValid (some sfp) = false then
      (einval, dabbadSfpDestroy sfp)
    else (0, sfp)

/-- The copying loop of `dabbad_sfp_2_pbuf_sfp`; `malloc a` tells whether the
instruction `a` could be allocated. -/
def sfp2PbufLoop (malloc : ℕ → Bool) :
    ℕ → List Bpf.SockFilter → Option (List PbufSockFilter)
  | _, [] => some []
  | a, p :: ps =>
      if malloc a then (sfp2PbufLoop malloc (a + 1) ps).map (widen p :: ·)
      else none

def dabbadSfp2PbufSfp (calloc : Bool) (malloc : ℕ → Bool) (sfp : SockFprog) :
    ℕ × List PbufSockFilter :=
  if calloc = false then (enomem, [])
  else
    match sfp2PbufLoop malloc 0 sfp.program with
    | some pbufSfp => (0, pbufSfp)
    | none => (enomem, [])

theorem sfp2PbufLoop_eq_map {malloc : ℕ → Bool} (hmalloc : ∀ a, malloc a = true)
    (a : ℕ) (ps : List Bpf.SockFilter) :
    sfp2PbufLoop malloc a ps = some (ps.map widen) := by
  induction ps generalizing a with
  | nil => rfl
  | cons p ps ih => simp [sfp2PbufLoop, hmalloc, ih]

theorem dabbadSfp2PbufSfp_eq_map {malloc : ℕ → Bool}
    (hmalloc : ∀ a, malloc a = true) (sfp : SockFprog) :
    dabbadSfp2PbufSfp true malloc sfp = (0, sfp.program.map widen) := by
  simp [dabbadSfp2PbufSfp, sfp2PbufLoop_eq_map hmalloc]

/-- Every number of the instruction is representable in its native field. -/
def PbufSockFilter.Fits (p : PbufSockFilter) : Prop :=
  p.code.toNat < 2 ^ 16 ∧ p.jt.toNat < 2 ^ 8 ∧ p.jf.toNat < 2 ^ 8

/-- The instructions and their number are representable in a native filter. -/
def MessageFits (pbufSf : List PbufSockFilter) : Prop :=
  pbufSf.length < 2 ^ 16 ∧ ∀ p ∈ pbufSf, p.Fits

def PbufSockFilter.SameAs (p : PbufSockFilter) (q : Bpf.SockFilter) : Prop :=
  q.code.toNat = p.code.toNat ∧ q.jt.toNat = p.jt.toNat ∧
    q.jf.toNat = p.jf.toNat ∧ q.k.toNat = p.k.toNat

/-- The native filter has the length and the values of the message. -/
def SockFprog.Agrees (sfp : SockFprog) (pbufSf : List PbufSockFilter) : Prop :=
  sfp.len.toNat = pbufSf.length ∧
    ∀ (a : ℕ) (p : PbufSockFilter), pbufSf[a]? = some p →
      ∃ q : Bpf.SockFilter, sfp.filter[a]? = some q ∧ p.SameAs q

theorem mod_two_pow_eq_self_iff (n w : ℕ) : n % 2 ^ w = n ↔ n < 2 ^ w :=
  Nat.mod_eq_iff_lt (Nat.two_pow_pos w).ne'

theorem sameAs_narrow_iff (p : PbufSockFilter) : p.SameAs p.narrow ↔ p.Fits := by
  simp only [PbufSockFilter.SameAs, PbufSockFilter.narrow, PbufSockFilter.Fits,
    BitVec.toNat_setWidth, mod_two_pow_eq_self_iff, and_true]

theorem widen_eq_iff (p : PbufSockFilter) (q : Bpf.SockFilter) :
    widen q = p ↔ p.SameAs q := by
  obtain ⟨code, jt, jf, k⟩ := p
  have hcode := q.code.isLt
  have hjt := q.jt.isLt
  have hjf := q.jf.isLt
  simp only [widen, PbufSockFilter.SameAs, PbufSockFilter.mk.injEq,
    ← BitVec.toNat_inj, BitVec.toNat_setWidth]
  rw [Nat.mod_eq_of_lt (by omega), Nat.mod_eq_of_lt (by omega),
    Nat.mod_eq_of_lt (by omega)]

theorem len_ofPbuf_eq_iff (pbufSf : List PbufSockFilter) :
    (SockFprog.ofPbuf pbufSf).len.toNat = pbufSf.length ↔
      pbufSf.length < 2 ^ 16 := by
  simp only [SockFprog.ofPbuf, BitVec.toNat_ofNat, mod_two_pow_eq_self_iff]

theorem agrees_ofPbuf_iff (pbufSf : List PbufSockFilter) :
    (SockFprog.ofPbuf pbufSf).Agrees pbufSf ↔ MessageFits pbufSf := by
  refine and_congr (len_ofPbuf_eq_iff pbufSf) ?_
  constructor
  · intro h p hp
    obtain ⟨a, ha⟩ := List.getElem?_of_mem hp
    obtain ⟨q, hq, hsame⟩ := h a p ha
    simp only [SockFprog.ofPbuf, List.getElem?_map, ha, Option.map_some,
      Option.some.injEq] at hq
    subst hq
    exact (sameAs_narrow_iff p).1 hsame
  · intro h a p ha
    refine ⟨p.narrow, ?_, (sameAs_narrow_iff p).2 (h p (List.mem_of_getElem? ha))⟩
    simp only [SockFprog.ofPbuf, List.getElem?_map, ha, Option.map_some]

/-- Converting back gives the message exactly when its values fit. -/
theorem map_widen_program_ofPbuf_iff (pbufSf : List PbufSockFilter) :
    (SockFprog.ofPbuf pbufSf).program.map widen = pbufSf ↔
      MessageFits pbufSf := by
  have hprogram : pbufSf.length < 2 ^ 16 →
      (SockFprog.ofPbuf pbufSf).program = pbufSf.map PbufSockFilter.narrow := by
    intro hlen
    rw [SockFprog.program, (len_ofPbuf_eq_iff pbufSf).2 hlen]
    exact List.take_of_length_le (by simp [SockFprog.ofPbuf])
  constructor
  · intro h
    have hlen : pbufSf.length < 2 ^ 16 := by
      rw [← len_ofPbuf_eq_iff, ← SockFprog.length_program]
      simpa using congrArg List.length h
    rw [hprogram hlen, List.map_map] at h
    refine ⟨hlen, fun p hp => ?_⟩
    have hp' : widen p.narrow = p := List.map_inj_left.1 (h.trans (List.map_id _).symm) p hp
    exact (sameAs_narrow_iff p).1 ((widen_eq_iff p p.narrow).1 hp')
  · rintro ⟨hlen, hfits⟩
    rw [hprogram hlen, List.map_map]
    refine (List.map_congr_left fun p hp => ?_).trans (List.map_id _)
    exact (widen_eq_iff p p.narrow).2 ((sameAs_narrow_iff p).2 (hfits p hp))

theorem eq_ofPbuf_of_dabbadPbufSfp2Sfp {calloc : Bool}
    {pbufSf : List PbufSockFilter} {sfp : SockFprog}
    (h : dabbadPbufSfp2Sfp calloc pbufSf = (0, sfp)) :
    sfp = .ofPbuf pbufSf ∧ ldabSockFilterIsValid (some sfp) = true := by
  simp only [dabbadPbufSfp2Sfp] at h
  split_ifs at h with hcalloc hvalid
  · simp [enomem] at h
  · simp [einval] at h
  · obtain rfl := (Prod.ext_iff.1 h).2
    exact ⟨rfl, by simpa using hvalid⟩

/-- A filter that is not refused is installed unchanged, and converts back to
the message, exactly when every number of the message fits its native field. -/
theorem dabbadPbufSfp2Sfp_unchanged_iff {calloc : Bool} {malloc : ℕ → Bool}
    (hmalloc : ∀ a, malloc a = true) {pbufSf : List PbufSockFilter}
    {sfp : SockFprog} (h : dabbadPbufSfp2Sfp calloc pbufSf = (0, sfp)) :
    (sfp.Agrees pbufSf ↔ MessageFits pbufSf) ∧
      (dabbadSfp2PbufSfp true malloc sfp = (0, pbufSf) ↔
        MessageFits pbufSf) := by
  obtain ⟨rfl, -⟩ := eq_ofPbuf_of_dabbadPbufSfp2Sfp h
  refine ⟨agrees_ofPbuf_iff pbufSf, ?_⟩
  rw [dabbadSfp2PbufSfp_eq_map hmalloc, Prod.mk.injEq, and_iff_right rfl]
  exact map_widen_program_ofPbuf_iff pbufSf

def acceptAll : PbufSockFilter := ⟨6, 0, 0, 0xffff⟩

theorem dabbadPbufSfp2Sfp_unchanged_iff_acceptAll :
    dabbadPbufSfp2Sfp true [acceptAll] = (0, .ofPbuf [acceptAll]) ∧
      ((SockFprog.ofPbuf [acceptAll]).Agrees [acceptAll] ↔
        MessageFits [acceptAll]) ∧
      (dabbadSfp2PbufSfp true (fun _ => true) (.ofPbuf [acceptAll]) =
        (0, [acceptAll]) ↔ MessageFits [acceptAll]) := by
  have h : dabbadPbufSfp2Sfp true [acceptAll] = (0, .ofPbuf [acceptAll]) := by
    decide
  exact ⟨h, dabbadPbufSfp2Sfp_unchanged_iff (fun _ => rfl) h⟩

/-- A message whose code does not fit: narrowed it is a return, so it is
accepted, and its values are lost. -/
theorem dabbadPbufSfp2Sfp_wide_code_changed :
    let wide : PbufSockFilter := ⟨0x10006, 0, 0, 0xffff⟩
    (dabbadPbufSfp2Sfp true [wide]).1 = 0 ∧
      ¬ (dabbadPbufSfp2Sfp true [wide]).2.Agrees [wide] ∧
      dabbadSfp2PbufSfp true (fun _ => true) (dabbadPbufSfp2Sfp true [wide]).2 =
        (0, [acceptAll]) := by
  intro wide
  have h : dabbadPbufSfp2Sfp true [wide] = (0, .ofPbuf [wide]) := by
    decide
  rw [h]
  refine ⟨rfl, fun hagrees => ?_, by decide⟩
  have hfits := ((agrees_ofPbuf_iff [wide]).1 hagrees).2 wide (by simp)
  exact absurd hfits.1 (by decide)

end SockFilter
