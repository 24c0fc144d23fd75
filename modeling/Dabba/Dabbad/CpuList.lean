import Dabba.Posix.File
import Dabba.Stdio.Scan
import Mathlib.Data.Set.Basic

/-!
# CPU lists

`str2cpuAffinity` reads a comma-separated list of CPUs into a CPU set. A token
is a CPU, a range or a range with a stride. The numbers are 32 bits wide and the
range loop adds the stride modulo `2 ^ 32`, so a range that ends at the largest
number is never left. The loops take fuel, and a result is one that some amount
of fuel gives. For a list of entries the result is described entry by entry.
-/

namespace Dabbad

open Posix Stdio

/-- A CPU set over `n` CPUs, one bit each. -/
abbrev CpuSet (n : ℕ) := BitVec n

def cpuSet {n : ℕ} (cpu : ℕ) (mask : CpuSet n) : CpuSet n :=
  if cpu < n then mask ||| BitVec.twoPow n cpu else mask

/-- The text behind the next separator of a string, `none` for the null
pointer. -/
def nexttoken (q : Option (List Byte)) (sep : Byte) : Option (List Byte) :=
  match q with
  | none => none
  | some q =>
      match q.dropWhile (· ≠ sep) with
      | [] => none
      | _ :: q => some q

/-- `c1 != NULL && (c2 == NULL || c1 < c2)` for two pointers into one string,
given by the text behind them. -/
def before (c1 c2 : Option (List Byte)) : Bool :=
  match c1, c2 with
  | none, _ => false
  | some _, none => true
  | some c1, some c2 => c2.length < c1.length

def scanUnsigned (p : List Byte) : Option (BitVec 32) :=
  (scan [.number .u none] p).head?

/-- The beginning, the end and the stride of the token at `p`. -/
def parseToken (p : List Byte) : Option (BitVec 32 × BitVec 32 × BitVec 32) := do
  let a ← scanUnsigned p
  let c1 := nexttoken (some p) (ascii '-')
  let c2 := nexttoken (some p) (ascii ',')
  if before c1 c2 then
    let b ← c1.bind scanUnsigned
    let c1 := nexttoken c1 (ascii ':')
    if before c1 c2 then
      let s ← c1.bind scanUnsigned
      return (a, b, s)
    else return (a, b, 1)
  else return (a, a, 1)

/-- The loop over a range, `while (a <= b)`. -/
def rangeLoop {n : ℕ} (b s : BitVec 32) :
    ℕ → BitVec 32 → CpuSet n → Option (CpuSet n)
  | 0, _, _ => none
  | fuel + 1, a, mask =>
      if a ≤ b then rangeLoop b s fuel (a + s) (cpuSet a.toNat mask) else some mask

/-- The loop over the tokens from `q` on. -/
def tokenLoop {n : ℕ} :
    ℕ → Option (List Byte) → CpuSet n → Option (ℤ × CpuSet n)
  | 0, _, _ => none
  | _ + 1, none, mask => some (0, mask)
  | fuel + 1, some p, mask =>
      match parseToken p with
      | none => some (-einval, mask)
      | some (a, b, s) =>
          if a ≤ b then do
            let mask ← rangeLoop b s fuel a mask
            tokenLoop fuel (nexttoken (some p) (ascii ',')) mask
          else some (-einval, mask)

/-- Reads a CPU list; the string is a C string in its buffer. -/
def str2cpuAffinity (n fuel : ℕ) (str : List Byte) : Option (ℤ × CpuSet n) :=
  tokenLoop fuel (some (cstring str)) 0

theorem nexttoken_append {t : List Byte} {sep : Byte} (ht : sep ∉ t) (s : List Byte) :
    nexttoken (some (t ++ s)) sep = nexttoken (some s) sep := by
  have hdrop : (t ++ s).dropWhile (· ≠ sep) = s.dropWhile (· ≠ sep) := by
    refine List.dropWhile_append_of_pos fun c hc => decide_eq_true ?_
    rintro rfl
    exact ht hc
  simp only [nexttoken, hdrop]

theorem nexttoken_cons (sep : Byte) (s : List Byte) :
    nexttoken (some (sep :: s)) sep = some s := by
  simp [nexttoken]

theorem nexttoken_cons_of_ne {sep c : Byte} (h : sep ≠ c) (s : List Byte) :
    nexttoken (some (c :: s)) sep = nexttoken (some s) sep :=
  nexttoken_append (t := [c]) (by simpa using h) s

theorem length_lt_of_nexttoken {s q : List Byte} {sep : Byte}
    (h : nexttoken (some s) sep = some q) : q.length < s.length := by
  have hle := (List.dropWhile_suffix (l := s) (· ≠ sep)).length_le
  simp only [nexttoken] at h
  cases hdrop : s.dropWhile (· ≠ sep) with
  | nil =>
      rw [hdrop] at h
      cases h
  | cons c r =>
      rw [hdrop] at h hle
      cases h
      rwa [List.length_cons] at hle

theorem getLsbD_cpuSet {n : ℕ} (cpu : ℕ) (mask : CpuSet n) (d : ℕ) :
    (cpuSet cpu mask).getLsbD d = true ↔
      mask.getLsbD d = true ∨ d < n ∧ d = cpu := by
  by_cases hcpu : cpu < n
  · rw [cpuSet, if_pos hcpu, BitVec.getLsbD_or, BitVec.getLsbD_twoPow, Bool.or_eq_true,
      Bool.and_eq_true, decide_eq_true_iff, decide_eq_true_iff]
    constructor
    · rintro (h | ⟨-, rfl⟩)
      · exact .inl h
      · exact .inr ⟨hcpu, rfl⟩
    · rintro (h | ⟨-, rfl⟩)
      · exact .inl h
      · exact .inr ⟨hcpu, rfl⟩
  · rw [cpuSet, if_neg hcpu]
    refine ⟨.inl, ?_⟩
    rintro (h | ⟨hd, rfl⟩)
    · exact h
    · exact absurd hd hcpu

/-- The CPUs of a token: from the beginning in steps of the stride up to the
end. -/
def InRange (v : BitVec 32 × BitVec 32 × BitVec 32) (d : ℕ) : Prop :=
  v.1.toNat ≤ d ∧ d ≤ v.2.1.toNat ∧ v.2.2.toNat ∣ d - v.1.toNat

def Bounded (v : BitVec 32 × BitVec 32 × BitVec 32) : Prop :=
  v.1 ≤ v.2.1 ∧ 0 < v.2.2.toNat ∧ v.2.1.toNat + v.2.2.toNat < 2 ^ 32

theorem rangeLoop_succ {n : ℕ} {b s : BitVec 32} {fuel : ℕ} {a : BitVec 32}
    {mask m : CpuSet n} (h : rangeLoop b s fuel a mask = some m) :
    rangeLoop b s (fuel + 1) a mask = some m := by
  induction fuel generalizing a mask with
  | zero => cases h
  | succ fuel ih =>
      rw [rangeLoop] at h ⊢
      split at h
      · rename_i hab
        rw [if_pos hab]
        exact ih h
      · rename_i hab
        rwa [if_neg hab]

theorem rangeLoop_mono {n : ℕ} {b s : BitVec 32} {fuel fuel' : ℕ} (hle : fuel ≤ fuel')
    {a : BitVec 32} {mask m : CpuSet n} (h : rangeLoop b s fuel a mask = some m) :
    rangeLoop b s fuel' a mask = some m := by
  induction hle with
  | refl => exact h
  | step _ ih => exact rangeLoop_succ ih

/-- A token's CPUs are its beginning and those behind the first step. -/
theorem inRange_step {a b s : BitVec 32} (hs : 0 < s.toNat) (hab : a ≤ b)
    (hb : b.toNat + s.toNat < 2 ^ 32) (d : ℕ) :
    InRange (a, b, s) d ↔ d = a.toNat ∨ InRange (a + s, b, s) d := by
  have hle : a.toNat ≤ b.toNat := hab
  have hadd : (a + s).toNat = a.toNat + s.toNat := by
    rw [BitVec.toNat_add]
    exact Nat.mod_eq_of_lt (by omega)
  simp only [InRange, hadd]
  constructor
  · rintro ⟨had, hdb, hdvd⟩
    rcases Nat.eq_or_lt_of_le had with rfl | hlt
    · exact .inl rfl
    · have hstep : s.toNat ≤ d - a.toNat := Nat.le_of_dvd (by omega) hdvd
      refine .inr ⟨by omega, hdb, ?_⟩
      rw [← Nat.sub_sub]
      exact Nat.dvd_sub hdvd dvd_rfl
  · rintro (rfl | ⟨had, hdb, hdvd⟩)
    · exact ⟨le_rfl, hle, by simp⟩
    · refine ⟨by omega, hdb, ?_⟩
      have hsum : d - a.toNat = d - (a.toNat + s.toNat) + s.toNat := by omega
      rw [hsum]
      exact Nat.dvd_add hdvd dvd_rfl

/-- A range that ends a stride below `2 ^ 32` sets its CPUs and no others. -/
theorem rangeLoop_of_lt {n : ℕ} {b s : BitVec 32} (hs : 0 < s.toNat)
    (hb : b.toNat + s.toNat < 2 ^ 32) {fuel : ℕ} {a : BitVec 32} (mask : CpuSet n)
    (hpos : 0 < fuel) (hfuel : b.toNat + 1 < fuel + a.toNat) :
    ∃ m, rangeLoop b s fuel a mask = some m ∧ ∀ d, m.getLsbD d = true ↔
      mask.getLsbD d = true ∨ d < n ∧ InRange (a, b, s) d := by
  induction fuel generalizing a mask with
  | zero => exact absurd hpos (lt_irrefl 0)
  | succ fuel ih =>
      by_cases hab : a ≤ b
      · have hle : a.toNat ≤ b.toNat := hab
        have hadd : (a + s).toNat = a.toNat + s.toNat := by
          rw [BitVec.toNat_add]
          exact Nat.mod_eq_of_lt (by omega)
        obtain ⟨m, hm, hbits⟩ := ih (a := a + s) (cpuSet a.toNat mask) (by omega)
          (by omega)
        refine ⟨m, ?_, fun d => ?_⟩
        · rw [rangeLoop, if_pos hab, hm]
        · rw [hbits, getLsbD_cpuSet, inRange_step hs hab hb, and_or_left, or_assoc]
      · refine ⟨mask, by rw [rangeLoop, if_neg hab], fun d => ?_⟩
        have hempty : ¬ InRange (a, b, s) d := by
          rintro ⟨had, hdb, -⟩
          exact hab (had.trans hdb)
        simp [hempty]

theorem rangeLoop_allOnes {n : ℕ} {b : BitVec 32} (hb : b.toNat + 1 = 2 ^ 32)
    (s : BitVec 32) (fuel : ℕ) (a : BitVec 32) (mask : CpuSet n) :
    rangeLoop b s fuel a mask = none := by
  induction fuel generalizing a mask with
  | zero => rfl
  | succ fuel ih =>
      have hab : a ≤ b := by
        have ha := a.isLt
        rw [BitVec.le_def]
        omega
      rw [rangeLoop, if_pos hab, ih]

/-- More fuel gives the same result. -/
theorem tokenLoop_succ {n : ℕ} {fuel : ℕ} {q : Option (List Byte)} {mask : CpuSet n}
    {r : ℤ × CpuSet n} (h : tokenLoop fuel q mask = some r) :
    tokenLoop (fuel + 1) q mask = some r := by
  induction fuel generalizing q mask with
  | zero => cases h
  | succ fuel ih =>
      cases q with
      | none => exact h
      | some p =>
          rw [tokenLoop] at h ⊢
          split at h
          · exact h
          · rename_i a b s hparse
            split at h
            · rename_i hab
              obtain ⟨m, hm, hrest⟩ := Option.bind_eq_some_iff.1 h
              rw [if_pos hab]
              exact Option.bind_eq_some_iff.2 ⟨m, rangeLoop_succ hm, ih hrest⟩
            · rename_i hab
              rwa [if_neg hab]

theorem tokenLoop_mono {n : ℕ} {fuel fuel' : ℕ} (hle : fuel ≤ fuel')
    {q : Option (List Byte)} {mask : CpuSet n} {r : ℤ × CpuSet n}
    (h : tokenLoop fuel q mask = some r) : tokenLoop fuel' q mask = some r := by
  induction hle with
  | refl => exact h
  | step _ ih => exact tokenLoop_succ ih

theorem tokenLoop_unique {n : ℕ} {fuel fuel' : ℕ} {q : Option (List Byte)}
    {mask : CpuSet n} {r r' : ℤ × CpuSet n} (h : tokenLoop fuel q mask = some r)
    (h' : tokenLoop fuel' q mask = some r') : r = r' := by
  have hmax := tokenLoop_mono (le_max_left fuel fuel') h
  rw [tokenLoop_mono (le_max_right fuel fuel') h'] at hmax
  exact (Option.some.inj hmax).symm

end Dabbad
