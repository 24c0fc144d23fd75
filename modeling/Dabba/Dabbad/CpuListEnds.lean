import Dabba.Dabbad.CpuTokens
import Dabba.Stride.Basic

/-!
# Whether a CPU list is ever read to its end

Every iteration of the token loop moves on behind a comma, so that loop ends. The range
loop counts in numbers that wrap: it meets the numbers that agree with the beginning
modulo `gcd s 2 ^ 32`, and is left only if one of them is above the end of the range.
-/

namespace Dabbad

open Posix Stdio

/-- The range loop from `a` is left: a number above `b` is met. -/
def RangeEnds (v : BitVec 32 × BitVec 32 × BitVec 32) : Prop :=
  v.2.1.toNat < Stride.top (2 ^ 32) v.2.2.toNat v.1.toNat

instance (v : BitVec 32 × BitVec 32 × BitVec 32) : Decidable (RangeEnds v) :=
  inferInstanceAs (Decidable (_ < _))

/-- The parser comes from the text `p` to the token at `q`: every token in front of it
is read, has its numbers in order and has a comma behind it. -/
inductive ReachesToken : List Byte → List Byte → Prop
  | here (p : List Byte) : ReachesToken p p
  | next {p p' q : List Byte} {a b s : BitVec 32} (hparse : parseToken p = some (a, b, s))
      (hab : a ≤ b) (hnext : nexttoken (some p) (ascii ',') = some p')
      (h : ReachesToken p' q) : ReachesToken p q

/-- Every range that the parser comes to is left. -/
def RangesEnd (p : List Byte) : Prop :=
  ∀ q, ReachesToken p q → ∀ v, parseToken q = some v → v.1 ≤ v.2.1 → RangeEnds v

section

variable {n : ℕ} {a b s : BitVec 32}

/-- The loop ends if and only if a number above the bound is met. -/
theorem rangeLoop_ends_iff_meets (mask : CpuSet n) :
    (∃ fuel m, rangeLoop b s fuel a mask = some m) ↔
      ∃ x, Stride.Meets (2 ^ 32) s.toNat a.toNat x ∧ b.toNat < x := by
  have hadd : ∀ a : BitVec 32, (a + s).toNat = (a.toNat + s.toNat) % 2 ^ 32 :=
    fun a => BitVec.toNat_add a s
  constructor
  · rintro ⟨fuel, m, hm⟩
    induction fuel generalizing a mask with
    | zero => cases hm
    | succ fuel ih =>
        by_cases hab : a ≤ b
        · rw [rangeLoop, if_pos hab] at hm
          obtain ⟨_, ⟨k, rfl⟩, hx⟩ := ih _ hm
          refine ⟨_, ⟨k + 1, ?_⟩, hx⟩
          rw [hadd, Stride.mod_step]
        · refine ⟨a.toNat, ⟨0, ?_⟩, not_le.1 hab⟩
          rw [Nat.zero_mul, Nat.add_zero, Nat.mod_eq_of_lt a.isLt]
  · rintro ⟨_, ⟨k, rfl⟩, hx⟩
    induction k generalizing a mask with
    | zero =>
        rw [Nat.zero_mul, Nat.add_zero, Nat.mod_eq_of_lt a.isLt] at hx
        have hab : ¬ a ≤ b := not_le.2 hx
        exact ⟨1, mask, by rw [rangeLoop, if_neg hab]⟩
    | succ k ih =>
        by_cases hab : a ≤ b
        · obtain ⟨fuel, m, hm⟩ := ih (a := a + s) (cpuSet a.toNat mask)
            (by rwa [hadd, Stride.mod_step])
          exact ⟨fuel + 1, m, by rw [rangeLoop, if_pos hab, hm]⟩
        · exact ⟨1, mask, by rw [rangeLoop, if_neg hab]⟩

theorem rangeLoop_ends_iff (mask : CpuSet n) :
    (∃ fuel m, rangeLoop b s fuel a mask = some m) ↔ RangeEnds (a, b, s) := by
  rw [rangeLoop_ends_iff_meets, Stride.exists_meets_gt_iff (by decide), RangeEnds]

theorem rangesEnd_iff_of_parseToken {p : List Byte} (hparse : parseToken p = some (a, b, s))
    (hab : a ≤ b) :
    RangesEnd p ↔ RangeEnds (a, b, s) ∧
      ∀ p', nexttoken (some p) (ascii ',') = some p' → RangesEnd p' := by
  constructor
  · intro h
    exact ⟨h p (.here p) _ hparse hab,
      fun p' hp' q hq => h q (.next hparse hab hp' hq)⟩
  · rintro ⟨hfirst, hrest⟩ q hq v hv hle
    cases hq with
    | here =>
        rw [hparse] at hv
        cases hv
        exact hfirst
    | next _ _ hnext hq => exact hrest _ hnext q hq v hv hle

theorem rangesEnd_of_parseToken_eq_none {p : List Byte} (hparse : parseToken p = none) :
    RangesEnd p := by
  intro q hq v hv
  cases hq with
  | here =>
      rw [hparse] at hv
      cases hv
  | next hparse' => rw [hparse] at hparse'; cases hparse'

theorem rangesEnd_of_not_le {p : List Byte} (hparse : parseToken p = some (a, b, s))
    (hab : ¬ a ≤ b) : RangesEnd p := by
  intro q hq v hv hle
  cases hq with
  | here =>
      rw [hparse] at hv
      cases hv
      exact absurd hle hab
  | next hparse' hab' =>
      rw [hparse] at hparse'
      cases hparse'
      exact absurd hab' hab

/-- The token loop ends if and only if the ranges do. -/
theorem tokenLoop_ends_iff (p : List Byte) (mask : CpuSet n) :
    (∃ fuel r, tokenLoop fuel (some p) mask = some r) ↔ RangesEnd p := by
  -- The rest behind a comma is shorter.
  induction hlen : p.length using Nat.strong_induction_on generalizing p mask with
  | _ l ih =>
      cases hparse : parseToken p with
      | none =>
          refine iff_of_true ⟨1, (-einval, mask), ?_⟩ (rangesEnd_of_parseToken_eq_none hparse)
          rw [tokenLoop, hparse]
      | some v =>
          obtain ⟨a, b, s⟩ := v
          by_cases hab : a ≤ b
          · rw [rangesEnd_iff_of_parseToken hparse hab, ← rangeLoop_ends_iff mask]
            have hstep : ∀ fuel, tokenLoop (fuel + 1) (some p) mask =
                (rangeLoop b s fuel a mask).bind
                  (tokenLoop fuel (nexttoken (some p) (ascii ','))) := by
              intro fuel
              rw [tokenLoop, hparse]
              dsimp only
              rw [if_pos hab]
              rfl
            have hrest : ∀ mask : CpuSet n,
                (∃ fuel r, tokenLoop fuel (nexttoken (some p) (ascii ',')) mask = some r) ↔
                  ∀ p', nexttoken (some p) (ascii ',') = some p' → RangesEnd p' := by
              intro mask
              cases hnext : nexttoken (some p) (ascii ',') with
              | none =>
                  refine iff_of_true ⟨1, (0, mask), rfl⟩ ?_
                  intro p' hp'
                  cases hp'
              | some p' =>
                  rw [ih _ (hlen ▸ length_lt_of_nexttoken hnext) p' mask rfl]
                  simp
            constructor
            · rintro ⟨fuel, r, hr⟩
              cases fuel with
              | zero => cases hr
              | succ fuel =>
                  rw [hstep] at hr
                  obtain ⟨m, hm, hloop⟩ := Option.bind_eq_some_iff.1 hr
                  exact ⟨⟨fuel, m, hm⟩, (hrest m).1 ⟨fuel, r, hloop⟩⟩
            · rintro ⟨⟨fuel, m, hm⟩, htail⟩
              obtain ⟨fuel', r, hr⟩ := (hrest m).2 htail
              refine ⟨max fuel fuel' + 1, r, ?_⟩
              rw [hstep, rangeLoop_mono (le_max_left _ _) hm]
              exact tokenLoop_mono (le_max_right _ _) hr
          · refine iff_of_true ⟨1, (-einval, mask), ?_⟩ (rangesEnd_of_not_le hparse hab)
            rw [tokenLoop, hparse]
            exact if_neg hab

/-- Reading a CPU list ends if and only if every range that the parser comes to is
left. -/
theorem str2cpuAffinity_ends_iff (n : ℕ) (str : List Byte) :
    (∃ fuel r, str2cpuAffinity n fuel str = some r) ↔ RangesEnd (cstring str) :=
  tokenLoop_ends_iff (cstring str) 0

end

def wholeRange : List Byte := "0-4294967295".toList.map ascii

def zeroStride : List Byte := "0-6:0".toList.map ascii

/-- A range up to the largest number and a range without a step are never left. -/
theorem not_str2cpuAffinity_ends :
    (∀ n fuel, str2cpuAffinity n fuel (wholeRange ++ [0]) = none) ∧
      ∀ n fuel, str2cpuAffinity n fuel (zeroStride ++ [0]) = none := by
  have hends : ∀ (str : List Byte) (v : BitVec 32 × BitVec 32 × BitVec 32),
      parseToken (cstring str) = some v → v.1 ≤ v.2.1 → ¬ RangeEnds v →
        ∀ n fuel, str2cpuAffinity n fuel str = none := by
    intro str v hparse hle hnot n fuel
    by_contra hsome
    obtain ⟨r, hr⟩ := Option.ne_none_iff_exists'.1 hsome
    exact hnot ((tokenLoop_ends_iff _ _).1 ⟨fuel, r, hr⟩ _ (.here _) v hparse hle)
  exact ⟨hends _ (0, 0xffffffff, 1) (by decide) (by decide) (by decide),
    hends _ (0, 6, 0) (by decide) (by decide) (by decide)⟩

end Dabbad
