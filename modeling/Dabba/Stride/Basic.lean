import Mathlib.Data.Int.GCD
import Mathlib.Data.Int.ModEq
import Mathlib.Tactic.LinearCombination

/-!
# Steps that wrap

Adding a step `s` to a number again and again modulo `N` meets exactly the numbers
below `N` that agree with the first one modulo `gcd s N`. The largest of them decides
whether a loop that counts in this way ever gets past a bound.
-/

namespace Stride

/-- The step is added to `a` until `x` is met, modulo `N`. -/
def Meets (N s a x : ℕ) : Prop := ∃ k, (a + k * s) % N = x

def top (N s a : ℕ) : ℕ := N - Nat.gcd s N + a % Nat.gcd s N

variable {N s a : ℕ}

theorem mod_step (N s a k : ℕ) : ((a + s) % N + k * s) % N = (a + (k + 1) * s) % N := by
  rw [Nat.mod_add_mod, Nat.succ_mul, Nat.add_right_comm, Nat.add_assoc a]

theorem meets_iff (hN : 0 < N) {x : ℕ} :
    Meets N s a x ↔ x < N ∧ a ≡ x [MOD Nat.gcd s N] := by
  constructor
  · rintro ⟨k, rfl⟩
    refine ⟨Nat.mod_lt _ hN, ?_⟩
    have hstep : a ≡ a + k * s [MOD Nat.gcd s N] := by
      have hdvd : Nat.gcd s N ∣ k * s := (Nat.gcd_dvd_left s N).mul_left k
      simpa using (Nat.ModEq.refl a).add (Nat.modEq_zero_iff_dvd.2 hdvd).symm
    exact hstep.trans ((Nat.mod_modEq _ N).of_dvd (Nat.gcd_dvd_right s N)).symm
  · rintro ⟨hx, hmod⟩
    obtain ⟨t, ht⟩ := (Nat.modEq_iff_dvd).1 hmod
    -- The coefficient of `s` in the greatest common divisor is the number of steps.
    let k := (Nat.gcdA s N * t) % N
    have hk : 0 ≤ k := Int.emod_nonneg _ (by omega)
    have hbezout : (a : ℤ) + Nat.gcdA s N * t * s = x - N * (Nat.gcdB s N * t) := by
      rw [Nat.gcd_eq_gcd_ab] at ht
      linear_combination -ht
    have hcast : (a : ℤ) + k * s ≡ x [ZMOD N] := by
      calc (a : ℤ) + k * s ≡ a + Nat.gcdA s N * t * s [ZMOD N] :=
            (Int.ModEq.refl _).add ((Int.mod_modEq _ _).mul_right _)
        _ = x - N * (Nat.gcdB s N * t) := hbezout
        _ ≡ x [ZMOD N] := (Int.modEq_sub_modulus_mul_iff.2 (Int.ModEq.refl _)).symm
    refine ⟨k.toNat, ?_⟩
    have hnat : a + k.toNat * s ≡ x [MOD N] := by
      rw [← Int.natCast_modEq_iff]
      push_cast
      rwa [Int.toNat_of_nonneg hk]
    rw [hnat, Nat.mod_eq_of_lt hx]

theorem gcd_pos (hN : 0 < N) : 0 < Nat.gcd s N := Nat.gcd_pos_of_pos_right s hN

theorem meets_top (hN : 0 < N) : Meets N s a (top N s a) := by
  have hg := gcd_pos (s := s) hN
  have hle := Nat.le_of_dvd hN (Nat.gcd_dvd_right s N)
  have hmod := Nat.mod_lt a hg
  rw [meets_iff hN, top]
  refine ⟨by omega, ?_⟩
  have hdvd : Nat.gcd s N ∣ N - Nat.gcd s N :=
    Nat.dvd_sub (Nat.gcd_dvd_right s N) dvd_rfl
  simpa using (Nat.modEq_zero_iff_dvd.2 hdvd).symm.add (Nat.mod_modEq a _).symm

theorem le_top_of_meets (hN : 0 < N) {x : ℕ} (h : Meets N s a x) : x ≤ top N s a := by
  obtain ⟨hx, hmod⟩ := (meets_iff hN).1 h
  have hg := gcd_pos (s := s) hN
  obtain ⟨m, hm⟩ := Nat.gcd_dvd_right s N
  have hmod' : a % Nat.gcd s N = x % Nat.gcd s N := hmod
  have hdiv : x / Nat.gcd s N < m := by
    rw [Nat.div_lt_iff_lt_mul hg, Nat.mul_comm, ← hm]
    exact hx
  have hmul : Nat.gcd s N * (x / Nat.gcd s N) ≤ Nat.gcd s N * (m - 1) :=
    Nat.mul_le_mul_left _ (by omega)
  rw [Nat.mul_sub, Nat.mul_one, ← hm] at hmul
  have hsplit := Nat.div_add_mod x (Nat.gcd s N)
  rw [top, hmod']
  omega

theorem exists_meets_gt_iff (hN : 0 < N) {b : ℕ} :
    (∃ x, Meets N s a x ∧ b < x) ↔ b < top N s a :=
  ⟨fun ⟨_, hx, hb⟩ => hb.trans_le (le_top_of_meets hN hx),
    fun h => ⟨_, meets_top hN, h⟩⟩

end Stride
