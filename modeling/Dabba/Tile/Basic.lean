import Mathlib.Order.CompletePartialOrder
import Mathlib.Order.Interval.Set.Disjoint
import Mathlib.Algebra.Order.Ring.Nat
import Mathlib.Tactic.Ring

/-!
# Tiles of equal size

The natural numbers cut into consecutive tiles of `s` numbers each. Different tiles
are disjoint, the first `n` of them cover the numbers below `n * s`, and every tile
lies in one tile of a size that is a multiple of `s`.
-/

namespace Tile

variable {s : ℕ}

def tile (s a : ℕ) : Set ℕ := Set.Ico (a * s) ((a + 1) * s)

theorem mem_tile_iff (hs : 0 < s) {a x : ℕ} : x ∈ tile s a ↔ x / s = a := by
  rw [tile, Set.mem_Ico, Nat.div_eq_iff hs, Nat.lt_iff_le_pred (Nat.mul_pos a.succ_pos hs)]
  have hlast : a.succ * s - 1 = a * s + s - 1 := by rw [Nat.succ_mul]
  rw [← hlast]

theorem disjoint_tile (hs : 0 < s) {a b : ℕ} (h : a ≠ b) : Disjoint (tile s a) (tile s b) := by
  rw [Set.disjoint_left]
  intro x ha hb
  rw [mem_tile_iff hs] at ha hb
  exact h (ha.symm.trans hb)

theorem tile_subset_tile (hs : 0 < s) {k : ℕ} (hk : 0 < k) (a : ℕ) :
    tile s a ⊆ tile (k * s) (a / k) := by
  intro x hx
  rw [mem_tile_iff hs] at hx
  rw [mem_tile_iff (Nat.mul_pos hk hs), Nat.mul_comm, ← Nat.div_div_eq_div_mul, hx]

theorem tile_subset {a n : ℕ} (ha : a < n) : tile s a ⊆ Set.Ico 0 (n * s) := by
  rintro x ⟨-, hx⟩
  exact ⟨Nat.zero_le x, lt_of_lt_of_le hx (Nat.mul_le_mul_right s ha)⟩

theorem exists_mem_tile {n x : ℕ} (hx : x < n * s) : ∃ a < n, x ∈ tile s a := by
  have hs : 0 < s := Nat.pos_of_mul_pos_left (Nat.zero_lt_of_lt hx)
  exact ⟨x / s, Nat.div_lt_of_lt_mul (Nat.mul_comm n s ▸ hx), (mem_tile_iff hs).2 rfl⟩

end Tile
