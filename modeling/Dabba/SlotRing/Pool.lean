import Dabba.SlotRing.Basic

/-!
# Slots that are filled and emptied in any order

Without a cursor on either side a ring is a pool of slots: a producer puts an item into
any empty slot, and a consumer takes one out of any full slot. What was put in and was
not taken out is in the slots, each item as often as it was put in.
-/

namespace SlotRing

variable {α : Type*} {n : ℕ}

/-- The slots with the history of what was put in and taken out. -/
structure Pool (α : Type*) where
  slot : ℕ → Option α
  added : List α
  taken : List α

/-- One step of the producer or of the consumer. -/
inductive Pool.Step (n : ℕ) : Pool α → Pool α → Prop
  | add {p : Pool α} {i : ℕ} (x : α) (hi : i < n) (hempty : p.slot i = none) :
      Step n p ⟨Function.update p.slot i (some x), p.added ++ [x], p.taken⟩
  | take {p : Pool α} {i : ℕ} {x : α} (hi : i < n) (hfull : p.slot i = some x) :
      Step n p ⟨Function.update p.slot i none, p.added, p.taken ++ [x]⟩

def Pool.Conserved (n : ℕ) (p : Pool α) : Prop :=
  (p.added : Multiset α) = p.taken + content n p.slot

theorem Pool.Conserved.empty {slot : ℕ → Option α} (hslot : ∀ i, slot i = none) :
    Pool.Conserved n ⟨slot, [], []⟩ := by
  simp [Pool.Conserved, content, hslot]

theorem Pool.Conserved.step {p p' : Pool α} (h : p.Conserved n) (hstep : Pool.Step n p p') :
    p'.Conserved n := by
  unfold Pool.Conserved at h ⊢
  cases hstep with
  | add x hi hempty =>
      dsimp only
      rw [content_put hi hempty, ← Multiset.coe_add, h, add_assoc]
      rfl
  | take hi hfull =>
      dsimp only
      rw [h, ← content_take hi hfull, ← Multiset.coe_add, add_assoc, add_comm (content n _)]
      rfl

end SlotRing
