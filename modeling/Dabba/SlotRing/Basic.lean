import Mathlib.Algebra.BigOperators.Group.Finset.Piecewise
import Mathlib.Algebra.Order.Group.Multiset
import Mathlib.Data.Nat.ModEq
import Mathlib.Logic.Relation
import Mathlib.Tactic.Abel

/-!
# Rings of slots between a producer and a consumer

A ring has `n` slots, each empty or holding an item. The producer fills the slot
at its own cyclic head when that slot is empty; the consumer may empty any full
slot. Whatever the order of their steps, the delivered items are the taken ones
and those still in slots, each counted as often as it occurs.

A consumer that always waits for the slot after the last one it emptied takes the
items in the order of their delivery. The invariant behind this is a window of
`n` consecutive positions of the delivered sequence, one for each slot.
-/

namespace SlotRing

variable {α : Type*}

/-- A ring together with the history of what was put in and taken out. -/
structure State (α : Type*) where
  slot : ℕ → Option α
  head : ℕ
  delivered : List α
  taken : List α

def State.empty : State α where
  slot _ := none
  head := 0
  delivered := []
  taken := []

def held : Option α → Multiset α
  | none => 0
  | some x => {x}

@[simp] theorem held_none : held (none : Option α) = 0 := rfl

@[simp] theorem held_some (x : α) : held (some x) = {x} := rfl

def content (n : ℕ) (slot : ℕ → Option α) : Multiset α :=
  ∑ i ∈ Finset.range n, held (slot i)

theorem mem_content {n : ℕ} {slot : ℕ → Option α} {x : α} :
    x ∈ content n slot ↔ ∃ i < n, slot i = some x := by
  have hheld : ∀ y : Option α, x ∈ held y ↔ y = some x := by
    rintro (_ | y)
    · simp
    · simp [eq_comm]
  simp only [content, Multiset.mem_sum, Finset.mem_range, hheld]

/-- Items that are told apart by their slots are counted once each. -/
theorem nodup_content {n : ℕ} {slot : ℕ → Option α}
    (hslot : ∀ i j x, slot i = some x → slot j = some x → i = j) : (content n slot).Nodup := by
  induction n with
  | zero => exact Multiset.nodup_zero
  | succ n ih =>
      rw [content, Finset.sum_range_succ, ← content, Multiset.nodup_add]
      refine ⟨ih, ?_, ?_⟩
      · cases slot n with
        | none => exact Multiset.nodup_zero
        | some x => exact Multiset.nodup_singleton x
      · rw [Multiset.disjoint_left]
        intro x hx hn
        obtain ⟨i, hi, hxi⟩ := mem_content.1 hx
        cases hslotn : slot n with
        | none =>
            rw [hslotn] at hn
            exact absurd hn (Multiset.notMem_zero x)
        | some y =>
            rw [hslotn, held_some, Multiset.mem_singleton] at hn
            exact absurd (hslot i n x hxi (by rw [hslotn, hn])) (Nat.ne_of_lt hi)

theorem content_update {n i : ℕ} (hi : i < n) (slot : ℕ → Option α)
    (x : Option α) :
    content n (Function.update slot i x) + held (slot i) =
      content n slot + held x := by
  have hmem : i ∈ Finset.range n := Finset.mem_range.2 hi
  have hcomp : (fun j => held (Function.update slot i x j)) =
      Function.update (fun j => held (slot j)) i (held x) := by
    funext j
    by_cases hj : j = i
    · rw [hj, Function.update_self, Function.update_self]
    · rw [Function.update_of_ne hj, Function.update_of_ne hj]
  rw [content, hcomp, Finset.sum_update_of_mem hmem, content,
    Finset.sum_eq_add_sum_sdiff_singleton_of_mem hmem fun j => held (slot j)]
  abel

theorem content_put {n i : ℕ} (hi : i < n) {slot : ℕ → Option α}
    (hempty : slot i = none) (x : α) :
    content n (Function.update slot i (some x)) = content n slot + {x} := by
  simpa [hempty] using content_update hi slot (some x)

theorem content_take {n i : ℕ} (hi : i < n) {slot : ℕ → Option α} {x : α}
    (hfull : slot i = some x) :
    content n (Function.update slot i none) + {x} = content n slot := by
  simpa [hfull] using content_update hi slot none

/-- The ring after `x` was put at the producer's head. -/
def State.deliver (n : ℕ) (s : State α) (x : α) : State α where
  slot := Function.update s.slot s.head (some x)
  head := (s.head + 1) % n
  delivered := s.delivered ++ [x]
  taken := s.taken

/-- The ring after `x` was taken out of slot `i`. -/
def State.take (s : State α) (i : ℕ) (x : α) : State α where
  slot := Function.update s.slot i none
  head := s.head
  delivered := s.delivered
  taken := s.taken ++ [x]

/-- One step of the producer or of the consumer. -/
inductive Step (n : ℕ) : State α → State α → Prop
  | deliver {s : State α} (x : α) (hempty : s.slot s.head = none) :
      Step n s (s.deliver n x)
  | take {s : State α} {i : ℕ} {x : α} (hi : i < n) (hfull : s.slot i = some x) :
      Step n s (s.take i x)

/-- Every delivered item was taken or is in its slot. -/
structure Conserved (n : ℕ) (s : State α) : Prop where
  head_lt : s.head < n
  delivered_eq : (s.delivered : Multiset α) = s.taken + content n s.slot

theorem Conserved.empty {n : ℕ} (hn : 0 < n) :
    Conserved n (State.empty : State α) :=
  ⟨hn, by simp [State.empty, content]⟩

theorem Conserved.step {n : ℕ} {s s' : State α} (h : Conserved n s)
    (hstep : Step n s s') : Conserved n s' := by
  obtain ⟨hhead, heq⟩ := h
  cases hstep with
  | deliver x hempty =>
      refine ⟨Nat.mod_lt _ (Nat.zero_lt_of_lt hhead), ?_⟩
      simp only [State.deliver]
      rw [content_put hhead hempty, ← Multiset.coe_add, heq, add_assoc]
      rfl
  | @take i x hi hfull =>
      refine ⟨hhead, ?_⟩
      simp only [State.take]
      rw [← Multiset.coe_add, heq, ← content_take hi hfull, add_assoc,
        add_comm (content n _)]
      rfl

/-- One step of the producer, or of a consumer that takes the items of
consecutive slots. -/
inductive FifoStep (n : ℕ) : State α → State α → Prop
  | deliver {s : State α} (x : α) (hempty : s.slot s.head = none) :
      FifoStep n s (s.deliver n x)
  | take {s : State α} {x : α} (hfull : s.slot (s.taken.length % n) = some x) :
      FifoStep n s (s.take (s.taken.length % n) x)

/-- The slots hold the delivered items that were not taken yet, in cyclic
order. -/
structure Fifo (n : ℕ) (s : State α) : Prop where
  head_eq : s.head = s.delivered.length % n
  bounded : s.delivered.length ≤ s.taken.length + n
  taken_eq : s.taken = s.delivered.take s.taken.length
  slot_eq : ∀ j, s.taken.length ≤ j → j < s.taken.length + n →
    s.slot (j % n) = s.delivered[j]?

theorem Fifo.taken_prefix {n : ℕ} {s : State α} (h : Fifo n s) :
    s.taken <+: s.delivered := by
  rw [h.taken_eq]
  exact List.take_prefix _ _

theorem Fifo.empty (n : ℕ) : Fifo n (State.empty : State α) where
  head_eq := (Nat.zero_mod n).symm
  bounded := Nat.zero_le _
  taken_eq := rfl
  slot_eq _ _ _ := rfl

theorem eq_of_mod_eq_of_window {n c j j' : ℕ} (hj : c ≤ j) (hjn : j < c + n)
    (hj' : c ≤ j') (hjn' : j' < c + n) (hmod : j % n = j' % n) : j = j' :=
  Nat.ModEq.eq_of_abs_lt hmod (abs_lt.2 (by omega))

/-- The producer finds its slot empty only while the ring is not full. -/
theorem Fifo.length_lt_of_empty {n : ℕ} {s : State α} (h : Fifo n s) (hn : 0 < n)
    (hempty : s.slot s.head = none) : s.delivered.length < s.taken.length + n := by
  refine lt_of_le_of_ne h.bounded fun hfull => ?_
  have hslot := h.slot_eq s.taken.length le_rfl (by omega)
  rw [h.head_eq, hfull, Nat.add_mod_right, hslot] at hempty
  exact absurd (List.getElem?_eq_none_iff.1 hempty) (by omega)

/-- Delivering an item keeps the window: it goes to the first position behind
the delivered sequence. -/
theorem Fifo.deliver {n : ℕ} {s : State α} (h : Fifo n s) (hn : 0 < n) (x : α)
    (hempty : s.slot s.head = none) : Fifo n (s.deliver n x) := by
  have hlt := h.length_lt_of_empty hn hempty
  have hle : s.taken.length ≤ s.delivered.length := h.taken_prefix.length_le
  refine ⟨?_, ?_, ?_, ?_⟩ <;> simp only [State.deliver]
  · rw [h.head_eq, List.length_append, List.length_singleton, Nat.mod_add_mod]
  · rw [List.length_append, List.length_singleton]
    exact hlt
  · rw [List.take_append_of_le_length hle]
    exact h.taken_eq
  · intro j hj hjn
    by_cases hlast : j = s.delivered.length
    · subst hlast
      simp only [h.head_eq, Function.update_self, List.getElem?_concat_length]
    · have hne : j % n ≠ s.head := by
        rw [h.head_eq]
        exact fun hmod => hlast (eq_of_mod_eq_of_window hj hjn hle hlt hmod)
      rw [Function.update_of_ne hne, h.slot_eq j hj hjn]
      by_cases hbefore : j < s.delivered.length
      · rw [List.getElem?_append_left hbefore]
      · rw [List.getElem?_eq_none (by omega), List.getElem?_eq_none]
        rw [List.length_append, List.length_singleton]
        omega

/-- Taking the item of the next slot moves the window by one position. -/
theorem Fifo.take {n : ℕ} {s : State α} (h : Fifo n s) (hn : 0 < n) {x : α}
    (hfull : s.slot (s.taken.length % n) = some x) :
    Fifo n (s.take (s.taken.length % n) x) := by
  have hnext : s.delivered[s.taken.length]? = some x := by
    rw [← h.slot_eq s.taken.length le_rfl (by omega), hfull]
  have hlength : (s.taken ++ [x]).length = s.taken.length + 1 := by
    rw [List.length_append, List.length_singleton]
  refine ⟨h.head_eq, ?_, ?_, ?_⟩ <;> simp only [State.take]
  · rw [hlength]
    exact h.bounded.trans (by omega)
  · rw [hlength, List.take_add_one, ← h.taken_eq, hnext]
    rfl
  · intro j hj hjn
    rw [hlength] at hj hjn
    by_cases hwrap : j = s.taken.length + n
    · -- The slot just emptied is the one behind the old window.
      subst hwrap
      rw [Nat.add_mod_right, Function.update_self]
      exact (List.getElem?_eq_none h.bounded).symm
    · have hne : j % n ≠ s.taken.length % n := fun hmod =>
        absurd (eq_of_mod_eq_of_window (by omega) (by omega) le_rfl (by omega) hmod)
          (by omega)
      rw [Function.update_of_ne hne]
      exact h.slot_eq j (by omega) (by omega)

theorem Fifo.step {n : ℕ} {s s' : State α} (h : Fifo n s) (hn : 0 < n)
    (hstep : FifoStep n s s') : Fifo n s' := by
  cases hstep with
  | deliver x hempty => exact h.deliver hn x hempty
  | take hfull => exact h.take hn hfull

end SlotRing
