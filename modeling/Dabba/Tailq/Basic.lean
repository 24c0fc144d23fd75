import Mathlib.Data.List.Basic
import Mathlib.Data.List.Nodup
import Mathlib.Data.Nat.Notation

/-!
# Tail queues with a counter

An intrusive list whose owner keeps its length in a separate counter. Nodes are
appended at the tail and removed by their identity; nothing but the discipline
of the owner keeps the counter right.
-/

namespace Tailq

variable {α β : Type*}

/-- A tail queue and its counter. -/
structure Queue (α : Type*) where
  nodes : List α
  length : ℕ

def Queue.empty : Queue α := ⟨[], 0⟩

def Queue.insertTail (q : Queue α) (x : α) : Queue α where
  nodes := q.nodes ++ [x]
  length := q.length + 1

def Queue.remove (q : Queue α) (p : α → Bool) : Queue α where
  nodes := q.nodes.eraseP p
  length := q.length - 1

/-- The counter is the number of nodes. -/
def Queue.Counted (q : Queue α) : Prop := q.length = q.nodes.length

/-- The second list is the first one without the node `x`, all other nodes in
their order. -/
def Unlinked (l : List α) (x : α) (l' : List α) : Prop :=
  ∃ pre post, l = pre ++ x :: post ∧ l' = pre ++ post

namespace Queue

variable {q : Queue α} {p : α → Bool} {x : α}

theorem Counted.insertTail (h : q.Counted) (x : α) : (q.insertTail x).Counted := by
  rw [Counted] at h ⊢
  rw [Queue.insertTail, List.length_append, List.length_singleton, h]

theorem Counted.remove (h : q.Counted) (hx : x ∈ q.nodes) (hp : p x = true) :
    (q.remove p).Counted := by
  rw [Counted] at h ⊢
  rw [Queue.remove, List.length_eraseP_of_mem hx hp, h]

/-- Where the keys are distinct, removing the node with a key keeps exactly the
nodes with other keys. -/
theorem eraseP_key_eq_filter [DecidableEq β] (key : α → β) (k : β) {l : List α}
    (h : (l.map key).Nodup) :
    (l.eraseP fun x => key x == k) = l.filter fun x => key x ≠ k := by
  induction l with
  | nil => rfl
  | cons a l ih =>
      rw [List.map_cons, List.nodup_cons] at h
      obtain ⟨hnotin, hnodup⟩ := h
      by_cases ha : key a = k
      · have hrest : ∀ x ∈ l, decide (key x ≠ k) = true := by
          intro x hx
          refine decide_eq_true fun hxk => hnotin ?_
          rw [ha, ← hxk]
          exact List.mem_map_of_mem hx
        rw [List.eraseP_cons_of_pos (by simpa using ha),
          List.filter_cons_of_neg (by simpa using ha), List.filter_eq_self.2 hrest]
      · rw [List.eraseP_cons_of_neg (by simpa using ha),
          List.filter_cons_of_pos (by simpa using ha), ih hnodup]

/-- Where the keys are distinct, removing by the key of a node unlinks that
node. -/
theorem unlinked_eraseP_key [DecidableEq β] (key : α → β) {l : List α} {x : α}
    (h : (l.map key).Nodup) (hx : x ∈ l) :
    Unlinked l x (l.eraseP fun y => key y == key x) := by
  obtain ⟨y, pre, post, -, hkey, hl, herase⟩ :=
    List.exists_of_eraseP (p := fun y => key y == key x) hx (beq_self_eq_true _)
  have hy : y ∈ l := by
    rw [hl]
    exact List.mem_append_right _ List.mem_cons_self
  have hyx : y = x := List.inj_on_of_nodup_map h hy hx (beq_iff_eq.1 hkey)
  rw [hyx] at hl
  exact ⟨pre, post, hl, herase⟩

end Queue

end Tailq
