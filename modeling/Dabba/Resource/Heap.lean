import Mathlib.Data.List.ReduceOption
import Mathlib.Data.List.Nodup
import Mathlib.Logic.Function.Basic
import Mathlib.Data.Nat.Notation

/-!
# A heap of blocks

Blocks are named by numbers that are never used again. A block is live from its
allocation to its release, and ready once it was initialised. A pointer is a block or
nothing. `Owns` says of a list of pointers that its blocks are exactly the live ones, each
of them once; every operation on the heap is an operation on such a list.
-/

namespace Resource

structure Heap where
  next : ℕ
  live : ℕ → Bool
  ready : ℕ → Bool

namespace Heap

def malloc (ok : Bool) (h : Heap) : Option ℕ × Heap :=
  if ok then
    (some h.next,
      { next := h.next + 1
        live := Function.update h.live h.next true
        ready := Function.update h.ready h.next false })
  else (none, h)

def free (h : Heap) : Option ℕ → Bool × Heap
  | none => (true, h)
  | some b => (h.live b, { h with live := Function.update h.live b false })

def realloc (ok : Bool) (p : Option ℕ) (h : Heap) : Option ℕ × Heap :=
  if ok then ((h.malloc true).1, (((h.malloc true).2).free p).2) else (none, h)

def init (h : Heap) : Option ℕ → Bool × Heap
  | none => (false, h)
  | some b => (h.live b, { h with ready := Function.update h.ready b true })

def readable (h : Heap) : Option ℕ → Bool
  | none => false
  | some b => h.live b && h.ready b

/-- The live blocks are those of the list, each of them once. -/
structure Owns (h : Heap) (ps : List (Option ℕ)) : Prop where
  live : ∀ b, h.live b = true ↔ some b ∈ ps
  once : ps.reduceOption.Nodup
  bound : ∀ b, h.live b = true → b < h.next

namespace Owns

variable {h : Heap} {ps qs : List (Option ℕ)} {p : Option ℕ}

theorem perm (howns : h.Owns ps) (hperm : ps.Perm qs) : h.Owns qs where
  live b := (howns.live b).trans hperm.mem_iff
  once := (hperm.filterMap id).nodup_iff.1 howns.once
  bound := howns.bound

theorem malloc (howns : h.Owns ps) (ok : Bool) :
    (h.malloc ok).2.Owns ((h.malloc ok).1 :: ps) := by
  rw [Heap.malloc]
  split
  · have hnew : ∀ b, some b ∈ ps → b ≠ h.next :=
      fun b hb => Nat.ne_of_lt (howns.bound b ((howns.live b).2 hb))
    refine ⟨fun b => ?_, ?_, fun b hb => ?_⟩
    · by_cases hb : b = h.next
      · simp [hb]
      · simp [hb, howns.live b]
    · rw [List.reduceOption_cons_of_some]
      refine List.nodup_cons.2 ⟨fun hmem => ?_, howns.once⟩
      exact hnew _ (List.reduceOption_mem_iff.1 hmem) rfl
    · by_cases hbn : b = h.next
      · exact hbn ▸ Nat.lt_succ_self _
      · exact Nat.lt_succ_of_lt (howns.bound b (by simpa [hbn] using hb))
  · refine ⟨fun b => by simp [howns.live b], ?_, howns.bound⟩
    rw [List.reduceOption_cons_of_none]
    exact howns.once

theorem not_mem {b : ℕ} (howns : h.Owns (some b :: ps)) : some b ∉ ps := by
  have honce := howns.once
  rw [List.reduceOption_cons_of_some, List.nodup_cons, List.reduceOption_mem_iff] at honce
  exact honce.1

theorem free (howns : h.Owns (p :: ps)) :
    (h.free p).1 = true ∧ (h.free p).2.Owns ps := by
  cases p with
  | none =>
      refine ⟨rfl, fun b => by simp [Heap.free, howns.live b], ?_, howns.bound⟩
      have honce := howns.once
      rwa [List.reduceOption_cons_of_none] at honce
  | some b =>
      refine ⟨(howns.live b).2 List.mem_cons_self, fun c => ?_, ?_, fun c hc => ?_⟩
      · by_cases hcb : c = b
        · subst hcb
          simp [Heap.free, howns.not_mem]
        · simp [Heap.free, hcb, howns.live c]
      · have honce := howns.once
        rw [List.reduceOption_cons_of_some] at honce
        exact (List.nodup_cons.1 honce).2
      · by_cases hcb : c = b
        · simp [Heap.free, hcb] at hc
        · exact howns.bound c (by simpa [Heap.free, hcb] using hc)

theorem realloc (howns : h.Owns (p :: ps)) (ok : Bool) :
    (h.realloc ok p).2.Owns
      ((if ok then (h.realloc ok p).1 else p) :: ps) := by
  cases ok with
  | false => exact howns
  | true =>
      have hnew := (howns.malloc true).perm (List.Perm.swap p _ ps)
      exact hnew.free.2

theorem init (howns : h.Owns ps) (hp : p ∈ ps) (hne : p ≠ none) :
    (h.init p).1 = true ∧ (h.init p).2.Owns ps ∧ (h.init p).2.readable p = true := by
  obtain ⟨b, rfl⟩ := Option.ne_none_iff_exists'.1 hne
  have hlive : h.live b = true := (howns.live b).2 hp
  refine ⟨hlive, ⟨howns.live, howns.once, howns.bound⟩, ?_⟩
  simp only [Heap.init, Heap.readable, hlive, Function.update_self, Bool.and_self]

theorem not_readable (howns : h.Owns ps) (hp : p ∉ ps) : h.readable p = false := by
  cases p with
  | none => rfl
  | some b =>
      have hlive : h.live b = false := by
        rw [← Bool.not_eq_true, howns.live]
        exact hp
      rw [Heap.readable, hlive, Bool.false_and]

end Owns

end Heap

end Resource
