import Dabba.Last.Basic
import Mathlib.Data.Nat.Notation
import Mathlib.Logic.Basic
import Mathlib.Order.Basic

/-!
# Edits of the bits of a word

An edit gives some bits of a word the values it has for them, leaves the others, and notes
whether it had any. It is known by its values: edits with the same values are equal, an
edit made twice is made once, and edits that have no bit in common commute. In a sequence
of edits the last value for each bit counts.
-/

namespace BitEdit

open Last

variable {w : ℕ} {p q : ℕ → Option Bool} {f g : BitVec w × Bool → BitVec w × Bool}

/-- The function edits a word with the values `p`, and notes if there are any. -/
structure Edits (w : ℕ) (p : ℕ → Option Bool) (f : BitVec w × Bool → BitVec w × Bool) :
    Prop where
  bit : ∀ s, ∀ i < w, (f s).1.getLsbD i = (p i).getD (s.1.getLsbD i)
  noted : ∀ s, (f s).2 = true ↔ s.2 = true ∨ ∃ i < w, (p i).isSome

/-- No bit has a value in both. -/
def Apart (p q : ℕ → Option Bool) : Prop := ∀ i, p i = none ∨ q i = none

theorem Edits.none : Edits w (fun _ => .none) id := ⟨by simp, by simp⟩

theorem Edits.comp (hf : Edits w p f) (hg : Edits w q g) :
    Edits w (fun i => (q i).or (p i)) (g ∘ f) where
  bit s i hi := by
    rw [Function.comp_apply, hg.bit _ i hi, hf.bit _ i hi]
    cases q i <;> rfl
  noted s := by
    rw [Function.comp_apply, hg.noted, hf.noted, or_assoc, ← exists_or]
    refine or_congr_right (exists_congr fun i => ?_)
    rw [← and_or_left, Option.isSome_or, Bool.or_eq_true, or_comm]

theorem Edits.ext (hf : Edits w p f) (hg : Edits w p g) : f = g := by
  funext s
  refine Prod.ext ?_ (Bool.eq_iff_iff.2 ((hf.noted s).trans (hg.noted s).symm))
  exact BitVec.eq_of_getLsbD_eq fun i hi => (hf.bit s i hi).trans (hg.bit s i hi).symm

theorem Edits.congr (hf : Edits w p f) (h : ∀ i, q i = p i) : Edits w q f := by
  obtain rfl : q = p := funext h
  exact hf

theorem Edits.idem (hf : Edits w p f) : f ∘ f = f :=
  ((hf.comp hf).congr fun i => by rw [Option.or_self]).ext hf

theorem Edits.comm (hf : Edits w p f) (hg : Edits w q g) (h : Apart p q) :
    g ∘ f = f ∘ g := by
  refine (hf.comp hg).ext ((hg.comp hf).congr fun i => ?_)
  rcases h i with hp | hq
  · rw [hp, Option.or_none, Option.none_or]
  · rw [hq, Option.or_none, Option.none_or]

theorem Edits.elim {ι : Type*} {p : ι → ℕ → Option Bool}
    {f : ι → BitVec w × Bool → BitVec w × Bool} (hf : ∀ x, Edits w (p x) (f x))
    (o : Option ι) :
    Edits w (fun i => o.bind fun x => p x i) fun s => o.elim s fun x => f x s := by
  cases o with
  | none => exact Edits.none
  | some x => exact hf x

theorem Edits.foldl {ι : Type*} {p : ι → ℕ → Option Bool}
    {f : ι → BitVec w × Bool → BitVec w × Bool} (hf : ∀ x, Edits w (p x) (f x))
    (xs : List ι) :
    Edits w (fun i => lastOf (fun x => p x i) xs) fun s => xs.foldl (fun s x => f x s) s := by
  induction xs with
  | nil => exact Edits.none
  | cons x xs ih => exact ((hf x).comp ih).congr fun i => lastOf_cons _ x xs

section Put

variable {k : ℕ}

def put (word : BitVec w) (k : ℕ) (v : Bool) : BitVec w :=
  if v then word ||| 1#w <<< k else word &&& ~~~(1#w <<< k)

theorem getLsbD_put (hk : k < w) {i : ℕ} (hi : i < w) (word : BitVec w) (v : Bool) :
    (put word k v).getLsbD i = if i = k then v else word.getLsbD i := by
  have hbit : ∀ j, (1#w <<< k).getLsbD j = decide (k = j) := by
    intro j
    have htwoPow := BitVec.getLsbD_twoPow (w := w) k j
    rwa [decide_eq_true hk, Bool.true_and] at htwoPow
  unfold put
  generalize 1#w <<< k = flag at hbit ⊢
  by_cases h : k = i
  · cases v <;> simp [hbit, h]
  · have hflag : flag[i] = false := by
      rw [← BitVec.getLsbD_eq_getElem hi, hbit, decide_eq_false h]
    cases v <;> simp [hflag, Ne.symm h, hi]

theorem Edits.put (hk : k < w) (v : Bool) :
    Edits w (fun i => if i = k then some v else .none)
      fun s => (BitEdit.put s.1 k v, true) where
  bit s i hi := by
    rw [getLsbD_put hk hi]
    split <;> rfl
  noted s := by simp [hk]

theorem and_shiftLeft_ne_zero_iff (hk : k < w) (word : BitVec w) :
    word &&& 1#w <<< k ≠ 0#w ↔ word.getLsbD k = true := by
  have hand : word &&& 1#w <<< k = if word.getLsbD k then BitVec.twoPow w k else 0#w :=
    BitVec.and_twoPow word k
  have hne : BitVec.twoPow w k ≠ 0#w := by
    intro h
    have hbit := congrArg (fun x : BitVec w => x.getLsbD k) h
    simp [hk] at hbit
  rw [hand]
  cases word.getLsbD k <;> simp [hne]

end Put

end BitEdit
