import Mathlib.Data.List.Basic

/-!
# The last word on something

Each entry of a list says something, or nothing, and the last one that says something
counts. A list that is read to the end leaves what was there before only where no entry
says anything.
-/

namespace Last

variable {α β : Type*} (f : α → Option β)

def lastOf (options : List α) : Option β := (options.filterMap f).getLast?

@[simp] theorem lastOf_nil : lastOf f [] = none := rfl

theorem lastOf_cons (o : α) (options : List α) :
    lastOf f (o :: options) = (lastOf f options).or (f o) := by
  unfold lastOf
  cases h : f o with
  | none => rw [List.filterMap_cons_none h, Option.or_none]
  | some v =>
      rw [List.filterMap_cons_some h, List.getLast?_cons]
      cases (options.filterMap f).getLast? <;> rfl

theorem lastOf_concat (options : List α) (o : α) :
    lastOf f (options ++ [o]) = (f o).or (lastOf f options) := by
  induction options with
  | nil =>
      rw [List.nil_append, lastOf_cons, lastOf_nil, Option.none_or, Option.or_none]
  | cons o' options ih =>
      rw [List.cons_append, lastOf_cons, ih, lastOf_cons, Option.or_assoc]

variable {f} in
theorem exists_of_lastOf {options : List α} {b : β} (h : lastOf f options = some b) :
    ∃ o ∈ options, f o = some b :=
  List.mem_filterMap.1 (List.mem_of_getLast? h)

variable {f} in
theorem lastOf_eq_none {options : List α} (h : ∀ o ∈ options, f o = none) :
    lastOf f options = none := by
  rw [lastOf, List.filterMap_eq_nil_iff.2 h, List.getLast?_nil]

theorem lastOf_map {γ : Type*} (g : β → γ) (options : List α) :
    lastOf (fun o => (f o).map g) options = (lastOf f options).map g := by
  induction options with
  | nil => rfl
  | cons o options ih =>
      rw [lastOf_cons, lastOf_cons, ih]
      cases lastOf f options <;> rfl

theorem lastOf_comp {γ : Type*} (g : γ → α) (options : List γ) :
    lastOf f (options.map g) = lastOf (fun o => f (g o)) options := by
  rw [lastOf, List.filterMap_map]
  rfl

variable {f} in
theorem lastOf_congr {g : α → Option β} {options : List α} (h : ∀ o ∈ options, f o = g o) :
    lastOf f options = lastOf g options := by
  rw [lastOf, List.filterMap_congr h, lastOf]

theorem foldl_getD (b : β) (options : List α) :
    options.foldl (fun b o => (f o).getD b) b = (lastOf f options).getD b := by
  induction options generalizing b with
  | nil => rfl
  | cons o options ih =>
      rw [List.foldl_cons, ih, lastOf_cons]
      cases lastOf f options <;> rfl

end Last
