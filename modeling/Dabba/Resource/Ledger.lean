import Mathlib.Data.Set.Insert
import Mathlib.Data.List.Nodup
import Mathlib.Data.List.Perm.Basic

/-!
# A ledger of resources

Owners acquire resources and give them back when they are released, all of them
or only some. The ledger keeps the open resources, those of each owner that is
still there, and those that a released owner did not give back. Nothing belongs
to two owners, so the open resources are those of the owners exactly as long as
nothing was lost.
-/

namespace Resource

variable {α : Type*}

/-- The open resources, those each owner holds, and the lost ones. -/
structure Ledger (α : Type*) where
  opened : Set α
  held : List (List α)
  lost : List α

def Ledger.entries (l : Ledger α) : List α := l.held.flatten ++ l.lost

/-- Beyond the resources `base` from before, exactly those accounted for are open,
each of them once. -/
structure Ledger.Valid (base : Set α) (l : Ledger α) : Prop where
  opened_eq : l.opened = base ∪ {x | x ∈ l.entries}
  nodup : l.entries.Nodup
  outside : ∀ x ∈ l.entries, x ∉ base

namespace Ledger.Valid

variable {base opened : Set α} {held : List (List α)} {lost : List α} {e : List α}

theorem empty (base : Set α) : (⟨base, [], []⟩ : Ledger α).Valid base := by
  refine ⟨?_, List.nodup_nil, fun x hx => by simp [entries] at hx⟩
  simp [entries]

theorem of_perm {l l' : Ledger α} (h : l.Valid base) (hopened : l'.opened = l.opened)
    (hperm : l'.entries.Perm l.entries) : l'.Valid base where
  opened_eq := by
    rw [hopened, h.opened_eq]
    simp only [hperm.mem_iff]
  nodup := hperm.nodup_iff.2 h.nodup
  outside x hx := h.outside x (hperm.mem_iff.1 hx)

/-- A new owner acquires resources that were not open. -/
theorem acquire (h : (⟨opened, held, lost⟩ : Ledger α).Valid base) (hnodup : e.Nodup)
    (hfresh : ∀ x ∈ e, x ∉ opened) :
    (⟨{x | x ∈ e} ∪ opened, e :: held, lost⟩ : Ledger α).Valid base := by
  have hentries : (⟨{x | x ∈ e} ∪ opened, e :: held, lost⟩ : Ledger α).entries =
      e ++ (⟨opened, held, lost⟩ : Ledger α).entries := by
    simp [entries]
  have hopened : ∀ x, x ∈ opened ↔ x ∈ base ∨ x ∈ held.flatten ++ lost :=
    fun x => Set.ext_iff.1 h.opened_eq x
  constructor
  · ext x
    rw [hentries]
    simp only [Set.mem_union, Set.mem_ofPred_eq, hopened, List.mem_append, entries]
    tauto
  · rw [hentries]
    refine List.nodup_append.2 ⟨hnodup, h.nodup, fun x hx y hy => ?_⟩
    rintro rfl
    exact hfresh x hx ((hopened x).2 (.inr hy))
  · rw [hentries]
    intro x hx hbase
    rcases List.mem_append.1 hx with hx | hx
    · exact hfresh x hx ((hopened x).2 (.inl hbase))
    · exact h.outside x hx hbase

/-- A released owner gives some resources back, and the others are lost. -/
theorem release {kept freed : List α}
    (h : (⟨opened, (kept ++ freed) :: held, lost⟩ : Ledger α).Valid base) :
    (⟨opened \ {x | x ∈ freed}, held, kept ++ lost⟩ : Ledger α).Valid base := by
  have hopened : ∀ x, x ∈ opened ↔
      x ∈ base ∨ x ∈ ((kept ++ freed) :: held).flatten ++ lost :=
    fun x => Set.ext_iff.1 h.opened_eq x
  have hperm : (⟨opened, (kept ++ freed) :: held, lost⟩ : Ledger α).entries.Perm
      (freed ++ (held.flatten ++ (kept ++ lost))) := by
    simp only [entries, List.flatten_cons, List.append_assoc]
    refine (List.perm_append_comm_assoc kept freed _).trans (List.Perm.append_left freed ?_)
    exact List.perm_append_comm_assoc kept held.flatten lost
  obtain ⟨-, hnodup, hdisjoint⟩ := List.nodup_append.1 (hperm.nodup_iff.1 h.nodup)
  constructor
  · ext x
    have hmem : x ∈ ((kept ++ freed) :: held).flatten ++ lost ↔
        x ∈ freed ∨ x ∈ held.flatten ++ (kept ++ lost) :=
      hperm.mem_iff.trans List.mem_append
    have hbase : x ∈ freed → x ∉ base := fun hx =>
      h.outside x (hmem.2 (.inl hx))
    have hfreed : x ∈ freed → x ∉ held.flatten ++ (kept ++ lost) := fun hx hx' =>
      hdisjoint x hx x hx' rfl
    simp only [Set.mem_sdiff, Set.mem_union, Set.mem_ofPred_eq, hopened, hmem, entries]
    tauto
  · exact hnodup
  · exact fun x hx => h.outside x (hperm.mem_iff.2 (List.mem_append_right freed hx))

/-- The owners account for everything that was opened exactly as long as nothing was
lost. -/
theorem opened_diff_eq_iff {l : Ledger α} (h : l.Valid base) :
    l.opened \ base = {x | x ∈ l.held.flatten} ↔ l.lost = [] := by
  have hdiff : l.opened \ base = {x | x ∈ l.entries} := by
    ext x
    rw [h.opened_eq]
    have hout := h.outside x
    simp only [Set.mem_sdiff, Set.mem_union, Set.mem_ofPred_eq]
    tauto
  rw [hdiff]
  constructor
  · intro heq
    refine List.eq_nil_iff_forall_not_mem.2 fun x hx => ?_
    have hheld : x ∈ l.held.flatten := by
      have hentry : x ∈ {x | x ∈ l.entries} := List.mem_append_right _ hx
      rwa [heq] at hentry
    exact (List.nodup_append.1 h.nodup).2.2 x hheld x hx rfl
  · intro hlost
    rw [entries, hlost, List.append_nil]

end Ledger.Valid

end Resource
