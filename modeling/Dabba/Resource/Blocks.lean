import Dabba.Program.Requests
import Dabba.Resource.Heap

/-!
# Programs over a heap

A program allocates blocks at sites, initialises them, uses them and releases them. It
aborts when it initialises, uses or releases a block that is not there, or uses one that
was never initialised. The outcomes of a run say which sites are served. A rule for each
operation says what it does to the blocks that are owned.
-/

namespace Resource

open Program

def Heap.empty : Heap := ⟨0, fun _ => false, fun _ => false⟩

theorem Heap.owns_empty : Heap.empty.Owns [] where
  live b := by simp [Heap.empty]
  once := List.nodup_nil
  bound b hb := absurd hb Bool.false_ne_true

/-- The operations on the heap. Those that need a block say whether it was there. -/
inductive BlockCall (S : Type) : Type → Type
  | malloc (site : S) : BlockCall S (Option ℕ)
  | realloc (site : S) (p : Option ℕ) : BlockCall S (Option ℕ)
  | free (p : Option ℕ) : BlockCall S Bool
  | init (p : Option ℕ) : BlockCall S Bool
  | read (p : Option ℕ) : BlockCall S Bool

variable {S : Type}

def BlockCall.handle : Handler (BlockCall S) (S → Bool) Heap
  | _, .malloc site, o, h => h.malloc (o site)
  | _, .realloc site p, o, h => h.realloc (o site) p
  | _, .free p, _, h => h.free p
  | _, .init p, _, h => h.init p
  | _, .read p, _, h => (h.readable p, h)

namespace Blocks

def free (p : Option ℕ) : Prog (BlockCall S) Unit := do
  let ok ← Prog.perform (BlockCall.free p)
  Prog.assert (ok = true)

def init (p : Option ℕ) : Prog (BlockCall S) Unit := do
  let ok ← Prog.perform (BlockCall.init p)
  Prog.assert (ok = true)

def read (p : Option ℕ) : Prog (BlockCall S) Unit := do
  let ok ← Prog.perform (BlockCall.read p)
  Prog.assert (ok = true)

def calloc (site : S) : Prog (BlockCall S) (Option ℕ) := do
  let p ← Prog.perform (BlockCall.malloc site)
  if p = none then
    return none
  else
    init p
    return p

def each (act : Option ℕ → Prog (BlockCall S) Unit) :
    List (Option ℕ) → Prog (BlockCall S) Unit
  | [] => pure ()
  | p :: ps => do
      act p
      each act ps

def allocate (alloc : S → Prog (BlockCall S) (Option ℕ)) :
    List S → Prog (BlockCall S) (List (Option ℕ))
  | [] => pure []
  | site :: sites => do
      let p ← alloc site
      let ps ← allocate alloc sites
      return p :: ps

def sem (o : S → Bool) : Sem (BlockCall S) Heap := BlockCall.handle.const o

variable {o : S → Bool} {h : Heap} {p : Option ℕ} {ps qs : List (Option ℕ)}

theorem wp_call {α β : Type} {op : BlockCall S β} {k : β → Prog (BlockCall S) α}
    {Q : α → Heap → Prop} :
    (Prog.call op k).wp (sem o) Q h ↔
      (k (BlockCall.handle op o h).1).wp (sem o) Q (BlockCall.handle op o h).2 :=
  Prog.wp_call_const

theorem exists_bind {α : Type} {p : Prog (BlockCall S) α} {P : α → Heap → Prop}
    (hp : p.wp (sem o) P h) :
    ∃ a h', P a h' ∧ ∀ {β : Type} (f : α → Prog (BlockCall S) β) (Q : β → Heap → Prop),
      (p.bind f).wp (sem o) Q h ↔ (f a).wp (sem o) Q h' :=
  Prog.exists_bind_const hp

theorem all_isSome_eq_false_iff : ps.all Option.isSome = false ↔ none ∈ ps := by
  simp [List.all_eq_false]

theorem owns_nothing : h.Owns (none :: qs) ↔ h.Owns qs :=
  ⟨fun howns => howns.free.2, fun howns => howns.malloc false⟩

/-- What an operation leaves: these blocks, and each of them as it was. -/
structure Leaves (qs : List (Option ℕ)) (h h' : Heap) : Prop where
  owns : h'.Owns qs
  keeps : ∀ q ∈ qs, h'.readable q = h.readable q

namespace Leaves

variable {h' h'' : Heap}

theorem refl (howns : h.Owns qs) : Leaves qs h h := ⟨howns, fun _ _ => rfl⟩

theorem trans (hleaves : Leaves ps h h') (hleaves' : Leaves qs h' h'') (hsub : qs ⊆ ps) :
    Leaves qs h h'' :=
  ⟨hleaves'.owns, fun q hq => (hleaves'.keeps q hq).trans (hleaves.keeps q (hsub hq))⟩

theorem perm (hleaves : Leaves ps h h') (hperm : ps.Perm qs) : Leaves qs h h' :=
  ⟨hleaves.owns.perm hperm, fun q hq => hleaves.keeps q (hperm.mem_iff.2 hq)⟩

end Leaves

section Rules

theorem readable_update_of_ne {live ready : ℕ → Bool} {next b : ℕ} {v : Bool}
    (hne : p ≠ some b) :
    Heap.readable ⟨next, Function.update live b v, ready⟩ p =
      Heap.readable ⟨next, live, ready⟩ p := by
  cases p with
  | none => rfl
  | some c =>
      have hcb : c ≠ b := fun heq => hne (congrArg some heq)
      simp only [Heap.readable, Function.update_of_ne hcb]

theorem leaves_free (howns : h.Owns (p :: qs)) : Leaves qs h (h.free p).2 := by
  refine ⟨howns.free.2, fun q hq => ?_⟩
  cases p with
  | none => rfl
  | some b => exact readable_update_of_ne fun heq => howns.not_mem (heq ▸ hq)

theorem keeps_malloc (howns : h.Owns qs) (ok : Bool) :
    ∀ q ∈ qs, (h.malloc ok).2.readable q = h.readable q := by
  intro q hq
  cases ok with
  | false => rfl
  | true =>
      cases q with
      | none => rfl
      | some c =>
          have hc : c ≠ h.next := Nat.ne_of_lt (howns.bound c ((howns.live c).2 hq))
          simp only [Heap.malloc, Heap.readable, if_true, Function.update_of_ne hc]

theorem wp_free (howns : h.Owns (p :: qs)) :
    (free p).wp (sem o) (fun _ h' => Leaves qs h h') h :=
  wp_call.2 ((Prog.wp_assert _ _ _ _).2 ⟨howns.free.1, leaves_free howns⟩)

variable (o) in
theorem wp_realloc (site : S) (howns : h.Owns (p :: qs)) :
    (Prog.perform (BlockCall.realloc site p)).wp (sem o) (fun r h' =>
      (o site = false ∧ r = none ∧ h' = h) ∨
      (o site = true ∧ r ≠ none ∧ h'.Owns (r :: qs) ∧
        ∀ q ∈ qs, h'.readable q = h.readable q)) h := by
  refine wp_call.2 ?_
  cases hok : o site with
  | false =>
      refine .inl ⟨rfl, ?_, ?_⟩ <;> simp only [BlockCall.handle, Heap.realloc, hok] <;> rfl
  | true =>
      have hmoved := howns.realloc true
      have hfree := leaves_free ((howns.malloc true).perm (.swap p _ qs))
      refine .inr ⟨rfl, ?_, ?_, fun q hq => ?_⟩
      · simp [BlockCall.handle, Heap.realloc, Heap.malloc, hok]
      · simpa only [BlockCall.handle, hok, if_true] using hmoved
      · simp only [BlockCall.handle, hok, Heap.realloc, if_true]
        rw [hfree.keeps q (List.mem_cons_of_mem _ hq),
          keeps_malloc howns true q (List.mem_cons_of_mem _ hq)]

theorem wp_each_free (howns : h.Owns (ps ++ qs)) :
    (each free ps).wp (sem o) (fun _ h' => Leaves qs h h') h := by
  induction ps generalizing h with
  | nil => exact .refl howns
  | cons p ps ih =>
      refine Prog.wp_bind_of _ (wp_free howns) fun _ h' hfree => ?_
      exact Prog.wp_mono _ (ih hfree.owns) fun _ _ hrest =>
        hfree.trans hrest (List.subset_append_right ps qs)

/-- What an initialisation does: these blocks can be used, and the others are as they
were. -/
structure Initialised (ps qs : List (Option ℕ)) (h h' : Heap) : Prop where
  owns : h'.Owns (ps ++ qs)
  keeps : ∀ q ∈ qs, h'.readable q = h.readable q
  ready : ∀ p ∈ ps, h'.readable p = true

theorem wp_init (howns : h.Owns (p :: qs)) (hne : p ≠ none) :
    (init p).wp (sem o) (fun _ h' => Initialised [p] qs h h') h := by
  obtain ⟨hlive, howns', hready⟩ := howns.init List.mem_cons_self hne
  obtain ⟨b, rfl⟩ := Option.ne_none_iff_exists'.1 hne
  refine wp_call.2 ((Prog.wp_assert _ _ _ _).2
    ⟨hlive, howns', fun q hq => ?_, fun q hq => ?_⟩)
  · cases q with
    | none => rfl
    | some c =>
        have hcb : c ≠ b := by
          rintro rfl
          exact howns.not_mem hq
        simp only [BlockCall.handle, Heap.init, Heap.readable, Function.update_of_ne hcb]
  · obtain rfl := List.mem_singleton.1 hq
    exact hready

theorem wp_each_init (howns : h.Owns (ps ++ qs)) (hne : none ∉ ps) :
    (each init ps).wp (sem o) (fun _ h' => Initialised ps qs h h') h := by
  induction ps generalizing h qs with
  | nil => exact ⟨howns, fun _ _ => rfl, fun _ hp => absurd hp List.not_mem_nil⟩
  | cons p ps ih =>
      rw [List.mem_cons, not_or] at hne
      have hcons : h.Owns (p :: (ps ++ qs)) := howns
      refine Prog.wp_bind_of _ (wp_init hcons fun h => hne.1 h.symm) ?_
      rintro _ h' hfirst
      have hone : h'.Owns (p :: (ps ++ qs)) := hfirst.owns
      have howns' : h'.Owns (ps ++ p :: qs) := hone.perm List.perm_middle.symm
      refine Prog.wp_mono _ (ih howns' hne.2) ?_
      rintro _ h'' hrest
      refine ⟨hrest.owns.perm List.perm_middle, fun q hq => ?_,
        List.forall_mem_cons.2 ⟨?_, hrest.ready⟩⟩
      · rw [hrest.keeps q (List.mem_cons_of_mem p hq),
          hfirst.keeps q (List.mem_append_right ps hq)]
      · rw [hrest.keeps p List.mem_cons_self]
        exact hfirst.ready p List.mem_cons_self

theorem wp_read_iff {Q : Unit → Heap → Prop} :
    (read p).wp (sem o) Q h ↔ h.readable p = true ∧ Q () h :=
  wp_call.trans (Prog.wp_assert _ _ _ _)

theorem wp_each_read (hready : ∀ p ∈ ps, h.readable p = true) :
    (each read ps).wp (sem o) (fun _ h' => h' = h) h := by
  induction ps with
  | nil => rfl
  | cons p ps ih =>
      obtain ⟨hp, hps⟩ := List.forall_mem_cons.1 hready
      exact (Prog.wp_bind _ _ _ _ _).2 (wp_read_iff.2 ⟨hp, ih hps⟩)

/-- What a series of allocations gives: a block for each site that is served. All of them
are clear, or none of them can be read yet. -/
structure Given (o : S → Bool) (clear : Prop) (sites : List S) (qs : List (Option ℕ))
    (h : Heap) (ps : List (Option ℕ)) (h' : Heap) : Prop where
  owns : h'.Owns (ps ++ qs)
  keeps : ∀ q ∈ qs, h'.readable q = h.readable q
  length : ps.length = sites.length
  served : none ∉ ps ↔ ∀ site ∈ sites, o site = true
  readable : ∀ p ∈ ps, p ≠ none → (h'.readable p = true ↔ clear)

def Allocates (o : S → Bool) (clear : Prop)
    (alloc : S → Prog (BlockCall S) (Option ℕ)) : Prop :=
  ∀ site qs h, Heap.Owns h qs →
    (alloc site).wp (sem o) (fun p h' => Given o clear [site] qs h [p] h') h

theorem allocates_malloc : Allocates o False fun site => Prog.perform (.malloc site) := by
  intro site qs h howns
  refine wp_call.2 ⟨howns.malloc _, keeps_malloc howns _, rfl, ?_, fun p hp hne => ?_⟩
  · cases hok : o site <;> simp [BlockCall.handle, Heap.malloc, hok]
  · obtain rfl := List.mem_singleton.1 hp
    cases hok : o site with
    | false => simp [BlockCall.handle, Heap.malloc, hok] at hne
    | true => simp [BlockCall.handle, Heap.malloc, hok, Heap.readable]

theorem allocates_calloc : Allocates o True calloc := by
  intro site qs h howns
  refine Prog.wp_bind_of _ (allocates_malloc (o := o) site qs h howns) ?_
  rintro p h' hgiven
  by_cases hp : p = none
  · subst hp
    rw [if_pos rfl]
    exact ⟨hgiven.owns, hgiven.keeps, rfl, hgiven.served,
      fun q hq hne => absurd (List.mem_singleton.1 hq) hne⟩
  · rw [if_neg hp]
    refine Prog.wp_bind_of _ (wp_init hgiven.owns hp) ?_
    rintro _ h'' hinit
    refine ⟨hinit.owns, fun q hq => ?_, rfl, hgiven.served, fun q hq _ => ?_⟩
    · rw [hinit.keeps q hq, hgiven.keeps q hq]
    · exact iff_of_true (hinit.ready q hq) trivial

/-- A series of allocations gives the blocks of all its sites. -/
theorem wp_allocate {clear : Prop} {alloc : S → Prog (BlockCall S) (Option ℕ)}
    (halloc : Allocates o clear alloc) (howns : h.Owns qs) (sites : List S) :
    (allocate alloc sites).wp (sem o) (Given o clear sites qs h) h := by
  induction sites generalizing h qs with
  | nil =>
      exact ⟨howns, fun _ _ => rfl, rfl, by simp, fun _ hp => absurd hp List.not_mem_nil⟩
  | cons site sites ih =>
      refine Prog.wp_bind_of _ (halloc site qs h howns) ?_
      rintro p h' hfirst
      refine Prog.wp_bind_of _ (ih hfirst.owns) ?_
      rintro ps h'' hrest
      refine ⟨hrest.owns.perm List.perm_middle, fun q hq => ?_,
        congrArg Nat.succ hrest.length, ?_, List.forall_mem_cons.2 ⟨fun hne => ?_, ?_⟩⟩
      · rw [hrest.keeps q (List.mem_cons_of_mem p hq), hfirst.keeps q hq]
      · rw [List.forall_mem_cons, ← hrest.served, List.mem_cons, not_or]
        refine and_congr_left' ?_
        simpa using hfirst.served
      · rw [hrest.keeps p List.mem_cons_self]
        exact hfirst.readable p List.mem_cons_self hne
      · exact hrest.readable

end Rules

end Blocks

end Resource
