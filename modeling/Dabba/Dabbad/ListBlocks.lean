import Dabba.Dabbad.World
import Dabba.Resource.Blocks

/-!
# The blocks of a list of tasks

The handlers that list captures, replays and threads build their reply in the same way.
An array of pointers is allocated, then for each node an entry, the messages the entry
points to and its texts. The messages are initialised once all fields of the entry are
there. After the first failure nothing more is allocated and nothing is listed, and at the
end the array is walked through and everything in it is released.

Only a capture lists a filter. What is done with the filter of an entry is a parameter
here: how it is filled in, and how it is cleared before its message is released.
-/

namespace Dabbad.Listing

open Program Resource

/-- The places at which the blocks of a list are allocated. -/
inductive Site
  | list
  | entry (a : ℕ)
  | message (a i : ℕ)
  | text (a i : ℕ)
  | filter (a : ℕ)
  | instruction (a i : ℕ)

/-- What a filter message points to: an array, and the instructions in it. -/
structure PbufSfp where
  filter : Option ℕ
  instructions : List (Option ℕ)

def PbufSfp.init : PbufSfp := ⟨none, []⟩

def PbufSfp.blocks (sfp : PbufSfp) : List (Option ℕ) := sfp.instructions ++ [sfp.filter]

/-- An entry: its block, its messages, its texts, and what its filter message points to. -/
structure Entry where
  block : ℕ
  messages : List (Option ℕ)
  texts : List (Option ℕ)
  sfp : PbufSfp

/-- The blocks of an entry that do not belong to a filter. -/
def Entry.fixed (e : Entry) : List (Option ℕ) := some e.block :: (e.messages ++ e.texts)

def Entry.blocks (e : Entry) : List (Option ℕ) := e.sfp.blocks ++ e.fixed

def blocksOf : List (Option Entry) → List (Option ℕ)
  | [] => []
  | none :: es => blocksOf es
  | some e :: es => e.blocks ++ blocksOf es

abbrev Code : Type → Type _ := Prog (BlockCall Site)

section Handlers

variable {α : Type}

/-- Allocates the entry `a` and its fields, and says whether they are all there. -/
def allocEntry (messages texts a : ℕ) : Code (Bool × Option Entry) := do
  let p ← Prog.perform (.malloc (.entry a))
  match p with
  | none => return (false, none)
  | some block =>
      Blocks.init (some block)
      let ms ← Blocks.allocate (fun site => Prog.perform (.malloc site))
        ((List.range messages).map (.message a))
      let ts ← Blocks.allocate Blocks.calloc ((List.range texts).map (.text a))
      if (ms ++ ts).all Option.isSome = false then
        return (false, some ⟨block, ms, ts, .init⟩)
      else
        Blocks.each Blocks.init ms
        return (true, some ⟨block, ms, ts, .init⟩)

/-- Allocates `n` entries from `a` on, up to the first that fails. The pointers behind it
stay clear. -/
def allocEntries (messages texts : ℕ) : ℕ → ℕ → Code (Bool × List (Option Entry))
  | _, 0 => pure (true, [])
  | a, n + 1 => do
      let (ok, e) ← allocEntry messages texts a
      if ok = false then
        return (false, e :: List.replicate n none)
      else
        let (ok, es) ← allocEntries messages texts (a + 1) n
        return (ok, e :: es)

def useEntry (array : Option ℕ) (e : Entry) : Code Unit := do
  Blocks.read array
  Blocks.each Blocks.read e.fixed

/-- Fills one entry for each node, from the entry `a` on. -/
def fillEntries (fill : ℕ → α → Entry → Code PbufSfp) (array : Option ℕ) :
    List α → ℕ → List (Option Entry) → Code (List (Option Entry))
  | [], _, es => pure es
  | node :: nodes, a, some e :: es => do
      useEntry array e
      let sfp ← fill a node e
      let es ← fillEntries fill array nodes (a + 1) es
      return some { e with sfp := sfp } :: es
  | _ :: _, _, _ => .abort

def useSfp (sfp : PbufSfp) : Code Unit :=
  if sfp.instructions = [] then pure () else Blocks.each Blocks.read sfp.blocks

def closure (array : Option ℕ) : List (Option Entry) → Code Unit
  | [] => pure ()
  | none :: _ => .abort
  | some e :: es => do
      useEntry array e
      useSfp e.sfp
      closure array es

def freeEntry (clear : Entry → Code Unit) (e : Entry) : Code Unit := do
  Blocks.read (some e.block)
  clear e
  Blocks.each Blocks.free e.messages
  Blocks.each Blocks.free e.texts
  Blocks.free (some e.block)

/-- Releases the entries the array points to. -/
def freeEntries (clear : Entry → Code Unit) (array : Option ℕ) :
    List (Option Entry) → Code Unit
  | [] => pure ()
  | none :: es => do
      Blocks.read array
      freeEntries clear array es
  | some e :: es => do
      Blocks.read array
      freeEntry clear e
      freeEntries clear array es

def freeList (clear : Entry → Code Unit) (array : Option ℕ) (es : List (Option Entry)) :
    Code Unit := do
  freeEntries clear array es
  Blocks.free array

/-- With the array there, the nodes are listed and the list is handed to the closure,
or nothing is. In both cases the list is released. -/
def listNodes (messages texts : ℕ) (fill : ℕ → α → Entry → Code PbufSfp)
    (clear : Entry → Code Unit) (array : Option ℕ) (queue : Tailq.Queue α) :
    Code Bool := do
  let (ok, es) ← allocEntries messages texts 0 queue.length
  if ok = false then
    freeList clear array es
    return false
  else
    let es ← fillEntries fill array queue.nodes 0 es
    closure array es
    freeList clear array es
    return true

/-- A get handler, which says whether it hands a list to the closure. -/
def getList (messages texts : ℕ) (fill : ℕ → α → Entry → Code PbufSfp)
    (clear : Entry → Code Unit) (queue : Tailq.Queue α) : Code Bool := do
  if queue.length = 0 then
    freeList clear none []
    return false
  else
    let array ← Blocks.calloc .list
    if array = none then
      freeList clear none []
      return false
    else
      listNodes messages texts fill clear array queue

end Handlers

section Outcomes

variable (o : Site → Bool) (messages texts : ℕ)

def FieldsServed (a : ℕ) : Prop :=
  (∀ i < messages, o (.message a i) = true) ∧ ∀ i < texts, o (.text a i) = true

/-- The entry `a` and all its fields are served. -/
def EntryServed (a : ℕ) : Prop := o (.entry a) = true ∧ FieldsServed o messages texts a

/-- The entry `a` is served, but not all its fields. -/
def Interrupted (a : ℕ) : Prop := o (.entry a) = true ∧ ¬ FieldsServed o messages texts a

/-- The entry with the first failure among `n` entries from `a` on is served itself. -/
def StopsInside (a n : ℕ) : Prop :=
  ∃ b < n, (∀ c < b, EntryServed o messages texts (a + c)) ∧
    Interrupted o messages texts (a + b)

end Outcomes

/-- An entry whose blocks are all there and may be used. -/
structure Whole (messages : ℕ) (plain : Prop) (h : Heap) (e : Entry) : Prop where
  length : e.messages.length = messages
  fixed : ∀ p ∈ e.fixed, h.readable p = true
  sfp : e.sfp.instructions ≠ [] → ∀ p ∈ e.sfp.blocks, h.readable p = true
  empty : plain → e.sfp = .init

/-- An entry with a field missing. None of its messages was initialised. -/
structure Broken (messages : ℕ) (h : Heap) (e : Entry) : Prop where
  length : e.messages.length = messages
  block : h.readable (some e.block) = true
  raw : ∀ p ∈ e.messages, h.readable p = false
  sfp : e.sfp = .init

section Keep

variable {messages : ℕ} {plain : Prop} {h h' : Heap} {e : Entry} {qs : List (Option ℕ)}

theorem Entry.fixed_subset (e : Entry) : e.fixed ⊆ e.blocks :=
  List.subset_append_right e.sfp.blocks e.fixed

theorem Entry.messages_subset (e : Entry) : e.messages ⊆ e.fixed :=
  fun _ hp => List.mem_cons_of_mem _ (List.mem_append_left _ hp)

theorem Whole.keep (hwhole : Whole messages plain h e)
    (hkeeps : ∀ q ∈ e.blocks, h'.readable q = h.readable q) : Whole messages plain h' e where
  length := hwhole.length
  fixed p hp := (hkeeps p (e.fixed_subset hp)).trans (hwhole.fixed p hp)
  sfp hne p hp := (hkeeps p (List.mem_append_left _ hp)).trans (hwhole.sfp hne p hp)
  empty := hwhole.empty

theorem Broken.keep (hbroken : Broken messages h e)
    (hkeeps : ∀ q ∈ e.blocks, h'.readable q = h.readable q) : Broken messages h' e where
  length := hbroken.length
  block := (hkeeps _ (e.fixed_subset List.mem_cons_self)).trans hbroken.block
  raw p hp :=
    (hkeeps p (e.fixed_subset (e.messages_subset hp))).trans (hbroken.raw p hp)
  sfp := hbroken.sfp

theorem owns_entry {block : ℕ} {ms ts : List (Option ℕ)}
    (howns : h.Owns (ts ++ (ms ++ some block :: qs))) :
    h.Owns (blocksOf [some ⟨block, ms, ts, .init⟩] ++ qs) := by
  have hperm : (ts ++ (ms ++ some block :: qs)).Perm
      ((some block :: (ms ++ ts)) ++ qs) := by
    refine List.perm_iff_count.2 fun p => ?_
    simp only [List.cons_append, List.count_append, List.count_cons]
    omega
  rw [blocksOf, blocksOf, List.append_nil]
  exact Blocks.owns_nothing.2 (howns.perm hperm)

theorem blocksOf_cons (e : Option Entry) (es : List (Option Entry)) :
    blocksOf (e :: es) = blocksOf [e] ++ blocksOf es := by
  cases e with
  | none => rfl
  | some e => rw [blocksOf, blocksOf, blocksOf, List.append_nil]

@[simp] theorem blocksOf_replicate_none (n : ℕ) :
    blocksOf (List.replicate n none) = [] := by
  induction n with
  | zero => rfl
  | succ n ih => rw [List.replicate_succ, blocksOf, ih]

end Keep

section Allocation

variable {o : Site → Bool} {messages texts : ℕ} {plain : Prop} {h : Heap}
variable {qs : List (Option ℕ)}

inductive Allocated (o : Site → Bool) (messages texts : ℕ) (plain : Prop) (h : Heap) (a : ℕ) :
    Bool → Option Entry → Prop
  | whole {e : Entry} (hserved : EntryServed o messages texts a)
      (hwhole : Whole messages plain h e) (hsfp : e.sfp = .init) :
      Allocated o messages texts plain h a true (some e)
  | broken {e : Entry} (hinterrupted : Interrupted o messages texts a)
      (hbroken : Broken messages h e) : Allocated o messages texts plain h a false (some e)
  | missing (hmissing : o (.entry a) = false) : Allocated o messages texts plain h a false none

theorem wp_allocEntry (plain : Prop) (howns : h.Owns qs) (a : ℕ) :
    (allocEntry messages texts a).wp (Blocks.sem o) (fun r h' =>
      h'.Owns (blocksOf [r.2] ++ qs) ∧ (∀ q ∈ qs, h'.readable q = h.readable q) ∧
        Allocated o messages texts plain h' a r.1 r.2) h := by
  refine Prog.wp_bind_of _
    (Blocks.allocates_malloc (o := o) (.entry a) qs h howns) ?_
  rintro (_ | block) h₁ hentry
  · have hmissing : o (.entry a) = false := by
      rw [← Bool.not_eq_true]
      simpa using hentry.served
    exact ⟨hentry.owns.free.2, hentry.keeps, .missing hmissing⟩
  have hserved : o (.entry a) = true := by simpa using hentry.served
  refine Prog.wp_bind_of _ (Blocks.wp_init hentry.owns (Option.some_ne_none block)) ?_
  rintro _ h₂ hblock
  refine Prog.wp_bind_of _ (Blocks.wp_allocate Blocks.allocates_malloc hblock.owns _) ?_
  rintro ms h₃ hms
  refine Prog.wp_bind_of _ (Blocks.wp_allocate Blocks.allocates_calloc hms.owns _) ?_
  rintro ts h₄ hts
  have hlength : ms.length = messages := by simpa using hms.length
  have hfields : FieldsServed o messages texts a ↔ none ∉ ms ++ ts := by
    rw [List.mem_append, not_or, hms.served, hts.served]
    simp [FieldsServed]
  have hkeeps : ∀ q ∈ some block :: qs, h₄.readable q = h₂.readable q := fun q hq => by
    rw [hts.keeps q (List.mem_append_right ms hq), hms.keeps q hq]
  have hkeeps' : ∀ q ∈ qs, h₄.readable q = h.readable q := fun q hq => by
    rw [hkeeps q (List.mem_cons_of_mem _ hq), hblock.keeps q hq, hentry.keeps q hq]
  have hready : h₄.readable (some block) = true := by
    rw [hkeeps _ List.mem_cons_self]
    exact hblock.ready _ List.mem_cons_self
  have howns : h₄.Owns (blocksOf [some ⟨block, ms, ts, .init⟩] ++ qs) :=
    owns_entry hts.owns
  by_cases hnone : none ∈ ms ++ ts
  · rw [if_pos (Blocks.all_isSome_eq_false_iff.2 hnone)]
    refine ⟨howns, hkeeps', .broken ⟨hserved, fun h => hfields.1 h hnone⟩
      ⟨hlength, hready, fun p hp => ?_, rfl⟩⟩
    rw [hts.keeps p (List.mem_append_left _ hp)]
    cases p with
    | none => rfl
    | some b =>
        have hraw := hms.readable (some b) hp (Option.some_ne_none b)
        exact Bool.eq_false_iff.2 fun hb => hraw.1 hb
  · rw [if_neg (mt Blocks.all_isSome_eq_false_iff.1 hnone)]
    rw [List.mem_append, not_or] at hnone
    have hinit : h₄.Owns (ms ++ (ts ++ some block :: qs)) :=
      hts.owns.perm (List.perm_append_comm_assoc ts ms _)
    refine Prog.wp_bind_of _ (Blocks.wp_each_init hinit hnone.1) ?_
    rintro _ h₅ hinits
    have hlater : ∀ q ∈ some block :: qs, h₅.readable q = h₄.readable q :=
      fun q hq => hinits.keeps q (List.mem_append_right ts hq)
    have hwhole : Whole messages plain h₅ ⟨block, ms, ts, .init⟩ := by
      refine ⟨hlength, fun p hp => ?_, fun hne => absurd rfl hne, fun _ => rfl⟩
      rcases List.mem_cons.1 hp with rfl | hp
      · rw [hlater _ List.mem_cons_self, hready]
      rcases List.mem_append.1 hp with hp | hp
      · exact hinits.ready p hp
      · have hne : p ≠ none := by
          rintro rfl
          exact hnone.2 hp
        rw [hinits.keeps p (List.mem_append_left _ hp)]
        exact (hts.readable p hp hne).2 trivial
    refine ⟨?_, fun q hq => ?_, .whole ⟨hserved, hfields.2 ?_⟩ hwhole rfl⟩
    · exact owns_entry (hinits.owns.perm (List.perm_append_comm_assoc ms ts _))
    · rw [hlater q (List.mem_cons_of_mem _ hq), hkeeps' q hq]
    · rw [List.mem_append, not_or]
      exact hnone

theorem Allocated.keep {h' : Heap} {a : ℕ} {ok : Bool} {e : Option Entry}
    (hentry : Allocated o messages texts plain h a ok e)
    (hkeeps : ∀ q ∈ blocksOf [e], h'.readable q = h.readable q) :
    Allocated o messages texts plain h' a ok e := by
  cases hentry with
  | whole hserved hwhole hsfp =>
      rw [blocksOf, blocksOf, List.append_nil] at hkeeps
      exact .whole hserved (hwhole.keep hkeeps) hsfp
  | broken hinterrupted hbroken =>
      rw [blocksOf, blocksOf, List.append_nil] at hkeeps
      exact .broken hinterrupted (hbroken.keep hkeeps)
  | missing hmissing => exact .missing hmissing

/-- What becomes of the entries from `a` on. -/
inductive AllocatedFrom (o : Site → Bool) (messages texts : ℕ) (plain : Prop) (h : Heap) :
    ℕ → Bool → List (Option Entry) → Prop
  | nil {a : ℕ} : AllocatedFrom o messages texts plain h a true []
  | stop {a n : ℕ} {e : Option Entry} (hentry : Allocated o messages texts plain h a false e) :
      AllocatedFrom o messages texts plain h a false (e :: List.replicate n none)
  | cons {a : ℕ} {ok : Bool} {e : Option Entry} {es : List (Option Entry)}
      (hentry : Allocated o messages texts plain h a true e)
      (hrest : AllocatedFrom o messages texts plain h (a + 1) ok es) :
      AllocatedFrom o messages texts plain h a ok (e :: es)

theorem wp_allocEntries (messages texts : ℕ) (plain : Prop) (howns : h.Owns qs)
    (a n : ℕ) :
    (allocEntries messages texts a n).wp (Blocks.sem o) (fun r h' =>
      h'.Owns (blocksOf r.2 ++ qs) ∧ (∀ q ∈ qs, h'.readable q = h.readable q) ∧
        AllocatedFrom o messages texts plain h' a r.1 r.2 ∧ r.2.length = n) h := by
  induction n generalizing a h qs with
  | zero => exact ⟨howns, fun _ _ => rfl, .nil, rfl⟩
  | succ n ih =>
      refine Prog.wp_bind_of _ (wp_allocEntry plain howns a) ?_
      rintro ⟨ok, e⟩ h₁ ⟨howns₁, hkeeps₁, hentry⟩
      cases ok with
      | false =>
          refine ⟨?_, hkeeps₁, .stop hentry, by simp⟩
          rw [blocksOf_cons, blocksOf_replicate_none, List.append_nil]
          exact howns₁
      | true =>
          refine Prog.wp_bind_of _ (ih howns₁ (a + 1)) ?_
          rintro ⟨ok, es⟩ h₂ ⟨howns₂, hkeeps₂, hrest, hlength⟩
          refine ⟨?_, fun q hq => ?_, .cons (hentry.keep fun q hq => ?_) hrest,
            congrArg Nat.succ hlength⟩
          · rw [blocksOf_cons, List.append_assoc]
            exact howns₂.perm (List.perm_append_comm_assoc _ _ qs)
          · rw [hkeeps₂ q (List.mem_append_right _ hq), hkeeps₁ q hq]
          · exact hkeeps₂ q (List.mem_append_left _ hq)

theorem AllocatedFrom.ok_iff {a : ℕ} {ok : Bool} {es : List (Option Entry)}
    (hes : AllocatedFrom o messages texts plain h a ok es) :
    ok = true ↔ ∀ b < es.length, EntryServed o messages texts (a + b) := by
  induction hes with
  | nil => simp
  | stop hentry =>
      refine iff_of_false Bool.false_ne_true fun hall => ?_
      have hserved := hall 0 (by simp)
      cases hentry with
      | broken hinterrupted hbroken => exact hinterrupted.2 hserved.2
      | missing hmissing => exact Bool.false_ne_true (hmissing.symm.trans hserved.1)
  | @cons a ok e es hentry hrest ih =>
      obtain ⟨hserved, -, -⟩ := hentry
      rw [ih, List.length_cons, Nat.forall_lt_succ_left]
      simp only [Nat.add_zero, Nat.add_assoc, Nat.add_comm 1, hserved, true_and]

theorem AllocatedFrom.keep {h' : Heap} {a : ℕ} {ok : Bool} {es : List (Option Entry)}
    (hes : AllocatedFrom o messages texts plain h a ok es)
    (hkeeps : ∀ q ∈ blocksOf es, h'.readable q = h.readable q) :
    AllocatedFrom o messages texts plain h' a ok es := by
  induction hes with
  | nil => exact .nil
  | stop hentry =>
      rw [blocksOf_cons, blocksOf_replicate_none, List.append_nil] at hkeeps
      exact .stop (hentry.keep hkeeps)
  | cons hentry hrest ih =>
      rw [blocksOf_cons] at hkeeps
      exact .cons (hentry.keep fun q hq => hkeeps q (List.mem_append_left _ hq))
        (ih fun q hq => hkeeps q (List.mem_append_right _ hq))

/-- The first failure is inside the first entry, or inside a later one. -/
theorem stopsInside_succ (a n : ℕ) :
    StopsInside o messages texts a (n + 1) ↔ Interrupted o messages texts a ∨
      EntryServed o messages texts a ∧ StopsInside o messages texts (a + 1) n := by
  constructor
  · rintro ⟨_ | b, hb, hserved, hinterrupted⟩
    · exact .inl hinterrupted
    · refine .inr ⟨hserved 0 (Nat.succ_pos b), b, Nat.lt_of_succ_lt_succ hb,
        fun c hc => ?_, ?_⟩
      · rw [Nat.add_right_comm]
        exact hserved (c + 1) (Nat.succ_lt_succ hc)
      · rw [Nat.add_right_comm]
        exact hinterrupted
  · rintro (hinterrupted | ⟨hserved, b, hb, hall, hinterrupted⟩)
    · exact ⟨0, Nat.succ_pos n, fun c hc => absurd hc (Nat.not_lt_zero c), hinterrupted⟩
    · refine ⟨b + 1, Nat.succ_lt_succ hb, fun c hc => ?_, ?_⟩
      · cases c with
        | zero => exact hserved
        | succ c =>
            have hc := hall c (Nat.lt_of_succ_lt_succ hc)
            rwa [Nat.add_right_comm] at hc
      · rwa [Nat.add_right_comm] at hinterrupted

end Allocation

section Release

variable {o : Site → Bool} {messages texts : ℕ} {h : Heap} {qs : List (Option ℕ)}
variable {α : Type} {fill : ℕ → α → Entry → Code PbufSfp} {clear : Entry → Code Unit}
variable {plain : Prop} {array : Option ℕ} {e : Entry} {es : List (Option Entry)}

def Clears (o : Site → Bool) (clear : Entry → Code Unit) (h : Heap) (e : Entry) : Prop :=
  ∀ qs, h.Owns (e.blocks ++ qs) →
    (clear e).wp (Blocks.sem o) (fun _ h' => Blocks.Leaves (e.fixed ++ qs) h h') h

/-- What is done with the filters of whole entries is in order. Where there are no filters,
an entry with a field missing is cleared as well, and elsewhere that aborts. -/
structure Handles (o : Site → Bool) (messages : ℕ) (fill : ℕ → α → Entry → Code PbufSfp)
    (clear : Entry → Code Unit) (plain : Prop) : Prop where
  fills : ∀ a node e qs h, h.Owns (e.blocks ++ qs) → Whole messages plain h e → e.sfp = .init →
    (fill a node e).wp (Blocks.sem o) (fun sfp h' =>
      h'.Owns ({ e with sfp := sfp }.blocks ++ qs) ∧
        (∀ q ∈ qs, h'.readable q = h.readable q) ∧
        Whole messages plain h' { e with sfp := sfp }) h
  clears : ∀ e h, Whole messages plain h e → Clears o clear h e
  clearsBroken : plain → ∀ e h, Broken messages h e → Clears o clear h e
  abortsBroken : ¬ plain → ∀ e h Q, Broken messages h e →
    ¬ (clear e).wp (Blocks.sem o) Q h

theorem wp_freeEntry (hclears : Clears o clear h e)
    (hblock : h.readable (some e.block) = true) (howns : h.Owns (e.blocks ++ qs)) :
    (freeEntry clear e).wp (Blocks.sem o) (fun _ h' => Blocks.Leaves qs h h') h := by
  refine (Prog.wp_bind _ _ _ _ _).2 (Blocks.wp_read_iff.2 ⟨hblock, ?_⟩)
  refine Prog.wp_bind_of _ (hclears qs howns) ?_
  rintro _ h₁ hleaves
  have hperm : (e.fixed ++ qs).Perm (e.messages ++ (e.texts ++ some e.block :: qs)) := by
    refine List.perm_iff_count.2 fun p => ?_
    simp only [Entry.fixed, List.cons_append, List.count_append, List.count_cons]
    omega
  refine Prog.wp_bind_of _ (Blocks.wp_each_free (hleaves.perm hperm).owns) ?_
  rintro _ h₂ hmessages
  refine Prog.wp_bind_of _ (Blocks.wp_each_free hmessages.owns) ?_
  rintro _ h₃ htexts
  refine Prog.wp_mono _ (Blocks.wp_free htexts.owns) ?_
  rintro _ h₄ hfree
  have hleaves₂ : Blocks.Leaves (e.texts ++ some e.block :: qs) h h₂ :=
    (hleaves.perm hperm).trans hmessages (List.subset_append_right _ _)
  have hleaves₃ : Blocks.Leaves (some e.block :: qs) h h₃ :=
    hleaves₂.trans htexts (List.subset_append_right _ _)
  exact hleaves₃.trans hfree (List.subset_cons_self _ _)

def Clearable (messages : ℕ) (plain : Prop) (h : Heap) (e : Entry) : Prop :=
  Whole messages plain h e ∨ plain ∧ Broken messages h e

theorem Clearable.block (he : Clearable messages plain h e) :
    h.readable (some e.block) = true :=
  he.elim (fun hwhole => hwhole.fixed _ List.mem_cons_self) fun hbroken => hbroken.2.block

theorem Clearable.keep {h' : Heap} (he : Clearable messages plain h e)
    (hkeeps : ∀ q ∈ e.blocks, h'.readable q = h.readable q) :
    Clearable messages plain h' e :=
  he.imp (·.keep hkeeps) fun hbroken => ⟨hbroken.1, hbroken.2.keep hkeeps⟩

theorem blocks_subset_blocksOf (he : some e ∈ es) : e.blocks ⊆ blocksOf es := by
  induction es with
  | nil => exact absurd he List.not_mem_nil
  | cons e' es ih =>
      rw [blocksOf_cons]
      rcases List.mem_cons.1 he with rfl | he
      · rw [blocksOf, blocksOf, List.append_nil]
        exact List.subset_append_left _ _
      · exact List.Subset.trans (ih he) (List.subset_append_right _ _)

theorem Handles.clears_of_clearable (hhandles : Handles o messages fill clear plain)
    (he : Clearable messages plain h e) : Clears o clear h e :=
  he.elim (hhandles.clears e h) fun hbroken =>
    hhandles.clearsBroken hbroken.1 e h hbroken.2

theorem wp_freeEntries (hhandles : Handles o messages fill clear plain)
    (harray : array ∈ qs) (hready : h.readable array = true)
    (howns : h.Owns (blocksOf es ++ qs))
    (hes : ∀ e, some e ∈ es → Clearable messages plain h e) :
    (freeEntries clear array es).wp (Blocks.sem o)
      (fun _ h' => Blocks.Leaves qs h h') h := by
  induction es generalizing h with
  | nil => exact .refl howns
  | cons e es ih =>
      cases e with
      | none =>
          refine (Prog.wp_bind _ _ _ _ _).2 (Blocks.wp_read_iff.2 ⟨hready, ?_⟩)
          exact ih hready howns fun e he => hes e (List.mem_cons_of_mem _ he)
      | some e =>
          rw [blocksOf, List.append_assoc] at howns
          have he := hes e List.mem_cons_self
          refine (Prog.wp_bind _ _ _ _ _).2 (Blocks.wp_read_iff.2 ⟨hready, ?_⟩)
          refine Prog.wp_bind_of _
            (wp_freeEntry (hhandles.clears_of_clearable he) he.block howns) ?_
          rintro _ h₁ hfirst
          have hready₁ : h₁.readable array = true := by
            rw [hfirst.keeps array (List.mem_append_right _ harray), hready]
          refine Prog.wp_mono _ (ih hready₁ hfirst.owns fun e' he' => ?_) ?_
          · refine (hes e' (List.mem_cons_of_mem _ he')).keep fun q hq => ?_
            exact hfirst.keeps q (List.mem_append_left _ (blocks_subset_blocksOf he' hq))
          · exact fun _ _ hrest => hfirst.trans hrest (List.subset_append_right _ qs)

/-- Unless the first failure is inside an entry, only whole entries are released. -/
theorem AllocatedFrom.clearable {a : ℕ} {ok : Bool}
    (hes : AllocatedFrom o messages texts plain h a ok es)
    (hstops : StopsInside o messages texts a es.length → plain) (he : some e ∈ es) :
    Clearable messages plain h e := by
  induction hes with
  | nil => exact absurd he List.not_mem_nil
  | @stop a n e' hentry =>
      rcases List.mem_cons.1 he with rfl | he
      · cases hentry with
        | broken hinterrupted hbroken =>
            exact .inr ⟨hstops ((stopsInside_succ a _).2 (.inl hinterrupted)), hbroken⟩
      · exact absurd (List.eq_of_mem_replicate he) (Option.some_ne_none e)
  | @cons a ok e' es hentry hrest ih =>
      cases hentry with
      | whole hserved hwhole hsfp =>
          rcases List.mem_cons.1 he with heq | he
          · obtain rfl := Option.some_injective _ heq
            exact .inl hwhole
          · exact ih (fun h => hstops ((stopsInside_succ a _).2 (.inr ⟨hserved, h⟩))) he

/-- A handler that lists filters aborts where the first failure is inside an entry. -/
theorem AllocatedFrom.not_wp_freeEntries {a : ℕ} {ok : Bool}
    (hhandles : Handles o messages fill clear plain) (hplain : ¬ plain)
    (hes : AllocatedFrom o messages texts plain h a ok es)
    (hstops : StopsInside o messages texts a es.length)
    (howns : h.Owns (blocksOf es ++ qs)) (Q : Unit → Heap → Prop) :
    ¬ (freeEntries clear array es).wp (Blocks.sem o) Q h := by
  induction es generalizing h a ok with
  | nil =>
      obtain ⟨b, hb, -⟩ := hstops
      exact absurd hb (Nat.not_lt_zero b)
  | cons e' es ih =>
      intro hwp
      rw [List.length_cons, stopsInside_succ] at hstops
      cases hes with
      | stop hentry =>
          cases hentry with
          | missing hmissing =>
              have hserved : o (.entry a) = true :=
                hstops.elim (fun h => h.1) fun h => h.1.1
              exact Bool.false_ne_true (hmissing.symm.trans hserved)
          | broken hinterrupted hbroken =>
              have hread := (Prog.wp_bind _ _ _ _ _).1 hwp
              have hentry := (Prog.wp_bind _ _ _ _ _).1 (Blocks.wp_read_iff.1 hread).2
              have hblock := (Prog.wp_bind _ _ _ _ _).1 hentry
              have hclear := (Prog.wp_bind _ _ _ _ _).1 (Blocks.wp_read_iff.1 hblock).2
              exact hhandles.abortsBroken hplain _ h _ hbroken hclear
      | cons hentry hrest =>
          cases hentry with
          | @whole e hserved hwhole hsfp =>
              have hstops := hstops.resolve_left fun h => h.2 hserved.2
              rw [blocksOf, List.append_assoc] at howns
              obtain ⟨_, h₁, hfirst, hbind⟩ := Blocks.exists_bind
                (wp_freeEntry (hhandles.clears e h hwhole)
                  (hwhole.fixed _ List.mem_cons_self) howns)
              have hread := (Prog.wp_bind _ _ _ _ _).1 hwp
              have hfree := (hbind _ _).1 (Blocks.wp_read_iff.1 hread).2
              refine ih (hrest.keep fun q hq => ?_) hstops.2 hfirst.owns hfree
              exact hfirst.keeps q (List.mem_append_left _ hq)

def AllWhole (messages : ℕ) (plain : Prop) (h : Heap) (es : List (Option Entry)) : Prop :=
  ∀ e ∈ es, ∃ e', e = some e' ∧ Whole messages plain h e'

theorem AllWhole.clearable (hes : AllWhole messages plain h es) (he : some e ∈ es) :
    Clearable messages plain h e := by
  obtain ⟨e', heq, hwhole⟩ := hes _ he
  obtain rfl := Option.some_injective _ heq
  exact .inl hwhole

theorem wp_useEntry (hready : h.readable array = true) (hwhole : Whole messages plain h e) :
    (useEntry array e).wp (Blocks.sem o) (fun _ h' => h' = h) h :=
  (Prog.wp_bind _ _ _ _ _).2
    (Blocks.wp_read_iff.2 ⟨hready, Blocks.wp_each_read hwhole.fixed⟩)

theorem wp_useSfp (hwhole : Whole messages plain h e) :
    (useSfp e.sfp).wp (Blocks.sem o) (fun _ h' => h' = h) h := by
  rw [useSfp]
  split
  · rfl
  · next hne => exact Blocks.wp_each_read (hwhole.sfp hne)

theorem wp_closure (hready : h.readable array = true) (hes : AllWhole messages plain h es) :
    (closure array es).wp (Blocks.sem o) (fun _ h' => h' = h) h := by
  induction es with
  | nil => rfl
  | cons e es ih =>
      obtain ⟨⟨e, rfl, hwhole⟩, hrest⟩ := List.forall_mem_cons.1 hes
      refine Prog.wp_bind_of _ (wp_useEntry hready hwhole) ?_
      rintro _ _ rfl
      refine Prog.wp_bind_of _ (wp_useSfp hwhole) ?_
      rintro _ _ rfl
      exact ih hrest

/-- Each node has an entry, and filling in an entry leaves the others whole. -/
theorem wp_fillEntries (hhandles : Handles o messages fill clear plain)
    (harray : array ∈ qs) (hready : h.readable array = true) {nodes : List α} {a : ℕ}
    (hes : AllocatedFrom o messages texts plain h a true es) (hlength : es.length = nodes.length)
    (howns : h.Owns (blocksOf es ++ qs)) :
    (fillEntries fill array nodes a es).wp (Blocks.sem o) (fun es' h' =>
      h'.Owns (blocksOf es' ++ qs) ∧ (∀ q ∈ qs, h'.readable q = h.readable q) ∧
        AllWhole messages plain h' es') h := by
  induction nodes generalizing h a es qs with
  | nil =>
      obtain rfl := List.length_eq_zero_iff.1 hlength
      exact ⟨howns, fun _ _ => rfl, fun _ he => absurd he List.not_mem_nil⟩
  | cons node nodes ih =>
      cases hes with
      | nil => exact absurd hlength.symm (Nat.succ_ne_zero _)
      | cons hentry hrest =>
          cases hentry with
          | @whole e hserved hwhole hsfp =>
              rw [blocksOf, List.append_assoc] at howns
              refine Prog.wp_bind_of _ (wp_useEntry hready hwhole) ?_
              rintro _ _ rfl
              refine Prog.wp_bind_of _
                (hhandles.fills a node e _ _ howns hwhole hsfp) ?_
              rintro sfp h₁ ⟨howns₁, hkeeps₁, hwhole₁⟩
              have hready₁ : h₁.readable array = true := by
                rw [hkeeps₁ array (List.mem_append_right _ harray), hready]
              have hrest₁ := hrest.keep fun q hq => hkeeps₁ q (List.mem_append_left qs hq)
              have howns₁ : h₁.Owns
                  (blocksOf _ ++ ({ e with sfp := sfp }.blocks ++ qs)) :=
                howns₁.perm (List.perm_append_comm_assoc _ _ qs)
              refine Prog.wp_bind_of _ (ih (List.mem_append_right _ harray) hready₁ hrest₁
                (Nat.succ_injective hlength) howns₁) ?_
              rintro es' h₂ ⟨howns₂, hkeeps₂, hwhole₂⟩
              refine ⟨?_, fun q hq => ?_, List.forall_mem_cons.2 ⟨⟨_, rfl, ?_⟩, hwhole₂⟩⟩
              · rw [blocksOf, List.append_assoc]
                exact howns₂.perm (List.perm_append_comm_assoc _ _ qs)
              · rw [hkeeps₂ q (List.mem_append_right _ hq),
                  hkeeps₁ q (List.mem_append_right _ hq)]
              · exact hwhole₁.keep fun q hq => hkeeps₂ q (List.mem_append_left _ hq)

theorem wp_freeList (hhandles : Handles o messages fill clear plain)
    (hready : es ≠ [] → h.readable array = true)
    (howns : h.Owns (blocksOf es ++ array :: qs))
    (hes : ∀ e, some e ∈ es → Clearable messages plain h e) :
    (freeList clear array es).wp (Blocks.sem o)
      (fun _ h' => Blocks.Leaves qs h h') h := by
  have hentries : (freeEntries clear array es).wp (Blocks.sem o)
      (fun _ h' => Blocks.Leaves (array :: qs) h h') h := by
    cases es with
    | nil => exact .refl howns
    | cons e es =>
        exact wp_freeEntries hhandles List.mem_cons_self
          (hready (List.cons_ne_nil e es)) howns hes
  refine Prog.wp_bind_of _ hentries fun _ h₁ hleaves => ?_
  exact Prog.wp_mono _ (Blocks.wp_free hleaves.owns) fun _ _ hfree =>
    hleaves.trans hfree (List.subset_cons_self _ _)

theorem not_stopsInside {a n : ℕ} (hall : ∀ b < n, EntryServed o messages texts (a + b)) :
    ¬ StopsInside o messages texts a n :=
  fun ⟨b, hb, _, hinterrupted⟩ => hinterrupted.2 (hall b hb).2

/-- Where there are filters, the nodes are listed only without a failure inside an
entry. -/
theorem plain_of_wp_listNodes (hhandles : Handles o messages fill clear plain)
    {queue : Tailq.Queue α} (hcounted : queue.Counted) (howns : h.Owns (array :: qs))
    {Q : Bool → Heap → Prop}
    (hwp : (listNodes messages texts fill clear array queue).wp (Blocks.sem o) Q h)
    (hstops : StopsInside o messages texts 0 queue.nodes.length) : plain := by
  obtain ⟨⟨ok, es⟩, h₁, ⟨howns₁, -, hes, hlength⟩, hbind⟩ := Blocks.exists_bind
    (wp_allocEntries (o := o) messages texts plain howns 0 queue.length)
  have hcount : es.length = queue.nodes.length := hlength.trans hcounted
  rw [listNodes, Prog.bind_eq, hbind] at hwp
  rw [← hcount] at hstops
  cases ok with
  | false =>
      by_contra hplain
      have hfree := (Prog.wp_bind _ _ _ _ _).1 ((Prog.wp_bind _ _ _ _ _).1 hwp)
      exact hes.not_wp_freeEntries hhandles hplain hstops howns₁ _ hfree
  | true =>
      have hall := hes.ok_iff.1 rfl
      exact absurd hstops (not_stopsInside hall)

theorem wp_listNodes (hhandles : Handles o messages fill clear plain)
    {queue : Tailq.Queue α} (hcounted : queue.Counted) (hready : h.readable array = true)
    (howns : h.Owns (array :: qs))
    (hstops : StopsInside o messages texts 0 queue.nodes.length → plain) :
    (listNodes messages texts fill clear array queue).wp (Blocks.sem o) (fun reply h' =>
      Blocks.Leaves qs h h' ∧ (reply = true ↔
        ∀ a < queue.nodes.length, EntryServed o messages texts a)) h := by
  refine Prog.wp_bind_of _ (wp_allocEntries messages texts plain howns 0 queue.length) ?_
  rintro ⟨ok, es⟩ h₁ ⟨howns₁, hkeeps₁, hes, hlength⟩
  have hready₁ : h₁.readable array = true := by
    rw [hkeeps₁ array List.mem_cons_self, hready]
  have hcount : es.length = queue.nodes.length := hlength.trans hcounted
  have hok := hes.ok_iff
  simp only [Nat.zero_add, hcount] at hok
  rw [← hcount] at hstops
  cases ok with
  | false =>
      refine Prog.wp_bind_of _
        (wp_freeList hhandles (fun _ => hready₁) howns₁ fun e => hes.clearable hstops) ?_
      rintro _ h₂ hleaves
      refine ⟨⟨hleaves.owns, fun q hq => ?_⟩, hok⟩
      rw [hleaves.keeps q hq, hkeeps₁ q (List.mem_cons_of_mem _ hq)]
  | true =>
      refine Prog.wp_bind_of _ (wp_fillEntries hhandles List.mem_cons_self hready₁ hes
        hcount howns₁) ?_
      rintro es₂ h₂ ⟨howns₂, hkeeps₂, hwhole₂⟩
      have hready₂ : h₂.readable array = true := by
        rw [hkeeps₂ array List.mem_cons_self, hready₁]
      refine Prog.wp_bind_of _ (wp_closure hready₂ hwhole₂) ?_
      rintro _ _ rfl
      refine Prog.wp_bind_of _
        (wp_freeList hhandles (fun _ => hready₂) howns₂ fun e => hwhole₂.clearable) ?_
      rintro _ h₃ hleaves
      refine ⟨⟨hleaves.owns, fun q hq => ?_⟩, hok⟩
      rw [hleaves.keeps q hq, hkeeps₂ q (List.mem_cons_of_mem _ hq),
        hkeeps₁ q (List.mem_cons_of_mem _ hq)]

/-- A handler that lists filters aborts where the first failure is inside an entry. -/
theorem plain_of_wp_getList (hhandles : Handles o messages fill clear plain)
    {queue : Tailq.Queue α} (hcounted : queue.Counted) (howns : h.Owns qs)
    {Q : Bool → Heap → Prop}
    (hwp : (getList messages texts fill clear queue).wp (Blocks.sem o) Q h)
    (hlist : o .list = true) (hstops : StopsInside o messages texts 0 queue.nodes.length) :
    plain := by
  obtain ⟨b, hb, -⟩ := id hstops
  have hnonempty : queue.length ≠ 0 := by
    rw [hcounted]
    exact Nat.ne_of_gt (Nat.zero_lt_of_lt hb)
  obtain ⟨array, h₁, hgiven, hbind⟩ := Blocks.exists_bind
    (Blocks.allocates_calloc (o := o) .list qs h howns)
  have hserved : none ≠ array ↔ o .list = true := by simpa using hgiven.served
  have harray : array ≠ none := Ne.symm (hserved.2 hlist)
  rw [getList, if_neg hnonempty, Prog.bind_eq, hbind, if_neg harray] at hwp
  have howns₁ : h₁.Owns (array :: qs) := hgiven.owns
  exact plain_of_wp_listNodes hhandles hcounted howns₁ hwp hstops

/-- Everywhere else a get handler leaves the heap as it found it, and hands over a list
exactly when all its entries are there. -/
theorem wp_getList (hhandles : Handles o messages fill clear plain)
    {queue : Tailq.Queue α} (hcounted : queue.Counted) (howns : h.Owns qs)
    (hstops : o .list = true → StopsInside o messages texts 0 queue.nodes.length → plain) :
    (getList messages texts fill clear queue).wp (Blocks.sem o) (fun reply h' =>
      Blocks.Leaves qs h h' ∧ (reply = true ↔ queue.nodes ≠ [] ∧ o .list = true ∧
        ∀ a < queue.nodes.length, EntryServed o messages texts a)) h := by
  have hclose : ∀ h, h.Owns qs → (freeList clear none []).wp (Blocks.sem o)
      (fun _ h' => Blocks.Leaves qs h h') h := fun h howns =>
    wp_freeList hhandles (fun hne => absurd rfl hne) (Blocks.owns_nothing.2 howns)
      fun _ he => absurd he List.not_mem_nil
  have hempty : queue.length = 0 ↔ queue.nodes = [] := by
    rw [hcounted, List.length_eq_zero_iff]
  rw [getList]
  by_cases hnodes : queue.nodes = []
  · rw [if_pos (hempty.2 hnodes)]
    refine Prog.wp_bind_of _ (hclose h howns) fun _ h₁ hleaves => ⟨hleaves, ?_⟩
    exact iff_of_false Bool.false_ne_true fun hreply => hreply.1 hnodes
  rw [if_neg (mt hempty.1 hnodes)]
  refine Prog.wp_bind_of _ (Blocks.allocates_calloc (o := o) .list qs h howns) ?_
  rintro array h₁ hgiven
  have hserved : none ≠ array ↔ o .list = true := by simpa using hgiven.served
  have howns₁ : h₁.Owns (array :: qs) := hgiven.owns
  by_cases harray : array = none
  · rw [if_pos harray]
    have hmissing : o .list ≠ true := fun h => hserved.2 h harray.symm
    rw [harray] at howns₁
    refine Prog.wp_bind_of _ (hclose h₁ (Blocks.owns_nothing.1 howns₁)) fun _ h₂ hleaves => ?_
    refine ⟨⟨hleaves.owns, fun q hq => ?_⟩, ?_⟩
    · rw [hleaves.keeps q hq, hgiven.keeps q hq]
    · exact iff_of_false Bool.false_ne_true fun hreply => hmissing hreply.2.1
  · rw [if_neg harray]
    have hlist : o .list = true := hserved.1 (Ne.symm harray)
    have hready : h₁.readable array = true :=
      (hgiven.readable array List.mem_cons_self harray).2 trivial
    refine Prog.wp_mono _
      (wp_listNodes hhandles hcounted hready howns₁ (hstops hlist)) ?_
    rintro reply h₂ ⟨hleaves, hreply⟩
    refine ⟨⟨hleaves.owns, fun q hq => ?_⟩, ?_⟩
    · rw [hleaves.keeps q hq, hgiven.keeps q hq]
    · rw [hreply, and_iff_right hnodes, and_iff_right hlist]

end Release

end Dabbad.Listing
