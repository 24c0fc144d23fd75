import Dabba.Dabbad.InterfaceGet
import Dabba.Resource.Blocks

/-!
# The blocks of a list of interfaces

The handlers that list interfaces build their reply in the same way. They open a socket,
fill a cache with the links of the kernel and allocate a link to filter with. For each link
that is visited the array of pointers grows, and an entry, its id and its status are
allocated; where one of them is missing the link is left out. The names of the entries are
those of the cache, so the cache stays until the list was handed over. At the end all of it
is released.

The handler for drivers copies four texts into an entry, any of which may be missing. The
others copy none.
-/

namespace Dabbad.LinkListing

open Program Resource Interface

/-- The places at which a handler allocates: once, or in the visit `v`. -/
inductive Site
  | socket
  | cache
  | link
  | array (v : ℕ)
  | entry (v : ℕ)
  | id (v : ℕ)
  | status (v : ℕ)
  | string (v i : ℕ)

/-- An entry: its block, those of its id and its status, its texts, and its link. -/
structure LinkEntry where
  block : ℕ
  messages : List (Option ℕ)
  texts : List (Option ℕ)
  link : RtnlLink

/-- The array and the entries it points to. -/
structure LinkList where
  array : Option ℕ
  entries : List LinkEntry

def LinkEntry.fixed (e : LinkEntry) : List (Option ℕ) := e.messages ++ [some e.block]

def LinkEntry.blocks (e : LinkEntry) : List (Option ℕ) := e.texts ++ e.fixed

def blocksOf (entries : List LinkEntry) : List (Option ℕ) := entries.flatMap LinkEntry.blocks

def LinkList.blocks (list : LinkList) : List (Option ℕ) :=
  list.array :: blocksOf list.entries

abbrev Code : Type → Type _ := Prog (BlockCall Site)

section Handlers

/-- Fills in the entry of the link in the visit `v`, where its block is there. -/
def fillLink (strings v : ℕ) (list : LinkList) (block : ℕ) (link : RtnlLink) :
    Code LinkList := do
  Blocks.init (some block)
  let messages ← Blocks.allocate (fun site => Prog.perform (.malloc site))
    [.id v, .status v]
  if messages.all Option.isSome = false then
    Blocks.each Blocks.free messages
    Blocks.free (some block)
    return list
  else
    Blocks.each Blocks.init messages
    let texts ← Blocks.allocate Blocks.calloc ((List.range strings).map (.string v))
    return { list with entries := list.entries ++ [⟨block, messages, texts, link⟩] }

/-- The entry of the link in the visit `v`, where the array has room for it. -/
def newLink (strings v : ℕ) (list : LinkList) (link : RtnlLink) : Code LinkList := do
  let p ← Prog.perform (.malloc (.entry v))
  Blocks.init list.array
  match p with
  | none => return list
  | some block => fillLink strings v list block link

/-- Appends the entry of the link in the visit `v`. -/
def appendLink (strings : ℕ) (cache : Option ℕ) (v : ℕ) (list : LinkList)
    (link : RtnlLink) : Code LinkList := do
  Blocks.read cache
  let listpp ← Prog.perform (.realloc (.array v) list.array)
  if listpp = none then
    return list
  else
    newLink strings v { list with array := listpp } link

/-- Visits the links one after another, from the visit `v` on. -/
def visitLinks (strings : ℕ) (cache : Option ℕ) :
    List RtnlLink → ℕ → LinkList → Code LinkList
  | [], _, list => pure list
  | link :: links, v, list => do
      let list ← appendLink strings cache v list link
      visitLinks strings cache links (v + 1) list

def readText (p : Option ℕ) : Code Unit :=
  if p = none then pure () else Blocks.read p

def closure (cache array : Option ℕ) : List LinkEntry → Code Unit
  | [] => pure ()
  | e :: es => do
      Blocks.read array
      Blocks.each Blocks.read e.fixed
      Blocks.each readText e.texts
      Blocks.read cache
      closure cache array es

/-- Releases the entries the array points to. -/
def freeLinks (array : Option ℕ) : List LinkEntry → Code Unit
  | [] => pure ()
  | e :: es => do
      Blocks.read array
      Blocks.read (some e.block)
      Blocks.each Blocks.free e.texts
      Blocks.each Blocks.free e.messages
      Blocks.free (some e.block)
      freeLinks array es

def close (list : LinkList) (link cache sock : Option ℕ) : Code Unit := do
  freeLinks list.array list.entries
  Blocks.free list.array
  Blocks.free link
  Blocks.free cache
  Blocks.free sock

def useLink (idList : List (List Posix.Byte)) (link : Option ℕ) : Code Unit :=
  if idList = [] then pure () else Blocks.read link

/-- A get handler on the links of the kernel: the reply is the list of links, or nothing. -/
def interfaceGet (strings : ℕ) (idList : List (List Posix.Byte)) (links : List RtnlLink) :
    Code (Option (List RtnlLink)) := do
  let sock ← Blocks.calloc .socket
  -- Connecting uses the socket, which is not checked.
  Blocks.read sock
  let cache ← Blocks.calloc .cache
  let link ← Blocks.calloc .link
  if cache = none ∨ link = none then
    close ⟨none, []⟩ link cache sock
    return none
  else
    useLink idList link
    let list ← visitLinks strings cache (visitedLinks idList links) 0 ⟨none, []⟩
    closure cache list.array list.entries
    close list link cache sock
    return some (list.entries.map LinkEntry.link)

abbrev Get : Type _ := List (List Posix.Byte) → List RtnlLink → Code (Option (List RtnlLink))

def dabbadInterfaceStatusGet : Get := interfaceGet 0

def dabbadInterfaceStatisticsGet : Get := interfaceGet 0

def dabbadInterfaceDriverGet : Get := interfaceGet 4

def dabbadInterfacePauseGet : Get := interfaceGet 0

def dabbadInterfaceCoalesceGet : Get := interfaceGet 0

def dabbadInterfaceOffloadGet : Get := interfaceGet 0

def dabbadInterfaceSettingsGet : Get := interfaceGet 0

end Handlers

section Listed

variable (o : Site → Bool)

/-- All blocks that the visit `v` cannot do without are served. -/
def served (v : ℕ) : Bool :=
  o (.array v) && o (.entry v) && o (.id v) && o (.status v)

/-- The links that are listed, from the visit `v` on. -/
def listed : ℕ → List RtnlLink → List RtnlLink
  | _, [] => []
  | v, link :: links =>
      if served o v then link :: listed (v + 1) links else listed (v + 1) links

end Listed

structure Usable (h : Heap) (list : LinkList) : Prop where
  array : list.entries ≠ [] → h.readable list.array = true
  fixed : ∀ e ∈ list.entries, ∀ p ∈ e.fixed, h.readable p = true
  texts : ∀ e ∈ list.entries, ∀ p ∈ e.texts, p ≠ none → h.readable p = true

section Visit

variable {o : Site → Bool} {strings v : ℕ} {h h' : Heap} {qs : List (Option ℕ)}
variable {cache array : Option ℕ} {list : LinkList} {link : RtnlLink} {e : LinkEntry}

theorem fixed_subset (he : e ∈ list.entries) : e.fixed ⊆ blocksOf list.entries :=
  fun _ hp => List.mem_flatMap.2 ⟨e, he, List.mem_append_right _ hp⟩

theorem texts_subset (he : e ∈ list.entries) : e.texts ⊆ blocksOf list.entries :=
  fun _ hp => List.mem_flatMap.2 ⟨e, he, List.mem_append_left _ hp⟩

theorem Usable.keep (husable : Usable h list) (harray : h'.readable array = true)
    (hkeeps : ∀ q ∈ blocksOf list.entries, h'.readable q = h.readable q) :
    Usable h' { list with array := array } where
  array _ := harray
  fixed e he p hp := (hkeeps p (fixed_subset he hp)).trans (husable.fixed e he p hp)
  texts e he p hp hne :=
    (hkeeps p (texts_subset he hp)).trans (husable.texts e he p hp hne)

theorem Usable.append (husable : Usable h list) (harray : h.readable list.array = true)
    (hfixed : ∀ p ∈ e.fixed, h.readable p = true)
    (htexts : ∀ p ∈ e.texts, p ≠ none → h.readable p = true) :
    Usable h { list with entries := list.entries ++ [e] } where
  array _ := harray
  fixed := List.forall_mem_append.2
    ⟨husable.fixed, fun _ he => List.mem_singleton.1 he ▸ hfixed⟩
  texts := List.forall_mem_append.2
    ⟨husable.texts, fun _ he => List.mem_singleton.1 he ▸ htexts⟩

/-- What a visit leaves: the link is appended if all that it needs was served. -/
structure Visited (o : Site → Bool) (v : ℕ) (list : LinkList) (link : RtnlLink)
    (qs : List (Option ℕ)) (h : Heap) (list' : LinkList) (h' : Heap) : Prop where
  owns : h'.Owns (list'.blocks ++ qs)
  usable : Usable h' list'
  keeps : ∀ q ∈ qs, h'.readable q = h.readable q
  links : list'.entries.map LinkEntry.link =
    list.entries.map LinkEntry.link ++ if served o v then [link] else []

theorem wp_fillLink {block : ℕ} (howns : h.Owns (some block :: (list.blocks ++ qs)))
    (husable : Usable h list) (harray : h.readable list.array = true)
    (hserved : o (.array v) = true) (hblock : o (.entry v) = true) :
    (fillLink strings v list block link).wp (Blocks.sem o) (Visited o v list link qs h) h := by
  refine Prog.wp_bind_of _ (Blocks.wp_init howns (Option.some_ne_none block)) ?_
  rintro _ h₁ hinit
  refine Prog.wp_bind_of _
    (Blocks.wp_allocate Blocks.allocates_malloc hinit.owns [Site.id v, Site.status v]) ?_
  rintro ms h₂ hms
  have hmessages : none ∉ ms ↔ o (.id v) = true ∧ o (.status v) = true := by
    simpa using hms.served
  have hkeeps₂ : ∀ q ∈ list.blocks ++ qs, h₂.readable q = h.readable q := fun q hq => by
    rw [hms.keeps q (List.mem_append_right _ hq), hinit.keeps q hq]
  by_cases hnone : none ∈ ms
  · rw [if_pos (Blocks.all_isSome_eq_false_iff.2 hnone)]
    refine Prog.wp_bind_of _ (Blocks.wp_each_free hms.owns) ?_
    rintro _ h₃ hfree
    refine Prog.wp_bind_of _ (Blocks.wp_free hfree.owns) ?_
    rintro _ h₄ hfree'
    have hkeeps : ∀ q ∈ list.blocks ++ qs, h₄.readable q = h.readable q := fun q hq => by
      rw [hfree'.keeps q hq, hfree.keeps q (List.mem_cons_of_mem _ hq), hkeeps₂ q hq]
    have hmissing : served o v = false := by
      rw [← Bool.not_eq_true]
      intro hall
      simp only [served, Bool.and_eq_true] at hall
      exact hmessages.2 ⟨hall.1.2, hall.2⟩ hnone
    refine ⟨hfree'.owns, husable.keep ?_ ?_, fun q hq => ?_, ?_⟩
    · rw [hkeeps _ (List.mem_append_left _ List.mem_cons_self), harray]
    · exact fun q hq => hkeeps q (List.mem_append_left _ (List.mem_cons_of_mem _ hq))
    · exact hkeeps q (List.mem_append_right _ hq)
    · simp [hmissing]
  · rw [if_neg (mt Blocks.all_isSome_eq_false_iff.1 hnone)]
    refine Prog.wp_bind_of _ (Blocks.wp_each_init hms.owns hnone) ?_
    rintro _ h₃ hinits
    refine Prog.wp_bind_of _ (Blocks.wp_allocate Blocks.allocates_calloc hinits.owns _) ?_
    rintro ts h₄ hts
    have hkeeps : ∀ q ∈ list.blocks ++ qs, h₄.readable q = h.readable q := fun q hq => by
      rw [hts.keeps q (List.mem_append_right _ (List.mem_cons_of_mem _ hq)),
        hinits.keeps q (List.mem_cons_of_mem _ hq), hkeeps₂ q hq]
    have hserved : served o v = true := by
      have hmessages := hmessages.1 hnone
      simp only [served, hserved, hblock, hmessages.1, hmessages.2, Bool.and_self]
    have hlist : ∀ q ∈ list.blocks, h₄.readable q = h.readable q :=
      fun q hq => hkeeps q (List.mem_append_left qs hq)
    have harray₄ : h₄.readable list.array = true := by
      rw [hlist _ List.mem_cons_self, harray]
    have husable₄ : Usable h₄ list :=
      husable.keep harray₄ fun q hq => hlist q (List.mem_cons_of_mem _ hq)
    refine ⟨?_, husable₄.append harray₄ (fun p hp => ?_) (fun p hp hne => ?_),
      fun q hq => hkeeps q (List.mem_append_right _ hq), ?_⟩
    · refine hts.owns.perm (List.perm_iff_count.2 fun p => ?_)
      simp only [LinkList.blocks, blocksOf, List.flatMap_append, List.flatMap_singleton,
        LinkEntry.blocks, LinkEntry.fixed, List.cons_append, List.count_append,
        List.count_cons, List.count_nil]
      omega
    · rcases List.mem_append.1 hp with hp | hp
      · rw [hts.keeps p (List.mem_append_left _ hp)]
        exact hinits.ready p hp
      · obtain rfl := List.mem_singleton.1 hp
        rw [hts.keeps _ (List.mem_append_right _ List.mem_cons_self),
          hinits.keeps _ List.mem_cons_self, hms.keeps _ List.mem_cons_self]
        exact hinit.ready _ List.mem_cons_self
    · exact (hts.readable p hp hne).2 trivial
    · simp [hserved]

theorem wp_newLink (howns : h.Owns (list.blocks ++ qs)) (harray : list.array ≠ none)
    (hserved : o (.array v) = true)
    (hfixed : ∀ e ∈ list.entries, ∀ p ∈ e.fixed, h.readable p = true)
    (htexts : ∀ e ∈ list.entries, ∀ p ∈ e.texts, p ≠ none → h.readable p = true) :
    (newLink strings v list link).wp (Blocks.sem o) (Visited o v list link qs h) h := by
  refine Prog.wp_bind_of _ (Blocks.allocates_malloc (o := o) (.entry v) _ h howns) ?_
  rintro p h₁ hentry
  have howns₁ : h₁.Owns (list.array :: (p :: (blocksOf list.entries ++ qs))) :=
    hentry.owns.perm (.swap _ _ _)
  refine Prog.wp_bind_of _ (Blocks.wp_init howns₁ harray) ?_
  rintro _ h₂ hinit
  have hkeeps : ∀ q ∈ blocksOf list.entries ++ qs, h₂.readable q = h.readable q :=
    fun q hq => by
      rw [hinit.keeps q (List.mem_cons_of_mem _ hq),
        hentry.keeps q (List.mem_cons_of_mem _ hq)]
  have hready : h₂.readable list.array = true := hinit.ready _ List.mem_cons_self
  have husable : Usable h₂ list :=
    ⟨fun _ => hready,
      fun e he p hp => (hkeeps p (List.mem_append_left _ (fixed_subset he hp))).trans
        (hfixed e he p hp),
      fun e he p hp hne => (hkeeps p (List.mem_append_left _ (texts_subset he hp))).trans
        (htexts e he p hp hne)⟩
  have howns₂ : h₂.Owns (p :: (list.blocks ++ qs)) := hinit.owns.perm (.swap _ _ _)
  cases p with
  | none =>
      have hmissing : o (.entry v) = false := by
        rw [← Bool.not_eq_true]
        simpa using hentry.served
      refine ⟨Blocks.owns_nothing.1 howns₂, husable,
        fun q hq => hkeeps q (List.mem_append_right _ hq), ?_⟩
      simp [served, hmissing]
  | some block =>
      have hblock : o (.entry v) = true := by simpa using hentry.served
      refine Prog.wp_mono _ (wp_fillLink howns₂ husable hready hserved hblock) ?_
      rintro list' h₃ hvisited
      refine ⟨hvisited.owns, hvisited.usable, fun q hq => ?_, hvisited.links⟩
      rw [hvisited.keeps q hq, hkeeps q (List.mem_append_right _ hq)]

theorem wp_appendLink (howns : h.Owns (list.blocks ++ qs)) (husable : Usable h list)
    (hcache : h.readable cache = true) :
    (appendLink strings cache v list link).wp (Blocks.sem o)
      (Visited o v list link qs h) h := by
  refine (Prog.wp_bind _ _ _ _ _).2 (Blocks.wp_read_iff.2 ⟨hcache, ?_⟩)
  rw [LinkList.blocks, List.cons_append] at howns
  refine Prog.wp_bind_of _ (Blocks.wp_realloc _ _ howns) ?_
  rintro listpp h₁ (⟨hmissing, rfl, rfl⟩ | ⟨hserved, hlistpp, howns₁, hkeeps₁⟩)
  · rw [if_pos rfl]
    refine ⟨howns, husable, fun _ _ => rfl, ?_⟩
    simp [served, hmissing]
  · rw [if_neg hlistpp]
    have hkeeps := fun q hq => hkeeps₁ q (List.mem_append_left qs hq)
    refine Prog.wp_mono _ (wp_newLink howns₁ hlistpp hserved ?_ ?_) ?_
    · exact fun e he p hp => (hkeeps p (fixed_subset he hp)).trans (husable.fixed e he p hp)
    · exact fun e he p hp hne =>
        (hkeeps p (texts_subset he hp)).trans (husable.texts e he p hp hne)
    · rintro list' h₂ hvisited
      refine ⟨hvisited.owns, hvisited.usable, fun q hq => ?_, hvisited.links⟩
      rw [hvisited.keeps q hq, hkeeps₁ q (List.mem_append_right _ hq)]

/-- The visits list the links that got what they need, in their order. -/
theorem wp_visitLinks (links : List RtnlLink) (hcache : cache ∈ qs)
    (hready : h.readable cache = true) (howns : h.Owns (list.blocks ++ qs))
    (husable : Usable h list) :
    (visitLinks strings cache links v list).wp (Blocks.sem o) (fun list' h' =>
      h'.Owns (list'.blocks ++ qs) ∧ Usable h' list' ∧
        (∀ q ∈ qs, h'.readable q = h.readable q) ∧
        list'.entries.map LinkEntry.link =
          list.entries.map LinkEntry.link ++ listed o v links) h := by
  induction links generalizing h v list with
  | nil => exact ⟨howns, husable, fun _ _ => rfl, (List.append_nil _).symm⟩
  | cons link links ih =>
      refine Prog.wp_bind_of _ (wp_appendLink howns husable hready) ?_
      rintro list₁ h₁ hvisited
      have hready₁ : h₁.readable cache = true := (hvisited.keeps cache hcache).trans hready
      refine Prog.wp_mono _ (ih hready₁ hvisited.owns hvisited.usable) ?_
      rintro list₂ h₂ ⟨howns₂, husable₂, hkeeps₂, hlinks₂⟩
      refine ⟨howns₂, husable₂, fun q hq => ?_, ?_⟩
      · rw [hkeeps₂ q hq, hvisited.keeps q hq]
      · rw [hlinks₂, hvisited.links, List.append_assoc, listed]
        split <;> rfl

end Visit

section Reply

variable {o : Site → Bool} {h : Heap} {qs : List (Option ℕ)}
variable {sock cache array link : Option ℕ} {list : LinkList} {es : List LinkEntry}

theorem wp_each_readText {ps : List (Option ℕ)}
    (hready : ∀ p ∈ ps, p ≠ none → h.readable p = true) :
    (Blocks.each readText ps).wp (Blocks.sem o) (fun _ h' => h' = h) h := by
  induction ps with
  | nil => rfl
  | cons p ps ih =>
      obtain ⟨hp, hps⟩ := List.forall_mem_cons.1 hready
      refine Prog.wp_bind_of _ (Q := fun _ h' => h' = h) ?_ ?_
      · rw [readText]
        split
        · rfl
        · next hne => exact Blocks.wp_read_iff.2 ⟨hp hne, rfl⟩
      · rintro _ _ rfl
        exact ih hps

theorem wp_closure (hcache : h.readable cache = true) (husable : Usable h list) :
    (closure cache list.array list.entries).wp (Blocks.sem o) (fun _ h' => h' = h) h := by
  obtain ⟨array, es⟩ := list
  induction es with
  | nil => rfl
  | cons e es ih =>
      have hrest : Usable h ⟨array, es⟩ :=
        ⟨fun _ => husable.array (List.cons_ne_nil e es),
          fun e' he => husable.fixed e' (List.mem_cons_of_mem e he),
          fun e' he => husable.texts e' (List.mem_cons_of_mem e he)⟩
      have harray := husable.array (List.cons_ne_nil e es)
      refine (Prog.wp_bind _ _ _ _ _).2 (Blocks.wp_read_iff.2 ⟨harray, ?_⟩)
      refine Prog.wp_bind_of _ (Blocks.wp_each_read (husable.fixed e List.mem_cons_self)) ?_
      rintro _ _ rfl
      refine Prog.wp_bind_of _ (wp_each_readText (husable.texts e List.mem_cons_self)) ?_
      rintro _ _ rfl
      exact (Prog.wp_bind _ _ _ _ _).2 (Blocks.wp_read_iff.2 ⟨hcache, ih hrest⟩)

/-- Each block of the entries is released once. -/
theorem wp_freeLinks (harray : array ∈ qs) (hready : es ≠ [] → h.readable array = true)
    (hfixed : ∀ e ∈ es, ∀ p ∈ e.fixed, h.readable p = true)
    (howns : h.Owns (blocksOf es ++ qs)) :
    (freeLinks array es).wp (Blocks.sem o) (fun _ h' => Blocks.Leaves qs h h') h := by
  induction es generalizing h with
  | nil => exact .refl howns
  | cons e es ih =>
      have hready := hready (List.cons_ne_nil e es)
      obtain ⟨he, hes⟩ := List.forall_mem_cons.1 hfixed
      have hblock := he (some e.block) (List.mem_append_right _ List.mem_cons_self)
      rw [blocksOf, List.flatMap_cons, LinkEntry.blocks, LinkEntry.fixed] at howns
      simp only [List.append_assoc, List.singleton_append] at howns
      refine (Prog.wp_bind _ _ _ _ _).2 (Blocks.wp_read_iff.2 ⟨hready, ?_⟩)
      refine (Prog.wp_bind _ _ _ _ _).2 (Blocks.wp_read_iff.2 ⟨hblock, ?_⟩)
      refine Prog.wp_bind_of _ (Blocks.wp_each_free howns) ?_
      rintro _ h₁ htexts
      refine Prog.wp_bind_of _ (Blocks.wp_each_free htexts.owns) ?_
      rintro _ h₂ hmessages
      refine Prog.wp_bind_of _ (Blocks.wp_free hmessages.owns) ?_
      rintro _ h₃ hfree
      have hleaves : Blocks.Leaves (blocksOf es ++ qs) h h₃ :=
        (htexts.trans hmessages (List.subset_append_right _ _)).trans hfree
          (List.subset_cons_self _ _)
      have hready₃ : h₃.readable array = true := by
        rw [hleaves.keeps array (List.mem_append_right _ harray), hready]
      refine Prog.wp_mono _ (ih (fun _ => hready₃) (fun e' he' p hp => ?_) hleaves.owns) ?_
      · have hmem : p ∈ blocksOf es :=
          List.mem_flatMap.2 ⟨e', he', List.mem_append_right _ hp⟩
        rw [hleaves.keeps p (List.mem_append_left _ hmem), hes e' he' p hp]
      · exact fun _ _ hrest => hleaves.trans hrest (List.subset_append_right _ _)

theorem wp_close (husable : Usable h list)
    (howns : h.Owns (list.blocks ++ link :: cache :: sock :: qs)) :
    (close list link cache sock).wp (Blocks.sem o)
      (fun _ h' => Blocks.Leaves qs h h') h := by
  have howns' : h.Owns (blocksOf list.entries ++ list.array :: link :: cache :: sock :: qs) :=
    howns.perm List.perm_middle.symm
  refine Prog.wp_bind_of _
    (wp_freeLinks List.mem_cons_self husable.array husable.fixed howns') ?_
  rintro _ h₁ hlinks
  refine Prog.wp_bind_of _ (Blocks.wp_free hlinks.owns) ?_
  rintro _ h₂ harray
  refine Prog.wp_bind_of _ (Blocks.wp_free harray.owns) ?_
  rintro _ h₃ hlink
  refine Prog.wp_bind_of _ (Blocks.wp_free hlink.owns) ?_
  rintro _ h₄ hcache
  refine Prog.wp_mono _ (Blocks.wp_free hcache.owns) ?_
  rintro _ h₅ hsock
  have hleaves₂ := hlinks.trans harray (List.subset_cons_self _ _)
  have hleaves₃ := hleaves₂.trans hlink (List.subset_cons_self _ _)
  have hleaves₄ := hleaves₃.trans hcache (List.subset_cons_self _ _)
  exact hleaves₄.trans hsock (List.subset_cons_self _ _)

theorem usable_nil (h : Heap) : Usable h ⟨none, []⟩ where
  array hne := absurd rfl hne
  fixed _ he := absurd he List.not_mem_nil
  texts _ he := absurd he List.not_mem_nil

variable {strings : ℕ} {idList : List (List Posix.Byte)} {links : List RtnlLink}

theorem socket_of_wp {Q : Option (List RtnlLink) → Heap → Prop} (howns : h.Owns qs)
    (hwp : (interfaceGet strings idList links).wp (Blocks.sem o) Q h) : o .socket = true := by
  obtain ⟨sock, h₁, hgiven, hbind⟩ := Blocks.exists_bind
    (Blocks.allocates_calloc (o := o) .socket qs h howns)
  rw [interfaceGet, Prog.bind_eq, hbind] at hwp
  have hread := (Blocks.wp_read_iff.1 ((Prog.wp_bind _ _ _ _ _).1 hwp)).1
  have hserved : none ≠ sock ↔ o .socket = true := by simpa using hgiven.served
  refine hserved.1 ?_
  rintro rfl
  exact Bool.false_ne_true hread

theorem wp_useLink (hlink : h.readable link = true) :
    (useLink idList link).wp (Blocks.sem o) (fun _ h' => h' = h) h := by
  rw [useLink]
  split
  · rfl
  · exact Blocks.wp_read_iff.2 ⟨hlink, rfl⟩

theorem wp_interfaceGet (howns : h.Owns qs) (hsocket : o .socket = true) :
    (interfaceGet strings idList links).wp (Blocks.sem o) (fun reply h' =>
      Blocks.Leaves qs h h' ∧ reply =
        if o .cache = true ∧ o .link = true then
          some (listed o 0 (visitedLinks idList links))
        else none) h := by
  refine Prog.wp_bind_of _ (Blocks.allocates_calloc (o := o) .socket qs h howns) ?_
  rintro sock h₁ hsock
  have hne : sock ≠ none := by
    have hserved : none ≠ sock ↔ o .socket = true := by simpa using hsock.served
    exact (hserved.2 hsocket).symm
  have hready := (hsock.readable sock List.mem_cons_self hne).2 trivial
  refine (Prog.wp_bind _ _ _ _ _).2 (Blocks.wp_read_iff.2 ⟨hready, ?_⟩)
  refine Prog.wp_bind_of _ (Blocks.allocates_calloc (o := o) .cache _ h₁ hsock.owns) ?_
  rintro cache h₂ hcache
  refine Prog.wp_bind_of _ (Blocks.allocates_calloc (o := o) .link _ h₂ hcache.owns) ?_
  rintro link h₃ hlink
  have howns₃ : h₃.Owns (link :: cache :: sock :: qs) := hlink.owns
  have hkeeps₃ : ∀ q ∈ qs, h₃.readable q = h.readable q := fun q hq => by
    rw [hlink.keeps q (List.mem_cons_of_mem _ (List.mem_cons_of_mem _ hq)),
      hcache.keeps q (List.mem_cons_of_mem _ hq), hsock.keeps q hq]
  have hserved : none ≠ cache ↔ o .cache = true := by simpa using hcache.served
  have hserved' : none ≠ link ↔ o .link = true := by simpa using hlink.served
  have hlist : h₃.Owns (LinkList.blocks ⟨none, []⟩ ++ link :: cache :: sock :: qs) :=
    Blocks.owns_nothing.2 howns₃
  by_cases hmissing : cache = none ∨ link = none
  · rw [if_pos hmissing]
    refine Prog.wp_bind_of _ (wp_close (usable_nil h₃) hlist) ?_
    rintro _ h₄ hleaves
    refine ⟨⟨hleaves.owns, fun q hq => ?_⟩, ?_⟩
    · rw [hleaves.keeps q hq, hkeeps₃ q hq]
    · rw [if_neg]
      rintro ⟨hcache', hlink'⟩
      exact hmissing.elim (fun h => hserved.2 hcache' h.symm)
        fun h => hserved'.2 hlink' h.symm
  · rw [if_neg hmissing]
    obtain ⟨hcache', hlink'⟩ := not_or.1 hmissing
    have hreadyLink := (hlink.readable link List.mem_cons_self hlink').2 trivial
    have hreadyCache : h₃.readable cache = true := by
      rw [hlink.keeps cache List.mem_cons_self]
      exact (hcache.readable cache List.mem_cons_self hcache').2 trivial
    refine Prog.wp_bind_of _ (wp_useLink hreadyLink) ?_
    rintro _ _ rfl
    refine Prog.wp_bind_of _ (wp_visitLinks _
      (List.mem_cons_of_mem link List.mem_cons_self) hreadyCache hlist (usable_nil _)) ?_
    rintro list h₄ ⟨howns₄, husable₄, hkeeps₄, hlinks₄⟩
    have hreadyCache₄ : h₄.readable cache = true := by
      rw [hkeeps₄ cache (List.mem_cons_of_mem link List.mem_cons_self), hreadyCache]
    refine Prog.wp_bind_of _ (wp_closure hreadyCache₄ husable₄) ?_
    rintro _ _ rfl
    refine Prog.wp_bind_of _ (wp_close husable₄ howns₄) ?_
    rintro _ h₅ hleaves
    refine ⟨⟨hleaves.owns, fun q hq => ?_⟩, ?_⟩
    · have hmem : q ∈ link :: cache :: sock :: qs := by simp [hq]
      rw [hleaves.keeps q hq, hkeeps₄ q hmem, hkeeps₃ q hq]
    · rw [if_pos ⟨hserved.1 (Ne.symm hcache'), hserved'.1 (Ne.symm hlink')⟩]
      exact congrArg some hlinks₄

/-- The handlers that list interfaces, but for the one that lists their capabilities. -/
def interfaceGets : List Get :=
  [dabbadInterfaceStatusGet, dabbadInterfaceStatisticsGet, dabbadInterfaceDriverGet,
    dabbadInterfacePauseGet, dabbadInterfaceCoalesceGet, dabbadInterfaceOffloadGet,
    dabbadInterfaceSettingsGet]

theorem exists_strings {get : Get} (hget : get ∈ interfaceGets) :
    ∃ strings, get = interfaceGet strings := by
  simp only [interfaceGets, List.mem_cons, List.not_mem_nil, or_false] at hget
  rcases hget with rfl | rfl | rfl | rfl | rfl | rfl | rfl
  exacts [⟨0, rfl⟩, ⟨0, rfl⟩, ⟨4, rfl⟩, ⟨0, rfl⟩, ⟨0, rfl⟩, ⟨0, rfl⟩, ⟨0, rfl⟩]

/-- Each of these handlers aborts exactly where the socket is missing. Everywhere else it
leaves the heap as it found it, and lists exactly the links that got what they need, in the
order of the visits. -/
theorem interfaceGets_balanced (o : Site → Bool) {h : Heap} {qs : List (Option ℕ)}
    (howns : h.Owns qs) :
    ∀ get ∈ interfaceGets, ∀ idList links,
      ((∃ Q, (get idList links).wp (Blocks.sem o) Q h) ↔ o .socket = true) ∧
      (o .socket = true → (get idList links).wp (Blocks.sem o) (fun reply h' =>
        Blocks.Leaves qs h h' ∧ reply =
          if o .cache = true ∧ o .link = true then
            some (listed o 0 (visitedLinks idList links))
          else none) h) := by
  intro get hget idList links
  obtain ⟨strings, rfl⟩ := exists_strings hget
  exact ⟨⟨fun ⟨_, hwp⟩ => socket_of_wp howns hwp,
    fun hsocket => ⟨_, wp_interfaceGet howns hsocket⟩⟩, wp_interfaceGet howns⟩

/-- Every site is served but the entry of the first visit. -/
def firstEntryMissing : Site → Bool
  | .entry 0 => false
  | _ => true

theorem interfaceGets_balanced_firstEntryMissing :
    (dabbadInterfaceDriverGet [] [⟨[97], 0, 0⟩, ⟨[98], 0, 0⟩]).wp (Blocks.sem firstEntryMissing)
      (fun reply h' => Blocks.Leaves [] Heap.empty h' ∧
        reply = some [⟨[98], 0, 0⟩]) Heap.empty :=
  (interfaceGets_balanced firstEntryMissing Heap.owns_empty dabbadInterfaceDriverGet
    (by simp [interfaceGets]) [] [⟨[97], 0, 0⟩, ⟨[98], 0, 0⟩]).2 rfl

end Reply

end Dabbad.LinkListing
