import Dabba.Dabbad.CapabilitiesGet

/-!
# The blocks of the listed capabilities

Under the outcomes of its calls a visit appends one entry whose blocks are all live and
initialised, or leaves the entries alone and releases what it allocated, as long as it
does not come to the second group of blocks with one of them missing. There it releases
everything and then reads what it released.
-/

namespace Dabbad

open Posix Program Interface Resource

def CapEntry.blocks (e : CapEntry) : List (Option ℕ) :=
  some e.block :: (e.fields ++ e.duplex)

theorem CapEntry.fields_subset (e : CapEntry) : e.fields ⊆ e.blocks :=
  fun _ hp => List.mem_cons_of_mem _ (List.mem_append_left _ hp)

theorem CapEntry.duplex_subset (e : CapEntry) : e.duplex ⊆ e.blocks :=
  fun _ hp => List.mem_cons_of_mem _ (List.mem_append_right _ hp)

/-- The live blocks are the array and the blocks of the entries, each of them once. The
entries are whole, and all their blocks were initialised. -/
structure LiveList (heap : Heap) (list : CapList) : Prop where
  owns : heap.Owns (list.array :: list.entries.flatMap CapEntry.blocks)
  ready : ∀ p ∈ list.entries.flatMap CapEntry.blocks, heap.readable p = true
  whole : ∀ e ∈ list.entries, e.fields.length = 8 ∧ e.duplex.length = 12

namespace LiveList

variable {h h' h'' : Heap} {list : CapList}

theorem keep (hlive : LiveList h list)
    (hleaves : Blocks.Leaves (list.array :: list.entries.flatMap CapEntry.blocks) h h') :
    LiveList h' list where
  owns := hleaves.owns
  ready p hp := (hleaves.keeps p (List.mem_cons_of_mem _ hp)).trans (hlive.ready p hp)
  whole := hlive.whole

/-- An entry whose blocks are all there is appended. -/
theorem append {block : ℕ} {fields duplex : List (Option ℕ)}
    {value : CapabilitiesEntry} (hlive : LiveList h list)
    (hshell : Blocks.Initialised (some block :: fields)
      (list.array :: list.entries.flatMap CapEntry.blocks) h h')
    (hduplex : Blocks.Initialised duplex
      (some block :: fields ++ list.array :: list.entries.flatMap CapEntry.blocks) h' h'')
    (hfields : fields.length = 8) (hlength : duplex.length = 12) :
    LiveList h'' { list with
      entries := list.entries ++ [⟨block, fields, duplex, value⟩] } where
  owns := by
    refine hduplex.owns.perm (List.perm_iff_count.2 fun p => ?_)
    simp only [List.flatMap_append, List.flatMap_singleton, CapEntry.blocks,
      List.cons_append, List.count_append, List.count_cons]
    omega
  ready := by
    rw [List.flatMap_append, List.flatMap_singleton, CapEntry.blocks]
    refine List.forall_mem_append.2 ⟨fun p hp => ?_, ?_⟩
    · have hmem : p ∈ list.array :: list.entries.flatMap CapEntry.blocks :=
        List.mem_cons_of_mem _ hp
      rw [hduplex.keeps p (List.mem_append_right _ hmem), hshell.keeps p hmem]
      exact hlive.ready p hp
    · have hfirst : ∀ p ∈ some block :: fields, h''.readable p = true := fun p hp =>
        (hduplex.keeps p (List.mem_append_left _ hp)).trans (hshell.ready p hp)
      rw [← List.cons_append]
      exact List.forall_mem_append.2 ⟨hfirst, hduplex.ready⟩
  whole := List.forall_mem_append.2
    ⟨hlive.whole, fun _ he => List.mem_singleton.1 he ▸ ⟨hfields, hlength⟩⟩

end LiveList

namespace CapAnswers

variable {o : CapAnswers} {s : CapState} {v : ℕ}

def EntryAllocated (o : CapAnswers) (v : ℕ) : Prop :=
  o.served (.entry v) = true ∧ ∀ a < 8, o.served (.field v a) = true

def ShellAllocated (o : CapAnswers) (v : ℕ) : Prop :=
  o.served (.array v) = true ∧ o.EntryAllocated v

def DuplexAllocated (o : CapAnswers) (v : ℕ) : Prop :=
  ∀ a < 12, o.served (.duplex v a) = true

theorem wp_call {α β : Type} {op : HeapCall β} {k : β → Prog HeapCall α}
    {Q : α → CapState → Prop} :
    (Prog.call op k).wp o.sem Q s ↔
      (k (HeapCall.handle op o s).1).wp o.sem Q (HeapCall.handle op o s).2 :=
  Prog.wp_call_const

theorem exists_bind {α : Type} {p : Prog HeapCall α} {P : α → CapState → Prop}
    (hp : p.wp o.sem P s) :
    ∃ a s', P a s' ∧ ∀ {β : Type} (f : α → Prog HeapCall β) (Q : β → CapState → Prop),
      (p.bind f).wp o.sem Q s ↔ (f a).wp o.sem Q s' :=
  Prog.exists_bind_const hp

theorem wp_onHeap {α : Type} {p : HeapCode α} {Q : α → CapState → Prop} :
    (onHeap p).wp o.sem Q s ↔
      p.wp (Blocks.sem o.served) (fun a heap => Q a { s with heap := heap }) s.heap := by
  induction p generalizing s with
  | ret a => rfl
  | abort => rfl
  | call op k ih => exact wp_call.trans ((ih _).trans Blocks.wp_call.symm)

theorem wp_onHeap_of {α : Type} {p : HeapCode α} {P : α → Heap → Prop}
    (hp : p.wp (Blocks.sem o.served) P s.heap) :
    (onHeap p).wp o.sem (fun a s' => s'.devices = s.devices ∧ P a s'.heap) s :=
  wp_onHeap.2 (Prog.wp_mono _ hp fun _ _ h => ⟨rfl, h⟩)

section Blocks

variable {h : Heap} {qs : List (Option ℕ)} {block : ℕ} {fields duplex : List (Option ℕ)}

variable (o) in
theorem wp_mallocs (sites : List CapSite) (howns : h.Owns qs) :
    (mallocs sites).wp (Blocks.sem o.served) (Blocks.Given o.served False sites qs h) h :=
  Blocks.wp_allocate Blocks.allocates_malloc howns sites

/-- The first group of blocks is there and was initialised, or nothing of it is left. -/
def EntryGiven (o : CapAnswers) (v : ℕ) (qs : List (Option ℕ)) (h : Heap) :
    Option (ℕ × List (Option ℕ)) → Heap → Prop
  | none, h' => ¬ o.EntryAllocated v ∧ Blocks.Leaves qs h h'
  | some (block, fields), h' => o.EntryAllocated v ∧ fields.length = 8 ∧
      Blocks.Initialised (some block :: fields) qs h h'

theorem wp_newEntry (howns : h.Owns qs) :
    (newEntry v).wp (Blocks.sem o.served) (o.EntryGiven v qs h) h := by
  refine Prog.wp_bind_of _
    (Blocks.allocates_malloc (o := o.served) (.entry v) qs h howns) ?_
  rintro p h₁ hentry
  cases p with
  | none =>
      refine ⟨fun hall => ?_, Blocks.owns_nothing.1 hentry.owns, hentry.keeps⟩
      have hmem : none ∉ [(none : Option ℕ)] := hentry.served.2 (by simpa using hall.1)
      exact hmem List.mem_cons_self
  | some block =>
      have hserved : o.served (.entry v) = true := by simpa using hentry.served
      refine Prog.wp_bind_of _ (Blocks.wp_init hentry.owns (Option.some_ne_none block)) ?_
      rintro _ h₂ hinit
      refine Prog.wp_bind_of _ (wp_mallocs _ _ hinit.owns) ?_
      rintro fields h₃ hfields
      have hall : none ∉ fields ↔ o.EntryAllocated v := by
        rw [hfields.served, EntryAllocated, and_iff_right hserved]
        simp
      have hkeeps : ∀ q ∈ qs, h₃.readable q = h.readable q := fun q hq => by
        rw [hfields.keeps q (List.mem_cons_of_mem _ hq), hinit.keeps q hq,
          hentry.keeps q hq]
      by_cases hnone : none ∈ fields
      · rw [if_pos hnone]
        refine Prog.wp_bind_of _ (Blocks.wp_each_free hfields.owns) ?_
        rintro _ h₄ hfree
        refine Prog.wp_bind_of _ (Blocks.wp_free hfree.owns) ?_
        rintro _ h₅ hfree'
        refine ⟨fun h => hall.2 h hnone, hfree'.owns, fun q hq => ?_⟩
        rw [hfree'.keeps q hq, hfree.keeps q (List.mem_cons_of_mem _ hq), hkeeps q hq]
      · rw [if_neg hnone]
        refine Prog.wp_bind_of _ (Blocks.wp_each_init hfields.owns hnone) ?_
        rintro _ h₄ hinits
        refine ⟨hall.1 hnone, by simpa using hfields.length, ?_, fun q hq => ?_, ?_⟩
        · exact hinits.owns.perm List.perm_middle
        · rw [hinits.keeps q (List.mem_cons_of_mem _ hq), hkeeps q hq]
        · refine List.forall_mem_cons.2 ⟨?_, hinits.ready⟩
          rw [hinits.keeps _ List.mem_cons_self, hfields.keeps _ List.mem_cons_self]
          exact hinit.ready _ List.mem_cons_self

theorem wp_releaseBlocks (howns : h.Owns (some block :: (fields ++ duplex) ++ qs)) :
    (releaseBlocks block fields duplex).wp (Blocks.sem o.served)
      (fun _ h' => Blocks.Leaves qs h h') h := by
  have hperm : (some block :: (fields ++ duplex) ++ qs).Perm
      (duplex ++ (fields ++ (some block :: qs))) := by
    refine List.perm_iff_count.2 fun p => ?_
    simp only [List.cons_append, List.count_append, List.count_cons]
    omega
  refine Prog.wp_bind_of _ (Blocks.wp_each_free (howns.perm hperm)) ?_
  rintro _ h₁ hduplex
  refine Prog.wp_bind_of _ (Blocks.wp_each_free hduplex.owns) ?_
  rintro _ h₂ hfields
  refine Prog.wp_mono _ (Blocks.wp_free hfields.owns) ?_
  rintro _ h₃ hblock
  have hleaves := hduplex.trans hfields (List.subset_append_right _ _)
  exact hleaves.trans hblock (List.subset_cons_self _ _)

/-- With a block of the second group missing, everything is released and then read. -/
theorem newDuplex_cases (howns : h.Owns (some block :: fields ++ qs))
    (hready : ∀ p ∈ some block :: fields, h.readable p = true) :
    (¬ o.DuplexAllocated v ∧
      ∀ Q, ¬ (newDuplex v block fields).wp (Blocks.sem o.served) Q h) ∨
    (o.DuplexAllocated v ∧ (newDuplex v block fields).wp (Blocks.sem o.served)
      (fun duplex h' => duplex.length = 12 ∧
        Blocks.Initialised duplex (some block :: fields ++ qs) h h') h) := by
  obtain ⟨duplex, h₁, hduplex, hmallocs⟩ := Blocks.exists_bind
    (wp_mallocs o ((List.range 12).map (.duplex v)) howns)
  have hall : none ∉ duplex ↔ o.DuplexAllocated v := by
    rw [hduplex.served, DuplexAllocated]
    simp
  simp only [newDuplex, Prog.bind_eq, hmallocs]
  by_cases hnone : none ∈ duplex
  · refine .inl ⟨fun h => hall.2 h hnone, fun Q hwp => ?_⟩
    have howns₁ : h₁.Owns (some block :: (fields ++ duplex) ++ qs) := by
      refine hduplex.owns.perm (List.perm_iff_count.2 fun p => ?_)
      simp only [List.cons_append, List.count_append, List.count_cons]
      omega
    obtain ⟨_, h₂, hleaves, hrelease⟩ :=
      Blocks.exists_bind (wp_releaseBlocks (o := o) howns₁)
    have hblock : some block ∉ qs := fun hmem => howns.not_mem (List.mem_append_right _ hmem)
    rw [if_pos hnone, hrelease] at hwp
    have hread := (Blocks.wp_read_iff.1 ((Prog.wp_bind _ _ _ _ _).1 hwp)).1
    rw [hleaves.owns.not_readable hblock] at hread
    exact Bool.false_ne_true hread
  · refine .inr ⟨hall.1 hnone, ?_⟩
    obtain ⟨hblock, hfields⟩ := List.forall_mem_cons.1 fun p hp =>
      (hduplex.keeps p (List.mem_append_left _ hp)).trans (hready p hp)
    rw [if_neg hnone]
    refine (Prog.wp_bind _ _ _ _ _).2 (Blocks.wp_read_iff.2 ⟨hblock, ?_⟩)
    refine Prog.wp_bind_of _ (Blocks.wp_each_read hfields) ?_
    rintro _ _ rfl
    refine Prog.wp_bind_of _ (Blocks.wp_each_init hduplex.owns hnone) ?_
    rintro _ h₂ hinits
    refine ⟨by simpa using hduplex.length, hinits.owns, fun q hq => ?_, hinits.ready⟩
    rw [hinits.keeps q hq, hduplex.keeps q hq]

end Blocks

section Visit

attribute [local irreducible] mallocs

variable {list : CapList} {link : RtnlLink}

def entry (o : CapAnswers) (devices : Devices) (v : ℕ) (link : RtnlLink) :
    CapabilitiesEntry :=
  let r := (devices.request (ifrName link.name) .gset (o.settings v)).1
  ⟨r.1, capabilitiesReported link.name (r.2.getD .zero)⟩

theorem wp_fillCapabilities (v : ℕ) (link : RtnlLink) :
    (fillCapabilities v link).wp o.sem
      (fun value s' => value = o.entry s.devices v link ∧ s' = s) s := by
  have hdevices := s.devices.request_of_read (ifrName link.name)
    (fun _ => rfl : ∀ d, (Request.gset.serve d).2 = d) (o.settings v)
  refine wp_call.2 ⟨rfl, ?_⟩
  simp only [HeapCall.handle, DevCall.handle, CapAnswers.dev, hdevices]

/-- What a visit leaves: the live list has one more entry, or the same ones. -/
structure Visited (o : CapAnswers) (s : CapState) (v : ℕ) (link : RtnlLink)
    (list list' : CapList) (s' : CapState) : Prop where
  live : LiveList s'.heap list'
  devices : s'.devices = s.devices
  appended : o.ShellAllocated v → ∃ e, list'.entries = list.entries ++ [e] ∧
    e.value = o.entry s.devices v link
  skipped : ¬ o.ShellAllocated v → list'.entries = list.entries

/-- With room in the array, a visit aborts if and only if it comes to the second group of
blocks with one of them missing. -/
theorem fillEntry_cases (hlive : LiveList s.heap list) (harray : o.served (.array v) = true)
    (link : RtnlLink) :
    (o.ShellAllocated v ∧ ¬ o.DuplexAllocated v ∧
      ∀ Q, ¬ (fillEntry v list link).wp o.sem Q s) ∨
    ((o.ShellAllocated v → o.DuplexAllocated v) ∧
      (fillEntry v list link).wp o.sem (o.Visited s v link list) s) := by
  obtain ⟨p, s₁, ⟨hdevices, hnew⟩, hbind⟩ :=
    exists_bind (wp_onHeap_of (wp_newEntry (o := o) (v := v) hlive.owns))
  simp only [fillEntry, Prog.bind_eq, hbind]
  cases p with
  | none =>
      obtain ⟨hentry, hleaves⟩ := hnew
      have hshell : ¬ o.ShellAllocated v := fun h => hentry h.2
      exact .inr ⟨fun h => absurd h hshell, hlive.keep hleaves, hdevices,
        fun h => absurd h hshell, fun _ => rfl⟩
  | some shell =>
      obtain ⟨block, fields⟩ := shell
      obtain ⟨hentry, hlength, hinit⟩ := hnew
      have hshell : o.ShellAllocated v := ⟨harray, hentry⟩
      rcases newDuplex_cases (o := o) (v := v) hinit.owns hinit.ready with
        ⟨hduplex, hnot⟩ | ⟨hduplex, hwp⟩
      · refine .inl ⟨hshell, hduplex, fun Q h => ?_⟩
        exact hnot _ (wp_onHeap.1 ((Prog.wp_bind _ _ _ _ _).1 h))
      · refine .inr ⟨fun _ => hduplex, ?_⟩
        refine Prog.wp_bind_of _ (wp_onHeap_of hwp) ?_
        rintro duplex s₂ ⟨hdevices', hlength', hinit'⟩
        refine Prog.wp_bind_of _ (wp_fillCapabilities v link) ?_
        rintro value _ ⟨rfl, rfl⟩
        rw [hdevices', hdevices]
        exact ⟨hlive.append hinit hinit' hlength hlength', hdevices'.trans hdevices,
          fun _ => ⟨_, rfl, rfl⟩, fun h => absurd hshell h⟩

/-- A visit aborts if and only if it comes to the second group of blocks with one of them
missing. -/
theorem visit_cases (hlive : LiveList s.heap list) (link : RtnlLink) :
    (o.ShellAllocated v ∧ ¬ o.DuplexAllocated v ∧
      ∀ Q, ¬ (interfaceCapabilitiesGet v list link).wp o.sem Q s) ∨
    ((o.ShellAllocated v → o.DuplexAllocated v) ∧
      (interfaceCapabilitiesGet v list link).wp o.sem (o.Visited s v link list) s) := by
  obtain ⟨listpp, s₁, ⟨hdevices, hrealloc⟩, hbind⟩ := exists_bind (wp_onHeap_of
    (Blocks.wp_realloc o.served (.array v) hlive.owns))
  simp only [interfaceCapabilitiesGet, Prog.bind_eq, hbind]
  rcases hrealloc with ⟨hmissing, rfl, hheap⟩ | ⟨hserved, hne, howns, hkeeps⟩
  · rw [if_pos rfl]
    have hshell : ¬ o.ShellAllocated v :=
      fun h => Bool.false_ne_true (hmissing.symm.trans h.1)
    rw [← hheap] at hlive
    exact .inr ⟨fun h => absurd h hshell, hlive, hdevices, fun h => absurd h hshell,
      fun _ => rfl⟩
  · rw [if_neg hne]
    have hlive₁ : LiveList s₁.heap { list with array := listpp } :=
      ⟨howns, fun p hp => (hkeeps p hp).trans (hlive.ready p hp), hlive.whole⟩
    refine (fillEntry_cases hlive₁ hserved link).imp_right (And.imp_right fun hwp => ?_)
    refine Prog.wp_mono _ hwp fun _ _ h => ⟨h.live, h.devices.trans hdevices, ?_, h.skipped⟩
    rw [← hdevices]
    exact h.appended

end Visit

section Visits

variable {list : CapList} {links : List RtnlLink}

/-- No visit comes to the second group of blocks with one of them missing. -/
def NoneMissing (o : CapAnswers) (v n : ℕ) : Prop :=
  ∀ i < n, o.ShellAllocated (v + i) → o.DuplexAllocated (v + i)

theorem noneMissing_succ {n : ℕ} :
    o.NoneMissing v (n + 1) ↔
      (o.ShellAllocated v → o.DuplexAllocated v) ∧ o.NoneMissing (v + 1) n := by
  rw [NoneMissing, Nat.forall_lt_succ_left]
  simp only [NoneMissing, Nat.add_zero, Nat.add_assoc, Nat.add_comm 1]

instance (v : ℕ) : Decidable (o.ShellAllocated v) :=
  inferInstanceAs (Decidable (_ ∧ _ ∧ ∀ a < 8, o.served (.field v a) = true))

/-- The entries of the links, without those for which memory was short. -/
def reported (o : CapAnswers) (devices : Devices) : ℕ → List RtnlLink →
    List CapabilitiesEntry
  | _, [] => []
  | v, link :: links =>
      (if o.ShellAllocated v then [o.entry devices v link] else []) ++
        reported o devices (v + 1) links

theorem Visited.map_value {link : RtnlLink} {list' : CapList} {s' : CapState}
    (h : o.Visited s v link list list' s') :
    list'.entries.map CapEntry.value = list.entries.map CapEntry.value ++
      if o.ShellAllocated v then [o.entry s.devices v link] else [] := by
  split
  case isTrue hshell =>
    obtain ⟨e, hentries, hvalue⟩ := h.appended hshell
    rw [hentries, List.map_append, List.map_singleton, hvalue]
  case isFalse hshell => rw [h.skipped hshell, List.append_nil]

/-- The visits abort, or what they leave is live and has the entries of the links. -/
theorem visits_cases (hlive : LiveList s.heap list) (v : ℕ) (links : List RtnlLink) :
    (¬ o.NoneMissing v links.length ∧
      ∀ Q, ¬ (visitCapabilities links v list).wp o.sem Q s) ∨
    (o.NoneMissing v links.length ∧ (visitCapabilities links v list).wp o.sem
      (fun list' s' => LiveList s'.heap list' ∧
        list'.entries.map CapEntry.value = list.entries.map CapEntry.value ++
          o.reported s.devices v links) s) := by
  induction links generalizing list s v with
  | nil => exact .inr ⟨fun i hi => absurd hi (Nat.not_lt_zero i), hlive, by simp [reported]⟩
  | cons link links ih =>
      rw [List.length_cons, noneMissing_succ, visitCapabilities, Prog.bind_eq]
      rcases visit_cases (o := o) (v := v) hlive link with
        ⟨hshell, hduplex, hnot⟩ | ⟨hone, hvisit⟩
      · refine .inl ⟨fun h => hduplex (h.1 hshell), fun Q h => ?_⟩
        exact hnot _ ((Prog.wp_bind _ _ _ _ _).1 h)
      obtain ⟨list₁, s₁, hvisited, hbind⟩ := exists_bind hvisit
      rcases ih hvisited.live (v + 1) with ⟨hmissing, hnot⟩ | ⟨hnone, hvisits⟩
      · exact .inl ⟨fun h => hmissing h.2, fun Q h => hnot Q ((hbind _ Q).1 h)⟩
      · refine .inr ⟨⟨hone, hnone⟩, (hbind _ _).2 ?_⟩
        refine Prog.wp_mono _ hvisits ?_
        rintro list' s' ⟨hlive', hvalues⟩
        refine ⟨hlive', ?_⟩
        rw [hvalues, hvisited.map_value, hvisited.devices, reported, List.append_assoc]

def VisitKept (list list' : CapList) (heap : Heap) : Prop :=
  LiveList heap list' ∧
    (list'.entries = list.entries ∨ ∃ e, list'.entries = list.entries ++ [e])

/-- No call aborts, and each of them leaves a live list. -/
def EveryVisitKept (o : CapAnswers) : List RtnlLink → ℕ → CapList → CapState → Prop
  | [], _, _, _ => True
  | link :: links, v, list, s =>
      (interfaceCapabilitiesGet v list link).wp o.sem
        (fun list' s' => VisitKept list list' s'.heap ∧
          EveryVisitKept o links (v + 1) list' s') s

theorem Visited.kept {link : RtnlLink} {list' : CapList} {s' : CapState}
    (h : o.Visited s v link list list' s') : VisitKept list list' s'.heap := by
  refine ⟨h.live, ?_⟩
  by_cases hshell : o.ShellAllocated v
  · obtain ⟨e, hentries, -⟩ := h.appended hshell
    exact .inr ⟨e, hentries⟩
  · exact .inl (h.skipped hshell)

theorem everyVisitKept_iff (hlive : LiveList s.heap list) (v : ℕ) :
    EveryVisitKept o links v list s ↔ o.NoneMissing v links.length := by
  induction links generalizing list s v with
  | nil => exact iff_of_true trivial fun i hi => absurd hi (Nat.not_lt_zero i)
  | cons link links ih =>
      rw [List.length_cons, noneMissing_succ, EveryVisitKept]
      rcases visit_cases (o := o) (v := v) hlive link with
        ⟨hshell, hduplex, hnot⟩ | ⟨hone, hvisit⟩
      · exact iff_of_false (hnot _) fun h => hduplex (h.1 hshell)
      rw [and_iff_right hone]
      constructor
      · intro h
        obtain ⟨list₁, s₁, ⟨hvisited, -, hkept⟩, -⟩ := exists_bind
          ((Prog.wp_and o.sem).2 ⟨hvisit, h⟩)
        exact (ih hvisited.live (v + 1)).1 hkept
      · intro h
        refine Prog.wp_mono _ hvisit fun list₁ s₁ hvisited => ⟨hvisited.kept, ?_⟩
        exact (ih hvisited.live (v + 1)).2 h

end Visits

section Handler

variable {h : Heap} {qs : List (Option ℕ)}

theorem wp_readEntry {e : CapEntry} (hready : ∀ p ∈ e.blocks, h.readable p = true) :
    (readEntry e).wp (Blocks.sem o.served) (fun _ h' => h' = h) h := by
  refine (Prog.wp_bind _ _ _ _ _).2
    (Blocks.wp_read_iff.2 ⟨hready _ List.mem_cons_self, ?_⟩)
  refine Prog.wp_bind_of _ (Blocks.wp_each_read fun p hp => hready p (e.fields_subset hp)) ?_
  rintro _ _ rfl
  exact Blocks.wp_each_read fun p hp => hready p (e.duplex_subset hp)

theorem wp_closeCapabilities {es : List CapEntry}
    (hready : ∀ p ∈ es.flatMap CapEntry.blocks, h.readable p = true) :
    (closeCapabilities es).wp (Blocks.sem o.served) (fun _ h' => h' = h) h := by
  induction es with
  | nil => rfl
  | cons e es ih =>
      rw [List.flatMap_cons, List.forall_mem_append] at hready
      refine Prog.wp_bind_of _ (wp_readEntry hready.1) ?_
      rintro _ _ rfl
      exact ih hready.2

theorem wp_releaseEntries {es : List CapEntry}
    (howns : h.Owns (es.flatMap CapEntry.blocks ++ qs))
    (hready : ∀ p ∈ es.flatMap CapEntry.blocks, h.readable p = true) :
    (releaseEntries es).wp (Blocks.sem o.served) (fun _ h' => h'.Owns qs) h := by
  induction es generalizing h with
  | nil => exact howns
  | cons e es ih =>
      rw [List.flatMap_cons, List.forall_mem_append] at hready
      rw [List.flatMap_cons, List.append_assoc] at howns
      refine (Prog.wp_bind _ _ _ _ _).2
        (Blocks.wp_read_iff.2 ⟨hready.1 _ List.mem_cons_self, ?_⟩)
      refine Prog.wp_bind_of _
        (Blocks.wp_each_read fun p hp => hready.1 p (e.fields_subset hp)) ?_
      rintro _ _ rfl
      refine Prog.wp_bind_of _ (wp_releaseBlocks howns) ?_
      rintro _ h' hleaves
      refine ih hleaves.owns fun p hp => ?_
      rw [hleaves.keeps p (List.mem_append_left _ hp), hready.2 p hp]

theorem wp_replyCapabilities {list : CapList} (hlive : LiveList h list) :
    (replyCapabilities list).wp (Blocks.sem o.served) (fun _ h' => h'.Owns []) h := by
  refine Prog.wp_bind_of _ (wp_closeCapabilities hlive.ready) ?_
  rintro _ _ rfl
  have howns := hlive.owns.perm (List.perm_append_singleton _ _).symm
  refine Prog.wp_bind_of _ (wp_releaseEntries howns hlive.ready) ?_
  rintro _ h' howns
  exact Prog.wp_mono _ (Blocks.wp_free howns) fun _ _ h => h.owns

def start (devices : Devices) : CapState := ⟨devices, .empty⟩

theorem liveList_start (devices : Devices) : LiveList (start devices).heap ⟨none, []⟩ where
  owns := Blocks.owns_nothing.2 Heap.owns_empty
  ready _ hp := absurd hp List.not_mem_nil
  whole _ he := absurd he List.not_mem_nil

/-- The list aborts, or has the entries of the links, and no block is left. -/
theorem listCapabilities_cases (o : CapAnswers) (devices : Devices)
    (links : List RtnlLink) :
    (¬ o.NoneMissing 0 links.length ∧
      ∀ Q, ¬ (listCapabilities links).wp o.sem Q (start devices)) ∨
    (o.NoneMissing 0 links.length ∧ (listCapabilities links).wp o.sem
      (fun list s' => list = o.reported devices 0 links ∧ s'.heap.Owns [])
        (start devices)) := by
  rcases visits_cases (o := o) (liveList_start devices) 0 links with
    ⟨hmissing, hnot⟩ | ⟨hnone, hvisits⟩
  · exact .inl ⟨hmissing, fun Q h => hnot _ ((Prog.wp_bind _ _ _ _ _).1 h)⟩
  refine .inr ⟨hnone, Prog.wp_bind_of _ hvisits ?_⟩
  rintro list s ⟨hlive, hvalues⟩
  refine Prog.wp_bind_of _ (wp_onHeap_of (wp_replyCapabilities hlive)) ?_
  exact fun _ _ howns => ⟨hvalues, howns.2⟩

/-- The links that a request visits: none if there is no cache or no link. -/
def visited (o : CapAnswers) (devices : Devices) (idList : List (List Byte)) :
    List RtnlLink :=
  if o.linkCache = 0 ∧ o.rtnlLinkAlloc = 0 then visitedLinks idList devices.links else []

/-- A request without a cache or a link is answered with nothing. Any other one is answered
with the list. -/
theorem wp_capabilitiesGet (o : CapAnswers) (devices : Devices) (idList : List (List Byte))
    (Q : Option (List CapabilitiesEntry) → CapState → Prop) :
    (dabbadInterfaceCapabilitiesGet idList).wp o.sem Q (start devices) ↔
      if o.linkCache = 0 ∧ o.rtnlLinkAlloc = 0 then
        (listCapabilities (o.visited devices idList)).wp o.sem (fun list => Q (some list))
          (start devices)
      else Q none (start devices) := by
  have hcall : ∀ s, HeapCall.handle (.dev 0 .linkCache) o s =
      (if o.linkCache = 0 then some s.devices.links else none, s) := fun _ => rfl
  have hcall' : ∀ s, HeapCall.handle (.dev 0 (.link .rtnlLinkAlloc)) o s =
      (decide (o.rtnlLinkAlloc = 0), s) := fun _ => rfl
  simp only [dabbadInterfaceCapabilitiesGet, Prog.bind_eq, Prog.liftM_eq,
    Prog.perform_bind, wp_call, hcall, hcall', visited]
  by_cases hcache : o.linkCache = 0
  · by_cases hlink : o.rtnlLinkAlloc = 0
    · simp only [hcache, hlink, if_true, and_self, decide_true, Bool.true_eq_false,
        if_false]
      exact Prog.wp_bind _ _ _ _ _
    · simp only [hcache, hlink, if_true, and_false, decide_false, if_false]
      rfl
  · simp only [hcache, false_and, if_false]
    rfl

end Handler

end CapAnswers

open CapAnswers

/-- Each visit of a sequence leaves a live list, and a request releases every block once,
if and only if no visit comes to the messages that the speeds point to with one of them
missing. -/
theorem capabilitiesGet_live_iff (o : CapAnswers) (devices : Devices)
    (links : List RtnlLink) (idList : List (List Byte)) :
    (EveryVisitKept o links 0 ⟨none, []⟩ (start devices) ↔ o.NoneMissing 0 links.length) ∧
    ((dabbadInterfaceCapabilitiesGet idList).wp o.sem (fun _ s' => s'.heap.Owns [])
        (start devices) ↔ o.NoneMissing 0 (o.visited devices idList).length) := by
  refine ⟨everyVisitKept_iff (liveList_start devices) 0, ?_⟩
  rw [wp_capabilitiesGet]
  split
  case isTrue =>
    rcases listCapabilities_cases o devices (o.visited devices idList) with
      ⟨hmissing, hnot⟩ | ⟨hnone, hlist⟩
    · exact iff_of_false (hnot _) hmissing
    · exact iff_of_true (Prog.wp_mono _ hlist fun _ _ h => h.2) hnone
  case isFalse hopen =>
    refine iff_of_true Heap.owns_empty fun i hi => ?_
    rw [visited, if_neg hopen] at hi
    exact absurd hi (Nat.not_lt_zero i)

/-- Every call succeeds, but the allocation of the first message a speed points to. -/
def oneMissing : CapAnswers where
  linkCache := 0
  rtnlLinkAlloc := 0
  settings _ := 0
  served
    | .duplex _ 0 => false
    | _ => true

/-- The only link there is leads to a block that is read after its release. -/
theorem not_capabilitiesGet_live_oneMissing :
    ¬ EveryVisitKept oneMissing [⟨eth0Name, 1500, 1000⟩] 0 ⟨none, []⟩
      (start (oneDevice .fibre)) := by
  rw [everyVisitKept_iff (liveList_start _) 0]
  intro hnone
  have hshell : oneMissing.ShellAllocated 0 := ⟨rfl, rfl, fun _ _ => rfl⟩
  exact Bool.false_ne_true (hnone 0 Nat.zero_lt_one hshell 0 (by decide))

end Dabbad
