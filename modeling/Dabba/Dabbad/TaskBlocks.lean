import Dabba.Dabbad.ListBlocks

/-!
# The blocks of the listed tasks

Whatever allocations fail, the handlers that list replays and threads release exactly what
they allocated. The one that lists captures clears the filter of every entry before it
releases it, also of the one at which the allocations stopped, whose filter message is
missing or was never initialised.
-/

namespace Dabbad.Listing

open Program Resource SockFilter

section Filters

def useFilter (sfp : PbufSfp) : Code Unit :=
  if sfp.instructions = [] then pure () else Blocks.read sfp.filter

def dabbadPbufSfpDestroy (p : Option ℕ) (sfp : PbufSfp) : Code PbufSfp := do
  Blocks.read p
  useFilter sfp
  Blocks.each Blocks.free sfp.instructions
  Blocks.free sfp.filter
  Blocks.init p
  return .init

/-- The copying loop, behind the instructions that are there. -/
def copyInstructions (a : ℕ) (p filter : Option ℕ) :
    List Bpf.SockFilter → List (Option ℕ) → Code PbufSfp
  | [], done => pure ⟨filter, done⟩
  | _ :: ps, done => do
      let sf ← Prog.perform (.malloc (.instruction a done.length))
      if sf = none then
        dabbadPbufSfpDestroy p ⟨filter, done⟩
      else
        Blocks.init sf
        Blocks.read filter
        Blocks.read p
        copyInstructions a p filter ps (done ++ [sf])

def dabbadSfp2PbufSfp (a : ℕ) (sfp : SockFprog) (p : Option ℕ) : Code PbufSfp := do
  Blocks.read p
  let filter ← Blocks.calloc (.filter a)
  if filter = none then
    return .init
  else
    copyInstructions a p filter sfp.program []

end Filters

section Handlers

def Entry.sfpMessage (e : Entry) : Option ℕ := e.messages.getLastD none

def dabbadCaptureGet (queue : Tailq.Queue PacketTask) : Code Bool :=
  getList 3 2 (fun a node e => dabbadSfp2PbufSfp a node.sfp.prog e.sfpMessage)
    (fun e => do
      let _ ← dabbadPbufSfpDestroy e.sfpMessage e.sfp
      return ())
    queue

def dabbadReplayGet (queue : Tailq.Queue PacketTask) : Code Bool :=
  getList 2 2 (fun _ _ e => pure e.sfp) (fun _ => pure ()) queue

def dabbadThreadGet (queue : Tailq.Queue PacketThread) : Code Bool :=
  getList 2 1 (fun _ _ e => pure e.sfp) (fun _ => pure ()) queue

end Handlers

variable {o : Site → Bool} {h : Heap} {qs : List (Option ℕ)}

section Filters

variable {p : Option ℕ} {sfp : PbufSfp}

theorem wp_useFilter (hfilter : sfp.instructions ≠ [] → h.readable sfp.filter = true) :
    (useFilter sfp).wp (Blocks.sem o) (fun _ h' => h' = h) h := by
  rw [useFilter]
  split
  · rfl
  · next hne => exact Blocks.wp_read_iff.2 ⟨hfilter hne, rfl⟩

theorem wp_init_again (hp : p ∈ qs) (hready : h.readable p = true) (howns : h.Owns qs) :
    (Blocks.init p).wp (Blocks.sem o) (fun _ h' => Blocks.Leaves qs h h') h := by
  have hne : p ≠ none := by
    rintro rfl
    exact Bool.false_ne_true hready
  have hperm := List.perm_cons_erase hp
  refine Prog.wp_mono _ (Blocks.wp_init (howns.perm hperm) hne) fun _ h' hinit => ?_
  refine ⟨hinit.owns.perm hperm.symm, fun q hq => ?_⟩
  by_cases hqp : q = p
  · rw [hqp, hready]
    exact hinit.ready p List.mem_cons_self
  · exact hinit.keeps q ((List.mem_erase_of_ne hqp).2 hq)

theorem wp_dabbadPbufSfpDestroy (hp : p ∈ qs) (hready : h.readable p = true)
    (hfilter : sfp.instructions ≠ [] → h.readable sfp.filter = true)
    (howns : h.Owns (sfp.blocks ++ qs)) :
    (dabbadPbufSfpDestroy p sfp).wp (Blocks.sem o)
      (fun r h' => r = .init ∧ Blocks.Leaves qs h h') h := by
  refine (Prog.wp_bind _ _ _ _ _).2 (Blocks.wp_read_iff.2 ⟨hready, ?_⟩)
  refine Prog.wp_bind_of _ (wp_useFilter hfilter) ?_
  rintro _ _ rfl
  rw [PbufSfp.blocks, List.append_assoc] at howns
  refine Prog.wp_bind_of _ (Blocks.wp_each_free howns) ?_
  rintro _ h₁ hinstructions
  refine Prog.wp_bind_of _ (Blocks.wp_free hinstructions.owns) ?_
  rintro _ h₂ hfree
  have hleaves := hinstructions.trans hfree (List.subset_cons_self _ qs)
  have hready₂ : h₂.readable p = true := (hleaves.keeps p hp).trans hready
  refine Prog.wp_bind_of _ (wp_init_again hp hready₂ hleaves.owns) ?_
  rintro _ h₃ hinit
  exact ⟨rfl, hleaves.trans hinit fun _ hq => hq⟩

/-- A filter that was converted: it may be used, and what it was not built from is as it
was. -/
structure Converted (qs : List (Option ℕ)) (h : Heap) (count : ℕ) (sfp : PbufSfp)
    (h' : Heap) : Prop where
  owns : h'.Owns (sfp.blocks ++ qs)
  keeps : ∀ q ∈ qs, h'.readable q = h.readable q
  ready : sfp.instructions ≠ [] → ∀ q ∈ sfp.blocks, h'.readable q = true
  length : sfp.instructions.length = count

def copied (o : Site → Bool) (a done : ℕ) (ps : List Bpf.SockFilter) : ℕ :=
  match sfp2PbufLoop (fun i => o (.instruction a i)) done ps with
  | some l => done + l.length
  | none => 0

theorem copied_cons {a done : ℕ} {i : Bpf.SockFilter} {ps : List Bpf.SockFilter}
    (hok : o (.instruction a done) = true) :
    copied o a done (i :: ps) = copied o a (done + 1) ps := by
  rw [copied, copied, sfp2PbufLoop, if_pos hok]
  cases sfp2PbufLoop (fun i => o (.instruction a i)) (done + 1) ps with
  | none => rfl
  | some l => simp only [Option.map_some, List.length_cons, Nat.add_assoc, Nat.add_comm 1]

theorem wp_copyInstructions {a : ℕ} {filter : Option ℕ} {done : List (Option ℕ)}
    (ps : List Bpf.SockFilter) (hp : p ∈ qs) (hready : h.readable p = true)
    (hfilter : ∀ q ∈ done ++ [filter], h.readable q = true)
    (howns : h.Owns (done ++ [filter] ++ qs)) :
    (copyInstructions a p filter ps done).wp (Blocks.sem o)
      (Converted qs h (copied o a done.length ps)) h := by
  induction ps generalizing h done with
  | nil => exact ⟨howns, fun _ _ => rfl, fun _ => hfilter, rfl⟩
  | cons i ps ih =>
      refine Prog.wp_bind_of _ (Blocks.allocates_malloc (o := o) _ _ h howns) ?_
      rintro sf h₁ hgiven
      have howns₁ : h₁.Owns (sf :: (done ++ [filter] ++ qs)) := hgiven.owns
      have hserved : none ≠ sf ↔ o (.instruction a done.length) = true := by
        simpa using hgiven.served
      have hfilter₁ : ∀ q ∈ done ++ [filter], h₁.readable q = true := fun q hq =>
        (hgiven.keeps q (List.mem_append_left qs hq)).trans (hfilter q hq)
      have hkeeps₁ : ∀ q ∈ qs, h₁.readable q = h.readable q :=
        fun q hq => hgiven.keeps q (List.mem_append_right _ hq)
      have hready₁ : h₁.readable p = true := (hkeeps₁ p hp).trans hready
      by_cases hsf : sf = none
      · rw [if_pos hsf]
        have howns₁ : h₁.Owns (PbufSfp.blocks ⟨filter, done⟩ ++ qs) := by
          subst hsf
          exact Blocks.owns_nothing.1 howns₁
        have hdestroy := wp_dabbadPbufSfpDestroy (o := o) hp hready₁
          (fun _ => hfilter₁ filter (List.mem_append_right _ List.mem_cons_self)) howns₁
        refine Prog.wp_mono _ hdestroy ?_
        rintro _ h₂ ⟨rfl, hleaves⟩
        have hmissing : o (.instruction a done.length) ≠ true :=
          fun hok => hserved.2 hok hsf.symm
        refine ⟨Blocks.owns_nothing.2 hleaves.owns, fun q hq => ?_, fun hne => absurd rfl hne, ?_⟩
        · rw [hleaves.keeps q hq, hkeeps₁ q hq]
        · simp [PbufSfp.init, copied, sfp2PbufLoop, hmissing]
      · rw [if_neg hsf]
        refine Prog.wp_bind_of _ (Blocks.wp_init howns₁ hsf) ?_
        rintro _ h₂ hinit
        have hfilter₂ : ∀ q ∈ done ++ [filter], h₂.readable q = true := fun q hq =>
          (hinit.keeps q (List.mem_append_left qs hq)).trans (hfilter₁ q hq)
        have hkeeps₂ : ∀ q ∈ qs, h₂.readable q = h.readable q := fun q hq =>
          (hinit.keeps q (List.mem_append_right _ hq)).trans (hkeeps₁ q hq)
        have hready₂ : h₂.readable p = true := (hkeeps₂ p hp).trans hready
        refine (Prog.wp_bind _ _ _ _ _).2 (Blocks.wp_read_iff.2
          ⟨hfilter₂ filter (List.mem_append_right _ List.mem_cons_self), ?_⟩)
        refine (Prog.wp_bind _ _ _ _ _).2 (Blocks.wp_read_iff.2 ⟨hready₂, ?_⟩)
        have howns₂ : h₂.Owns (done ++ [sf] ++ [filter] ++ qs) :=
          hinit.owns.perm (by simpa using List.perm_middle.symm)
        refine Prog.wp_mono _ (ih hready₂ (fun q hq => ?_) howns₂) fun sfp h₃ hconverted => ?_
        · rw [List.append_assoc] at hq
          rcases List.mem_append.1 hq with hq | hq
          · exact hfilter₂ q (List.mem_append_left _ hq)
          rcases List.mem_cons.1 hq with rfl | hq
          · exact hinit.ready q List.mem_cons_self
          · exact hfilter₂ q (List.mem_append_right _ hq)
        · refine ⟨hconverted.owns, fun q hq => ?_, hconverted.ready, ?_⟩
          · rw [hconverted.keeps q hq, hkeeps₂ q hq]
          · rw [hconverted.length]
            rw [List.length_append, List.length_singleton,
              copied_cons (hserved.1 (Ne.symm hsf))]

/-- The message gets as many instructions as the conversion says. -/
theorem wp_dabbadSfp2PbufSfp {a : ℕ} (prog : SockFprog) (hp : p ∈ qs)
    (hready : h.readable p = true) (howns : h.Owns qs) :
    (dabbadSfp2PbufSfp a prog p).wp (Blocks.sem o)
      (Converted qs h (SockFilter.dabbadSfp2PbufSfp (o (.filter a))
        (fun i => o (.instruction a i)) prog).2.length) h := by
  refine (Prog.wp_bind _ _ _ _ _).2 (Blocks.wp_read_iff.2 ⟨hready, ?_⟩)
  refine Prog.wp_bind_of _ (Blocks.allocates_calloc (o := o) _ _ h howns) ?_
  rintro filter h₁ hgiven
  have howns₁ : h₁.Owns (filter :: qs) := hgiven.owns
  have hserved : none ≠ filter ↔ o (.filter a) = true := by simpa using hgiven.served
  by_cases hfilter : filter = none
  · rw [if_pos hfilter]
    have hmissing : o (.filter a) = false :=
      Bool.eq_false_iff.2 fun hok => hserved.2 hok hfilter.symm
    rw [hfilter] at howns₁
    refine ⟨howns₁, hgiven.keeps, fun hne => absurd rfl hne, ?_⟩
    simp [PbufSfp.init, SockFilter.dabbadSfp2PbufSfp, hmissing]
  · rw [if_neg hfilter]
    have hok : o (.filter a) = true := hserved.1 (Ne.symm hfilter)
    have hclear : ∀ q ∈ [] ++ [filter], h₁.readable q = true := fun q hq =>
      (hgiven.readable q hq (by simpa [List.mem_singleton.1 hq] using hfilter)).2 trivial
    have hready₁ : h₁.readable p = true := (hgiven.keeps p hp).trans hready
    refine Prog.wp_mono _ (wp_copyInstructions prog.program hp hready₁ hclear howns₁) ?_
    rintro sfp h₂ hconverted
    refine ⟨hconverted.owns, fun q hq => ?_, hconverted.ready, ?_⟩
    · rw [hconverted.keeps q hq, hgiven.keeps q hq]
    · rw [hconverted.length, copied, SockFilter.dabbadSfp2PbufSfp, hok]
      cases sfp2PbufLoop (fun i => o (.instruction a i)) 0 prog.program <;> simp

end Filters

section Handlers

theorem handles_plain {α : Type} (messages : ℕ) :
    Handles o messages (fun (_ : ℕ) (_ : α) e => pure e.sfp) (fun _ => pure ()) True where
  fills a node e qs h howns hwhole hsfp := ⟨howns, fun _ _ => rfl, hwhole⟩
  clears e h hwhole qs howns := by
    rw [Entry.blocks, hwhole.empty trivial] at howns
    exact .refl (Blocks.owns_nothing.1 howns)
  clearsBroken _ e h hbroken qs howns := by
    rw [Entry.blocks, hbroken.sfp] at howns
    exact .refl (Blocks.owns_nothing.1 howns)
  abortsBroken hplain := absurd trivial hplain

theorem Entry.sfpMessage_mem {e : Entry} (hlength : e.messages.length = 3) :
    e.sfpMessage ∈ e.messages := by
  have hne : e.messages ≠ [] := by
    rintro hnil
    rw [hnil] at hlength
    exact absurd hlength (by decide)
  rw [sfpMessage, List.getLastD_eq_getLast?, List.getLast?_eq_some_getLast hne,
    Option.getD_some]
  exact List.getLast_mem hne

theorem handles_capture : Handles o 3
    (fun a (node : PacketTask) e => dabbadSfp2PbufSfp a node.sfp.prog e.sfpMessage)
    (fun e => do
      let _ ← dabbadPbufSfpDestroy e.sfpMessage e.sfp
      return ()) False where
  fills a node e qs h howns hwhole hsfp := by
    have hmem := e.messages_subset (Entry.sfpMessage_mem hwhole.length)
    rw [Entry.blocks, hsfp] at howns
    have hconvert := wp_dabbadSfp2PbufSfp (o := o) (a := a) node.sfp.prog
      (List.mem_append_left qs hmem) (hwhole.fixed _ hmem) (Blocks.owns_nothing.1 howns)
    refine Prog.wp_mono _ hconvert fun sfp h₁ hconverted => ?_
    have hfixed : ∀ q ∈ e.fixed, h₁.readable q = true := fun q hq =>
      (hconverted.keeps q (List.mem_append_left qs hq)).trans (hwhole.fixed q hq)
    refine ⟨?_, fun q hq => hconverted.keeps q (List.mem_append_right _ hq),
      hwhole.length, hfixed, hconverted.ready, False.elim⟩
    rw [Entry.blocks, List.append_assoc]
    exact hconverted.owns
  clears e h hwhole qs howns := by
    have hmem := e.messages_subset (Entry.sfpMessage_mem hwhole.length)
    rw [Entry.blocks, List.append_assoc] at howns
    have hfilter := fun hne => hwhole.sfp hne e.sfp.filter
      (List.mem_append_right _ List.mem_cons_self)
    refine Prog.wp_bind_of _ (wp_dabbadPbufSfpDestroy (List.mem_append_left qs hmem)
      (hwhole.fixed _ hmem) hfilter howns) ?_
    exact fun _ _ hdestroy => hdestroy.2
  clearsBroken hplain := hplain.elim
  abortsBroken _ e h Q hbroken hwp := by
    have hraw := hbroken.raw _ (Entry.sfpMessage_mem hbroken.length)
    have hread := (Prog.wp_bind _ _ _ _ _).1 ((Prog.wp_bind _ _ _ _ _).1 hwp)
    exact Bool.false_ne_true (hraw.symm.trans (Blocks.wp_read_iff.1 hread).1)

/-- Listing the captures aborts exactly where the array is there and the first failure
among the entries is a field of an entry that is there itself. Everywhere else it leaves
the heap as it found it, and hands over a list exactly when all its entries are there. -/
theorem dabbadCaptureGet_balanced (o : Site → Bool) {h : Heap} {qs : List (Option ℕ)}
    (howns : h.Owns qs) {queue : Tailq.Queue PacketTask} (hcounted : queue.Counted) :
    ((∃ Q, (dabbadCaptureGet queue).wp (Blocks.sem o) Q h) ↔
      (o .list = true → ¬ StopsInside o 3 2 0 queue.nodes.length)) ∧
    ((o .list = true → ¬ StopsInside o 3 2 0 queue.nodes.length) →
      (dabbadCaptureGet queue).wp (Blocks.sem o) (fun reply h' => Blocks.Leaves qs h h' ∧
        (reply = true ↔ queue.nodes ≠ [] ∧ o .list = true ∧
          ∀ a < queue.nodes.length, EntryServed o 3 2 a)) h) := by
  refine ⟨⟨?_, fun hstops => ⟨_, wp_getList handles_capture hcounted howns hstops⟩⟩,
    wp_getList handles_capture hcounted howns⟩
  rintro ⟨Q, hwp⟩
  exact plain_of_wp_getList handles_capture hcounted howns hwp

def oneCapture : Tailq.Queue PacketTask := ⟨[⟨.zero, .zero, 3, ⟨0, 0, .capture⟩⟩], 1⟩

/-- Every site is served but the first text of the first entry. -/
def firstTextMissing : Site → Bool
  | .text 0 0 => false
  | _ => true

theorem dabbadCaptureGet_balanced_firstTextMissing :
    ¬ ∃ Q, (dabbadCaptureGet oneCapture).wp (Blocks.sem firstTextMissing) Q Heap.empty := by
  rw [(dabbadCaptureGet_balanced firstTextMissing Heap.owns_empty
    (rfl : oneCapture.Counted)).1]
  refine fun hcond => hcond rfl ⟨0, Nat.zero_lt_one, fun c hc => ?_, rfl, fun hfields => ?_⟩
  · exact absurd hc (Nat.not_lt_zero c)
  · exact Bool.false_ne_true (hfields.2 0 (by decide))

/-- Listing the replays or the threads leaves the heap as it found it, whatever fails, and
hands over a list exactly when all its entries are there. -/
theorem dabbadReplayGet_dabbadThreadGet_balanced (o : Site → Bool) {h : Heap}
    {qs : List (Option ℕ)} (howns : h.Owns qs) :
    (∀ queue, queue.Counted → (dabbadReplayGet queue).wp (Blocks.sem o) (fun reply h' =>
      Blocks.Leaves qs h h' ∧ (reply = true ↔ queue.nodes ≠ [] ∧ o .list = true ∧
        ∀ a < queue.nodes.length, EntryServed o 2 2 a)) h) ∧
    ∀ queue, queue.Counted → (dabbadThreadGet queue).wp (Blocks.sem o) (fun reply h' =>
      Blocks.Leaves qs h h' ∧ (reply = true ↔ queue.nodes ≠ [] ∧ o .list = true ∧
        ∀ a < queue.nodes.length, EntryServed o 2 1 a)) h :=
  ⟨fun _ hcounted => wp_getList (handles_plain 2) hcounted howns fun _ _ => trivial,
    fun _ hcounted => wp_getList (handles_plain 2) hcounted howns fun _ _ => trivial⟩

theorem dabbadReplayGet_dabbadThreadGet_balanced_firstTextMissing :
    (dabbadReplayGet oneCapture).wp (Blocks.sem firstTextMissing)
      (fun reply h' => Blocks.Leaves [] Heap.empty h' ∧ (reply = true ↔
        oneCapture.nodes ≠ [] ∧ firstTextMissing .list = true ∧
          ∀ a < oneCapture.nodes.length, EntryServed firstTextMissing 2 2 a)) Heap.empty :=
  (dabbadReplayGet_dabbadThreadGet_balanced firstTextMissing Heap.owns_empty).1 oneCapture rfl

end Handlers

section Policies

def policy : Tailq.Queue ℕ := ⟨[1, 2, 0], 3⟩

/-- The list of the priorities that a policy may have: an entry for each policy, with a status
message. At the end as many pointers of the array are looked at as there are policies, also
if there is no array. -/
def dabbadThreadCapabilitiesGet : Code Bool := do
  let array ← Blocks.calloc .list
  if array = none then
    freeList (fun _ => pure ()) none (List.replicate policy.length none)
    return false
  else
    listNodes 1 0 (fun _ _ e => pure e.sfp) (fun _ => pure ()) array policy

/-- Listing the priorities aborts exactly where the array could not be allocated. Everywhere
else it leaves the heap as it found it, and hands over a list exactly when the entries of all
policies are there. -/
theorem dabbadThreadCapabilitiesGet_balanced (o : Site → Bool) {h : Heap}
    {qs : List (Option ℕ)} (howns : h.Owns qs) :
    ((∃ Q, dabbadThreadCapabilitiesGet.wp (Blocks.sem o) Q h) ↔ o .list = true) ∧
    (o .list = true → dabbadThreadCapabilitiesGet.wp (Blocks.sem o) (fun reply h' =>
      Blocks.Leaves qs h h' ∧ (reply = true ↔ ∀ a < 3, EntryServed o 1 0 a)) h) := by
  obtain ⟨array, h₁, hgiven, hbind⟩ := Blocks.exists_bind
    (Blocks.allocates_calloc (o := o) .list qs h howns)
  have hserved : none ≠ array ↔ o .list = true := by simpa using hgiven.served
  have hlisted : o .list = true → dabbadThreadCapabilitiesGet.wp (Blocks.sem o)
      (fun reply h' => Blocks.Leaves qs h h' ∧
        (reply = true ↔ ∀ a < 3, EntryServed o 1 0 a)) h := by
    intro hlist
    have harray : array ≠ none := Ne.symm (hserved.2 hlist)
    have hready : h₁.readable array = true :=
      (hgiven.readable array List.mem_cons_self harray).2 trivial
    have howns₁ : h₁.Owns (array :: qs) := hgiven.owns
    rw [dabbadThreadCapabilitiesGet, Prog.bind_eq, hbind, if_neg harray]
    refine Prog.wp_mono _ (wp_listNodes (handles_plain 1) rfl hready howns₁ fun _ => trivial) ?_
    rintro reply h₂ ⟨hleaves, hreply⟩
    refine ⟨⟨hleaves.owns, fun q hq => ?_⟩, hreply⟩
    rw [hleaves.keeps q hq, hgiven.keeps q hq]
  refine ⟨⟨?_, fun hlist => ⟨_, hlisted hlist⟩⟩, hlisted⟩
  rintro ⟨Q, hwp⟩
  by_contra hmissing
  have harray : array = none := by
    by_contra hne
    exact hmissing (hserved.1 (Ne.symm hne))
  rw [dabbadThreadCapabilitiesGet, Prog.bind_eq, hbind, if_pos harray] at hwp
  have hlist := (Prog.wp_bind _ _ _ _ _).1 hwp
  have hentries := (Prog.wp_bind _ _ _ _ _).1 hlist
  have hread := (Prog.wp_bind _ _ _ _ _).1 hentries
  exact Bool.false_ne_true (Blocks.wp_read_iff.1 hread).1

theorem dabbadThreadCapabilitiesGet_balanced_firstTextMissing :
    ((∃ Q, dabbadThreadCapabilitiesGet.wp (Blocks.sem firstTextMissing) Q Heap.empty) ↔
      firstTextMissing .list = true) ∧
    (firstTextMissing .list = true → dabbadThreadCapabilitiesGet.wp (Blocks.sem firstTextMissing)
      (fun reply h' => Blocks.Leaves [] Heap.empty h' ∧
        (reply = true ↔ ∀ a < 3, EntryServed firstTextMissing 1 0 a)) Heap.empty) :=
  dabbadThreadCapabilitiesGet_balanced firstTextMissing Heap.owns_empty

end Policies

end Dabbad.Listing
