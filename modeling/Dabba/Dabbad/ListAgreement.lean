import Dabba.Dabbad.Get
import Dabba.Dabbad.InterfaceCoalesce
import Dabba.Dabbad.InterfaceOffload
import Dabba.Dabbad.InterfaceStatus
import Dabba.Dabbad.LinkBlocks
import Dabba.Dabbad.SettingsReadBack
import Dabba.Dabbad.TaskBlocks

/-!
# The two models of a list

What a get handler puts into its list and what it does with memory are modelled apart. The
first model leaves the blocks out, the second one what is written to them. Here the
allocations of the first model end as those of the second one do, site by site. Then both
hand over a list, or neither of them does, and the list has the same nodes or links.
-/

open Posix Program Interface Resource SockFilter

namespace Dabbad

/-- The answers to a get handler whose series of allocations, counted from 0, end as they
are said to. -/
def Names.countSem (names : Names) (ok : ℕ → ℕ → Bool) : Sem GetCall ℕ
  | _, .allocs, k, r, k' => r = ok k ∧ k' = k + 1
  | _, .fdToPath fd, k, path, k' => path = names.path fd ∧ k' = k
  | _, .ifindexToDevname ifindex, k, name, k' => name = names.devname ifindex ∧ k' = k
  | _, .schedParamGet id, k, r, k' => r = names.schedParam id ∧ k' = k
  | _, .schedAffinityGet id, k, r, k' => r = names.affinity id ∧ k' = k

namespace Listing

/-- The series of allocations of a handler that lists `n` nodes: that of the array, those
of the entries with their fields, and those of the filters. -/
def series (o : Site → Bool) (messages n : ℕ) : ℕ → ℕ → Bool
  | 0, _ => o .list
  | k + 1, 0 => if k < n then o (.entry k) else o (.filter (k - n))
  | k + 1, i + 1 =>
      if k < n then
        if i < messages then o (.message k i) else o (.text k (i - messages))
      else o (.instruction (k - n) i)

theorem entryServed_iff {o : Site → Bool} {messages texts n a : ℕ} (ha : a < n) :
    (∀ i < messages + texts + 1, series o messages n (a + 1) i = true) ↔
      EntryServed o messages texts a := by
  rw [Nat.forall_lt_succ_left]
  refine and_congr (by rw [series, if_pos ha]) ?_
  simp only [series, if_pos ha]
  constructor
  · refine fun h => ⟨fun i hi => ?_, fun i hi => ?_⟩
    · have hfield := h i (Nat.lt_add_right texts hi)
      rwa [if_pos hi] at hfield
    · have hfield := h (messages + i) (Nat.add_lt_add_left hi messages)
      rwa [if_neg (Nat.not_lt.2 (Nat.le_add_right messages i)),
        Nat.add_sub_cancel_left] at hfield
  · rintro ⟨hmessages, htexts⟩ i hi
    split
    case isTrue hlt => exact hmessages i hlt
    case isFalse hge => exact htexts (i - messages) (by omega)

theorem series_filter (o : Site → Bool) (messages n a : ℕ) :
    series o messages n (n + 1 + a) 0 = o (.filter a) ∧
      (fun i => series o messages n (n + 1 + a) (i + 1)) = fun i => o (.instruction a i) := by
  have hnext : n + 1 + a = n + a + 1 := Nat.add_right_comm n 1 a
  have hnot : ¬ n + a < n := Nat.not_lt.2 (Nat.le_add_right n a)
  simp only [hnext, series, if_neg hnot, Nat.add_sub_cancel_left, true_and]

end Listing

section Tasks

variable {names : Names} {ok : ℕ → ℕ → Bool} {k : ℕ}

theorem wp_allocs {α : Type} {f : (ℕ → Bool) → Prog GetCall α} {Q : α → ℕ → Prop} :
    ((Prog.perform GetCall.allocs).bind f).wp (names.countSem ok) Q k ↔
      (f (ok k)).wp (names.countSem ok) Q (k + 1) := by
  constructor
  · exact fun h => h _ _ ⟨rfl, rfl⟩
  · rintro h _ _ ⟨rfl, rfl⟩
    exact h

theorem wp_allocEntry {fields : ℕ} :
    (allocEntry fields).wp (names.countSem ok) (fun r k' => k' = k + 1 ∧
      (r = true ↔ ∀ i < fields + 1, ok k i = true)) k := by
  refine wp_allocs.2 ?_
  simp only [Nat.forall_lt_succ_left]
  split
  case isTrue hmissing => exact ⟨rfl, by simp [hmissing]⟩
  case isFalse hentry =>
    rw [Bool.not_eq_false] at hentry
    exact ⟨rfl, by simp [hentry]⟩

theorem wp_allocEntries {fields : ℕ} (n : ℕ) :
    (allocEntries fields n).wp (names.countSem ok) (fun r k' =>
      (r = true → k' = k + n) ∧
        (r = true ↔ ∀ a < n, ∀ i < fields + 1, ok (k + a) i = true)) k := by
  induction n generalizing k with
  | zero => exact ⟨fun _ => rfl, by simp⟩
  | succ n ih =>
      refine Prog.wp_bind_of _ wp_allocEntry ?_
      rintro r _ ⟨rfl, hr⟩
      have hsucc : (∀ a < n + 1, ∀ i < fields + 1, ok (k + a) i = true) ↔
          r = true ∧ ∀ a < n, ∀ i < fields + 1, ok (k + 1 + a) i = true := by
        rw [hr, Nat.forall_lt_succ_left]
        simp only [Nat.add_zero, Nat.add_assoc, Nat.add_comm 1]
      simp only [hsucc]
      cases r with
      | false => exact ⟨fun h => absurd h Bool.false_ne_true, by simp⟩
      | true =>
          refine Prog.wp_mono _ ih fun r k' h => ?_
          simpa only [Nat.add_assoc, Nat.add_comm 1, true_and] using h

variable {α E : Type} {fill : α → Prog GetCall E} {entry : ℕ → α → E}

/-- Filling puts an entry for each node into the list. -/
theorem wp_fillEntries_mapIdx {pos : ℕ → ℕ}
    (hfill : ∀ a node, (fill node).wp (names.countSem ok)
      (fun e k' => e = entry a node ∧ k' = pos (a + 1)) (pos a))
    (nodes : List α) (done todo : List E) (hlen : todo.length = nodes.length) :
    (fillEntries fill nodes done.length (done ++ todo)).wp (names.countSem ok)
      (fun list _ => list = done ++ nodes.mapIdx fun i => entry (done.length + i))
      (pos done.length) := by
  induction nodes generalizing done todo with
  | nil =>
      obtain rfl := List.length_eq_zero_iff.1 hlen
      rfl
  | cons node nodes ih =>
      obtain ⟨e, todo, rfl⟩ := List.exists_of_length_succ todo hlen
      simp only [fillEntries, Prog.bind_eq, Prog.wp_bind, Prog.wp_assert]
      refine ⟨by simp, Prog.wp_mono _ (hfill done.length node) ?_⟩
      rintro _ _ ⟨rfl, rfl⟩
      have hset : (done ++ e :: todo).set done.length (entry done.length node) =
          (done ++ [entry done.length node]) ++ todo := by simp
      have hlength : done.length + 1 = (done ++ [entry done.length node]).length := by simp
      rw [hset, hlength]
      refine Prog.wp_mono _ (ih _ _ (Nat.succ_injective hlen)) ?_
      rintro _ _ rfl
      simp [List.mapIdx_cons, Nat.add_assoc, Nat.add_comm 1]

/-- A get handler replies with an entry for each node, if all series that it needs
succeed, and with nothing otherwise. -/
theorem wp_getList_mapIdx (fields : ℕ) (init : E) {queue : Tailq.Queue α}
    {pos : ℕ → ℕ} (hcounted : queue.Counted) (hpos : pos 0 = queue.nodes.length + 1)
    (hfill : ∀ a node, (fill node).wp (names.countSem ok)
      (fun e k' => e = entry a node ∧ k' = pos (a + 1)) (pos a)) :
    (getList fields init fill queue).wp (names.countSem ok) (fun reply _ =>
      (reply.isSome = true ↔ queue.nodes ≠ [] ∧ ok 0 0 = true ∧
        ∀ a < queue.nodes.length, ∀ i < fields + 1, ok (a + 1) i = true) ∧
      ∀ list, reply = some list → list = queue.nodes.mapIdx entry) 0 := by
  have hempty : queue.length = 0 ↔ queue.nodes = [] := by
    rw [hcounted, List.length_eq_zero_iff]
  rw [getList]
  split
  case isTrue hnil => exact ⟨by simp [hempty.1 hnil], fun _ h => by cases h⟩
  case isFalse hne =>
    rw [and_iff_right (mt hempty.2 hne)]
    refine wp_allocs.2 ?_
    split
    case isTrue hmissing => exact ⟨by simp [hmissing], fun _ h => by cases h⟩
    case isFalse hlist =>
      rw [Bool.not_eq_false] at hlist
      rw [and_iff_right hlist]
      refine Prog.wp_bind_of _ (wp_allocEntries _) ?_
      rintro r k ⟨hk, hr⟩
      have hcounted' : queue.length = queue.nodes.length := hcounted
      simp only [Nat.add_comm 1, hcounted', Nat.zero_add] at hk hr
      rw [← hr]
      cases r with
      | false => exact ⟨by simp, fun _ h => by cases h⟩
      | true =>
          have hlen : (List.replicate queue.length init).length = queue.nodes.length := by
            rw [List.length_replicate, hcounted]
          obtain rfl : k = pos 0 := (hk rfl).trans hpos.symm
          refine Prog.wp_bind_of _ (wp_fillEntries_mapIdx hfill queue.nodes [] _ hlen) ?_
          rintro list _ rfl
          refine ⟨by simp, fun _ h => ?_⟩
          cases h
          simp

open Listing in
/-- The two models of a handler hand over a list in the same cases. -/
theorem getList_agrees {o : Site → Bool} {messages texts : ℕ} {plain : Prop}
    {fillSfp : ℕ → α → Listing.Entry → Code PbufSfp} {clear : Listing.Entry → Code Unit}
    (hhandles : Handles o messages fillSfp clear plain) {h : Heap} {qs : List (Option ℕ)}
    (howns : h.Owns qs) {init : E} {queue : Tailq.Queue α} (hcounted : queue.Counted)
    (hstops : o .list = true → StopsInside o messages texts 0 queue.nodes.length → plain)
    (pos : ℕ → ℕ) (hpos : pos 0 = queue.nodes.length + 1)
    (hfill : ∀ a node, (fill node).wp (names.countSem (series o messages queue.nodes.length))
      (fun e k' => e = entry a node ∧ k' = pos (a + 1)) (pos a)) :
    ∃ reply, (Listing.getList messages texts fillSfp clear queue).wp (Blocks.sem o)
        (fun r h' => Blocks.Leaves qs h h' ∧ r = reply.isSome) h ∧
      (Dabbad.getList (messages + texts) init fill queue).wp
        (names.countSem (series o messages queue.nodes.length)) (fun r _ => r = reply) 0 ∧
      ∀ list, reply = some list → list = queue.nodes.mapIdx entry := by
  have hblocks := wp_getList hhandles hcounted howns hstops
  have hcontent := wp_getList_mapIdx (messages + texts) init hcounted hpos hfill
  have hserved : (∀ a < queue.nodes.length, ∀ i < messages + texts + 1,
      series o messages queue.nodes.length (a + 1) i = true) ↔
        ∀ a < queue.nodes.length, EntryServed o messages texts a :=
    forall₂_congr fun a ha => entryServed_iff ha
  simp only [hserved] at hcontent
  by_cases hlisted : queue.nodes ≠ [] ∧ o .list = true ∧
      ∀ a < queue.nodes.length, EntryServed o messages texts a
  · refine ⟨some (queue.nodes.mapIdx entry), Prog.wp_mono _ hblocks ?_,
      Prog.wp_mono _ hcontent ?_, fun _ h => (Option.some.inj h).symm⟩
    · exact fun r h' hr => ⟨hr.1, hr.2.2 hlisted⟩
    · rintro r _ ⟨hsome, hlist⟩
      obtain ⟨list, rfl⟩ := Option.isSome_iff_exists.1 (hsome.2 hlisted)
      rw [hlist list rfl]
  · refine ⟨none, Prog.wp_mono _ hblocks ?_, Prog.wp_mono _ hcontent ?_,
      fun _ h => by cases h⟩
    · exact fun r h' hr => ⟨hr.1, Bool.eq_false_iff.2 fun htrue => hlisted (hr.2.1 htrue)⟩
    · exact fun r _ hr => Option.not_isSome_iff_eq_none.1 fun hsome => hlisted (hr.1.1 hsome)

/-- The captures are listed by both models or by neither, with as many instructions of each
filter as could be copied. -/
theorem captureGet_agrees (o : Listing.Site → Bool) {h : Heap} {qs : List (Option ℕ)}
    (howns : h.Owns qs) (names : Names) (q : Queues) (idList : List ℕ)
    (hcounted : (q.task .capture).Counted)
    (hstops : o .list = true →
      ¬ Listing.StopsInside o 3 2 0 (q.task .capture).nodes.length) :
    ∃ reply, (Listing.dabbadCaptureGet (q.task .capture)).wp (Blocks.sem o)
        (fun r h' => Blocks.Leaves qs h h' ∧ r = reply.isSome) h ∧
      (dabbadCaptureGet q idList).wp
        (names.countSem (Listing.series o 3 (q.task .capture).nodes.length))
        (fun r _ => r = reply) 0 ∧
      ∀ list, reply = some list → list = (q.task .capture).nodes.mapIdx fun a =>
        names.taskEntry fun prog =>
          (dabbadSfp2PbufSfp (o (.filter a)) (fun i => o (.instruction a i)) prog).2 := by
  refine getList_agrees Listing.handles_capture howns hcounted hstops
    (fun a => (q.task .capture).nodes.length + 1 + a) rfl fun a node => ?_
  rintro _ _ ⟨rfl, rfl⟩ _ _ ⟨rfl, rfl⟩ _ _ ⟨rfl, rfl⟩
  obtain ⟨hfilter, hinstructions⟩ :=
    Listing.series_filter o 3 (q.task .capture).nodes.length a
  refine ⟨?_, Nat.add_assoc _ a 1⟩
  simp only [hfilter, hinstructions]
  rfl

theorem replayGet_agrees (o : Listing.Site → Bool) {h : Heap} {qs : List (Option ℕ)}
    (howns : h.Owns qs) (names : Names) (q : Queues) (idList : List ℕ)
    (hcounted : (q.task .replay).Counted) :
    ∃ reply, (Listing.dabbadReplayGet (q.task .replay)).wp (Blocks.sem o)
        (fun r h' => Blocks.Leaves qs h h' ∧ r = reply.isSome) h ∧
      (dabbadReplayGet q idList).wp
        (names.countSem (Listing.series o 2 (q.task .replay).nodes.length))
        (fun r _ => r = reply) 0 ∧
      ∀ list, reply = some list → list = (q.task .replay).nodes.mapIdx fun _ =>
        names.taskEntry fun _ => [] := by
  refine getList_agrees (Listing.handles_plain 2) howns hcounted (fun _ _ => trivial)
    (fun _ => (q.task .replay).nodes.length + 1) rfl fun a node => ?_
  rintro _ _ ⟨rfl, rfl⟩ _ _ ⟨rfl, rfl⟩
  exact ⟨rfl, rfl⟩

theorem threadGet_agrees (o : Listing.Site → Bool) {h : Heap} {qs : List (Option ℕ)}
    (howns : h.Owns qs) (names : Names) (q : Queues) (idList : List ℕ)
    (hcounted : q.packetThread.Counted) :
    ∃ reply, (Listing.dabbadThreadGet q.packetThread).wp (Blocks.sem o)
        (fun r h' => Blocks.Leaves qs h h' ∧ r = reply.isSome) h ∧
      (dabbadThreadGet q idList).wp
        (names.countSem (Listing.series o 2 q.packetThread.nodes.length))
        (fun r _ => r = reply) 0 ∧
      ∀ list, reply = some list → list = q.packetThread.nodes.mapIdx fun _ =>
        names.threadEntry := by
  refine getList_agrees (Listing.handles_plain 2) howns hcounted (fun _ _ => trivial)
    (fun _ => q.packetThread.nodes.length + 1) rfl fun a node => ?_
  rintro _ _ ⟨rfl, rfl⟩ _ _ ⟨rfl, rfl⟩
  exact ⟨rfl, rfl⟩

end Tasks

section Links

/-- A handler on its way through the links: the devices, the visit, and the number of
allocations made in it. -/
structure Visits where
  devices : Devices
  visit : ℕ
  allocs : ℕ

def Visits.site (t : Visits) : LinkListing.Site :=
  match t.allocs with
  | 0 => .array t.visit
  | 1 => .entry t.visit
  | 2 => .id t.visit
  | _ => .status t.visit

def Visits.next (t : Visits) (ok : Bool) : Visits :=
  if t.allocs = 3 ∨ t.allocs < 2 ∧ ok = false then
    { t with visit := t.visit + 1, allocs := 0 }
  else { t with allocs := t.allocs + 1 }

/-- The calls of a handler, whose allocations end as those of the blocks do. -/
def serveVisit : Handler DevCall (LinkListing.Site → Bool) Visits
  | _, .alloc, o, t => (o t.site, t.next (o t.site))
  | _, .linkCache, o, t => (if o .cache then some t.devices.links else none, t)
  | _, .link .rtnlLinkAlloc, o, t => (o .link, t)
  | _, op, _, t =>
      let r := op.handle 0 t.devices
      (r.1, { t with devices := r.2 })

def IsGet : {β : Type} → DevCall β → Prop
  | _, .kernelRequest _ request => ∀ d, (request.serve d).2 = d
  | _, _ => False

def Gets {α : Type} : Prog DevCall α → Prop
  | .ret _ => True
  | .abort => False
  | .call op k => IsGet op ∧ ∀ r, Gets (k r)

variable {o : LinkListing.Site → Bool} {s : Devices}

/-- What is fetched does not depend on the allocations, and nothing is changed. -/
theorem Gets.exists_run {α : Type} {p : Prog DevCall α} (hp : Gets p) (s : Devices) :
    ∃ a, p.run DevCall.handle success s = some (a, s) ∧
      ∀ o v i, p.wp (serveVisit.const o) (fun b t => b = a ∧ t = ⟨s, v, i⟩) ⟨s, v, i⟩ := by
  induction p with
  | ret a => exact ⟨a, rfl, fun _ _ _ => ⟨rfl, rfl⟩⟩
  | abort => exact hp.elim
  | call op k ih =>
      cases op with
      | link op => exact hp.1.elim
      | linkCache => exact hp.1.elim
      | alloc => exact hp.1.elim
      | kernelRequest name request =>
          have hs := s.request_of_read name hp.1 0
          obtain ⟨a, hrun, hwp⟩ := ih (s.request name request 0).1 (hp.2 _)
          refine ⟨a, ?_, fun o v i => Prog.wp_call_const.2 ?_⟩
          · rw [Prog.run_call, DevCall.handle, success, hs]
            exact hrun
          · simp only [serveVisit, DevCall.handle, hs]
            exact hwp o v i

variable {E : Type} {fill : RtnlLink → Prog DevCall E} {entry : RtnlLink → E}

section Allocs

variable {α : Type} {k : Bool → Prog DevCall α} {Q : α → Visits → Prop} {v : ℕ}

theorem wp_alloc_array :
    ((Prog.perform DevCall.alloc).bind k).wp (serveVisit.const o) Q ⟨s, v, 0⟩ ↔
      (k (o (.array v))).wp (serveVisit.const o) Q
        (if o (.array v) = true then ⟨s, v, 1⟩ else ⟨s, v + 1, 0⟩) := by
  refine Prog.wp_call_const.trans ?_
  cases harray : o (.array v) <;> simp [serveVisit, Visits.site, Visits.next, harray]

theorem wp_alloc_entry :
    ((Prog.perform DevCall.alloc).bind k).wp (serveVisit.const o) Q ⟨s, v, 1⟩ ↔
      (k (o (.entry v))).wp (serveVisit.const o) Q
        (if o (.entry v) = true then ⟨s, v, 2⟩ else ⟨s, v + 1, 0⟩) := by
  refine Prog.wp_call_const.trans ?_
  cases hentry : o (.entry v) <;> simp [serveVisit, Visits.site, Visits.next, hentry]

/-- The id and the status are both allocated before either of them is looked at. -/
theorem wp_alloc_id_status {k : Bool → Bool → Prog DevCall α} :
    ((Prog.perform DevCall.alloc).bind fun id =>
        (Prog.perform DevCall.alloc).bind fun status => k id status).wp
          (serveVisit.const o) Q ⟨s, v, 2⟩ ↔
      (k (o (.id v)) (o (.status v))).wp (serveVisit.const o) Q ⟨s, v + 1, 0⟩ :=
  Prog.wp_call_const.trans Prog.wp_call_const

end Allocs

/-- A visit appends the entry of its link if all that it needs was served. -/
theorem wp_appendEntry_visit {v : ℕ} {link : RtnlLink}
    (hfill : ∀ v i, (fill link).wp (serveVisit.const o)
      (fun e t => e = entry link ∧ t = ⟨s, v, i⟩) ⟨s, v, i⟩) (list : List E) :
    (appendEntry fill list link).wp (serveVisit.const o) (fun list' t =>
      t = ⟨s, v + 1, 0⟩ ∧
        list' = list ++ if LinkListing.served o v then [entry link] else []) ⟨s, v, 0⟩ := by
  refine wp_alloc_array.2 ?_
  by_cases harray : o (.array v) = true
  case neg =>
    rw [Bool.not_eq_true] at harray
    simp [LinkListing.served, harray]
  simp only [harray, Bool.true_eq_false, if_false, if_true]
  refine wp_alloc_entry.2 ?_
  by_cases hentry : o (.entry v) = true
  case neg =>
    rw [Bool.not_eq_true] at hentry
    simp [LinkListing.served, hentry]
  simp only [hentry, Bool.true_eq_false, if_false, if_true]
  refine wp_alloc_id_status.2 ?_
  split
  case isTrue hmissing =>
    refine ⟨rfl, ?_⟩
    rcases hmissing with hid | hstatus
    · simp [LinkListing.served, hid]
    · simp [LinkListing.served, hstatus]
  case isFalse hboth =>
    simp only [not_or, Bool.not_eq_false] at hboth
    refine Prog.wp_bind_of _ (hfill (v + 1) 0) ?_
    rintro e _ ⟨rfl, rfl⟩
    exact ⟨rfl, by simp [LinkListing.served, harray, hentry, hboth.1, hboth.2]⟩

theorem wp_appendEntries_visit {links : List RtnlLink}
    (hfill : ∀ link ∈ links, ∀ v i, (fill link).wp (serveVisit.const o)
      (fun e t => e = entry link ∧ t = ⟨s, v, i⟩) ⟨s, v, i⟩) (v : ℕ) (list : List E) :
    (appendEntries fill links list).wp (serveVisit.const o) (fun list' t =>
      t.devices = s ∧ list' = list ++ (LinkListing.listed o v links).map entry)
        ⟨s, v, 0⟩ := by
  induction links generalizing v list with
  | nil => exact ⟨rfl, by simp [LinkListing.listed]⟩
  | cons link links ih =>
      refine Prog.wp_bind_of _ (wp_appendEntry_visit (hfill link List.mem_cons_self) list) ?_
      rintro _ _ ⟨rfl, rfl⟩
      have hrest := ih (fun link hlink => hfill link (List.mem_cons_of_mem _ hlink)) (v + 1)
      refine Prog.wp_mono _ (hrest _) ?_
      rintro _ t ⟨hdevices, rfl⟩
      refine ⟨hdevices, ?_⟩
      rw [LinkListing.listed]
      split <;> simp

/-- Two models of a handler that lists interfaces reply with the same links, or with
nothing. An entry of the list is what is fetched for its link when no request fails. -/
def LinksAgree (o : LinkListing.Site → Bool) (s : Devices) (qs : List (Option ℕ)) (h : Heap)
    (fill : RtnlLink → Prog DevCall E) (get : Prog DevCall (Option (List E)))
    (blocks : LinkListing.Code (Option (List RtnlLink))) : Prop :=
  ∃ entry : RtnlLink → E, ∃ reply,
    (∀ link, (fill link).run DevCall.handle success s = some (entry link, s)) ∧
    blocks.wp (Blocks.sem o) (fun r h' => Blocks.Leaves qs h h' ∧ r = reply) h ∧
    get.wp (serveVisit.const o)
      (fun r t => r = reply.map (List.map entry) ∧ t.devices = s) ⟨s, 0, 0⟩

theorem interfaceGet_agrees {h : Heap} {qs : List (Option ℕ)} (howns : h.Owns qs)
    (hsocket : o .socket = true) (strings : ℕ) (s : Devices) (idList : List (List Byte))
    (hfill : ∀ link, Gets (fill link)) :
    LinksAgree o s qs h fill (interfaceGet fill idList)
      (LinkListing.interfaceGet strings idList s.links) := by
  choose entry hrun hwp using fun link => (hfill link).exists_run s
  refine ⟨entry, _, hrun, LinkListing.wp_interfaceGet howns hsocket, ?_⟩
  have hcache : ∀ t, serveVisit .linkCache o t =
      (if o .cache = true then some t.devices.links else none, t) := fun _ => rfl
  have hlink : ∀ t, serveVisit (.link .rtnlLinkAlloc) o t = (o .link, t) := fun _ => rfl
  simp only [interfaceGet, Prog.bind_eq, Prog.liftM_eq, Prog.perform_bind,
    Prog.wp_call_const, hcache, hlink]
  by_cases hopen : o .cache = true ∧ o .link = true
  · simp only [hopen.1, hopen.2, Bool.true_eq_false, if_false, if_true, and_self]
    refine Prog.wp_bind_of _ (wp_appendEntries_visit
      (fun link (_ : link ∈ visitedLinks idList s.links) => hwp link o) 0 []) ?_
    rintro _ t ⟨hdevices, rfl⟩
    exact ⟨rfl, hdevices⟩
  · rw [if_neg hopen]
    split
    · exact ⟨rfl, rfl⟩
    case h_2 hsome =>
      have hlinkless : o .link = false := by
        rw [← Bool.not_eq_true]
        exact fun h => hopen ⟨(Option.ite_none_right_eq_some.1 hsome).1, h⟩
      rw [if_pos hlinkless]
      exact ⟨rfl, rfl⟩

theorem gets_status (flags : List Byte → BitVec 16) (link : RtnlLink) :
    Gets (fillStatus flags link) :=
  ⟨fun _ => rfl, fun _ => trivial⟩

theorem gets_driver (link : RtnlLink) : Gets (fillDriver link) :=
  ⟨fun _ => rfl, fun _ => trivial⟩

theorem gets_pause (link : RtnlLink) : Gets (fillPause link) :=
  ⟨fun _ => rfl, fun _ => trivial⟩

theorem gets_coalesce (link : RtnlLink) : Gets (fillCoalesce link) :=
  ⟨fun _ => rfl, fun _ => trivial⟩

theorem gets_settings (link : RtnlLink) : Gets (fillSettings link) :=
  ⟨fun _ => rfl, fun _ => trivial⟩

theorem gets_offload (link : RtnlLink) : Gets (fillOffload link) := by
  iterate 7 refine ⟨fun _ => rfl, fun _ => ?_⟩
  trivial

/-- With a socket, the two models of each handler agree. The flags of a link are in the
cache, so that the list of states depends on them. -/
theorem interfaceGets_agree {h : Heap} {qs : List (Option ℕ)} (howns : h.Owns qs)
    (hsocket : o .socket = true) (s : Devices) (idList : List (List Byte)) :
    (∀ flags, LinksAgree o s qs h (fillStatus flags) (interfaceGet (fillStatus flags) idList)
      (LinkListing.dabbadInterfaceStatusGet idList s.links)) ∧
    LinksAgree o s qs h fillDriver (dabbadInterfaceDriverGet idList)
      (LinkListing.dabbadInterfaceDriverGet idList s.links) ∧
    LinksAgree o s qs h fillPause (dabbadInterfacePauseGet idList)
      (LinkListing.dabbadInterfacePauseGet idList s.links) ∧
    LinksAgree o s qs h fillCoalesce (dabbadInterfaceCoalesceGet idList)
      (LinkListing.dabbadInterfaceCoalesceGet idList s.links) ∧
    LinksAgree o s qs h fillOffload (dabbadInterfaceOffloadGet idList)
      (LinkListing.dabbadInterfaceOffloadGet idList s.links) ∧
    LinksAgree o s qs h fillSettings (dabbadInterfaceSettingsGet idList)
      (LinkListing.dabbadInterfaceSettingsGet idList s.links) :=
  ⟨fun flags => interfaceGet_agrees howns hsocket 0 s idList (gets_status flags),
    interfaceGet_agrees howns hsocket 4 s idList gets_driver,
    interfaceGet_agrees howns hsocket 0 s idList gets_pause,
    interfaceGet_agrees howns hsocket 0 s idList gets_coalesce,
    interfaceGet_agrees howns hsocket 0 s idList gets_offload,
    interfaceGet_agrees howns hsocket 0 s idList gets_settings⟩

end Links

end Dabbad
