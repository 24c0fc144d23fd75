import Dabba.Interface.Device
import Dabba.Program.Requests

/-!
# The handlers that list interfaces

A get handler reads the links of the kernel into a cache, visits those that were asked
for, and appends one entry for each. A link for which memory is short is left out. The
handlers differ in what they put into an entry.
-/

namespace Dabbad

open Posix Program Interface

section

variable {E : Type}

def visitedLinks (idList : List (List Byte)) (cache : List RtnlLink) : List RtnlLink :=
  if idList = [] then cache
  else idList.flatMap fun name => cache.filter fun link => link.name == ifrName name

/-- Appends the entry of a link: the list, the entry, its id and its status are
allocated. -/
def appendEntry (fill : RtnlLink → Prog DevCall E) (list : List E) (link : RtnlLink) :
    Prog DevCall (List E) := do
  let listpp ← DevCall.alloc
  if listpp = false then
    return list
  else
    let entryp ← DevCall.alloc
    if entryp = false then
      return list
    else
      let id ← DevCall.alloc
      let status ← DevCall.alloc
      if id = false ∨ status = false then
        return list
      else
        let entry ← fill link
        return list ++ [entry]

def appendEntries (fill : RtnlLink → Prog DevCall E) :
    List RtnlLink → List E → Prog DevCall (List E)
  | [], list => pure list
  | link :: links, list => do
      let list ← appendEntry fill list link
      appendEntries fill links list

/-- A get handler: the reply is the list, or nothing. -/
def interfaceGet (fill : RtnlLink → Prog DevCall E) (idList : List (List Byte)) :
    Prog DevCall (Option (List E)) := do
  let cache ← DevCall.linkCache
  let link ← DevCall.link .rtnlLinkAlloc
  match cache with
  | none => return none
  | some cache =>
      if link = false then
        return none
      else
        let list ← appendEntries fill (visitedLinks idList cache) []
        return some list

end

def success : ℕ → BitVec 32 := fun _ => 0

section

variable {E : Type} {fill : RtnlLink → Prog DevCall E} {entry : RtnlLink → E}
variable {s : Devices} {idList : List (List Byte)}

theorem exists_of_mem_visitedLinks {cache : List RtnlLink} {link : RtnlLink}
    (h : link ∈ visitedLinks idList cache) : link ∈ cache := by
  rw [visitedLinks] at h
  split at h
  · exact h
  · obtain ⟨name, -, hlink⟩ := List.mem_flatMap.1 h
    exact (List.mem_filter.1 hlink).1

theorem mem_visitedLinks {cache : List RtnlLink} {link : RtnlLink} (hlink : link ∈ cache)
    (hlt : link.name.length < ifnamsiz) (hasked : idList = [] ∨ link.name ∈ idList) :
    link ∈ visitedLinks idList cache := by
  rw [visitedLinks]
  split
  case isTrue => exact hlink
  case isFalse hne =>
    refine List.mem_flatMap.2 ⟨link.name, hasked.resolve_left hne, ?_⟩
    exact List.mem_filter.2 ⟨hlink, by rw [ifrName_of_lt hlt, beq_self_eq_true]⟩

theorem mem_map_visitedLinks {name : List Byte} (hname : name ∈ s.names)
    (hasked : idList = [] ∨ name ∈ idList) (entry : RtnlLink → E) :
    entry ⟨name, (s.device name).mtu, (s.device name).txqlen⟩ ∈
      (visitedLinks idList s.links).map entry := by
  have hlink : ⟨name, (s.device name).mtu, (s.device name).txqlen⟩ ∈ s.links :=
    List.mem_map.2 ⟨name, hname, rfl⟩
  exact List.mem_map.2 ⟨_, mem_visitedLinks hlink (s.length_lt name hname) hasked, rfl⟩

theorem run_appendEntries {links : List RtnlLink}
    (hfill : ∀ link ∈ links, (fill link).run DevCall.handle success s =
      some (entry link, s)) (list : List E) :
    (appendEntries fill links list).run DevCall.handle success s =
      some (list ++ links.map entry, s) := by
  induction links generalizing list with
  | nil => simp [appendEntries, Prog.run]
  | cons link links ih =>
      have happend : (appendEntry fill list link).run DevCall.handle success s =
          some (list ++ [entry link], s) :=
        Prog.run_bind_const (hfill link List.mem_cons_self) _
      have hrest := ih (fun link hlink => hfill link (List.mem_cons_of_mem _ hlink))
        (list ++ [entry link])
      rw [List.append_assoc, List.singleton_append] at hrest
      rw [List.map_cons, ← hrest]
      exact Prog.run_bind_const happend _

theorem run_interfaceGet (hfill : ∀ link ∈ s.links,
      (fill link).run DevCall.handle success s = some (entry link, s)) :
    (interfaceGet fill idList).run DevCall.handle success s =
      some (some ((visitedLinks idList s.links).map entry), s) := by
  have happend : (appendEntries fill (visitedLinks idList s.links) []).run
      DevCall.handle success s = some ((visitedLinks idList s.links).map entry, s) :=
    run_appendEntries (fun link hlink => hfill link (exists_of_mem_visitedLinks hlink)) []
  exact Prog.run_bind_const happend _

theorem wp_alloc {A : Type} {k : Bool → Prog DevCall A} {R : A → Devices → Prop}
    (h : ∀ ok, (k ok).wp DevCall.anySem R s) :
    ((Prog.perform DevCall.alloc).bind k).wp DevCall.anySem R s := by
  rintro ok s' ⟨e, -, heq⟩
  cases heq
  exact h _

theorem wp_appendEntry {Q : E → Prop} {link : RtnlLink}
    (hfill : (fill link).wp DevCall.anySem (fun e s' => Q e ∧ s' = s) s)
    {list : List E} (hlist : ∀ e ∈ list, Q e) :
    (appendEntry fill list link).wp DevCall.anySem
      (fun list s' => (∀ e ∈ list, Q e) ∧ s' = s) s := by
  refine wp_alloc fun listpp => ?_
  split
  · exact ⟨hlist, rfl⟩
  refine wp_alloc fun entryp => ?_
  split
  · exact ⟨hlist, rfl⟩
  refine wp_alloc fun id => wp_alloc fun status => ?_
  split
  · exact ⟨hlist, rfl⟩
  refine Prog.wp_bind_of _ hfill ?_
  rintro e _ ⟨he, rfl⟩
  refine ⟨fun e' he' => ?_, rfl⟩
  obtain hmem | rfl := List.mem_append.1 he' |>.imp_right List.mem_singleton.1
  · exact hlist e' hmem
  · exact he

/-- Whatever fails, every entry is one that a visited link was given, and no device
changes. -/
theorem wp_appendEntries {Q : E → Prop} {links : List RtnlLink}
    (hfill : ∀ link ∈ links,
      (fill link).wp DevCall.anySem (fun e s' => Q e ∧ s' = s) s)
    {list : List E} (hlist : ∀ e ∈ list, Q e) :
    (appendEntries fill links list).wp DevCall.anySem
      (fun list s' => (∀ e ∈ list, Q e) ∧ s' = s) s := by
  induction links generalizing list with
  | nil => exact ⟨hlist, rfl⟩
  | cons link links ih =>
      refine Prog.wp_bind_of _ (wp_appendEntry (hfill link List.mem_cons_self) hlist) ?_
      rintro list _ ⟨hlist, rfl⟩
      exact ih (fun link hlink => hfill link (List.mem_cons_of_mem _ hlink)) hlist

theorem wp_interfaceGet {Q : E → Prop}
    (hfill : ∀ link ∈ s.links,
      (fill link).wp DevCall.anySem (fun e s' => Q e ∧ s' = s) s) :
    (interfaceGet fill idList).wp DevCall.anySem
      (fun reply s' => (∀ list, reply = some list → ∀ e ∈ list, Q e) ∧ s' = s) s := by
  rintro cache _ ⟨e, -, heq⟩
  cases heq
  rintro link _ ⟨e', -, heq⟩
  cases heq
  dsimp only
  split
  · exact ⟨by simp, rfl⟩
  case h_2 cache hcache =>
    obtain ⟨-, heq⟩ := Option.ite_none_right_eq_some.1 hcache
    cases heq
    rw [Prog.ret_bind]
    split
    · exact ⟨by simp, rfl⟩
    · refine Prog.wp_bind_of _ (wp_appendEntries (fun link hlink =>
        hfill link (exists_of_mem_visitedLinks hlink)) (List.forall_mem_nil _)) ?_
      rintro list _ ⟨hlist, rfl⟩
      exact ⟨fun _ h => by cases h; exact hlist, rfl⟩

end

end Dabbad
