import Dabba.BitEdit.Basic
import Dabba.Dabbad.CapabilitiesBlocks

/-!
# The advertised capabilities that a request edits

A request names some of nine capabilities, each with a bit of its own in the word of
advertised capabilities. The edits give the named bits the requested values, and the get
handler reports them afterwards. Both are told by the values that a message has for the
bits.
-/

namespace Dabbad

open Posix Program Interface Resource BitEdit

section Named

/-- The values that a speed message has for the bits of the word. -/
def speedBit (speed : InterfaceSpeedCapabilites) : ℕ → Option Bool
  | 0 => speed.ethernet.bind InterfaceDuplexCapabilites.half
  | 1 => speed.ethernet.bind InterfaceDuplexCapabilites.full
  | 2 => speed.fastEthernet.bind InterfaceDuplexCapabilites.half
  | 3 => speed.fastEthernet.bind InterfaceDuplexCapabilites.full
  | 4 => speed.gbpsEthernet.bind InterfaceDuplexCapabilites.half
  | 5 => speed.gbpsEthernet.bind InterfaceDuplexCapabilites.full
  | 12 => speed.tenGbpsEthernet.bind InterfaceDuplexCapabilites.full
  | _ => none

def optionBit (opt : InterfaceOptionCapabilites) : ℕ → Option Bool
  | 6 => opt.autoneg
  | 13 => opt.pause
  | _ => none

def namedBit (speed : Option InterfaceSpeedCapabilites)
    (opt : Option InterfaceOptionCapabilites) (i : ℕ) : Option Bool :=
  (opt.bind fun opt => optionBit opt i).or (speed.bind fun speed => speedBit speed i)

end Named

section Edits

variable {w : ℕ}

theorem edits_flag (k : ℕ) (hk : k < w) (v : Option Bool) :
    Edits w (fun i => if i = k then v else none) (overlay v (editFlag (1#w <<< k))) where
  bit s i hi := by
    cases v with
    | none => rw [overlay_none, ite_self, Option.getD_none]
    | some v => exact ((Edits.put hk v).bit s i hi)
  noted s := by
    cases v with
    | none => simp [overlay]
    | some v => simp [overlay, hk]

def flagBit (k : ℕ) (v : Option Bool) (i : ℕ) : Option Bool := if i = k then v else none

theorem edits_duplexSet (h f : ℕ) (hh : h < 32) (hf : f < 32)
    (duplex : Option InterfaceDuplexCapabilites) :
    Edits 32 (fun i => (flagBit f (duplex.bind InterfaceDuplexCapabilites.full) i).or
        (flagBit h (duplex.bind InterfaceDuplexCapabilites.half) i))
      (duplexSet (1#32 <<< h) (1#32 <<< f) duplex) := by
  cases duplex with
  | none => exact Edits.none.congr fun i => by simp [flagBit]
  | some duplex => exact (edits_flag h hh duplex.half).comp (edits_flag f hf duplex.full)

theorem edits_interfaceSpeedOptionSet (speed : InterfaceSpeedCapabilites) :
    Edits 32 (speedBit speed) (interfaceSpeedOptionSet speed) := by
  have hten : Edits 32
      (flagBit 12 (speed.tenGbpsEthernet.bind InterfaceDuplexCapabilites.full))
      (fun s => speed.tenGbpsEthernet.elim s fun duplex =>
        overlay duplex.full (editFlag advertised10000baseTFull) s) := by
    cases speed.tenGbpsEthernet with
    | none => exact Edits.none.congr fun i => by simp [flagBit]
    | some duplex => exact edits_flag 12 (by decide) duplex.full
  have hethernet := edits_duplexSet 0 1 (by decide) (by decide) speed.ethernet
  have hfast := edits_duplexSet 2 3 (by decide) (by decide) speed.fastEthernet
  have hgbps := edits_duplexSet 4 5 (by decide) (by decide) speed.gbpsEthernet
  have hset : interfaceSpeedOptionSet speed =
      (fun s => speed.tenGbpsEthernet.elim s fun duplex =>
        overlay duplex.full (editFlag advertised10000baseTFull) s) ∘
      duplexSet (1#32 <<< 4) (1#32 <<< 5) speed.gbpsEthernet ∘
      duplexSet (1#32 <<< 2) (1#32 <<< 3) speed.fastEthernet ∘
      duplexSet (1#32 <<< 0) (1#32 <<< 1) speed.ethernet := by
    funext s
    unfold interfaceSpeedOptionSet
    cases speed.tenGbpsEthernet <;> rfl
  rw [hset]
  refine (((hethernet.comp hfast).comp hgbps).comp hten).congr fun i => ?_
  simp only [flagBit]
  unfold speedBit
  clear hten hethernet hfast hgbps
  split <;> grind

theorem edits_interfaceAdvertisingOptionSet (opt : InterfaceOptionCapabilites) :
    Edits 32 (optionBit opt) (interfaceAdvertisingOptionSet opt) := by
  have hautoneg := edits_flag (w := 32) 6 (by decide) opt.autoneg
  have hpause := edits_flag (w := 32) 13 (by decide) opt.pause
  refine (hautoneg.comp hpause).congr fun i => ?_
  unfold optionBit
  clear hautoneg hpause
  split <;> grind

theorem apart_speedBit_optionBit (speed : InterfaceSpeedCapabilites)
    (opt : InterfaceOptionCapabilites) : Apart (speedBit speed) (optionBit opt) := by
  intro i
  unfold optionBit
  split
  · exact .inl rfl
  · exact .inl rfl
  · exact .inr rfl

theorem edits_advertisingOverlay (speed : Option InterfaceSpeedCapabilites)
    (opt : Option InterfaceOptionCapabilites) :
    Edits 32 (namedBit speed opt) (advertisingOverlay speed opt) := by
  have hspeed := Edits.elim edits_interfaceSpeedOptionSet speed
  have hopt := Edits.elim edits_interfaceAdvertisingOptionSet opt
  have hoverlay : advertisingOverlay speed opt =
      (fun s => opt.elim s fun opt => interfaceAdvertisingOptionSet opt s) ∘
      fun s => speed.elim s fun speed => interfaceSpeedOptionSet speed s := by
    cases speed <;> cases opt <;> rfl
  rw [hoverlay]
  exact hspeed.comp hopt

end Edits

section Reported

def advertisedBits : List ℕ := [0, 1, 2, 3, 4, 5, 6, 12, 13]

theorem flagReported_shiftLeft (word : BitVec 32) {k : ℕ} (hk : k < 32) :
    flagReported word (1#32 <<< k) = some (word.getLsbD k) := by
  have hflag := bne_iff_ne.trans (and_shiftLeft_ne_zero_iff hk word)
  exact congrArg some (Bool.eq_iff_iff.2 hflag)

theorem namedBit_eq_none {speed : Option InterfaceSpeedCapabilites}
    {opt : Option InterfaceOptionCapabilites} {i : ℕ} (hi : i ∉ advertisedBits) :
    namedBit speed opt i = none := by
  simp only [advertisedBits, List.mem_cons, List.not_mem_nil, or_false, not_or] at hi
  have hspeed : ∀ speed, speedBit speed i = none := by
    intro speed
    unfold speedBit
    split <;> grind
  have hopt : ∀ opt, optionBit opt i = none := by
    intro opt
    unfold optionBit
    split <;> grind
  simp [namedBit, hspeed, hopt]

theorem namedBit_reported (word : BitVec 32) (i : ℕ) :
    namedBit (some (speedsReported word)) (some (optionsReported word)) i =
      if i ∈ advertisedBits then some (word.getLsbD i) else none := by
  split
  case isFalse hi => exact namedBit_eq_none hi
  case isTrue hi =>
    rw [← flagReported_shiftLeft word (by revert i; decide)]
    simp only [advertisedBits, List.mem_cons, List.not_mem_nil, or_false] at hi
    rcases hi with rfl | rfl | rfl | rfl | rfl | rfl | rfl | rfl | rfl <;> rfl

theorem namedBit_reported_edited (speed : Option InterfaceSpeedCapabilites)
    (opt : Option InterfaceOptionCapabilites) (s : BitVec 32 × Bool) (i : ℕ) :
    namedBit (some (speedsReported (advertisingOverlay speed opt s).1))
        (some (optionsReported (advertisingOverlay speed opt s).1)) i =
      (namedBit speed opt i).or
        (namedBit (some (speedsReported s.1)) (some (optionsReported s.1)) i) := by
  rw [namedBit_reported, namedBit_reported]
  split
  case isFalse hi => rw [namedBit_eq_none hi, Option.none_or]
  case isTrue hi =>
    rw [(edits_advertisingOverlay speed opt).bit s i (by revert i; decide)]
    cases namedBit speed opt i <;> rfl

end Reported

section Get

def CapAnswers.success : CapAnswers := ⟨0, 0, fun _ => 0, fun _ => true⟩

/-- The get handler reports the settings of every device. -/
structure CapabilitiesReported (s : Devices) : Prop where
  complete : ∀ idList, ∃ list s',
    (dabbadInterfaceCapabilitiesGet idList).run HeapCall.handle (fun _ => .success)
        (CapAnswers.start s) = some (some list, s') ∧
      ∀ name ∈ s.names, idList = [] ∨ name ∈ idList →
        ⟨0, capabilitiesReported name (s.device name).settings⟩ ∈ list
  right : ∀ idList o list s',
    (dabbadInterfaceCapabilitiesGet idList).run HeapCall.handle (fun _ => o)
        (CapAnswers.start s) = some (some list, s') →
      ∀ e ∈ list, e.status = 0 → e.capabilities =
        capabilitiesReported e.capabilities.name (s.device e.capabilities.name).settings

namespace CapAnswers

variable {o : CapAnswers} {devices : Devices}

theorem reported_success (v : ℕ) (links : List RtnlLink) :
    success.reported devices v links = links.map (success.entry devices 0) := by
  induction links generalizing v with
  | nil => rfl
  | cons link links ih =>
      have hshell : success.ShellAllocated v := ⟨rfl, rfl, fun _ _ => rfl⟩
      rw [reported, if_pos hshell, ih, List.map_cons, List.singleton_append]
      rfl

theorem exists_of_mem_reported {v : ℕ} {links : List RtnlLink} {e : CapabilitiesEntry}
    (h : e ∈ o.reported devices v links) :
    ∃ v, ∃ link ∈ links, e = o.entry devices v link := by
  induction links generalizing v with
  | nil => cases h
  | cons link links ih =>
      rcases List.mem_append.1 h with hlink | hlinks
      · split at hlink
        case isTrue => exact ⟨v, link, List.mem_cons_self, List.mem_singleton.1 hlink⟩
        case isFalse => cases hlink
      · obtain ⟨v', link', hmem, he⟩ := ih hlinks
        exact ⟨v', link', List.mem_cons_of_mem link hmem, he⟩

theorem capabilities_entry {v : ℕ} {link : RtnlLink} (hlink : link ∈ devices.links)
    (hstatus : (o.entry devices v link).status = 0) :
    (o.entry devices v link).capabilities =
      capabilitiesReported link.name (devices.device link.name).settings := by
  obtain ⟨name, hname, rfl⟩ := List.mem_map.1 hlink
  by_cases hzero : o.settings v = 0
  · simp only [entry, Devices.ifrName_of_mem name hname, hzero, BitVec.ofNat_eq_ofNat,
      Devices.request_zero hname]
    rfl
  · obtain ⟨rc, hrc, hrequest⟩ :=
      devices.request_of_fail (ifrName name) .gset (o.settings v) (.inl hzero)
    rw [entry, hrequest] at hstatus
    exact absurd hstatus hrc

end CapAnswers

theorem capabilitiesReported_of_devices (s : Devices) : CapabilitiesReported s where
  complete idList := by
    have hlist : (dabbadInterfaceCapabilitiesGet idList).wp CapAnswers.success.sem
        (fun reply _ => reply = some
          ((visitedLinks idList s.links).map (CapAnswers.success.entry s 0)))
        (CapAnswers.start s) := by
      have hopen : CapAnswers.success.linkCache = 0 ∧ CapAnswers.success.rtnlLinkAlloc = 0 :=
        ⟨rfl, rfl⟩
      rw [CapAnswers.wp_capabilitiesGet, if_pos hopen, CapAnswers.visited, if_pos hopen]
      rcases CapAnswers.listCapabilities_cases .success s (visitedLinks idList s.links) with
        ⟨hmissing, -⟩ | ⟨-, hlist⟩
      · exact absurd (fun _ _ _ _ _ => rfl) hmissing
      · refine Prog.wp_mono _ hlist fun list _ h => ?_
        rw [h.1, CapAnswers.reported_success]
    obtain ⟨_, s', hrun, rfl⟩ := Prog.wp_const_iff.1 hlist
    refine ⟨_, s', hrun, fun name hname hasked => ?_⟩
    have hmem := mem_map_visitedLinks hname hasked (CapAnswers.success.entry s 0)
    simp only [CapAnswers.entry, Devices.ifrName_of_mem name hname, CapAnswers.success,
      BitVec.ofNat_eq_ofNat, Devices.request_zero hname] at hmem
    exact hmem
  right idList o list s' hrun e he hstatus := by
    have hwp : (dabbadInterfaceCapabilitiesGet idList).wp o.sem
        (fun reply _ => reply = some list) (CapAnswers.start s) :=
      Prog.wp_const_iff.2 ⟨_, s', hrun, rfl⟩
    rw [CapAnswers.wp_capabilitiesGet] at hwp
    split at hwp
    case isFalse => cases hwp
    case isTrue hopen =>
      rw [CapAnswers.visited, if_pos hopen] at hwp
      rcases CapAnswers.listCapabilities_cases o s (visitedLinks idList s.links) with
        ⟨-, hnot⟩ | ⟨-, hlist⟩
      · exact absurd hwp (hnot _)
      obtain ⟨list', _, ⟨⟨hlist', -⟩, heq⟩, -⟩ :=
        CapAnswers.exists_bind ((Prog.wp_and o.sem).2 ⟨hlist, hwp⟩)
      cases heq
      rw [hlist'] at he
      obtain ⟨v, link, hlink, rfl⟩ := CapAnswers.exists_of_mem_reported he
      exact CapAnswers.capabilities_entry (exists_of_mem_visitedLinks hlink) hstatus

end Get

/-- A request that is answered with zero is reported with the values that it named, and
the old ones elsewhere. -/
def AdvertisedKept (s : Devices) (r : InterfaceCapabilities) (script : ℕ → BitVec 32) :
    Prop :=
  ∃ rc s', (dabbadInterfaceCapabilitiesModify r).run DevCall.handle script s =
      some (rc, s') ∧
    (rc = 0 → CapabilitiesReported s' ∧ (∀ name ≠ r.name, s'.device name = s.device name) ∧
      ∃ before after, before = capabilitiesReported r.name (s.device r.name).settings ∧
        after = capabilitiesReported r.name (s'.device r.name).settings ∧
        (∀ i, namedBit after.advertisingSpeed after.advertisingOpt i =
          (namedBit r.advertisingSpeed r.advertisingOpt i).or
            (namedBit before.advertisingSpeed before.advertisingOpt i)) ∧
        after = { before with
          advertisingSpeed := after.advertisingSpeed
          advertisingOpt := after.advertisingOpt })

theorem advertisedKept (s : Devices) (r : InterfaceCapabilities) (script : ℕ → BitVec 32) :
    AdvertisedKept s r script := by
  obtain ⟨rc, s', hrun, -, hmodified, -⟩ := run_capabilitiesModify s r script
  refine ⟨rc, s', hrun, fun hrc => ?_⟩
  obtain rfl := hmodified hrc
  refine ⟨capabilitiesReported_of_devices _, fun name hne => s.device_set_of_ne r.name hne _,
    _, _, rfl, rfl, fun i => ?_, ?_⟩
  · rw [capabilitiesModified, Devices.device_set_self]
    exact namedBit_reported_edited _ _ _ i
  · rw [capabilitiesModified, Devices.device_set_self]
    rfl

/-- Advertised capabilities are edited bit by bit: the named ones get the requested
values, the others keep theirs, and something is noted if and only if one was named.
Repeating an edit changes nothing, and edits that name nothing in common commute. A request
that is answered with zero is reported accordingly. -/
theorem advertisingOverlay_exact :
    (∀ speed opt s,
      (∀ i < 32, (advertisingOverlay speed opt s).1.getLsbD i =
        (namedBit speed opt i).getD (s.1.getLsbD i)) ∧
      ((advertisingOverlay speed opt s).2 = true ↔
        s.2 = true ∨ ∃ i < 32, (namedBit speed opt i).isSome) ∧
      advertisingOverlay speed opt (advertisingOverlay speed opt s) =
        advertisingOverlay speed opt s) ∧
    (∀ speed opt s, interfaceAdvertisingOptionSet opt (interfaceSpeedOptionSet speed s) =
      interfaceSpeedOptionSet speed (interfaceAdvertisingOptionSet opt s)) ∧
    (∀ speed opt speed' opt', Apart (namedBit speed opt) (namedBit speed' opt') → ∀ s,
      advertisingOverlay speed' opt' (advertisingOverlay speed opt s) =
        advertisingOverlay speed opt (advertisingOverlay speed' opt' s)) ∧
    ∀ s r script, AdvertisedKept s r script := by
  refine ⟨fun speed opt s => ?_, fun speed opt s => ?_, fun speed opt speed' opt' h s => ?_,
    advertisedKept⟩
  · have hedits := edits_advertisingOverlay speed opt
    exact ⟨hedits.bit s, hedits.noted s, congrFun hedits.idem s⟩
  · exact congrFun ((edits_interfaceSpeedOptionSet speed).comm
      (edits_interfaceAdvertisingOptionSet opt) (apart_speedBit_optionBit speed opt)) s
  · exact congrFun ((edits_advertisingOverlay speed opt).comm
      (edits_advertisingOverlay speed' opt') h) s

end Dabbad
