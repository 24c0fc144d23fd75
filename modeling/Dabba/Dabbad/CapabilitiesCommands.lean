import Dabba.Dabbad.Advertising
import Dabba.Dabbad.Commands

/-!
# From the command line to the advertised capabilities

A command to modify the capabilities of an interface names duplex modes for one speed, and
options. Its message has the duplex modes under that speed, and the daemon edits the bits
that belong to them. So after any commands, the list of capabilities shows for each bit what
the last command that said something about it, and was answered with zero, has said.
-/

namespace Dabbad

open Posix Program Interface Last Cli

/-- A command to modify capabilities on the side of the client: its words, and the outcomes
of its allocations and of its connection. -/
structure CapabilitiesCommand where
  argv : List (List Byte)
  malloc : ℕ → Bool
  connect : AddressType → List Byte → Bool

namespace CapabilitiesCommand

/-- The request that the command sends, if it sends one. The interface is required in the
message: without it there is no request. -/
def request (c : CapabilitiesCommand) : Option InterfaceCapabilities :=
  (cmdInterfaceCapabilitiesModify c.malloc c.connect c.argv).2.bind fun s =>
    s.id.map fun name => { s.message with name := name }

def serve (c : CapabilitiesCommand) : Prog DevCall (Option (BitVec 32)) :=
  match c.request with
  | none => pure none
  | some r => some <$> dabbadInterfaceCapabilitiesModify r

section Words

variable (c : CapabilitiesCommand)

def given (p : CapabilitiesParam) : Option ModifyValue :=
  lastOf (capabilitiesOptions.given p) (getoptAll capabilitiesOptions.options c.argv)

def interfaceId : Option (List Byte) :=
  lastOf ModifyCommand.names (getoptAll capabilitiesOptions.options c.argv)

def flag (p : CapabilitiesParam) : Option Bool := flagAsked c.given p

def atSpeed (v : BitVec 32) (p : CapabilitiesParam) : Option Bool :=
  if c.given .speed = some (.word v) then c.flag p else none

/-- What the words say about a bit of the advertised capabilities. There is no half duplex at
10 Gbps, and nothing is said with the speed 2500. -/
def bitSaid : ℕ → Option Bool
  | 0 => c.atSpeed 10 .halfDuplex
  | 1 => c.atSpeed 10 .fullDuplex
  | 2 => c.atSpeed 100 .halfDuplex
  | 3 => c.atSpeed 100 .fullDuplex
  | 4 => c.atSpeed 1000 .halfDuplex
  | 5 => c.atSpeed 1000 .fullDuplex
  | 6 => c.flag .autoneg
  | 12 => c.atSpeed 10000 .fullDuplex
  | 13 => c.flag .pause
  | _ => none

end Words

/-- What a command has said about a bit of the interface of a name, if it was answered with
zero. -/
def said (name : List Byte) (i : ℕ) : CapabilitiesCommand × Option (BitVec 32) → Option Bool
  | (c, some rc) => if rc = 0 ∧ c.interfaceId = some name then c.bitSaid i else none
  | _ => none

section Served

variable {c : CapabilitiesCommand} {r : InterfaceCapabilities}

theorem bitSaid_eq_none {i : ℕ} (hi : i ∉ advertisedBits) : c.bitSaid i = none := by
  unfold bitSaid
  split <;> first | rfl | exact absurd (by decide) hi

theorem exact_request (h : c.request = some r) :
    c.interfaceId = some r.name ∧ r = { capabilitiesAsked c.given with name := r.name } := by
  obtain ⟨s, hs, hr⟩ := Option.bind_eq_some_iff.1 h
  obtain ⟨name, hname, rfl⟩ := Option.map_eq_some_iff.1 hr
  obtain ⟨hrefused, hsent⟩ := capabilities_exact c.malloc c.connect c.argv
  cases hfirst : capabilitiesOptions.firstRefusal c.malloc 0
      (getoptAll capabilitiesOptions.options c.argv) with
  | some rc =>
      rw [hrefused rc hfirst] at hs
      cases hs
  | none =>
      obtain ⟨s', hmessage, hid, -, hrun⟩ := hsent hfirst
      rw [hrun] at hs
      split_ifs at hs
      obtain rfl := Option.some.inj hs
      refine ⟨hid.symm.trans hname, ?_⟩
      dsimp only
      rw [hmessage]
      rfl

/-- The values for the bits are those that the words say. -/
theorem namedBit_request (h : c.request = some r) (i : ℕ) :
    namedBit r.advertisingSpeed r.advertisingOpt i = c.bitSaid i := by
  have hat : ∀ (v : BitVec 32) p (f : InterfaceDuplexCapabilites → Option Bool),
      f ⟨flagAsked c.given .halfDuplex, flagAsked c.given .fullDuplex⟩ = c.flag p →
      (duplexAsked c.given v).bind f = c.atSpeed v p := by
    intro v p f hp
    rw [duplexAsked, atSpeed, ← hp]
    split_ifs <;> rfl
  rw [(exact_request h).2]
  by_cases hi : i ∈ advertisedBits
  · simp only [advertisedBits, List.mem_cons, List.not_mem_nil, or_false] at hi
    rcases hi with rfl | rfl | rfl | rfl | rfl | rfl | rfl | rfl | rfl
    · exact hat 10 .halfDuplex _ rfl
    · exact hat 10 .fullDuplex _ rfl
    · exact hat 100 .halfDuplex _ rfl
    · exact hat 100 .fullDuplex _ rfl
    · exact hat 1000 .halfDuplex _ rfl
    · exact hat 1000 .fullDuplex _ rfl
    · exact Option.or_none ..
    · exact hat 10000 .fullDuplex _ rfl
    · exact Option.or_none ..
  · rw [namedBit_eq_none hi, bitSaid_eq_none hi]

variable {s s' : Devices} {script : ℕ → BitVec 32} {a : Option (BitVec 32)}

variable (c s script) in
theorem keeps_names : ∃ a s', c.serve.run DevCall.handle script s = some (a, s') ∧
    s'.names = s.names := by
  rw [serve]
  cases c.request with
  | none => exact ⟨none, s, rfl, rfl⟩
  | some r =>
      obtain ⟨rc, s', hrun, -, hmodified, hsame⟩ := run_capabilitiesModify s r script
      refine ⟨some rc, s', ?_, ?_⟩
      · dsimp only
        rw [Prog.run_map, hrun]
        rfl
      · by_cases hrc : rc = 0
        · rw [hmodified hrc]
          rfl
        · rw [hsame hrc]

/-- A command sets the bits it has said, if it was answered with zero, and nothing else. -/
theorem bit_of_run (hrun : c.serve.run DevCall.handle script s = some (a, s'))
    (name : List Byte) {i : ℕ} (hi : i < 32) :
    (s'.device name).settings.advertising.getLsbD i =
      (said name i (c, a)).getD ((s.device name).settings.advertising.getLsbD i) := by
  rw [serve] at hrun
  cases hr : c.request with
  | none =>
      rw [hr] at hrun
      obtain ⟨rfl, rfl⟩ := Prod.mk.inj (Option.some.inj hrun)
      rfl
  | some r =>
      have hname := (exact_request hr).1
      have hbits := namedBit_request hr
      obtain ⟨rc, s₁, hmodify, -, hmodified, hsame⟩ := run_capabilitiesModify s r script
      rw [hr] at hrun
      dsimp only at hrun
      rw [Prog.run_map, hmodify] at hrun
      obtain ⟨rfl, rfl⟩ := Prod.mk.inj (Option.some.inj hrun)
      by_cases hrc : rc = 0
      · rw [hmodified hrc, capabilitiesModified]
        by_cases hthis : name = r.name
        · have hsaid : said name i (c, some rc) = c.bitSaid i :=
            if_pos ⟨hrc, by rw [hname, hthis]⟩
          rw [hsaid, hthis, Devices.device_set_self, ← hbits i]
          exact (edits_advertisingOverlay _ _).bit _ i hi
        · have hsaid : said name i (c, some rc) = none :=
            if_neg fun h => hthis (Option.some.inj (h.2.symm.trans hname))
          rw [hsaid, s.device_set_of_ne r.name hthis]
          rfl
      · have hsaid : said name i (c, some rc) = none := if_neg fun h => hrc h.1
        rw [hsaid, hsame hrc]
        rfl

end Served

end CapabilitiesCommand

/-- For all commands to modify the capabilities of interfaces, one after another, with any
words and any outcomes of the calls of the client and of the daemon: the list of capabilities
shows for every interface, and for each of the nine bits, what the last command that said
something about the bit, and was answered with zero, has said; and where there is none, what
it was in the beginning. -/
theorem advertised_shown (s : Devices)
    (session : List (CapabilitiesCommand × (ℕ → BitVec 32))) :
    ∃ answered s', serveAll DevCall.handle CapabilitiesCommand.serve session s =
        some (answered, s') ∧ s'.names = s.names ∧
      ∀ idList, ∃ list s'',
        (dabbadInterfaceCapabilitiesGet idList).run HeapCall.handle (fun _ => .success)
          (CapAnswers.start s') = some (some list, s'') ∧
        ∀ name ∈ s.names, idList = [] ∨ name ∈ idList →
          ∃ e ∈ list, e.status = 0 ∧ e.capabilities.name = name ∧ ∀ i ∈ advertisedBits,
            namedBit e.capabilities.advertisingSpeed e.capabilities.advertisingOpt i =
              some ((lastOf (CapabilitiesCommand.said name i) answered).getD
                ((s.device name).settings.advertising.getLsbD i)) := by
  have hrefl : ∀ s : Devices, s.names = s.names := fun _ => rfl
  have htrans : ∀ s₁ s₂ s₃ : Devices, s₂.names = s₁.names → s₃.names = s₂.names →
      s₃.names = s₁.names := fun _ _ _ h h' => h'.trans h
  obtain ⟨answered, s', hrun, hnames⟩ := @serveAll_keeps _ _ _ _ _ DevCall.handle
    CapabilitiesCommand.serve (fun s s' => s'.names = s.names) hrefl htrans
    (fun c script s => CapabilitiesCommand.keeps_names c s script) session s
  refine ⟨answered, s', hrun, hnames, fun idList => ?_⟩
  obtain ⟨list, s'', hget, hlist⟩ := (capabilitiesReported_of_devices s').complete idList
  refine ⟨list, s'', hget, fun name hname hasked => ?_⟩
  refine ⟨_, hlist name (hnames ▸ hname) hasked, rfl, rfl, fun i hi => ?_⟩
  have hlt : i < 32 := by
    revert i
    decide
  have hbit := read_serveAll
    (fun _ _ _ _ _ hrun => CapabilitiesCommand.bit_of_run hrun name hlt) hrun
  rw [← hbit]
  exact (namedBit_reported _ i).trans (if_pos hi)

end Dabbad
