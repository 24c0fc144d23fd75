import Dabba.Dabbad.InterfaceCapabilities
import Dabba.Program.Requests

/-!
# Which port a request selects

The ports are numbered from 0 to 4, and a request edits the number bit by bit. Naming a
port selects it only from a port whose bits it has, and taking back another port than the
one in force changes the number where the two share a bit.
-/

namespace Dabbad

open Posix Program Interface

/-- The ports that a request names, with their flags, in the order in which they are
applied. -/
def namedPorts (r : InterfaceCapabilities) : List (BitVec 8 × Bool) :=
  [(portAui, r.aui), (portBnc, r.bnc), (portFibre, r.fibre), (portMii, r.mii),
    (portTp, r.tp)].filterMap fun p => p.2.map fun v => (p.1, v)

/-- The port after a request that names at most one port: the named one if its flag is
true, and the one before if there is none or the flag is false for another one. -/
def PortSelected (port : BitVec 8) (named : List (BitVec 8 × Bool)) (port' : BitVec 8) :
    Prop :=
  match named with
  | [] => port' = port
  | [(q, true)] => port' = q
  | [(q, false)] => q ≠ port → port' = port
  | _ :: _ :: _ => True

/-- The bits of the named port and of the port in force fit together. -/
def NamedPortFits (port : BitVec 8) (named : List (BitVec 8 × Bool)) : Prop :=
  match named with
  | [] => True
  | [(q, true)] => port &&& ~~~q = 0
  | [(q, false)] => q = port ∨ port &&& q = 0
  | _ :: _ :: _ => True

theorem portOverlay_eq_foldl (r : InterfaceCapabilities) (port : BitVec 8) :
    (portOverlay r port).1 =
      (namedPorts r).foldl (fun port p => editFlag p.1 port p.2) port := by
  rcases r with ⟨_, tp, aui, mii, fibre, bnc, _, _, _, _, _, _⟩
  cases aui <;> cases bnc <;> cases fibre <;> cases mii <;> cases tp <;> rfl

section Bits

variable {w : ℕ} (x y : BitVec w)

theorem or_eq_right_iff : x ||| y = y ↔ x &&& ~~~y = 0 := by
  simp only [BitVec.eq_of_getLsbD_eq_iff, BitVec.getLsbD_or, BitVec.getLsbD_and,
    BitVec.getLsbD_not]
  refine forall₂_congr fun i hi => ?_
  cases x.getLsbD i <;> cases y.getLsbD i <;> simp [hi]

theorem and_not_eq_left_iff : x &&& ~~~y = x ↔ x &&& y = 0 := by
  simp only [BitVec.eq_of_getLsbD_eq_iff, BitVec.getLsbD_and, BitVec.getLsbD_not]
  refine forall₂_congr fun i hi => ?_
  cases x.getLsbD i <;> cases y.getLsbD i <;> simp [hi]

end Bits

theorem portSelected_iff (r : InterfaceCapabilities) (port : BitVec 8) :
    PortSelected port (namedPorts r) (portOverlay r port).1 ↔
      NamedPortFits port (namedPorts r) := by
  rw [portOverlay_eq_foldl]
  rcases namedPorts r with _ | ⟨⟨q, v⟩, _ | ⟨p, named⟩⟩
  · exact iff_of_true rfl trivial
  · cases v with
    | true => exact or_eq_right_iff port q
    | false =>
        rw [NamedPortFits, or_iff_not_imp_left, ← and_not_eq_left_iff]
        rfl
  · cases v <;> exact iff_of_true trivial trivial

variable {s : Devices} {r : InterfaceCapabilities} {script : ℕ → BitVec 32}

/-- A request that is answered with zero selects the port that it names. -/
def PortKept (s : Devices) (r : InterfaceCapabilities) (script : ℕ → BitVec 32) : Prop :=
  ∃ rc s', (dabbadInterfaceCapabilitiesModify r).run DevCall.handle script s =
      some (rc, s') ∧
    (rc = 0 → PortSelected (s.device r.name).settings.port (namedPorts r)
      (s'.device r.name).settings.port)

theorem portKept_iff :
    PortKept s r script ↔
      (CapabilitiesServed s r script →
        NamedPortFits (s.device r.name).settings.port (namedPorts r)) := by
  obtain ⟨rc, s', hrun, hrc, hmodified, -⟩ := run_capabilitiesModify s r script
  rw [PortKept, hrun, ← hrc, ← portSelected_iff]
  have hport : rc = 0 → (s'.device r.name).settings.port =
      (portOverlay r (s.device r.name).settings.port).1 := by
    intro h
    rw [hmodified h, capabilitiesModified, Devices.device_set_self]
    rfl
  constructor
  · rintro ⟨rc, s', heq, hselected⟩ h
    cases heq
    rw [← hport h]
    exact hselected h
  · intro h
    refine ⟨rc, s', rfl, fun hzero => ?_⟩
    rw [hport hzero]
    exact h hzero

/-- In every sequence of requests, each selects the port that it names if and only if each
one fails, or the bits of the named port and of the port in force fit together. -/
theorem capabilitiesModify_selects_iff (s : Devices)
    (requests : List (InterfaceCapabilities × (ℕ → BitVec 32))) :
    EveryStep DevCall.handle dabbadInterfaceCapabilitiesModify PortKept s requests ↔
      EveryStep DevCall.handle dabbadInterfaceCapabilitiesModify
        (fun s r script => CapabilitiesServed s r script →
          NamedPortFits (s.device r.name).settings.port (namedPorts r)) s requests :=
  everyStep_congr fun _ _ _ _ => portKept_iff

def bncRequest : InterfaceCapabilities :=
  ⟨eth0Name, none, none, none, none, some true, none, none, none, none, none, none⟩

/-- Asked for BNC on a fibre, the device gets the port 7. -/
theorem not_capabilitiesModify_selects_bncRequest :
    ¬ EveryStep DevCall.handle dabbadInterfaceCapabilitiesModify PortKept
      (oneDevice .fibre) [(bncRequest, fun _ => 0)] := by
  rintro ⟨hkept, -⟩
  have hserved : CapabilitiesServed (oneDevice .fibre) bncRequest fun _ => 0 :=
    ⟨List.mem_singleton_self _, fun _ _ => rfl, fun _ => rfl⟩
  have hfits : Device.fibre.settings.port &&& ~~~portBnc = 0 := portKept_iff.1 hkept hserved
  exact absurd hfits (by decide)

end Dabbad
