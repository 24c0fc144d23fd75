import Dabba.Interface.Device

/-!
# Modifying the capabilities of an interface

A request names ports and advertised capabilities. Both are edited bit by bit in the
settings fetched before: a flag is set where the request says so, and cleared otherwise.
What is a set of bits for the advertised capabilities is a plain number for the port.
-/

namespace Dabbad

open Posix Program Interface

structure InterfaceDuplexCapabilites where
  half : Option Bool
  full : Option Bool

structure InterfaceOptionCapabilites where
  autoneg : Option Bool
  pause : Option Bool

structure InterfaceSpeedCapabilites where
  ethernet : Option InterfaceDuplexCapabilites
  fastEthernet : Option InterfaceDuplexCapabilites
  gbpsEthernet : Option InterfaceDuplexCapabilites
  tenGbpsEthernet : Option InterfaceDuplexCapabilites

/-- An `interface_capabilities` message. -/
structure InterfaceCapabilities where
  name : List Byte
  tp : Option Bool
  aui : Option Bool
  mii : Option Bool
  fibre : Option Bool
  bnc : Option Bool
  supportedOpt : Option InterfaceOptionCapabilites
  advertisingOpt : Option InterfaceOptionCapabilites
  lpAdvertisingOpt : Option InterfaceOptionCapabilites
  supportedSpeed : Option InterfaceSpeedCapabilites
  advertisingSpeed : Option InterfaceSpeedCapabilites
  lpAdvertisingSpeed : Option InterfaceSpeedCapabilites

section Constants

def advertised10baseTHalf : BitVec 32 := 1 <<< 0
def advertised10baseTFull : BitVec 32 := 1 <<< 1
def advertised100baseTHalf : BitVec 32 := 1 <<< 2
def advertised100baseTFull : BitVec 32 := 1 <<< 3
def advertised1000baseTHalf : BitVec 32 := 1 <<< 4
def advertised1000baseTFull : BitVec 32 := 1 <<< 5
def advertisedAutoneg : BitVec 32 := 1 <<< 6
def advertised10000baseTFull : BitVec 32 := 1 <<< 12
def advertisedPause : BitVec 32 := 1 <<< 13

def portTp : BitVec 8 := 0
def portAui : BitVec 8 := 1
def portMii : BitVec 8 := 2
def portFibre : BitVec 8 := 3
def portBnc : BitVec 8 := 4

end Constants

def editFlag {w : ℕ} (flag word : BitVec w) (v : Bool) : BitVec w :=
  if v then word ||| flag else word &&& ~~~flag

def interfaceAdvertisingOptionSet (caps : InterfaceOptionCapabilites)
    (s : BitVec 32 × Bool) : BitVec 32 × Bool :=
  let s := overlay caps.autoneg (editFlag advertisedAutoneg) s
  overlay caps.pause (editFlag advertisedPause) s

def duplexSet (half full : BitVec 32) (duplex : Option InterfaceDuplexCapabilites)
    (s : BitVec 32 × Bool) : BitVec 32 × Bool :=
  match duplex with
  | none => s
  | some duplex =>
      let s := overlay duplex.half (editFlag half) s
      overlay duplex.full (editFlag full) s

/-- Edits the advertised speeds, and notes if there were any. -/
def interfaceSpeedOptionSet (speed : InterfaceSpeedCapabilites) (s : BitVec 32 × Bool) :
    BitVec 32 × Bool :=
  let s := duplexSet advertised10baseTHalf advertised10baseTFull speed.ethernet s
  let s := duplexSet advertised100baseTHalf advertised100baseTFull speed.fastEthernet s
  let s := duplexSet advertised1000baseTHalf advertised1000baseTFull speed.gbpsEthernet s
  -- There is no half duplex at 10 Gbps.
  match speed.tenGbpsEthernet with
  | none => s
  | some duplex => overlay duplex.full (editFlag advertised10000baseTFull) s

def portOverlay (capabilitiesp : InterfaceCapabilities) (port : BitVec 8) :
    BitVec 8 × Bool :=
  let s := (port, false)
  let s := overlay capabilitiesp.aui (editFlag portAui) s
  let s := overlay capabilitiesp.bnc (editFlag portBnc) s
  let s := overlay capabilitiesp.fibre (editFlag portFibre) s
  let s := overlay capabilitiesp.mii (editFlag portMii) s
  overlay capabilitiesp.tp (editFlag portTp) s

def advertisingOverlay (speed : Option InterfaceSpeedCapabilites)
    (opt : Option InterfaceOptionCapabilites) (s : BitVec 32 × Bool) : BitVec 32 × Bool :=
  let s := match speed with
    | none => s
    | some speed => interfaceSpeedOptionSet speed s
  match opt with
  | none => s
  | some opt => interfaceAdvertisingOptionSet opt s

/-- The settings with the edits of the request, and whether there were any. -/
def capabilitiesOverlay (capabilitiesp : InterfaceCapabilities)
    (ethSet : EthtoolSettings) : EthtoolSettings × Bool :=
  let (port, apply) := portOverlay capabilitiesp ethSet.port
  let (advertising, apply) := advertisingOverlay capabilitiesp.advertisingSpeed
    capabilitiesp.advertisingOpt (ethSet.advertising, apply)
  ({ ethSet with port := port, advertising := advertising }, apply)

/-- The part of a request for an interface that is there. The result of the last call is
not looked at. -/
def applyCapabilities (capabilitiesp : InterfaceCapabilities) :
    Prog DevCall (BitVec 32) := do
  let (rc, ethSet) ← Interface.ldabDevSettingsGet capabilitiesp.name
  if rc ≠ 0 then
    return rc
  else
    let (ethSet, apply) := capabilitiesOverlay capabilitiesp ethSet
    let rc ← if apply = true then
        Interface.ldabDevSettingsSet capabilitiesp.name ethSet
      else pure rc
    let _ ← DevCall.link (.rtnlLinkChange capabilitiesp.name ⟨none, none⟩)
    return rc

/-- Modifies the capabilities of an interface; the result is the code of the reply. -/
def dabbadInterfaceCapabilitiesModify (capabilitiesp : InterfaceCapabilities) :
    Prog DevCall (BitVec 32) := do
  let cache ← DevCall.link .linkCacheAlloc
  let change ← DevCall.link .rtnlLinkAlloc
  if cache = false ∨ change = false then
    return enomem
  else
    let link ← DevCall.link (.rtnlLinkGetByName capabilitiesp.name)
    if link = false then
      return enodev
    else
      applyCapabilities capabilitiesp

section Overlay

variable {r : InterfaceCapabilities} {settings : EthtoolSettings}

theorem duplexSet_of_not {half full : BitVec 32}
    {duplex : Option InterfaceDuplexCapabilites} {s : BitVec 32 × Bool}
    (h : (duplexSet half full duplex s).2 = false) :
    (duplexSet half full duplex s).1 = s.1 ∧ s.2 = false := by
  cases duplex with
  | none => exact ⟨rfl, h⟩
  | some duplex =>
      obtain ⟨hfull, h⟩ := overlay_fst_of_not h
      obtain ⟨hhalf, h⟩ := overlay_fst_of_not h
      exact ⟨hfull.trans hhalf, h⟩

theorem interfaceSpeedOptionSet_of_not {speed : InterfaceSpeedCapabilites}
    {s : BitVec 32 × Bool} (h : (interfaceSpeedOptionSet speed s).2 = false) :
    (interfaceSpeedOptionSet speed s).1 = s.1 ∧ s.2 = false := by
  obtain ⟨ethernet, fastEthernet, gbpsEthernet, tenGbpsEthernet⟩ := speed
  cases tenGbpsEthernet with
  | none =>
      obtain ⟨hgbps, h⟩ := duplexSet_of_not h
      obtain ⟨hfast, h⟩ := duplexSet_of_not h
      obtain ⟨hethernet, h⟩ := duplexSet_of_not h
      exact ⟨hgbps.trans (hfast.trans hethernet), h⟩
  | some duplex =>
      obtain ⟨htenGbps, h⟩ := overlay_fst_of_not h
      obtain ⟨hgbps, h⟩ := duplexSet_of_not h
      obtain ⟨hfast, h⟩ := duplexSet_of_not h
      obtain ⟨hethernet, h⟩ := duplexSet_of_not h
      exact ⟨htenGbps.trans (hgbps.trans (hfast.trans hethernet)), h⟩

theorem interfaceAdvertisingOptionSet_of_not {caps : InterfaceOptionCapabilites}
    {s : BitVec 32 × Bool} (h : (interfaceAdvertisingOptionSet caps s).2 = false) :
    (interfaceAdvertisingOptionSet caps s).1 = s.1 ∧ s.2 = false := by
  obtain ⟨hpause, h⟩ := overlay_fst_of_not h
  obtain ⟨hautoneg, h⟩ := overlay_fst_of_not h
  exact ⟨hpause.trans hautoneg, h⟩

theorem advertisingOverlay_of_not {speed : Option InterfaceSpeedCapabilites}
    {opt : Option InterfaceOptionCapabilites} {s : BitVec 32 × Bool}
    (h : (advertisingOverlay speed opt s).2 = false) :
    (advertisingOverlay speed opt s).1 = s.1 ∧ s.2 = false := by
  cases speed <;> cases opt
  · exact ⟨rfl, h⟩
  · exact interfaceAdvertisingOptionSet_of_not h
  · exact interfaceSpeedOptionSet_of_not h
  · obtain ⟨hopt, h⟩ := interfaceAdvertisingOptionSet_of_not h
    obtain ⟨hspeed, h⟩ := interfaceSpeedOptionSet_of_not h
    exact ⟨hopt.trans hspeed, h⟩

theorem portOverlay_of_not {port : BitVec 8} (h : (portOverlay r port).2 = false) :
    (portOverlay r port).1 = port := by
  obtain ⟨htp, h⟩ := overlay_fst_of_not h
  obtain ⟨hmii, h⟩ := overlay_fst_of_not h
  obtain ⟨hfibre, h⟩ := overlay_fst_of_not h
  obtain ⟨hbnc, h⟩ := overlay_fst_of_not h
  obtain ⟨haui, -⟩ := overlay_fst_of_not h
  exact htp.trans (hmii.trans (hfibre.trans (hbnc.trans haui)))

theorem capabilitiesOverlay_of_not (h : (capabilitiesOverlay r settings).2 = false) :
    (capabilitiesOverlay r settings).1 = settings := by
  have hnoted : (advertisingOverlay r.advertisingSpeed r.advertisingOpt
      (settings.advertising, (portOverlay r settings.port).2)).2 = false := h
  obtain ⟨hadvertising, hport⟩ := advertisingOverlay_of_not hnoted
  have hport : (portOverlay r settings.port).1 = settings.port := portOverlay_of_not hport
  simp only [capabilitiesOverlay, hadvertising, hport]

end Overlay

section Run

variable (s : Devices) (r : InterfaceCapabilities) (script : ℕ → BitVec 32)

/-- The interface is there, and every call of the request that counts succeeds. -/
def CapabilitiesServed : Prop :=
  r.name ∈ s.names ∧ (∀ n < 4, script n = 0) ∧
    ((capabilitiesOverlay r (s.device r.name).settings).2 = true → script 4 = 0)

def capabilitiesModified : Devices :=
  s.set r.name { s.device r.name with
    settings := (capabilitiesOverlay r (s.device r.name).settings).1 }

variable {s r script}

theorem serveLink_empty (name : List Byte) (e : BitVec 32) :
    (serveLink (.rtnlLinkChange name ⟨none, none⟩) e s).2 = s := by
  simp only [serveLink]
  split
  · rfl
  split
  · exact s.set_device name
  · rfl

theorem run_applyCapabilities (script : ℕ → BitVec 32) (hmem : r.name ∈ s.names) :
    ∃ rc s', (applyCapabilities r).run DevCall.handle script s = some (rc, s') ∧
      (rc = 0 ↔ script 0 = 0 ∧
        ((capabilitiesOverlay r (s.device r.name).settings).2 = true → script 1 = 0)) ∧
      (rc = 0 → s' = capabilitiesModified s r) ∧ (rc ≠ 0 → s' = s) := by
  simp only [applyCapabilities, Interface.ldabDevSettingsGet, Prog.bind_eq,
    devStructGet_bind, Prog.run_call, DevCall.handle, Devices.ifrName_of_mem r.name hmem]
  by_cases hget : script 0 = 0
  · simp only [hget, BitVec.ofNat_eq_ofNat, Devices.request_zero hmem, Request.serve,
      Option.getD_some, ne_eq, not_true_eq_false, if_false, Devices.set_device, true_and]
    cases happly : (capabilitiesOverlay r (s.device r.name).settings).2 with
    | false =>
        refine ⟨0, s, ?_, by simp, fun _ => ?_, fun h => absurd rfl h⟩
        · exact congrArg (fun s => some (0, s)) (serveLink_empty r.name _)
        · rw [capabilitiesModified, capabilitiesOverlay_of_not happly]
          exact (s.set_device r.name).symm
    | true =>
        rw [if_pos rfl, Interface.ldabDevSettingsSet, devStructSet_bind, Prog.run_call,
          DevCall.handle, Devices.ifrName_of_mem r.name hmem]
        by_cases hset : script 1 = 0
        · refine ⟨0, capabilitiesModified s r, ?_, by simp [hset], fun _ => rfl,
            fun h => absurd rfl h⟩
          rw [hset, BitVec.ofNat_eq_ofNat, Devices.request_zero hmem]
          exact congrArg (fun s => some (0, s)) (serveLink_empty r.name _)
        · obtain ⟨rc, hrc, hrequest⟩ := s.request_of_fail r.name
            (.sset (capabilitiesOverlay r (s.device r.name).settings).1) (script 1)
            (.inl hset)
          refine ⟨rc, s, ?_, iff_of_false hrc fun h => hset (h rfl), fun h => absurd h hrc,
            fun _ => rfl⟩
          rw [hrequest]
          exact congrArg (fun s => some (rc, s)) (serveLink_empty r.name _)
  · obtain ⟨rc, hrc, hrequest⟩ := s.request_of_fail r.name .gset (script 0) (.inl hget)
    refine ⟨rc, s, ?_, iff_of_false hrc fun h => hget h.1, fun h => absurd h hrc,
      fun _ => rfl⟩
    simp only [hrequest]
    rw [if_pos hrc]
    rfl

variable (s r script)

/-- A request is carried out and answered with zero, or changes nothing. -/
theorem run_capabilitiesModify :
    ∃ rc s', (dabbadInterfaceCapabilitiesModify r).run DevCall.handle script s =
        some (rc, s') ∧
      (rc = 0 ↔ CapabilitiesServed s r script) ∧
      (rc = 0 → s' = capabilitiesModified s r) ∧ (rc ≠ 0 → s' = s) := by
  have hfail : ∀ (run : Option (BitVec 32 × Devices)) (rc : BitVec 32),
      run = some (rc, s) → rc ≠ 0 → ¬ CapabilitiesServed s r script →
      ∃ rc s', run = some (rc, s') ∧ (rc = 0 ↔ CapabilitiesServed s r script) ∧
        (rc = 0 → s' = capabilitiesModified s r) ∧ (rc ≠ 0 → s' = s) :=
    fun run rc hrun hrc hnot => ⟨rc, s, hrun, iff_of_false hrc hnot,
      fun h => absurd h hrc, fun _ => rfl⟩
  simp only [dabbadInterfaceCapabilitiesModify, Prog.bind_eq, Prog.liftM_eq,
    Prog.perform_bind, Prog.run_call, DevCall.handle, serveLink, decide_eq_false_iff_not]
  by_cases halloc : script 0 = 0 ∧ script 1 = 0
  · rw [if_neg (by tauto), Prog.run_call]
    simp only [DevCall.handle, serveLink, decide_eq_false_iff_not]
    by_cases hlink : script 2 = 0 ∧ r.name ∈ s.names
    · rw [if_neg (not_not.2 hlink)]
      obtain ⟨rc, s', hrun, hrc, hmodified⟩ :=
        run_applyCapabilities (fun n => script (n + 3)) hlink.2
      refine ⟨rc, s', hrun, ?_, hmodified⟩
      have hfour : (∀ n < 4, script n = 0) ↔ script 3 = 0 := by
        refine ⟨fun h => h 3 (by omega), fun h n hn => ?_⟩
        obtain rfl | rfl | rfl | rfl : n = 0 ∨ n = 1 ∨ n = 2 ∨ n = 3 := by omega
        exacts [halloc.1, halloc.2, hlink.1, h]
      rw [hrc, CapabilitiesServed, and_iff_right hlink.2, hfour]
    · rw [if_pos hlink]
      exact hfail _ enodev rfl (by decide) fun h => hlink ⟨h.2.1 2 (by omega), h.1⟩
  · rw [if_pos (by tauto)]
    exact hfail _ enomem rfl (by decide) fun h =>
      halloc ⟨h.2.1 0 (by omega), h.2.1 1 (by omega)⟩

end Run

end Dabbad
