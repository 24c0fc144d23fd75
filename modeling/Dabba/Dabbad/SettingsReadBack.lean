import Dabba.Dabbad.InterfaceGet

/-!
# Settings read back as written

The get handler of the settings copies seven of the eight fields from the kernel. The
port is announced as well, but it is never assigned, so that every interface is reported
with port 0.
-/

namespace Dabbad

open Posix Program Interface

/-- The settings of an interface, with the error number of the request for them. -/
structure SettingsEntry where
  status : BitVec 32
  settings : InterfaceSettings

abbrev autonegEnable : BitVec 8 := 1

/-- The entry of a link. -/
def fillSettings (link : RtnlLink) : Prog DevCall SettingsEntry := do
  let (rc, settings) ← Interface.ldabDevSettingsGet link.name
  return {
    status := rc
    settings := {
      name := link.name
      speed := some (ethtoolCmdSpeed settings.toEthtoolCmd)
      duplex := some (settings.duplex != 0)
      autoneg := some (settings.autoneg == autonegEnable)
      mtu := some link.mtu
      txQlen := some link.txqlen
      -- The port is said to be there and keeps the value of an empty message.
      port := some 0
      maxrxpkt := some settings.maxrxpkt
      maxtxpkt := some settings.maxtxpkt } }

def dabbadInterfaceSettingsGet (idList : List (List Byte)) :
    Prog DevCall (Option (List SettingsEntry)) :=
  interfaceGet fillSettings idList

section Modified

variable (r : InterfaceSettings) (cmd : EthtoolCmd)

theorem ethOverlay_of_not (h : ¬ AsksHardware r) : (ethOverlay r cmd).1 = cmd := by
  rw [← ethOverlay_snd r cmd, Bool.not_eq_true] at h
  obtain ⟨hmaxtxpkt, h⟩ := overlay_fst_of_not h
  obtain ⟨hmaxrxpkt, h⟩ := overlay_fst_of_not h
  obtain ⟨hport, h⟩ := overlay_fst_of_not h
  obtain ⟨hautoneg, h⟩ := overlay_fst_of_not h
  obtain ⟨hduplex, h⟩ := overlay_fst_of_not h
  obtain ⟨hspeed, -⟩ := overlay_fst_of_not h
  rw [ethOverlay, hmaxtxpkt, hmaxrxpkt, hport, hautoneg, hduplex, hspeed]

theorem nlOverlay_eq : (nlOverlay r).1 = ⟨r.mtu, r.txQlen⟩ := by
  rcases r with ⟨_, _, _, _, mtu, txQlen, _, _, _⟩
  cases mtu <;> cases txQlen <;> rfl

def settingsModified (d : Device) : Device :=
  { d with
    settings := { d.settings with
      toEthtoolCmd := (ethOverlay r d.settings.toEthtoolCmd).1 }
    mtu := r.mtu.getD d.mtu
    txqlen := r.txQlen.getD d.txqlen }

/-- The settings a request asks for: its own values, and those of the device for the
other fields. -/
def settingsAsked (d : Device) : InterfaceSettings where
  name := r.name
  speed := some (r.speed.getD (ethtoolCmdSpeed d.settings.toEthtoolCmd))
  duplex := some (r.duplex.getD (d.settings.duplex != 0))
  autoneg := some (r.autoneg.getD (d.settings.autoneg == autonegEnable))
  mtu := some (r.mtu.getD d.mtu)
  txQlen := some (r.txQlen.getD d.txqlen)
  port := some (r.port.getD (d.settings.port.setWidth 32))
  maxrxpkt := some (r.maxrxpkt.getD d.settings.maxrxpkt)
  maxtxpkt := some (r.maxtxpkt.getD d.settings.maxtxpkt)

/-- What the get handler says about a device. -/
def settingsReported (name : List Byte) (d : Device) : SettingsEntry where
  status := 0
  settings :=
    { name := name
      speed := some (ethtoolCmdSpeed d.settings.toEthtoolCmd)
      duplex := some (d.settings.duplex != 0)
      autoneg := some (d.settings.autoneg == autonegEnable)
      mtu := some d.mtu
      txQlen := some d.txqlen
      port := some 0
      maxrxpkt := some d.settings.maxrxpkt
      maxtxpkt := some d.settings.maxtxpkt }

theorem ethOverlay_getD_speed :
    ethtoolCmdSpeed (ethOverlay r cmd).1 = r.speed.getD (ethtoolCmdSpeed cmd) := by
  cases hspeed : r.speed with
  | some v => exact ethOverlay_speed hspeed cmd
  | none =>
      simp (disch := exact fun _ _ => rfl) only [ethtoolCmdSpeed, ethOverlay,
        overlay_frame EthtoolCmd.speed, overlay_frame EthtoolCmd.speedHi, hspeed,
        overlay_none, Option.getD_none]

theorem ethOverlay_getD_duplex :
    ((ethOverlay r cmd).1.duplex != 0) = r.duplex.getD (cmd.duplex != 0) := by
  cases hduplex : r.duplex with
  | some v =>
      rw [ethOverlay_duplex hduplex]
      cases v <;> rfl
  | none =>
      simp (disch := exact fun _ _ => rfl) only [ethOverlay,
        overlay_frame EthtoolCmd.duplex, hduplex, overlay_none, Option.getD_none]
      cases r.speed <;> rfl

theorem ethOverlay_getD_autoneg :
    ((ethOverlay r cmd).1.autoneg == autonegEnable) =
      r.autoneg.getD (cmd.autoneg == autonegEnable) := by
  cases hautoneg : r.autoneg with
  | some v =>
      rw [ethOverlay_autoneg hautoneg]
      cases v <;> rfl
  | none =>
      simp (disch := exact fun _ _ => rfl) only [ethOverlay,
        overlay_frame EthtoolCmd.autoneg, hautoneg, overlay_none, Option.getD_none]
      cases r.speed <;> rfl

theorem ethOverlay_getD_maxrxpkt :
    (ethOverlay r cmd).1.maxrxpkt = r.maxrxpkt.getD cmd.maxrxpkt := by
  cases hmaxrxpkt : r.maxrxpkt with
  | some v => exact ethOverlay_maxrxpkt hmaxrxpkt cmd
  | none =>
      simp (disch := exact fun _ _ => rfl) only [ethOverlay,
        overlay_frame EthtoolCmd.maxrxpkt, hmaxrxpkt, overlay_none, Option.getD_none]
      cases r.speed <;> rfl

theorem ethOverlay_getD_maxtxpkt :
    (ethOverlay r cmd).1.maxtxpkt = r.maxtxpkt.getD cmd.maxtxpkt := by
  cases hmaxtxpkt : r.maxtxpkt with
  | some v => exact ethOverlay_maxtxpkt hmaxtxpkt cmd
  | none =>
      simp (disch := exact fun _ _ => rfl) only [ethOverlay,
        overlay_frame EthtoolCmd.maxtxpkt, hmaxtxpkt, overlay_none, Option.getD_none]
      cases r.speed <;> rfl

theorem settingsReported_modified (d : Device) :
    settingsReported r.name (settingsModified r d) =
      ⟨0, { settingsAsked r d with port := some 0 }⟩ := by
  simp only [settingsReported, settingsModified, settingsAsked, ethOverlay_getD_speed,
    ethOverlay_getD_duplex, ethOverlay_getD_autoneg, ethOverlay_getD_maxrxpkt,
    ethOverlay_getD_maxtxpkt]

end Modified

variable {r : InterfaceSettings} {s : Devices}

def settingsServed (r : InterfaceSettings) (s : Devices) :
    Option (BitVec 32 × Devices) :=
  (dabbadInterfaceSettingsModify r).run serveLink success s

theorem run_linkChange (hmem : r.name ∈ s.names) :
    (if (nlOverlay r).2 = true then
        Prog.call (LinkCall.rtnlLinkChange r.name (nlOverlay r).1) fun rc => .ret rc
      else Prog.ret (0 : BitVec 32)).run serveLink success s =
      some (0, s.set r.name { s.device r.name with
        mtu := r.mtu.getD (s.device r.name).mtu
        txqlen := r.txQlen.getD (s.device r.name).txqlen }) := by
  by_cases hasks : AsksLink r
  · rw [if_pos ((nlOverlay_snd r).2 hasks), nlOverlay_eq]
    simp [Prog.run, serveLink, success, hmem, LinkChange.apply]
  · rw [if_neg (mt (nlOverlay_snd r).1 hasks)]
    rw [AsksLink, not_or, Option.not_isSome_iff_eq_none, Option.not_isSome_iff_eq_none]
      at hasks
    simp only [Prog.run, hasks, Option.getD_none]
    exact congrArg (fun s => some (0, s)) (s.set_device r.name).symm

theorem serveLink_ethtoolGset {name : List Byte} (hmem : name ∈ s.names) :
    serveLink (.ethtoolGset name) 0 s =
      ((0, (s.device name).settings.toEthtoolCmd), s) := by
  simp [serveLink, Devices.request_zero hmem, Request.serve]

theorem serveLink_ethtoolSset {name : List Byte} (hmem : name ∈ s.names)
    (cmd : EthtoolCmd) :
    serveLink (.ethtoolSset name cmd) 0 s =
      (0, s.set name { s.device name with
        settings.toEthtoolCmd := cmd }) := by
  simp [serveLink, Devices.request_zero hmem, Devices.kernelName_of_mem hmem, Request.serve]

theorem settingsServed_of_mem (hmem : r.name ∈ s.names) :
    settingsServed r s =
      some (0, s.set r.name (settingsModified r (s.device r.name))) := by
  have hifr : r.name.take (ifnamsiz - 1) = r.name := Devices.ifrName_of_mem r.name hmem
  have hrun : settingsServed r s = (applySettings r).run serveLink success s := by
    simp [settingsServed, dabbadInterfaceSettingsModify, Prog.run, serveLink, success,
      hmem]
    rfl
  rw [hrun]
  simp only [applySettings, Dabbad.ldabDevSettingsGet, Dabbad.ldabDevSettingsSet, hifr,
    Prog.bind_eq, Prog.liftM_eq, Prog.perform_bind, Prog.run_call, success,
    serveLink_ethtoolGset hmem, if_true]
  by_cases hasks : AsksHardware r
  · have hover := (ethOverlay_snd r (s.device r.name).settings.toEthtoolCmd).2 hasks
    simp only [hover, and_self, if_true, Prog.run_call, Prog.pure_eq, Prog.ret_bind,
      serveLink_ethtoolSset hmem]
    refine (run_linkChange (s := s.set r.name _) hmem).trans ?_
    rw [Devices.set_set, Devices.device_set_self]
    rfl
  · have hover : (ethOverlay r (s.device r.name).settings.toEthtoolCmd).2 = false := by
      rw [← Bool.not_eq_true, ethOverlay_snd]
      exact hasks
    simp only [hover, Bool.false_eq_true, and_false, if_false, Prog.pure_eq,
      Prog.ret_bind]
    refine (run_linkChange hmem).trans ?_
    rw [settingsModified, ethOverlay_of_not r _ hasks]

theorem settingsServed_of_not_mem (hmem : r.name ∉ s.names) :
    settingsServed r s = some ((enodev : BitVec 32), s) := by
  simp [settingsServed, dabbadInterfaceSettingsModify, Prog.run, serveLink, success, hmem]

theorem run_settingsGet (idList : List (List Byte)) :
    (dabbadInterfaceSettingsGet idList).run DevCall.handle success s =
      some (some ((visitedLinks idList s.links).map fun link =>
        settingsReported link.name (s.device link.name)), s) := by
  rw [dabbadInterfaceSettingsGet, run_interfaceGet fun link hlink => ?_]
  obtain ⟨name, hname, rfl⟩ := List.mem_map.1 hlink
  simp [fillSettings, Interface.ldabDevSettingsGet, Devices.ifrName_of_mem name hname,
    Prog.run, DevCall.handle, success, Devices.request_zero hname, Request.serve,
    settingsReported]

/-- The get handler reports the interface of the request as it was asked for, whenever
the request was answered with zero. -/
def ReadsBack (r : InterfaceSettings) (s : Devices) : Prop :=
  ∀ s', settingsServed r s = some (0, s') →
    ∀ idList, idList = [] ∨ r.name ∈ idList →
      ∃ list, (dabbadInterfaceSettingsGet idList).run DevCall.handle success s' =
          some (some list, s') ∧
        (∃ e ∈ list, e.settings.name = r.name) ∧
        ∀ e ∈ list, e.settings.name = r.name →
          e = ⟨0, settingsAsked r (s.device r.name)⟩

def portAsked (r : InterfaceSettings) (d : Device) : BitVec 32 :=
  r.port.getD (d.settings.port.setWidth 32)

theorem settingsReported_asked_iff (d : Device) :
    settingsReported r.name (settingsModified r d) = ⟨0, settingsAsked r d⟩ ↔
      portAsked r d = 0 := by
  rw [settingsReported_modified, SettingsEntry.mk.injEq, InterfaceSettings.mk.injEq]
  simp only [settingsAsked, portAsked, true_and, and_true, Option.some.injEq]
  exact eq_comm

/-- The entries of an interface are what the get handler says about its device, and there
is one if the interface is asked for. -/
theorem mem_settingsReported {name : List Byte} (hname : name ∈ s.names)
    (idList : List (List Byte)) :
    (∀ e ∈ (visitedLinks idList s.links).map fun link =>
        settingsReported link.name (s.device link.name),
      e.settings.name = name → e = settingsReported name (s.device name)) ∧
      (idList = [] ∨ name ∈ idList →
        settingsReported name (s.device name) ∈
          (visitedLinks idList s.links).map fun link =>
            settingsReported link.name (s.device link.name)) := by
  constructor
  · rintro e he rfl
    obtain ⟨link, -, rfl⟩ := List.mem_map.1 he
    rfl
  · exact fun hasked => mem_map_visitedLinks hname hasked fun link =>
      settingsReported link.name (s.device link.name)

theorem readsBack_of_mem (hmem : r.name ∈ s.names) :
    ReadsBack r s ↔ portAsked r (s.device r.name) = 0 := by
  rw [← settingsReported_asked_iff]
  have hmem' : r.name ∈ (s.set r.name (settingsModified r (s.device r.name))).names :=
    hmem
  have hreported := mem_settingsReported hmem'
  rw [Devices.device_set_self] at hreported
  constructor
  · intro h
    obtain ⟨list, hget, -, hlist⟩ := h _ (settingsServed_of_mem hmem) [] (.inl rfl)
    rw [run_settingsGet] at hget
    cases hget
    exact hlist _ ((hreported []).2 (.inl rfl)) rfl
  · rintro hport s' hserved idList hasked
    rw [settingsServed_of_mem hmem] at hserved
    cases hserved
    refine ⟨_, run_settingsGet idList, ⟨_, (hreported idList).2 hasked, rfl⟩, ?_⟩
    intro e he hname
    rw [(hreported idList).1 e he hname, hport]

/-- The settings read back as written if and only if the interface is not there, or the
port is to be 0. -/
theorem settingsReadBack_iff (r : InterfaceSettings) (s : Devices) :
    ReadsBack r s ↔ r.name ∉ s.names ∨ portAsked r (s.device r.name) = 0 := by
  by_cases hmem : r.name ∈ s.names
  · rw [or_iff_right (not_not.2 hmem)]
    exact readsBack_of_mem hmem
  · refine iff_of_true (fun s' h => ?_) (.inl hmem)
    rw [settingsServed_of_not_mem hmem] at h
    have hcode : (enodev : BitVec 32) = 0 := congrArg Prod.fst (Option.some.inj h)
    exact absurd hcode (by decide)

def mtuRequest : InterfaceSettings :=
  ⟨eth0Name, none, none, none, some 1400, none, none, none, none⟩

/-- The port of the device is 3, and it is reported as 0. -/
theorem not_readsBack_mtuRequest : ¬ ReadsBack mtuRequest (oneDevice .fibre) := by
  rw [readsBack_of_mem (List.mem_singleton_self _)]
  decide

end Dabbad
