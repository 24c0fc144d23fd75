import Dabba.Dabbad.Mmap

/-!
# Modifying the settings of an interface

`dabbadInterfaceSettingsModify` serves one request through two interfaces of the kernel.
Speed, duplex, autonegotiation, port and packet limits are written with an ethtool
request, on top of the settings fetched before. MTU and queue length are written with a
netlink message. One status variable is used for both, so that the result of the
netlink message replaces that of the ethtool requests.
-/

namespace Dabbad

open Posix Program

/-- The fields of a `struct ethtool_cmd` that the handler writes. -/
structure EthtoolCmd where
  speed : BitVec 16
  duplex : BitVec 8
  port : BitVec 8
  autoneg : BitVec 8
  maxtxpkt : BitVec 32
  maxrxpkt : BitVec 32
  speedHi : BitVec 16

def ethtoolCmdSpeed (ep : EthtoolCmd) : BitVec 32 :=
  ep.speedHi ++ ep.speed

def ethtoolCmdSpeedSet (ep : EthtoolCmd) (speed : BitVec 32) : EthtoolCmd :=
  { ep with speed := speed.setWidth 16, speedHi := (speed >>> 16).setWidth 16 }

theorem ethtoolCmdSpeed_set (ep : EthtoolCmd) (speed : BitVec 32) :
    ethtoolCmdSpeed (ethtoolCmdSpeedSet ep speed) = speed := by
  apply BitVec.eq_of_getLsbD_eq
  intro i hi
  simp only [ethtoolCmdSpeed, ethtoolCmdSpeedSet, BitVec.getLsbD_append,
    BitVec.getLsbD_setWidth, BitVec.getLsbD_ushiftRight]
  grind

/-- The changes of a link that are to be sent to the kernel. -/
structure LinkChange where
  mtu : Option (BitVec 32)
  txqlen : Option (BitVec 32)

/-- A request to modify the settings of an interface, an `interface_settings` message. -/
structure InterfaceSettings where
  name : List Byte
  speed : Option (BitVec 32)
  duplex : Option Bool
  autoneg : Option Bool
  mtu : Option (BitVec 32)
  txQlen : Option (BitVec 32)
  port : Option (BitVec 32)
  maxrxpkt : Option (BitVec 32)
  maxtxpkt : Option (BitVec 32)

inductive LinkCall : Type → Type
  | linkCacheAlloc : LinkCall Bool
  | rtnlLinkAlloc : LinkCall Bool
  | rtnlLinkGetByName (name : List Byte) : LinkCall Bool
  | ethtoolGset (ifrName : List Byte) : LinkCall (BitVec 32 × EthtoolCmd)
  | ethtoolSset (ifrName : List Byte) (settings : EthtoolCmd) : LinkCall (BitVec 32)
  | rtnlLinkChange (name : List Byte) (change : LinkChange) : LinkCall (BitVec 32)

/-- What the calls of one request return. The first three say whether there is a result,
the others are zero for success. -/
structure LinkAnswers where
  linkCacheAlloc : Bool
  rtnlLinkAlloc : Bool
  rtnlLinkGetByName : Bool
  ethtoolGset : BitVec 32
  ethtoolSset : BitVec 32
  rtnlLinkChange : BitVec 32

inductive Written
  | settings (name : List Byte) (settings : EthtoolCmd)
  | link (name : List Byte) (change : LinkChange)

/-- The hardware settings of all interfaces, and what was written to them so far. -/
structure Interfaces where
  settings : List Byte → EthtoolCmd
  written : List Written

/-- The calls act on the interfaces. The cache holds names with less than `ifnamsiz`
bytes only. A failing write changes nothing. -/
def LinkCall.handle : Handler LinkCall LinkAnswers Interfaces
  | _, .linkCacheAlloc, o, s => (o.linkCacheAlloc, s)
  | _, .rtnlLinkAlloc, o, s => (o.rtnlLinkAlloc, s)
  | _, .rtnlLinkGetByName name, o, s =>
      (o.rtnlLinkGetByName && decide (name.length < ifnamsiz), s)
  | _, .ethtoolGset name, o, s =>
      ((o.ethtoolGset, if o.ethtoolGset = 0 then s.settings name
        else ⟨0, 0, 0, 0, 0, 0, 0⟩), s)
  | _, .ethtoolSset name settings, o, s =>
      (o.ethtoolSset, if o.ethtoolSset = 0 then
        ⟨Function.update s.settings name settings,
          s.written ++ [.settings name settings]⟩
        else s)
  | _, .rtnlLinkChange name change, o, s =>
      (o.rtnlLinkChange, if o.rtnlLinkChange = 0 then
        { s with written := s.written ++ [.link name change] } else s)

/-- Fetches the hardware settings, which are zero before. The name is cut to the size of
the request. -/
def ldabDevSettingsGet (dev : List Byte) : Prog LinkCall (BitVec 32 × EthtoolCmd) :=
  Prog.perform (LinkCall.ethtoolGset (dev.take (ifnamsiz - 1)))

def ldabDevSettingsSet (dev : List Byte) (settings : EthtoolCmd) :
    Prog LinkCall (BitVec 32) :=
  Prog.perform (LinkCall.ethtoolSset (dev.take (ifnamsiz - 1)) settings)

/-- Stores a value of the request, if it has one, and notes that there was one. -/
def overlay {α β : Type} (requested : Option α) (store : β → α → β) (s : β × Bool) :
    β × Bool :=
  match requested with
  | none => s
  | some v => (store s.1 v, true)

/-- The hardware settings with those of the request, and whether there were any. -/
def ethOverlay (settingsp : InterfaceSettings) (ethSet : EthtoolCmd) :
    EthtoolCmd × Bool :=
  let s := (ethSet, false)
  let s := overlay settingsp.speed ethtoolCmdSpeedSet s
  let s := overlay settingsp.duplex
    (fun ethSet v => { ethSet with duplex := v.toNat }) s
  let s := overlay settingsp.autoneg
    (fun ethSet v => { ethSet with autoneg := v.toNat }) s
  let s := overlay settingsp.port
    (fun ethSet v => { ethSet with port := v.setWidth 8 }) s
  let s := overlay settingsp.maxrxpkt (fun ethSet v => { ethSet with maxrxpkt := v }) s
  overlay settingsp.maxtxpkt (fun ethSet v => { ethSet with maxtxpkt := v }) s

def nlOverlay (settingsp : InterfaceSettings) : LinkChange × Bool :=
  let s := (⟨none, none⟩, false)
  let s := overlay settingsp.mtu (fun change v => { change with mtu := some v }) s
  overlay settingsp.txQlen (fun change v => { change with txqlen := some v }) s

/-- The part of a request for an interface that is there. -/
def applySettings (settingsp : InterfaceSettings) : Prog LinkCall (BitVec 32) := do
  let (rc, ethSet) ← ldabDevSettingsGet settingsp.name
  let (ethSet, ethApply) :=
    if rc = 0 then ethOverlay settingsp ethSet else (ethSet, false)
  let (change, nlApply) := nlOverlay settingsp
  let rc ← if rc = 0 ∧ ethApply = true then ldabDevSettingsSet settingsp.name ethSet
    else pure rc
  let rc ← if nlApply = true then LinkCall.rtnlLinkChange settingsp.name change
    else pure rc
  return rc

/-- Modifies the settings of an interface; the result is the code of the reply. -/
def dabbadInterfaceSettingsModify (settingsp : InterfaceSettings) :
    Prog LinkCall (BitVec 32) := do
  let cache ← LinkCall.linkCacheAlloc
  let change ← LinkCall.rtnlLinkAlloc
  if cache = false ∨ change = false then
    return enomem
  else
    let link ← LinkCall.rtnlLinkGetByName settingsp.name
    if link = false then
      return enodev
    else
      applySettings settingsp

section Overlay

variable {α β γ : Type}

@[simp] theorem overlay_snd (requested : Option α) (store : β → α → β) (s : β × Bool) :
    (overlay requested store s).2 = (requested.isSome || s.2) := by
  cases requested <;> rfl

@[simp] theorem overlay_none (store : β → α → β) (s : β × Bool) :
    overlay none store s = s := rfl

theorem overlay_fst_of_not {requested : Option α} {store : β → α → β} {s : β × Bool}
    (h : (overlay requested store s).2 = false) :
    (overlay requested store s).1 = s.1 ∧ s.2 = false := by
  cases requested with
  | none => exact ⟨rfl, h⟩
  | some v => cases h

/-- A field that is overwritten holds the value of the request, or else what it held
before. -/
theorem overlay_field (get : β → α) {store : β → α → β} (h : ∀ b v, get (store b v) = v)
    (requested : Option α) (s : β × Bool) :
    get (overlay requested store s).1 = requested.getD (get s.1) := by
  cases requested with
  | none => rfl
  | some v => exact h s.1 v

theorem overlay_frame (get : β → γ) {store : β → α → β}
    (h : ∀ b v, get (store b v) = get b) (requested : Option α) (s : β × Bool) :
    get (overlay requested store s).1 = get s.1 := by
  cases requested with
  | none => rfl
  | some v => exact h s.1 v

theorem overlay_some (get : β → γ) {store : β → α → β} {requested : Option α} {v : α}
    {c : γ} (hv : requested = some v) (h : ∀ b, get (store b v) = c) (s : β × Bool) :
    get (overlay requested store s).1 = c := by
  rw [hv]
  exact h s.1

end Overlay

section Requested

variable (r : InterfaceSettings)

/-- The request has a value for the hardware. -/
def AsksHardware : Prop :=
  r.speed.isSome ∨ r.duplex.isSome ∨ r.autoneg.isSome ∨ r.port.isSome ∨
    r.maxrxpkt.isSome ∨ r.maxtxpkt.isSome

/-- The request has a value for the netlink message. -/
def AsksLink : Prop := r.mtu.isSome ∨ r.txQlen.isSome

instance : Decidable (AsksHardware r) := inferInstanceAs (Decidable (_ ∨ _))

instance : Decidable (AsksLink r) := inferInstanceAs (Decidable (_ ∨ _))

theorem ethOverlay_snd (ethSet : EthtoolCmd) :
    (ethOverlay r ethSet).2 = true ↔ AsksHardware r := by
  simp only [ethOverlay, overlay_snd, Bool.or_eq_true, AsksHardware, Bool.false_eq_true,
    or_false]
  tauto

theorem nlOverlay_snd : (nlOverlay r).2 = true ↔ AsksLink r := by
  simp only [nlOverlay, overlay_snd, Bool.or_eq_true, AsksLink, Bool.false_eq_true,
    or_false]
  tauto

variable {r}

theorem ethOverlay_speed {v : BitVec 32} (hv : r.speed = some v) (cmd : EthtoolCmd) :
    ethtoolCmdSpeed (ethOverlay r cmd).1 = v := by
  simp (disch := exact fun _ _ => rfl) only [ethtoolCmdSpeed, ethOverlay,
    overlay_frame EthtoolCmd.speed, overlay_frame EthtoolCmd.speedHi]
  exact overlay_some ethtoolCmdSpeed hv (fun cmd => ethtoolCmdSpeed_set cmd v) _

theorem ethOverlay_duplex {v : Bool} (hv : r.duplex = some v) (cmd : EthtoolCmd) :
    (ethOverlay r cmd).1.duplex = v.toNat := by
  simp (disch := exact fun _ _ => rfl) only [ethOverlay,
    overlay_frame EthtoolCmd.duplex]
  rw [overlay_some EthtoolCmd.duplex hv]
  exact fun _ => rfl

theorem ethOverlay_autoneg {v : Bool} (hv : r.autoneg = some v) (cmd : EthtoolCmd) :
    (ethOverlay r cmd).1.autoneg = v.toNat := by
  simp (disch := exact fun _ _ => rfl) only [ethOverlay,
    overlay_frame EthtoolCmd.autoneg]
  rw [overlay_some EthtoolCmd.autoneg hv]
  exact fun _ => rfl

theorem ethOverlay_port {v : BitVec 32} (hv : r.port = some v) (cmd : EthtoolCmd) :
    (ethOverlay r cmd).1.port = v.setWidth 8 := by
  simp (disch := exact fun _ _ => rfl) only [ethOverlay, overlay_frame EthtoolCmd.port]
  rw [overlay_some EthtoolCmd.port hv]
  exact fun _ => rfl

theorem ethOverlay_maxrxpkt {v : BitVec 32} (hv : r.maxrxpkt = some v)
    (cmd : EthtoolCmd) :
    (ethOverlay r cmd).1.maxrxpkt = v := by
  simp (disch := exact fun _ _ => rfl) only [ethOverlay,
    overlay_frame EthtoolCmd.maxrxpkt]
  rw [overlay_some EthtoolCmd.maxrxpkt hv]
  exact fun _ => rfl

theorem ethOverlay_maxtxpkt {v : BitVec 32} (hv : r.maxtxpkt = some v)
    (cmd : EthtoolCmd) :
    (ethOverlay r cmd).1.maxtxpkt = v := by
  simp only [ethOverlay]
  rw [overlay_some EthtoolCmd.maxtxpkt hv]
  exact fun _ => rfl

theorem nlOverlay_mtu {v : BitVec 32} (hv : r.mtu = some v) :
    (nlOverlay r).1.mtu = some v := by
  simp (disch := exact fun _ _ => rfl) only [nlOverlay, overlay_frame LinkChange.mtu]
  rw [overlay_some LinkChange.mtu hv]
  exact fun _ => rfl

theorem nlOverlay_txQlen {v : BitVec 32} (hv : r.txQlen = some v) :
    (nlOverlay r).1.txqlen = some v := by
  simp only [nlOverlay]
  rw [overlay_some LinkChange.txqlen hv]
  exact fun _ => rfl

end Requested

section

variable (r : InterfaceSettings) (o : LinkAnswers) (settings : List Byte → EthtoolCmd)

/-- Both allocations succeed and the interface is there. -/
def Found : Prop :=
  o.linkCacheAlloc ∧ o.rtnlLinkAlloc ∧ o.rtnlLinkGetByName ∧ r.name.length < ifnamsiz

def modifySettings : Option (BitVec 32 × Interfaces) :=
  (dabbadInterfaceSettingsModify r).run LinkCall.handle (fun _ => o) ⟨settings, []⟩

def hardwareWrites : List Written :=
  if o.ethtoolGset = 0 ∧ AsksHardware r ∧ o.ethtoolSset = 0 then
    [.settings r.name (ethOverlay r (settings r.name)).1] else []

def linkWrites : List Written :=
  if AsksLink r ∧ o.rtnlLinkChange = 0 then [.link r.name (nlOverlay r).1] else []

def requestWrites : List Written := hardwareWrites r o settings ++ linkWrites r o

def replyCode : BitVec 32 :=
  if AsksLink r then o.rtnlLinkChange
  else if o.ethtoolGset ≠ 0 then o.ethtoolGset
  else if AsksHardware r then o.ethtoolSset else 0

theorem modifySettings_of_not_found (h : ¬ Found r o) :
    ∃ rc s, modifySettings r o settings = some (rc, s) ∧ rc ≠ 0 := by
  by_cases halloc : o.linkCacheAlloc = false ∨ o.rtnlLinkAlloc = false
  · refine ⟨enomem, ⟨settings, []⟩, ?_, by decide⟩
    simp [modifySettings, dabbadInterfaceSettingsModify, Prog.run, LinkCall.handle,
      halloc]
  · have hlink : o.rtnlLinkGetByName = true → ifnamsiz ≤ r.name.length := by
      rw [not_or, Bool.not_eq_false, Bool.not_eq_false] at halloc
      exact fun hlink => not_lt.1 fun hlt => h ⟨halloc.1, halloc.2, hlink, hlt⟩
    refine ⟨enodev, ⟨settings, []⟩, ?_, by decide⟩
    simp [modifySettings, dabbadInterfaceSettingsModify, Prog.run, LinkCall.handle,
      halloc]
    rw [if_pos hlink]
    rfl

/-- The netlink message comes last, and its result replaces the code. -/
theorem run_link (rc : BitVec 32) (s : Interfaces) :
    (if (nlOverlay r).2 = true then
        Prog.call (LinkCall.rtnlLinkChange r.name (nlOverlay r).1) fun rc => .ret rc
      else Prog.ret rc).run LinkCall.handle (fun _ => o) s =
      some (if AsksLink r then o.rtnlLinkChange else rc,
        { s with written := s.written ++ linkWrites r o }) := by
  simp only [nlOverlay_snd]
  by_cases hasks : AsksLink r
  · by_cases hchange : o.rtnlLinkChange = 0#32
    · simp [linkWrites, hasks, hchange, Prog.run, LinkCall.handle]
    · simp [linkWrites, hasks, hchange, Prog.run, LinkCall.handle]
  · simp [linkWrites, hasks, Prog.run]

/-- The reply and the writes for an interface that is there. -/
theorem modifySettings_of_found (h : Found r o) :
    ∃ s, modifySettings r o settings = some (replyCode r o, s) ∧
      s.written = requestWrites r o settings := by
  obtain ⟨hcache, hchange, hlink, hname⟩ := h
  have hifr : r.name.take (ifnamsiz - 1) = r.name :=
    List.take_of_length_le (Nat.le_sub_one_of_lt hname)
  have hrun : modifySettings r o settings =
      (applySettings r).run LinkCall.handle (fun _ => o) ⟨settings, []⟩ := by
    simp [modifySettings, dabbadInterfaceSettingsModify, Prog.run, LinkCall.handle,
      hcache, hchange, hlink, hname]
  rw [hrun]
  simp only [applySettings, ldabDevSettingsGet, ldabDevSettingsSet, hifr, Prog.bind_eq,
    Prog.liftM_eq, Prog.perform_bind, Prog.run_call, LinkCall.handle]
  by_cases hget : o.ethtoolGset = 0#32
  · by_cases hasks : AsksHardware r
    · have hover : (ethOverlay r (settings r.name)).2 = true :=
        (ethOverlay_snd _ _).2 hasks
      simp only [BitVec.ofNat_eq_ofNat, hget, if_true, hover, and_self, Prog.run_call,
        LinkCall.handle, Prog.pure_eq, Prog.ret_bind]
      have hreply : replyCode r o =
          if AsksLink r then o.rtnlLinkChange else o.ethtoolSset := by
        simp [replyCode, hget, hasks]
      rw [run_link, hreply]
      refine ⟨_, rfl, ?_⟩
      by_cases hset : o.ethtoolSset = 0#32
      · simp [requestWrites, hardwareWrites, hget, hasks, hset]
      · simp [requestWrites, hardwareWrites, hget, hset]
    · have hover : (ethOverlay r (settings r.name)).2 = false := by
        rw [← Bool.not_eq_true, ethOverlay_snd]
        exact hasks
      simp only [BitVec.ofNat_eq_ofNat, hget, if_true, hover, Bool.false_eq_true,
        and_false, if_false, Prog.pure_eq, Prog.ret_bind]
      have hreply : replyCode r o = if AsksLink r then o.rtnlLinkChange else 0#32 := by
        simp [replyCode, hget, hasks]
      rw [run_link, hreply]
      exact ⟨_, rfl, by simp [requestWrites, hardwareWrites, hasks]⟩
  · simp only [BitVec.ofNat_eq_ofNat, hget, false_and, if_false, Prog.pure_eq,
      Prog.ret_bind]
    have hreply : replyCode r o =
        if AsksLink r then o.rtnlLinkChange else o.ethtoolGset := by
      simp [replyCode, hget]
    rw [run_link, hreply]
    exact ⟨_, rfl, by simp [requestWrites, hardwareWrites, hget]⟩

end

end Dabbad
