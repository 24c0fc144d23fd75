import Dabba.Dabbad.InterfaceOffload
import Dabba.Dabbad.InterfaceCapabilities
import Dabba.Dabbad.SettingsReadBack
import Dabba.Dabbad.InterfaceStatus
import Dabba.Program.Separation

/-!
# The requests to modify interfaces keep apart

The daemon keeps nothing of an interface. What its handlers fetch, edit and write back are
parts of the device, and each handler works on one part of the device it names. So for each
part of each device the requests for other parts and other devices, and all requests that
only read, can be taken out of any history, with any outcomes: the replies to the others
and the part itself in the end are the same.
-/

namespace Dabbad

open Posix Program Interface

/-- The parts of a device that are modified together, and the rest of it. -/
inductive Compartment
  | settings
  | pause
  | coalesce
  | offload
  | status
  | rest
deriving DecidableEq

/-- Two devices are the same in a part. -/
def Compartment.Same (d d' : Device) : Compartment → Prop
  | .settings => d.settings = d'.settings ∧ d.mtu = d'.mtu ∧ d.txqlen = d'.txqlen
  | .pause => d.pause = d'.pause
  | .coalesce => d.coalesce = d'.coalesce
  | .offload => d.feature = d'.feature
  | .status => d.flags = d'.flags
  | .rest => d.drvinfo = d'.drvinfo ∧ d.ethFlags = d'.ethFlags ∧ d.carrier = d'.carrier ∧
      d.operational = d'.operational

/-- The part of a device that a request to the kernel is about. The flags and the link are
reported from several parts. -/
def compartmentOf : {β : Type} → Request β → Option Compartment
  | _, .siocgifflags => none
  | _, .siocsifflags _ => some .status
  | _, .gdrvinfo => some .rest
  | _, .gset => some .settings
  | _, .sset _ => some .settings
  | _, .gpauseparam => some .pause
  | _, .spauseparam _ => some .pause
  | _, .gcoalesce => some .coalesce
  | _, .scoalesce _ => some .coalesce
  | _, .value (.get _) _ => some .offload
  | _, .value (.set _) _ => some .offload
  | _, .value .gflags _ => some .rest
  | _, .value .sflags _ => some .rest
  | _, .value .glink _ => none

/-- The kernels have the same devices, and the device of the name is the same in a part. -/
structure SameAt (k : Compartment) (name : List Byte) (s t : Devices) : Prop where
  names : s.names = t.names
  part : k.Same (s.device name) (t.device name)

section Same

variable {k k' : Compartment} {d d' d'' : Device}

theorem Compartment.Same.refl (k : Compartment) (d : Device) : k.Same d d := by
  cases k <;> simp [Same]

theorem Compartment.Same.symm (h : k.Same d d') : k.Same d' d := by
  cases k <;> simp_all [Same]

theorem Compartment.Same.trans (h : k.Same d d') (h' : k.Same d' d'') : k.Same d d'' := by
  cases k <;> simp_all [Same]

/-- A request has the same answer from devices that are the same in its part, and leaves
them the same in it. -/
theorem serve_same {β : Type} (request : Request β) (hk : compartmentOf request = some k)
    (h : k.Same d d') :
    (request.serve d).1 = (request.serve d').1 ∧
      k.Same (request.serve d).2 (request.serve d').2 := by
  cases request with
  | value cmd data =>
      cases cmd <;> cases hk <;>
        simp_all [Compartment.Same, Request.serve, EthtoolValueCmd.serve]
  | _ => cases hk <;> simp_all [Compartment.Same, Request.serve]

/-- A request leaves the other parts of the device as they are. -/
theorem serve_other {β : Type} (request : Request β) (hk : compartmentOf request ≠ some k)
    (d : Device) : k.Same d (request.serve d).2 := by
  cases request with
  | value cmd data =>
      cases cmd <;> cases k <;>
        simp_all [compartmentOf, Compartment.Same, Request.serve, EthtoolValueCmd.serve]
  | _ => cases k <;> simp_all [compartmentOf, Compartment.Same, Request.serve]

variable {name name' : List Byte} {s t u : Devices}

theorem SameAt.refl (k : Compartment) (name : List Byte) (s : Devices) : SameAt k name s s :=
  ⟨rfl, .refl k _⟩

theorem SameAt.symm (h : SameAt k name s t) : SameAt k name t s :=
  ⟨h.names.symm, h.part.symm⟩

theorem SameAt.trans (h : SameAt k name s t) (h' : SameAt k name t u) : SameAt k name s u :=
  ⟨h.names.trans h'.names, h.part.trans h'.part⟩

theorem SameAt.set (h : SameAt k name s t) (hd : k.Same d d') :
    SameAt k name (s.set name d) (t.set name d') :=
  ⟨h.names, by rwa [Devices.device_set_self, Devices.device_set_self]⟩

theorem SameAt.of_set (h : name ≠ name' ∨ k.Same (s.device name') d) :
    SameAt k name s (s.set name' d) := by
  refine ⟨rfl, ?_⟩
  by_cases hname : name = name'
  · subst hname
    rw [Devices.device_set_self]
    exact h.resolve_left (not_not.2 rfl)
  · rw [Devices.device_set_of_ne _ _ hname]
    exact .refl k _

theorem SameAt.request {β : Type} (request : Request β) (e : BitVec 32)
    (h : SameAt k (kernelName name) s t) (hk : compartmentOf request = some k) :
    (s.request name request e).1 = (t.request name request e).1 ∧
      SameAt k (kernelName name) (s.request name request e).2 (t.request name request e).2 := by
  obtain ⟨hanswer, hpart⟩ := serve_same request hk h.part
  simp only [Devices.request, ← h.names]
  split_ifs
  · exact ⟨rfl, h⟩
  · exact ⟨rfl, h⟩
  · exact ⟨by rw [hanswer], h.set hpart⟩
  · exact ⟨rfl, h⟩

theorem SameAt.of_request {β : Type} (request : Request β) (e : BitVec 32)
    (hother : (some k, name) ≠ (compartmentOf request, kernelName name')) :
    SameAt k name s (s.request name' request e).2 := by
  unfold Devices.request
  split_ifs
  · exact .refl k name s
  · exact .refl k name s
  · refine .of_set ?_
    by_cases hname : name = kernelName name'
    · exact .inr (serve_other request (fun hk => hother (by rw [hk, hname])) _)
    · exact .inl hname
  · exact .refl k name s

end Same

/-- A call that works on a part of the device of a name, and on nothing else. -/
def IfaceCall.On (k : Compartment) (name : List Byte) : ∀ β : Type, IfaceCall β → Prop
  | _, .dev (.link .linkCacheAlloc) => True
  | _, .dev (.link .rtnlLinkAlloc) => True
  | _, .dev (.link (.rtnlLinkGetByName _)) => True
  | _, .dev (.link (.ethtoolGset name')) => k = .settings ∧ kernelName name' = name
  | _, .dev (.link (.ethtoolSset name' _)) => k = .settings ∧ kernelName name' = name
  | _, .dev (.link (.rtnlLinkChange name' _)) => k = .settings ∧ deviceName name' = name
  | _, .dev (.kernelRequest name' request) =>
      compartmentOf request = some k ∧ kernelName name' = name
  | _, .dev .linkCache => False
  | _, .dev .alloc => True
  | _, .rtnlLinkGetFlags => False
  | _, .rtnlLinkChange name' _ => k = .status ∧ deviceName name' = name

def changeLink (f : Device → Device) (name : List Byte) (e : BitVec 32) (s : Devices) :
    BitVec 32 × Devices :=
  if e ≠ 0 then (e, s)
  else if name ∈ s.names then (0, s.set name (f (s.device name)))
  else (enodev, s)

section Calls

variable {k k' : Compartment} {name name' : List Byte} {s t : Devices} {f : Device → Device}

theorem SameAt.changeLink (h : SameAt k name s t) (hname : deviceName name' = name)
    (hf : ∀ d d', k.Same d d' → k.Same (f d) (f d')) (e : BitVec 32) :
    (changeLink f name' e s).1 = (changeLink f name' e t).1 ∧
      SameAt k name (changeLink f name' e s).2 (changeLink f name' e t).2 := by
  simp only [Dabbad.changeLink, ← h.names]
  split_ifs with he hmem
  · exact ⟨rfl, h⟩
  · rw [Devices.deviceName_of_mem name' hmem] at hname
    subst hname
    exact ⟨rfl, h.set (hf _ _ h.part)⟩
  · exact ⟨rfl, h⟩

theorem SameAt.of_changeLink (hother : deviceName name' ≠ name ∨ ∀ d, k.Same d (f d))
    (e : BitVec 32) (s : Devices) : SameAt k name s (Dabbad.changeLink f name' e s).2 := by
  unfold Dabbad.changeLink
  split_ifs with he hmem
  · exact .refl k name s
  · refine .of_set (hother.imp (fun hne hname => hne ?_) fun hsame => hsame _)
    rw [Devices.deviceName_of_mem name' hmem, hname]
  · exact .refl k name s

/-- Calls on the same part of a device have the same answer. -/
theorem IfaceCall.On.agrees {β : Type} {op : IfaceCall β} (hop : On k name β op) (e : BitVec 32)
    (h : SameAt k name s t) :
    (op.handle e s).1 = (op.handle e t).1 ∧
      SameAt k name (op.handle e s).2 (op.handle e t).2 := by
  cases op with
  | dev op =>
      cases op with
      | link op =>
          cases op with
          | linkCacheAlloc => exact ⟨rfl, h⟩
          | rtnlLinkAlloc => exact ⟨rfl, h⟩
          | rtnlLinkGetByName name' =>
              refine ⟨?_, h⟩
              simp only [handle, DevCall.handle, serveLink, h.names]
          | ethtoolGset name' =>
              obtain ⟨rfl, rfl⟩ := hop
              obtain ⟨hanswer, hsame⟩ := h.request .gset e rfl
              exact ⟨by simp only [handle, DevCall.handle, serveLink, hanswer], hsame⟩
          | ethtoolSset name' settings =>
              obtain ⟨rfl, rfl⟩ := hop
              have hpart : (s.device (kernelName name')).settings =
                  (t.device (kernelName name')).settings := h.part.1
              obtain ⟨hanswer, hsame⟩ := h.request (.sset
                { (s.device (kernelName name')).settings with toEthtoolCmd := settings }) e rfl
              simp only [handle, DevCall.handle, serveLink, ← hpart]
              exact ⟨by rw [hanswer], hsame⟩
          | rtnlLinkChange name' change =>
              obtain ⟨rfl, hname⟩ := hop
              exact h.changeLink hname (fun d d' hd => by
                simp_all [Compartment.Same, LinkChange.apply]) e
      | kernelRequest name' request =>
          obtain ⟨hk, rfl⟩ := hop
          exact h.request request e hk
      | linkCache => exact hop.elim
      | alloc => exact ⟨rfl, h⟩
  | rtnlLinkGetFlags => exact hop.elim
  | rtnlLinkChange name' change =>
      obtain ⟨rfl, hname⟩ := hop
      exact h.changeLink hname (fun d d' hd => by
        simp_all [Compartment.Same, FlagsChange.apply]) e

/-- Calls on a part of a device leave the others as they are. -/
theorem IfaceCall.On.keeps {β : Type} {op : IfaceCall β} (hop : On k name β op)
    (hother : (k', name') ≠ (k, name)) (e : BitVec 32) (s : Devices) :
    SameAt k' name' s (op.handle e s).2 := by
  have hpart : (some k', name') ≠ (some k, name) := fun heq =>
    hother (by rw [Prod.mk.injEq, Option.some_inj] at heq; rw [heq.1, heq.2])
  cases op with
  | dev op =>
      cases op with
      | link op =>
          cases op with
          | linkCacheAlloc => exact .refl k' name' s
          | rtnlLinkAlloc => exact .refl k' name' s
          | rtnlLinkGetByName dev => exact .refl k' name' s
          | ethtoolGset dev =>
              obtain ⟨rfl, rfl⟩ := hop
              exact SameAt.of_request .gset e hpart
          | ethtoolSset dev settings =>
              obtain ⟨rfl, rfl⟩ := hop
              exact SameAt.of_request (.sset _) e hpart
          | rtnlLinkChange dev change =>
              obtain ⟨rfl, hname⟩ := hop
              refine SameAt.of_changeLink (f := LinkChange.apply change) ?_ e s
              by_cases hne : deviceName dev = name'
              · refine .inr fun d => ?_
                have hk : k' ≠ .settings := fun hk => hother (by rw [hk, ← hname, hne])
                cases k' <;> simp_all [Compartment.Same, LinkChange.apply]
              · exact .inl hne
      | kernelRequest dev request =>
          obtain ⟨hk, rfl⟩ := hop
          exact SameAt.of_request request e (hk ▸ hpart)
      | linkCache => exact hop.elim
      | alloc => exact .refl k' name' s
  | rtnlLinkGetFlags => exact hop.elim
  | rtnlLinkChange dev change =>
      obtain ⟨rfl, hname⟩ := hop
      refine SameAt.of_changeLink (f := FlagsChange.apply change) ?_ e s
      by_cases hne : deviceName dev = name'
      · refine .inr fun d => ?_
        have hk : k' ≠ .status := fun hk => hother (by rw [hk, ← hname, hne])
        cases k' <;> simp_all [Compartment.Same, FlagsChange.apply]
      · exact .inl hne

end Calls

inductive InterfaceRpc
  | statusGet (idList : List (List Byte))
  | statusModify (statusp : InterfaceStatus)
  | driverGet (idList : List (List Byte))
  | settingsGet (idList : List (List Byte))
  | settingsModify (settingsp : InterfaceSettings)
  | capabilitiesModify (capabilitiesp : InterfaceCapabilities)
  | pauseGet (idList : List (List Byte))
  | pauseModify (pause : InterfacePause)
  | coalesceGet (idList : List (List Byte))
  | coalesceModify (coalescep : InterfaceCoalesce)
  | offloadGet (idList : List (List Byte))
  | offloadModify (offloadp : InterfaceOffload)

/-- The replies to them: the code of a request to modify, or a list. -/
inductive InterfaceReply
  | code (rc : BitVec 32)
  | status (list : Option (List StatusEntry))
  | driver (list : Option (List DriverEntry))
  | settings (list : Option (List SettingsEntry))
  | pause (list : Option (List PauseEntry))
  | coalesce (list : Option (List CoalesceEntry))
  | offload (list : Option (List OffloadEntry))

namespace InterfaceRpc

def onDevices {α : Type} (p : Prog DevCall α) : Prog IfaceCall α :=
  p.hoist fun _ op => IfaceCall.dev op

/-- The handler of each request. -/
def serve : InterfaceRpc → Prog IfaceCall InterfaceReply
  | .statusGet idList => .status <$> dabbadInterfaceStatusGet idList
  | .statusModify statusp => .code <$> dabbadInterfaceStatusModify statusp
  | .driverGet idList => .driver <$> onDevices (dabbadInterfaceDriverGet idList)
  | .settingsGet idList => .settings <$> onDevices (dabbadInterfaceSettingsGet idList)
  | .settingsModify settingsp =>
      .code <$> onDevices
        ((dabbadInterfaceSettingsModify settingsp).hoist fun _ op => DevCall.link op)
  | .capabilitiesModify capabilitiesp =>
      .code <$> onDevices (dabbadInterfaceCapabilitiesModify capabilitiesp)
  | .pauseGet idList => .pause <$> onDevices (dabbadInterfacePauseGet idList)
  | .pauseModify pause => .code <$> onDevices (dabbadInterfacePauseModify pause)
  | .coalesceGet idList => .coalesce <$> onDevices (dabbadInterfaceCoalesceGet idList)
  | .coalesceModify coalescep =>
      .code <$> onDevices (dabbadInterfaceCoalesceModify coalescep)
  | .offloadGet idList => .offload <$> onDevices (dabbadInterfaceOffloadGet idList)
  | .offloadModify offloadp => .code <$> onDevices (dabbadInterfaceOffloadModify offloadp)

def target : InterfaceRpc → Option (Compartment × List Byte)
  | .statusModify statusp => some (.status, deviceName statusp.name)
  | .settingsModify settingsp => some (.settings, deviceName settingsp.name)
  | .capabilitiesModify capabilitiesp => some (.settings, deviceName capabilitiesp.name)
  | .pauseModify pause => some (.pause, deviceName pause.name)
  | .coalesceModify coalescep => some (.coalesce, deviceName coalescep.name)
  | .offloadModify offloadp => some (.offload, deviceName offloadp.name)
  | _ => none

/-- A request concerns a part of a device if it modifies it. -/
def Concerns (k : Compartment) (name : List Byte) (r : InterfaceRpc) : Prop :=
  r.target = some (k, name)

instance (k : Compartment) (name : List Byte) : DecidablePred (Concerns k name) :=
  fun r => inferInstanceAs (Decidable (r.target = some (k, name)))

end InterfaceRpc

section Handlers

/-- A call on devices that works on a part of one of them only. -/
abbrev DevOn (k : Compartment) (name : List Byte) : ∀ β : Type, DevCall β → Prop :=
  fun β op => IfaceCall.On k name β (.dev op)

def Reads : ∀ β : Type, IfaceCall β → Prop :=
  fun _ op => ∀ (e : BitVec 32) (s : Devices), (op.handle e s).2 = s

abbrev DevReads : ∀ β : Type, DevCall β → Prop := fun β op => Reads β (.dev op)

theorem within_pauseModify (r : InterfacePause) :
    (dabbadInterfacePauseModify r).Within (DevOn .pause (deviceName r.name)) := by
  refine ⟨⟨rfl, rfl⟩, fun answer => ?_⟩
  dsimp only [Prog.pure_eq, Prog.ret_bind]
  split_ifs
  · trivial
  · exact ⟨⟨rfl, rfl⟩, fun _ => trivial⟩

theorem within_coalesceModify (r : InterfaceCoalesce) :
    (dabbadInterfaceCoalesceModify r).Within (DevOn .coalesce (deviceName r.name)) := by
  refine ⟨⟨rfl, rfl⟩, fun answer => ?_⟩
  dsimp only [Prog.pure_eq, Prog.ret_bind]
  split_ifs
  · trivial
  · exact ⟨⟨rfl, rfl⟩, fun _ => trivial⟩
  · trivial

theorem within_applyFeatures (r : InterfaceOffload) (fs : List Feature) (rc : BitVec 32) :
    (applyFeatures r fs rc).Within (DevOn .offload (deviceName r.name)) := by
  induction fs generalizing rc with
  | nil => trivial
  | cons f fs ih =>
      refine Prog.Within.bind ?_ fun rc => ih rc
      unfold setOffload
      split
      · trivial
      · split_ifs
        · exact ⟨⟨rfl, rfl⟩, fun _ => trivial⟩
        · trivial

theorem within_offloadModify (r : InterfaceOffload) :
    (dabbadInterfaceOffloadModify r).Within (DevOn .offload (deviceName r.name)) := by
  refine ⟨trivial, fun cache => ?_⟩
  dsimp only [Prog.pure_eq, Prog.ret_bind]
  split_ifs
  · trivial
  · refine ⟨trivial, fun link => ?_⟩
    dsimp only [Prog.pure_eq, Prog.ret_bind]
    split_ifs
    · trivial
    · rw [applyOffload_eq]
      exact within_applyFeatures r _ _

theorem within_applySettings (r : InterfaceSettings) :
    (applySettings r).Within
      fun β op => DevOn .settings (deviceName r.name) β (.link op) := by
  have hlink : ∀ rc : BitVec 32,
      (if (nlOverlay r).2 = true then
        (Prog.perform (LinkCall.rtnlLinkChange r.name (nlOverlay r).1)).bind fun rc => .ret rc
      else (Prog.ret rc).bind fun rc => .ret rc).Within
        fun β op => DevOn .settings (deviceName r.name) β (.link op) := by
    intro rc
    split_ifs
    · exact ⟨⟨rfl, rfl⟩, fun _ => trivial⟩
    · trivial
  refine ⟨⟨rfl, rfl⟩, fun answer => ?_⟩
  refine Prog.within_ite.2 ⟨fun _ => ?_, fun _ => hlink _⟩
  exact ⟨⟨rfl, rfl⟩, fun rc => hlink rc⟩

theorem within_settingsModify (r : InterfaceSettings) :
    (dabbadInterfaceSettingsModify r).Within
      fun β op => DevOn .settings (deviceName r.name) β (.link op) := by
  refine ⟨trivial, fun cache => ⟨trivial, fun change => ?_⟩⟩
  dsimp only [Prog.pure_eq, Prog.ret_bind]
  split_ifs
  · trivial
  · refine ⟨trivial, fun link => ?_⟩
    dsimp only [Prog.pure_eq, Prog.ret_bind]
    split_ifs
    · trivial
    · exact within_applySettings r

theorem within_applyCapabilities (r : InterfaceCapabilities) :
    (applyCapabilities r).Within (DevOn .settings (deviceName r.name)) := by
  refine ⟨⟨rfl, rfl⟩, fun answer => Prog.within_ite.2 ⟨fun _ => trivial, fun _ => ?_⟩⟩
  refine Prog.within_ite.2 ⟨fun _ => ?_, fun _ => ⟨⟨rfl, rfl⟩, fun _ => trivial⟩⟩
  exact ⟨⟨rfl, rfl⟩, fun _ => ⟨⟨rfl, rfl⟩, fun _ => trivial⟩⟩

theorem within_capabilitiesModify (r : InterfaceCapabilities) :
    (dabbadInterfaceCapabilitiesModify r).Within (DevOn .settings (deviceName r.name)) := by
  refine ⟨trivial, fun cache => ⟨trivial, fun change => ?_⟩⟩
  refine Prog.within_ite.2 ⟨fun _ => trivial, fun _ => ⟨trivial, fun link => ?_⟩⟩
  exact Prog.within_ite.2 ⟨fun _ => trivial, fun _ => within_applyCapabilities r⟩

theorem within_statusModify (r : InterfaceStatus) :
    (dabbadInterfaceStatusModify r).Within (IfaceCall.On .status (deviceName r.name)) := by
  refine ⟨trivial, fun cache => ⟨trivial, fun change => ?_⟩⟩
  refine Prog.within_ite.2 ⟨fun _ => trivial, fun _ => ⟨trivial, fun link => ?_⟩⟩
  exact Prog.within_ite.2 ⟨fun _ => trivial, fun _ => ⟨⟨rfl, rfl⟩, fun _ => trivial⟩⟩

theorem within_onDevices {α : Type} {P : ∀ β : Type, IfaceCall β → Prop} {p : Prog DevCall α}
    (hp : p.Within fun β op => P β (.dev op)) : (InterfaceRpc.onDevices p).Within P :=
  Prog.Within.hoist hp

/-- A handler that modifies works on the part of the device it is about. -/
theorem InterfaceRpc.within_serve {r : InterfaceRpc} {k : Compartment} {name : List Byte}
    (h : r.Concerns k name) : r.serve.Within (IfaceCall.On k name) := by
  cases r with
  | statusModify statusp =>
      obtain ⟨rfl, rfl⟩ := Prod.mk.inj (Option.some.inj h)
      exact (within_statusModify statusp).map
  | settingsModify settingsp =>
      obtain ⟨rfl, rfl⟩ := Prod.mk.inj (Option.some.inj h)
      exact .map (within_onDevices (.hoist (within_settingsModify settingsp)))
  | capabilitiesModify capabilitiesp =>
      obtain ⟨rfl, rfl⟩ := Prod.mk.inj (Option.some.inj h)
      exact .map (within_onDevices (within_capabilitiesModify capabilitiesp))
  | pauseModify pause =>
      obtain ⟨rfl, rfl⟩ := Prod.mk.inj (Option.some.inj h)
      exact .map (within_onDevices (within_pauseModify pause))
  | coalesceModify coalescep =>
      obtain ⟨rfl, rfl⟩ := Prod.mk.inj (Option.some.inj h)
      exact .map (within_onDevices (within_coalesceModify coalescep))
  | offloadModify offloadp =>
      obtain ⟨rfl, rfl⟩ := Prod.mk.inj (Option.some.inj h)
      exact .map (within_onDevices (within_offloadModify offloadp))
  | _ => cases h

theorem devReads_request {β : Type} (name : List Byte) {request : Request β}
    (hread : ∀ d, (request.serve d).2 = d) : DevReads _ (.kernelRequest name request) := by
  intro e s
  simp only [IfaceCall.handle, DevCall.handle, Devices.request]
  split_ifs
  · rfl
  · rfl
  · rw [hread, Devices.set_device]
  · rfl

theorem reads_alloc : DevReads _ .alloc := fun _ _ => rfl

/-- A list of interfaces is read, if each entry is. -/
theorem reads_interfaceGet {E : Type} {fill : RtnlLink → Prog DevCall E}
    (hfill : ∀ link, (fill link).Within DevReads) (idList : List (List Byte)) :
    (interfaceGet fill idList).Within DevReads := by
  have happend : ∀ list link, (appendEntry fill list link).Within DevReads := by
    intro list link
    refine ⟨reads_alloc, fun listpp => Prog.within_ite.2 ⟨fun _ => trivial, fun _ => ?_⟩⟩
    refine ⟨reads_alloc, fun entryp => Prog.within_ite.2 ⟨fun _ => trivial, fun _ => ?_⟩⟩
    refine ⟨reads_alloc, fun id => ⟨reads_alloc, fun status => ?_⟩⟩
    exact Prog.within_ite.2 ⟨fun _ => trivial, fun _ => (hfill link).bind fun _ => trivial⟩
  have happends : ∀ links list, (appendEntries fill links list).Within DevReads := by
    intro links
    induction links with
    | nil => exact fun _ => trivial
    | cons link links ih => exact fun list => (happend list link).bind ih
  refine ⟨fun _ _ => rfl, fun cache => ⟨fun _ _ => rfl, fun link => ?_⟩⟩
  cases cache with
  | none => trivial
  | some cache =>
      refine Prog.within_ite.2 ⟨fun _ => trivial, fun _ => ?_⟩
      exact (happends _ []).bind fun _ => trivial

/-- A handler that modifies nothing only reads. -/
theorem InterfaceRpc.reads_serve {r : InterfaceRpc} (h : r.target = none) :
    r.serve.Within Reads := by
  have hreq : ∀ {β : Type} (name : List Byte) {request : Request β},
      (∀ d, (request.serve d).2 = d) → DevReads _ (.kernelRequest name request) :=
    fun name _ => devReads_request name
  cases r with
  | statusGet idList =>
      refine .map ⟨fun _ _ => rfl, fun flags => ?_⟩
      refine within_onDevices (reads_interfaceGet (fun link => ?_) idList)
      exact ⟨hreq _ fun _ => rfl, fun _ => trivial⟩
  | driverGet idList =>
      refine .map (within_onDevices (reads_interfaceGet (fun link => ?_) idList))
      exact ⟨hreq _ fun _ => rfl, fun _ => trivial⟩
  | settingsGet idList =>
      refine .map (within_onDevices (reads_interfaceGet (fun link => ?_) idList))
      exact ⟨hreq _ fun _ => rfl, fun _ => trivial⟩
  | pauseGet idList =>
      refine .map (within_onDevices (reads_interfaceGet (fun link => ?_) idList))
      exact ⟨hreq _ fun _ => rfl, fun _ => trivial⟩
  | coalesceGet idList =>
      refine .map (within_onDevices (reads_interfaceGet (fun link => ?_) idList))
      exact ⟨hreq _ fun _ => rfl, fun _ => trivial⟩
  | offloadGet idList =>
      refine .map (within_onDevices (reads_interfaceGet (fun link => ?_) idList))
      have hfeature : ∀ f, DevReads _
          (.kernelRequest (ifrName link.name) (.value (.get f) 0)) :=
        fun f => hreq _ fun _ => rfl
      exact ⟨hfeature _, fun _ => ⟨hfeature _, fun _ => ⟨hfeature _, fun _ =>
        ⟨hfeature _, fun _ => ⟨hfeature _, fun _ => ⟨hfeature _, fun _ =>
          ⟨hfeature _, fun _ => trivial⟩⟩⟩⟩⟩⟩⟩
  | _ => cases h

end Handlers

/-- The requests about a part of a device and the others keep apart. -/
theorem InterfaceRpc.keepsApart (k : Compartment) (name : List Byte) :
    KeepsApart IfaceCall.handle InterfaceRpc.serve (InterfaceRpc.Concerns k name)
      (SameAt k name) where
  symm _ _ h := h.symm
  trans _ _ _ h h' := h.trans h'
  keeps r script s hr := by
    cases htarget : r.target with
    | none =>
        refine (reads_serve htarget).run_keeps (E := SameAt k name) (.refl k name)
          (fun _ _ _ => SameAt.trans) (fun op e s hop => ?_) script s
        rw [hop e s]
        exact .refl k name s
    | some target =>
        obtain ⟨k', name'⟩ := target
        have hother : (k, name) ≠ (k', name') := by
          rintro heq
          exact hr (htarget.trans (congrArg some heq.symm))
        exact (within_serve htarget).run_keeps (E := SameAt k name) (.refl k name)
          (fun _ _ _ => SameAt.trans) (fun op e s hop => hop.keeps hother e s) script s
  agrees r script s t hr hsame :=
    (within_serve hr).run_agrees (fun op e s t hop h => hop.agrees e h) script hsame

theorem InterfaceRpc.keeps_rest (r : InterfaceRpc) (script : ℕ → BitVec 32) (s : Devices) :
    ∃ a s', r.serve.run IfaceCall.handle script s = some (a, s') ∧
      ∀ name, SameAt .rest name s s' := by
  have hkeeps := fun name => (InterfaceRpc.keepsApart .rest name).keeps r script s
    (by cases r <;> exact fun h => by cases h)
  obtain ⟨a, s', hrun, -⟩ := hkeeps []
  refine ⟨a, s', hrun, fun name => ?_⟩
  obtain ⟨_, _, hrun', hsame⟩ := hkeeps name
  rw [hrun] at hrun'
  obtain ⟨rfl, rfl⟩ := Prod.mk.inj (Option.some.inj hrun')
  exact hsame

/-- Every history is served, and the rest of the devices stays as it is. -/
theorem serveAll_rest (s : Devices) (requests : List (InterfaceRpc × (ℕ → BitVec 32))) :
    ∃ answered s', serveAll IfaceCall.handle InterfaceRpc.serve requests s =
      some (answered, s') ∧ ∀ name, SameAt .rest name s s' :=
  serveAll_keeps (fun s name => .refl .rest name s)
    (fun _ _ _ h h' name => (h name).trans (h' name)) InterfaceRpc.keeps_rest requests s

/-- For every history of requests about interfaces, with any outcomes of their calls, and
every part of every device: without the requests that do not modify this part the replies
to those that do are the same, and so is the part in the end. What no request modifies is
as it was. -/
theorem interfaceRpc_purge (s : Devices) (requests : List (InterfaceRpc × (ℕ → BitVec 32))) :
    ∃ answered s', serveAll IfaceCall.handle InterfaceRpc.serve requests s =
        some (answered, s') ∧ s'.names = s.names ∧
      (∀ name, Compartment.rest.Same (s.device name) (s'.device name)) ∧
      ∀ k name, ∃ t', serveAll IfaceCall.handle InterfaceRpc.serve
          (requests.filter fun x => x.1.Concerns k name) s =
            some (answered.filter fun x => x.1.Concerns k name, t') ∧
        k.Same (s'.device name) (t'.device name) := by
  obtain ⟨answered, s', hs', hrest⟩ := serveAll_rest s requests
  refine ⟨answered, s', hs', (hrest []).names.symm, fun name => (hrest name).part,
    fun k name => ?_⟩
  obtain ⟨_, _, t', hs'', ht', hsame⟩ :=
    (InterfaceRpc.keepsApart k name).purge requests (SameAt.refl k name s)
  rw [hs'] at hs''
  obtain ⟨rfl, rfl⟩ := Prod.mk.inj (Option.some.inj hs'')
  exact ⟨t', ht', hsame.part⟩

end Dabbad
