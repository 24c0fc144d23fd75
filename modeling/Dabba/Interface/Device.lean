import Dabba.Dabbad.InterfaceSettings
import Dabba.Interface.Request
import Mathlib.Data.List.TakeWhile

/-!
# Requests to the devices of the kernel

Every function on a device fills a request with the name of the device, cut to the size
of the field it is copied to, and passes it to the kernel. A device is what the kernel
keeps of it. A request that fails, or that names no device, changes nothing.
-/

namespace Interface

open Posix Program Dabbad

abbrev eaddrnotavail : ℕ := 99

def colon : Byte := 0x3a

structure EthtoolSettings extends EthtoolCmd where
  supported : BitVec 32
  advertising : BitVec 32
  lpAdvertising : BitVec 32

def EthtoolSettings.zero : EthtoolSettings := ⟨⟨0, 0, 0, 0, 0, 0, 0⟩, 0, 0, 0⟩

structure EthtoolPauseparam where
  autoneg : Bool
  rxPause : Bool
  txPause : Bool

/-- A `struct ethtool_coalesce`. -/
@[ext]
structure EthtoolCoalesce where
  pktRateHigh : BitVec 32
  pktRateLow : BitVec 32
  rateSampleInterval : BitVec 32
  statsBlockCoalesceUsecs : BitVec 32
  useAdaptiveRxCoalesce : Bool
  rxCoalesceUsecs : BitVec 32
  rxCoalesceUsecsIrq : BitVec 32
  rxCoalesceUsecsHigh : BitVec 32
  rxCoalesceUsecsLow : BitVec 32
  rxMaxCoalescedFrames : BitVec 32
  rxMaxCoalescedFramesIrq : BitVec 32
  rxMaxCoalescedFramesHigh : BitVec 32
  rxMaxCoalescedFramesLow : BitVec 32
  useAdaptiveTxCoalesce : Bool
  txCoalesceUsecs : BitVec 32
  txCoalesceUsecsIrq : BitVec 32
  txCoalesceUsecsHigh : BitVec 32
  txCoalesceUsecsLow : BitVec 32
  txMaxCoalescedFrames : BitVec 32
  txMaxCoalescedFramesIrq : BitVec 32
  txMaxCoalescedFramesHigh : BitVec 32
  txMaxCoalescedFramesLow : BitVec 32

def EthtoolCoalesce.zero : EthtoolCoalesce :=
  ⟨0, 0, 0, 0, false, 0, 0, 0, 0, 0, 0, 0, 0, false, 0, 0, 0, 0, 0, 0, 0, 0⟩

/-- The strings of a `struct ethtool_drvinfo`. -/
structure EthtoolDrvinfo where
  driver : List Byte
  version : List Byte
  fwVersion : List Byte
  busInfo : List Byte

def EthtoolDrvinfo.zero : EthtoolDrvinfo := ⟨[], [], [], []⟩

/-- The features with ethtool commands of their own. -/
inductive Feature
  | rxcsum
  | txcsum
  | sg
  | tso
  | ufo
  | gso
  | gro
deriving DecidableEq

/-- The ethtool commands on a single value. -/
inductive EthtoolValueCmd
  | get (feature : Feature)
  | set (feature : Feature)
  | gflags
  | sflags
  | glink

def iffUp : BitVec 16 := 0x1
def iffLoopback : BitVec 16 := 0x8
def iffRunning : BitVec 16 := 0x40
def iffPromisc : BitVec 16 := 0x100

def iffVolatile : BitVec 16 := 0xc5a

/-- What the kernel keeps of a device. The carrier and the operational state come from the
hardware. -/
structure Device where
  settings : EthtoolSettings
  pause : EthtoolPauseparam
  coalesce : EthtoolCoalesce
  drvinfo : EthtoolDrvinfo
  feature : Feature → Bool
  ethFlags : BitVec 32
  carrier : Bool
  operational : Bool
  flags : BitVec 16
  mtu : BitVec 32
  txqlen : BitVec 32

namespace Device

variable (d : Device)

def up : Bool := d.flags &&& iffUp == iffUp

def link : Bool := d.up && d.carrier

def getFlags : BitVec 16 :=
  d.flags &&& ~~~iffRunning ||| if d.up && d.operational then iffRunning else 0

end Device

/-- The requests of `ioctl` to a device, with the type of the answer. -/
inductive Request : Type → Type
  | siocgifflags : Request (BitVec 16)
  | siocsifflags (flags : BitVec 16) : Request Unit
  | gdrvinfo : Request EthtoolDrvinfo
  | gset : Request EthtoolSettings
  | sset (settings : EthtoolSettings) : Request Unit
  | gpauseparam : Request EthtoolPauseparam
  | spauseparam (pause : EthtoolPauseparam) : Request Unit
  | gcoalesce : Request EthtoolCoalesce
  | scoalesce (coalesce : EthtoolCoalesce) : Request Unit
  | value (cmd : EthtoolValueCmd) (data : BitVec 32) : Request (BitVec 32)

def EthtoolValueCmd.serve (data : BitVec 32) (d : Device) :
    EthtoolValueCmd → BitVec 32 × Device
  | .get feature => (if d.feature feature then 1 else 0, d)
  | .set feature =>
      (data, { d with feature := Function.update d.feature feature (data != 0) })
  | .gflags => (d.ethFlags, d)
  | .sflags => (data, { d with ethFlags := data })
  | .glink => (if d.link then 1 else 0, d)

/-- The answer to a request, and the device after it. -/
def Request.serve (d : Device) : {β : Type} → Request β → β × Device
  | _, .siocgifflags => (d.getFlags, d)
  | _, .siocsifflags flags =>
      ((), { d with flags := d.flags &&& iffVolatile ||| flags &&& ~~~iffVolatile })
  | _, .gdrvinfo => (d.drvinfo, d)
  | _, .gset => (d.settings, d)
  | _, .sset settings => ((), { d with settings := settings })
  | _, .gpauseparam => (d.pause, d)
  | _, .spauseparam pause => ((), { d with pause := pause })
  | _, .gcoalesce => (d.coalesce, d)
  | _, .scoalesce coalesce => ((), { d with coalesce := coalesce })
  | _, .value cmd data => cmd.serve data d

/-- The devices of the kernel. Their names fit the field of a request, and have no colon. -/
structure Devices where
  names : List (List Byte)
  device : List Byte → Device
  length_lt : ∀ name ∈ names, name.length < ifnamsiz
  colon_notMem : ∀ name ∈ names, colon ∉ name

/-- The kernel reads the name in a request up to a colon, behind which the label of an
address may stand. -/
def kernelName (name : List Byte) : List Byte := name.takeWhile (· ≠ colon)

/-- Setting the flags under the label of an address is about that address, and not about the
device. -/
def Request.isLabelled : {β : Type} → Request β → Bool
  | _, .siocsifflags _ => true
  | _, _ => false

/-- An entry of the cache of links. -/
structure RtnlLink where
  name : List Byte
  mtu : BitVec 32
  txqlen : BitVec 32

namespace Devices

variable (s : Devices) (name : List Byte)

instance decidableMemNames : Decidable (name ∈ s.names) := inferInstance

def set (d : Device) : Devices :=
  { s with device := Function.update s.device name d }

@[simp] theorem device_set_self (d : Device) : (s.set name d).device name = d :=
  Function.update_self ..

theorem device_set_of_ne {name' : List Byte} (h : name' ≠ name) (d : Device) :
    (s.set name d).device name' = s.device name' :=
  Function.update_of_ne h ..

@[simp] theorem set_device : s.set name (s.device name) = s := by
  simp [set]

@[simp] theorem set_set (d d' : Device) : (s.set name d).set name d' = s.set name d' := by
  simp [set]

def links : List RtnlLink :=
  s.names.map fun name => ⟨name, (s.device name).mtu, (s.device name).txqlen⟩

/-- The kernel's part of a request, with the error number of a failure: without a device
of that name it fails in any case. No address has a label. -/
def request {β : Type} (r : Request β) (e : BitVec 32) :
    (BitVec 32 × Option β) × Devices :=
  if e ≠ 0 then ((e, none), s)
  else if r.isLabelled = true ∧ colon ∈ name then ((eaddrnotavail, none), s)
  else if kernelName name ∈ s.names then
    ((0, some (r.serve (s.device (kernelName name))).1),
      s.set (kernelName name) (r.serve (s.device (kernelName name))).2)
  else ((enodev, none), s)

/-- The kernel finds the device of a request, if there is no other error. -/
def Finds {β : Type} (r : Request β) : Prop :=
  (r.isLabelled = true → colon ∉ name) ∧ kernelName name ∈ s.names

instance {β : Type} (r : Request β) : Decidable (s.Finds name r) :=
  inferInstanceAs (Decidable (_ ∧ _))

variable {s name}

theorem kernelName_of_notMem (h : colon ∉ name) : kernelName name = name := by
  rw [kernelName, List.takeWhile_eq_self_iff]
  intro c hc
  exact decide_eq_true fun heq => h (heq ▸ hc)

theorem kernelName_of_mem (hname : name ∈ s.names) : kernelName name = name :=
  kernelName_of_notMem (s.colon_notMem name hname)

theorem request_of_finds {β : Type} {r : Request β} (h : s.Finds name r) :
    s.request name r 0#32 =
      ((0#32, some (r.serve (s.device (kernelName name))).1),
        s.set (kernelName name) (r.serve (s.device (kernelName name))).2) := by
  have hlabel : ¬ (r.isLabelled = true ∧ colon ∈ name) := fun hlabel => h.1 hlabel.1 hlabel.2
  simp [request, hlabel, h.2]

theorem request_zero (hname : name ∈ s.names) {β : Type} (r : Request β) :
    s.request name r 0#32 =
      ((0#32, some (r.serve (s.device name)).1),
        s.set name (r.serve (s.device name)).2) := by
  have hkernel := kernelName_of_mem hname
  rw [request_of_finds ⟨fun _ => s.colon_notMem name hname, hkernel.symm ▸ hname⟩, hkernel]

variable (s name)

theorem request_of_fail {β : Type} (r : Request β) (e : BitVec 32)
    (h : e ≠ 0 ∨ ¬ s.Finds name r) :
    ∃ rc, rc ≠ 0 ∧ s.request name r e = ((rc, none), s) := by
  by_cases he : e = 0
  · have hnot := h.resolve_left (not_not.2 he)
    rw [request, if_neg (not_not.2 he)]
    split_ifs with hlabel hname
    · exact ⟨eaddrnotavail, by decide, rfl⟩
    · exact absurd ⟨fun hr hcolon => hlabel ⟨hr, hcolon⟩, hname⟩ hnot
    · exact ⟨enodev, by decide, rfl⟩
  · exact ⟨e, he, by rw [request, if_pos he]⟩

theorem request_cases {β : Type} (r : Request β) (e : BitVec 32) :
    (∃ data d, s.request name r e = ((0, some data), d)) ∨
      ∃ rc d, s.request name r e = ((rc, none), d) := by
  rw [request]
  split_ifs
  · exact .inr ⟨_, _, rfl⟩
  · exact .inr ⟨_, _, rfl⟩
  · exact .inl ⟨_, _, rfl⟩
  · exact .inr ⟨_, _, rfl⟩

theorem request_of_read {β : Type} {r : Request β} (hread : ∀ d, (r.serve d).2 = d)
    (e : BitVec 32) : (s.request name r e).2 = s := by
  rw [request]
  split_ifs
  · rfl
  · rfl
  · simp only [hread, set_device]
  · rfl

end Devices

/-- The calls on devices: those of the handlers of the settings, requests to the kernel,
and what a list of devices needs. -/
inductive DevCall : Type → Type 1
  | link {β : Type} (op : LinkCall β) : DevCall β
  | kernelRequest {β : Type} (ifrName : List Byte) (request : Request β) :
      DevCall (BitVec 32 × Option β)
  | linkCache : DevCall (Option (List RtnlLink))
  | alloc : DevCall Bool

def LinkChange.apply (change : LinkChange) (d : Device) : Device :=
  { d with mtu := change.mtu.getD d.mtu, txqlen := change.txqlen.getD d.txqlen }

/-- The calls of the handlers of the settings, on the devices. -/
def serveLink : Handler LinkCall (BitVec 32) Devices
  | _, .linkCacheAlloc, e, s => (decide (e = 0), s)
  | _, .rtnlLinkAlloc, e, s => (decide (e = 0), s)
  | _, .rtnlLinkGetByName name, e, s => (decide (e = 0 ∧ name ∈ s.names), s)
  | _, .ethtoolGset name, e, s =>
      let r := s.request name .gset e
      ((r.1.1, (r.1.2.getD .zero).toEthtoolCmd), r.2)
  | _, .ethtoolSset name settings, e, s =>
      let r := s.request name
        (.sset { (s.device (kernelName name)).settings with toEthtoolCmd := settings }) e
      (r.1.1, r.2)
  | _, .rtnlLinkChange name change, e, s =>
      if e ≠ 0 then (e, s)
      else if name ∈ s.names then
        (0, s.set name (LinkChange.apply change (s.device name)))
      else (enodev, s)

/-- The calls on the devices. The number that is chosen for a call is zero for success,
and otherwise the error number of its failure. -/
def DevCall.handle : Handler DevCall (BitVec 32) Devices
  | _, .link op, e, s => serveLink op e s
  | _, .kernelRequest name request, e, s => s.request name request e
  | _, .linkCache, e, s => (if e = 0 then some s.links else none, s)
  | _, .alloc, e, s => (decide (e = 0), s)

def DevCall.anySem : Sem DevCall Devices := DevCall.handle.sem fun _ _ _ => True

section Functions

variable (dev : List Byte)

/-- A request to the kernel as a single call, without the socket it is made through. -/
def kernelRequest {β : Type} (ifrName : List Byte) (request : Request β) :
    Prog DevCall (BitVec 32 × Option β) :=
  Prog.perform (DevCall.kernelRequest ifrName request)

def ifrName : List Byte := dev.take (ifnamsiz - 1)

/-- The name of the device that a request under this name is for. -/
def deviceName : List Byte := kernelName (ifrName dev)

variable {dev} in
theorem ifrName_of_lt (h : dev.length < ifnamsiz) : ifrName dev = dev :=
  List.take_of_length_le (Nat.le_sub_one_of_lt h)

theorem Devices.ifrName_of_mem {s : Devices} (h : dev ∈ s.names) : ifrName dev = dev :=
  ifrName_of_lt (s.length_lt dev h)

theorem Devices.deviceName_of_mem {s : Devices} (h : dev ∈ s.names) : deviceName dev = dev := by
  rw [deviceName, Devices.ifrName_of_mem dev h, Devices.kernelName_of_mem h]

theorem Devices.finds_iff {s : Devices} {β : Type} {r : Request β} (hr : r.isLabelled = false) :
    s.Finds (ifrName dev) r ↔ deviceName dev ∈ s.names :=
  and_iff_right fun h => absurd (hr.symm.trans h) Bool.false_ne_true

/-- What comes of a request that is not about a label. -/
theorem Devices.request_ifrName_eq (s : Devices) {β : Type} {r : Request β}
    (hr : r.isLabelled = false) (e : BitVec 32) :
    s.request (ifrName dev) r e =
      if e ≠ 0 then ((e, none), s)
      else if deviceName dev ∈ s.names then
        ((0, some (r.serve (s.device (deviceName dev))).1),
          s.set (deviceName dev) (r.serve (s.device (deviceName dev))).2)
      else ((enodev, none), s) := by
  simp only [Devices.request, hr, Bool.false_eq_true, false_and, if_false]
  rfl

theorem Devices.request_ifrName {s : Devices} {β : Type} {r : Request β}
    (hr : r.isLabelled = false) (hname : deviceName dev ∈ s.names) :
    s.request (ifrName dev) r 0#32 =
      ((0#32, some (r.serve (s.device (deviceName dev))).1),
        s.set (deviceName dev) (r.serve (s.device (deviceName dev))).2) :=
  Devices.request_of_finds ((Devices.finds_iff dev hr).2 hname)

theorem Devices.request_ifrName_of_fail {s : Devices} {β : Type} {r : Request β}
    (hr : r.isLabelled = false) (e : BitVec 32) (h : e ≠ 0 ∨ deviceName dev ∉ s.names) :
    ∃ rc, rc ≠ 0 ∧ s.request (ifrName dev) r e = ((rc, none), s) :=
  s.request_of_fail (ifrName dev) r e (h.imp_right (mt (Devices.finds_iff dev hr).1))

def devEthtoolRequest (cmd : EthtoolValueCmd) (value : BitVec 32) :
    Prog DevCall (BitVec 32 × BitVec 32) := do
  let (rc, data) ← kernelRequest (ifrName dev) (.value cmd value)
  return (rc, data.getD value)

@[simp] theorem devEthtoolRequest_bind {A : Type} (cmd : EthtoolValueCmd)
    (value : BitVec 32) (k : BitVec 32 × BitVec 32 → Prog DevCall A) :
    (devEthtoolRequest dev cmd value).bind k =
      .call (.kernelRequest (ifrName dev) (.value cmd value))
        fun r => k (r.1, r.2.getD value) := rfl

/-- Fetches a structure. It stays as it was before when the request fails. -/
def devStructGet {β : Type} (request : Request β) (before : β) :
    Prog DevCall (BitVec 32 × β) := do
  let (rc, data) ← kernelRequest (ifrName dev) request
  return (rc, data.getD before)

@[simp] theorem devStructGet_bind {β A : Type} (request : Request β) (before : β)
    (k : BitVec 32 × β → Prog DevCall A) :
    (devStructGet dev request before).bind k =
      .call (.kernelRequest (ifrName dev) request)
        fun r => k (r.1, r.2.getD before) := rfl

theorem wp_devStructGet {β A : Type} {request : Request β}
    (hread : ∀ d, (request.serve d).2 = d) {before : β} {s : Devices}
    {k : BitVec 32 × β → Prog DevCall A} {Q : A → Devices → Prop}
    (hserved : (k (0, (request.serve (s.device (deviceName dev))).1)).wp DevCall.anySem Q s)
    (hfailed : ∀ rc, rc ≠ 0 → (k (rc, before)).wp DevCall.anySem Q s) :
    ((devStructGet dev request before).bind k).wp DevCall.anySem Q s := by
  rintro r s' ⟨e, -, heq⟩
  by_cases hserve : e = 0 ∧ s.Finds (ifrName dev) request
  · obtain ⟨rfl, hfinds⟩ := hserve
    rw [DevCall.handle, BitVec.ofNat_eq_ofNat, Devices.request_of_finds hfinds, hread,
      Devices.set_device] at heq
    cases heq
    exact hserved
  · obtain ⟨rc, hrc, hrequest⟩ := s.request_of_fail (ifrName dev) request e
      (by tauto)
    rw [DevCall.handle, hrequest] at heq
    cases heq
    exact hfailed rc hrc

def devStructSet (request : Request Unit) : Prog DevCall (BitVec 32) := do
  let (rc, _) ← kernelRequest (ifrName dev) request
  return rc

@[simp] theorem devStructSet_bind {A : Type} (request : Request Unit)
    (k : BitVec 32 → Prog DevCall A) :
    (devStructSet dev request).bind k =
      .call (.kernelRequest (ifrName dev) request) fun r => k r.1 := rfl

theorem run_devStructSet (request : Request Unit) (script : ℕ → BitVec 32)
    (s : Devices) :
    (devStructSet dev request).run DevCall.handle script s =
      some ((s.request (ifrName dev) request (script 0)).1.1,
        (s.request (ifrName dev) request (script 0)).2) := rfl

def ldabDevDriverGet : Prog DevCall (BitVec 32 × EthtoolDrvinfo) :=
  devStructGet dev .gdrvinfo .zero

def ldabDevSettingsGet : Prog DevCall (BitVec 32 × EthtoolSettings) :=
  devStructGet dev .gset .zero

def ldabDevSettingsSet (settings : EthtoolSettings) : Prog DevCall (BitVec 32) :=
  devStructSet dev (.sset settings)

def ldabDevPauseGet : Prog DevCall (BitVec 32 × EthtoolPauseparam) :=
  devStructGet dev .gpauseparam ⟨false, false, false⟩

def ldabDevPauseSet (pause : EthtoolPauseparam) : Prog DevCall (BitVec 32) :=
  devStructSet dev (.spauseparam pause)

def ldabDevCoalesceGet : Prog DevCall (BitVec 32 × EthtoolCoalesce) :=
  devStructGet dev .gcoalesce .zero

def ldabDevCoalesceSet (coalesce : EthtoolCoalesce) : Prog DevCall (BitVec 32) :=
  devStructSet dev (.scoalesce coalesce)

def ldabDevRxCsumOffloadGet (rxCsum : BitVec 32) : Prog DevCall (BitVec 32 × BitVec 32) :=
  devEthtoolRequest dev (.get .rxcsum) rxCsum

def ldabDevTxCsumOffloadGet (txCsum : BitVec 32) : Prog DevCall (BitVec 32 × BitVec 32) :=
  devEthtoolRequest dev (.get .txcsum) txCsum

def ldabDevScatterGatherGet (sg : BitVec 32) : Prog DevCall (BitVec 32 × BitVec 32) :=
  devEthtoolRequest dev (.get .sg) sg

def ldabDevTcpSegOffloadGet (tso : BitVec 32) : Prog DevCall (BitVec 32 × BitVec 32) :=
  devEthtoolRequest dev (.get .tso) tso

def ldabDevUdpFragOffloadGet (ufo : BitVec 32) : Prog DevCall (BitVec 32 × BitVec 32) :=
  devEthtoolRequest dev (.get .ufo) ufo

def ldabDevGenericSegOffloadGet (gso : BitVec 32) :
    Prog DevCall (BitVec 32 × BitVec 32) :=
  devEthtoolRequest dev (.get .gso) gso

def ldabDevGenericRcvOffloadGet (gro : BitVec 32) :
    Prog DevCall (BitVec 32 × BitVec 32) :=
  devEthtoolRequest dev (.get .gro) gro

def devValueSet (cmd : EthtoolValueCmd) (value : BitVec 32) : Prog DevCall (BitVec 32) := do
  let (rc, _) ← devEthtoolRequest dev cmd value
  return rc

@[simp] theorem devValueSet_bind {A : Type} (cmd : EthtoolValueCmd) (value : BitVec 32)
    (k : BitVec 32 → Prog DevCall A) :
    (devValueSet dev cmd value).bind k =
      .call (.kernelRequest (ifrName dev) (.value cmd value)) fun r => k r.1 := rfl

def ldabDevRxCsumOffloadSet (rxCsum : BitVec 32) : Prog DevCall (BitVec 32) :=
  devValueSet dev (.set .rxcsum) rxCsum

def ldabDevTxCsumOffloadSet (txCsum : BitVec 32) : Prog DevCall (BitVec 32) :=
  devValueSet dev (.set .txcsum) txCsum

def ldabDevScatterGatherSet (sg : BitVec 32) : Prog DevCall (BitVec 32) :=
  devValueSet dev (.set .sg) sg

def ldabDevTcpSegOffloadSet (tso : BitVec 32) : Prog DevCall (BitVec 32) :=
  devValueSet dev (.set .tso) tso

def ldabDevUdpFragOffloadSet (ufo : BitVec 32) : Prog DevCall (BitVec 32) :=
  devValueSet dev (.set .ufo) ufo

def ldabDevGenericSegOffloadSet (gso : BitVec 32) : Prog DevCall (BitVec 32) :=
  devValueSet dev (.set .gso) gso

def ldabDevGenericRcvOffloadSet (gro : BitVec 32) : Prog DevCall (BitVec 32) :=
  devValueSet dev (.set .gro) gro

def ethFlagLro : BitVec 32 := 1 <<< 15

def ethFlagRxhash : BitVec 32 := 1 <<< 28

def devFlagGet (flag : BitVec 32) : Prog DevCall (BitVec 32 × BitVec 32) := do
  let (rc, flags) ← devEthtoolRequest dev .gflags 0
  return (rc, flags &&& flag)

def devFlagSet (flag value : BitVec 32) : Prog DevCall (BitVec 32) := do
  let (rc, flags) ← devEthtoolRequest dev .gflags 0
  if rc ≠ 0 then
    return rc
  else
    devValueSet dev .sflags (if value ≠ 0 then flags ||| flag else flags &&& ~~~flag)

def ldabDevLargeRcvOffloadGet : Prog DevCall (BitVec 32 × BitVec 32) :=
  devFlagGet dev ethFlagLro

def ldabDevRxHashOffloadGet : Prog DevCall (BitVec 32 × BitVec 32) :=
  devFlagGet dev ethFlagRxhash

def ldabDevLargeRcvOffloadSet (lro : BitVec 32) : Prog DevCall (BitVec 32) :=
  devFlagSet dev ethFlagLro lro

def ldabDevRxHashOffloadSet (rxhash : BitVec 32) : Prog DevCall (BitVec 32) :=
  devFlagSet dev ethFlagRxhash rxhash

def ldabDevLinkGet (link : BitVec 32) : Prog DevCall (BitVec 32 × BitVec 32) :=
  devEthtoolRequest dev .glink link

theorem run_ldabDevSettingsGet_link (script : ℕ → BitVec 32) (s : Devices) :
    ((Dabbad.ldabDevSettingsGet dev).hoist fun _ op => DevCall.link op).run
        DevCall.handle script s =
      ((ldabDevSettingsGet dev).run DevCall.handle script s).map fun x =>
        ((x.1.1, x.1.2.toEthtoolCmd), x.2) :=
  rfl

theorem run_ldabDevSettingsSet_link (cmd : EthtoolCmd) (script : ℕ → BitVec 32) (s : Devices) :
    ((Dabbad.ldabDevSettingsSet dev cmd).hoist fun _ op => DevCall.link op).run
        DevCall.handle script s =
      (ldabDevSettingsSet dev
        { (s.device (deviceName dev)).settings with toEthtoolCmd := cmd }).run
          DevCall.handle script s :=
  rfl

end Functions

section Sockets

/-- The calls of one request, with the socket it is made through. -/
inductive SocketCall : Type → Type 1
  | socket : SocketCall ℤ
  | ioctl {β : Type} (sock : ℤ) (ifrName : List Byte) (request : Request β) :
      SocketCall (Option β)
  | close (sock : ℤ) : SocketCall ℤ
  | errno : SocketCall (BitVec 32)

/-- The devices, the sockets that are open, and the error number of the last failure. -/
structure Sockets where
  devices : Devices
  opened : List ℤ
  next : ℕ
  errno : BitVec 32

/-- The error number of a request through a socket that is not open. -/
def badSocket : BitVec 32 := 9

/-- The calls with their outcomes, zero for success. A socket that is closed is closed even
if the call fails. -/
def SocketCall.handle : Handler SocketCall (BitVec 32) Sockets
  | _, .socket, e, s =>
      if e = 0 then
        (s.next, { s with opened := (s.next : ℤ) :: s.opened, next := s.next + 1 })
      else (-1, { s with errno := e })
  | _, .ioctl sock name request, e, s =>
      let r := s.devices.request name request (if sock ∈ s.opened then e else badSocket)
      (r.1.2, { s with devices := r.2, errno := if r.1.2.isSome then s.errno else r.1.1 })
  | _, .close sock, e, s =>
      let s := { s with opened := s.opened.erase sock }
      if e = 0 then (0, s) else (-1, { s with errno := e })
  | _, .errno, _, s => (s.errno, s)

def socketRequest {β : Type} (ifrName : List Byte) (request : Request β) :
    Prog SocketCall (BitVec 32 × Option β) :=
  devKernelRequest (Prog.perform .socket)
    (fun sock => Prog.perform (.ioctl sock ifrName request))
    (fun sock => Prog.perform (.close sock)) (Prog.perform .errno)
    (fun rc => (rc, none)) fun answer => (0, some answer)

theorem SocketCall.handle_ioctl {β : Type} {sock : ℤ} (name : List Byte) (request : Request β)
    (e : BitVec 32) {s : Sockets} (hsock : sock ∈ s.opened) :
    SocketCall.handle (.ioctl sock name request) e s =
      ((s.devices.request name request e).1.2,
        { s with
          devices := (s.devices.request name request e).2
          errno := if (s.devices.request name request e).1.2.isSome then s.errno
            else (s.devices.request name request e).1.1 }) := by
  rw [SocketCall.handle, if_pos hsock]

/-- A request through a socket of its own is a single request, which fails where the socket
cannot be opened, and leaves no socket open. -/
theorem run_socketRequest {β : Type} (name : List Byte) (request : Request β)
    {script : ℕ → BitVec 32} (hclose : script 2 = 0) (s : Sockets) :
    ∃ s', (socketRequest name request).run SocketCall.handle script s =
        some ((s.devices.request name request
          (if script 0 = 0 then script 1 else script 0)).1, s') ∧
      s'.devices = (s.devices.request name request
        (if script 0 = 0 then script 1 else script 0)).2 ∧
      s'.opened = s.opened := by
  simp only [socketRequest, devKernelRequest, Prog.bind_eq, Prog.perform_bind, Prog.run_call]
  by_cases hsocket : script 0 = 0
  case neg =>
    have hfailed : SocketCall.handle .socket (script 0) s = (-1, { s with errno := script 0 }) := by
      rw [SocketCall.handle, if_neg hsocket]
    rw [if_neg hsocket, Devices.request, if_pos hsocket, hfailed]
    exact ⟨{ s with errno := script 0 }, rfl, rfl, rfl⟩
  let t : Sockets := { s with opened := (s.next : ℤ) :: s.opened, next := s.next + 1 }
  have hopened : SocketCall.handle .socket (script 0) s = ((s.next : ℤ), t) := by
    rw [SocketCall.handle, if_pos hsocket]
  have hclosed : ∀ t : Sockets, SocketCall.handle (.close s.next) (script 2) t =
      (0, { t with opened := t.opened.erase s.next }) := fun t => by
    rw [SocketCall.handle, if_pos hclose]
  have hnext : ¬ (s.next : ℤ) < 0 := Int.not_lt.2 (Int.natCast_nonneg s.next)
  have herase : t.opened.erase (s.next : ℤ) = s.opened := List.erase_cons_head ..
  rw [if_pos hsocket, hopened, if_neg hnext, Prog.run_call, Prog.run_call]
  have hmem : (s.next : ℤ) ∈ t.opened := List.mem_cons_self
  simp only [Nat.zero_add, Nat.reduceAdd, hclosed,
    SocketCall.handle_ioctl name request (script 1) hmem]
  rcases s.devices.request_cases name request (script 1) with
    ⟨data, d, hrequest⟩ | ⟨rc, d, hrequest⟩
  · simp only [t, hrequest]
    refine ⟨_, rfl, rfl, ?_⟩
    exact herase
  · simp only [t, hrequest]
    refine ⟨_, rfl, rfl, ?_⟩
    exact herase

end Sockets

/-- A device that is connected with a fibre. -/
def Device.fibre : Device where
  settings := ⟨⟨1000, 1, 3, 1, 0, 0, 0⟩, 0, 0, 0⟩
  pause := ⟨false, false, false⟩
  coalesce := .zero
  drvinfo := .zero
  feature := fun _ => false
  ethFlags := 0
  carrier := true
  operational := true
  flags := 0
  mtu := 1500
  txqlen := 1000

def eth0Name : List Byte := [0x65, 0x74, 0x68, 0x30]

def oneDevice (d : Device) : Devices where
  names := [eth0Name]
  device := fun _ => d
  length_lt := by simp [eth0Name, ifnamsiz]
  colon_notMem := by simp [eth0Name, colon]

end Interface
