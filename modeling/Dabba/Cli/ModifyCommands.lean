import Dabba.Cli.Modify
import Dabba.Dabbad.InterfaceCoalesce
import Dabba.Dabbad.InterfaceStatus
import Dabba.Dabbad.InterfaceOffload
import Dabba.Dabbad.InterfaceCapabilities
import Dabba.Dabbad.SettingsReadBack

/-!
# Modifying status, pause, offload, settings, coalescing and capabilities

The option tables of the commands, the texts that are values of their fields, and the
messages that they fill.
-/

namespace Cli

open Posix Stdio Last Dabbad

/-- The value of a field: a truth value or a number. -/
inductive ModifyValue
  | flag (b : Bool)
  | word (v : BitVec 32)
deriving DecidableEq

def ModifyValue.toFlag : ModifyValue → Option Bool
  | .flag b => some b
  | .word _ => none

theorem bind_toFlag (o : Option Bool) : (o.map ModifyValue.flag).bind ModifyValue.toFlag = o := by
  cases o <;> rfl

/-- Parses a speed; nothing stands for `EINVAL`. -/
def str2speed (str : List Byte) : Option (BitVec 32) :=
  if str = text "10" then some 10
  else if str = text "100" then some 100
  else if str = text "1000" then some 1000
  else if str = text "2500" then some 2500
  else if str = text "10000" then some 10000
  else none

theorem str2speed_ne_zero {str : List Byte} {v : BitVec 32} (h : str2speed str = some v) :
    v ≠ 0#32 := by
  rintro rfl
  unfold str2speed at h
  split_ifs at h <;> cases h

/-- Parses a duplex mode, `DUPLEX_FULL` or `DUPLEX_HALF`; nothing stands for `EINVAL`. -/
def str2duplex (str : List Byte) : Option Bool :=
  if str = text "full" then some true
  else if str = text "half" then some false
  else none

section Status

inductive StatusParam
  | promiscuous
  | up
deriving DecidableEq

/-- The command `dabba interface status modify`. -/
def cmdInterfaceStatusModify : ModifyCommand StatusParam ModifyValue InterfaceStatus where
  options :=
    [⟨"id", .required, .interfaceId⟩,
      ⟨"promiscuous", .required, .setting .promiscuous⟩,
      ⟨"up", .required, .setting .up⟩,
      ⟨"tcp", .optional, .tcp⟩,
      ⟨"local", .optional, .localServer⟩,
      ⟨"help", .no, .help⟩]
  init := ⟨[], none, none, none, none, none⟩
  set status p optarg :=
    match p with
    | .promiscuous => (str2bool optarg).map fun b => { status with promiscuous := some b }
    | .up => (str2bool optarg).map fun b => { status with up := some b }
  value _ optarg := (str2bool optarg).map .flag
  field status p :=
    match p with
    | .promiscuous => status.promiscuous.map .flag
    | .up => status.up.map .flag
  field_init p := by cases p <;> rfl
  set_eq_none {status p str} h := by cases p <;> simpa using h
  field_set {status status' p str} h := by
    cases p <;> obtain ⟨b, hb, rfl⟩ := Option.map_eq_some_iff.1 h <;>
      exact ⟨by rw [hb]; rfl, fun q => by cases q <;> simp [hb]⟩

end Status

section Pause

inductive PauseParam
  | rx
  | tx
  | autoneg
deriving DecidableEq

/-- The command `dabba interface pause modify`. -/
def cmdInterfacePauseModify : ModifyCommand PauseParam ModifyValue InterfacePause where
  options :=
    [⟨"id", .required, .interfaceId⟩,
      ⟨"rx", .required, .setting .rx⟩,
      ⟨"tx", .required, .setting .tx⟩,
      ⟨"autoneg", .required, .setting .autoneg⟩,
      ⟨"tcp", .optional, .tcp⟩,
      ⟨"local", .optional, .localServer⟩,
      ⟨"help", .no, .help⟩]
  init := ⟨[], none, none, none⟩
  set pause p optarg :=
    match p with
    | .rx => (str2bool optarg).map fun b => { pause with rxPause := some b }
    | .tx => (str2bool optarg).map fun b => { pause with txPause := some b }
    | .autoneg => (str2bool optarg).map fun b => { pause with autoneg := some b }
  value _ optarg := (str2bool optarg).map .flag
  field pause p :=
    match p with
    | .rx => pause.rxPause.map .flag
    | .tx => pause.txPause.map .flag
    | .autoneg => pause.autoneg.map .flag
  field_init p := by cases p <;> rfl
  set_eq_none {pause p str} h := by cases p <;> simpa using h
  field_set {pause pause' p str} h := by
    cases p <;> obtain ⟨b, hb, rfl⟩ := Option.map_eq_some_iff.1 h <;>
      exact ⟨by rw [hb]; rfl, fun q => by cases q <;> simp [hb]⟩

end Pause

section Offload

inductive OffloadParam
  | rxCsum
  | txCsum
  | sg
  | tso
  | ufo
  | gso
  | gro
  | lro
  | rxhash
deriving DecidableEq

/-- The command `dabba interface offload modify`. -/
def cmdInterfaceOffloadModify : ModifyCommand OffloadParam ModifyValue InterfaceOffload where
  options :=
    [⟨"rx-csum", .required, .setting .rxCsum⟩,
      ⟨"tx-csum", .required, .setting .txCsum⟩,
      ⟨"sg", .required, .setting .sg⟩,
      ⟨"tso", .required, .setting .tso⟩,
      ⟨"ufo", .required, .setting .ufo⟩,
      ⟨"gso", .required, .setting .gso⟩,
      ⟨"gro", .required, .setting .gro⟩,
      ⟨"lro", .required, .setting .lro⟩,
      ⟨"rx-hash", .required, .setting .rxhash⟩,
      ⟨"id", .required, .interfaceId⟩,
      ⟨"tcp", .optional, .tcp⟩,
      ⟨"local", .optional, .localServer⟩,
      ⟨"help", .no, .help⟩]
  init := ⟨[], none, none, none, none, none, none, none, none, none⟩
  set offload p optarg :=
    match p with
    | .rxCsum => (str2bool optarg).map fun b => { offload with rxCsum := some b }
    | .txCsum => (str2bool optarg).map fun b => { offload with txCsum := some b }
    | .sg => (str2bool optarg).map fun b => { offload with sg := some b }
    | .tso => (str2bool optarg).map fun b => { offload with tso := some b }
    | .ufo => (str2bool optarg).map fun b => { offload with ufo := some b }
    | .gso => (str2bool optarg).map fun b => { offload with gso := some b }
    | .gro => (str2bool optarg).map fun b => { offload with gro := some b }
    | .lro => (str2bool optarg).map fun b => { offload with lro := some b }
    | .rxhash => (str2bool optarg).map fun b => { offload with rxhash := some b }
  value _ optarg := (str2bool optarg).map .flag
  field offload p :=
    match p with
    | .rxCsum => offload.rxCsum.map .flag
    | .txCsum => offload.txCsum.map .flag
    | .sg => offload.sg.map .flag
    | .tso => offload.tso.map .flag
    | .ufo => offload.ufo.map .flag
    | .gso => offload.gso.map .flag
    | .gro => offload.gro.map .flag
    | .lro => offload.lro.map .flag
    | .rxhash => offload.rxhash.map .flag
  field_init p := by cases p <;> rfl
  set_eq_none {offload p str} h := by cases p <;> simpa using h
  field_set {offload offload' p str} h := by
    cases p <;> obtain ⟨b, hb, rfl⟩ := Option.map_eq_some_iff.1 h <;>
      exact ⟨by rw [hb]; rfl, fun q => by cases q <;> simp [hb]⟩

end Offload

section Settings

inductive SettingsParam
  | speed
  | duplex
  | autoneg
  | mtu
  | txqlen
deriving DecidableEq

/-- The command `dabba interface settings modify`. -/
def cmdInterfaceSettingsModify : ModifyCommand SettingsParam ModifyValue InterfaceSettings where
  options :=
    [⟨"speed", .required, .setting .speed⟩,
      ⟨"duplex", .required, .setting .duplex⟩,
      ⟨"autoneg", .required, .setting .autoneg⟩,
      ⟨"mtu", .required, .setting .mtu⟩,
      ⟨"txqlen", .required, .setting .txqlen⟩,
      ⟨"id", .required, .interfaceId⟩,
      ⟨"tcp", .optional, .tcp⟩,
      ⟨"local", .optional, .localServer⟩,
      ⟨"help", .no, .help⟩]
  init := ⟨[], none, none, none, none, none, none, none, none⟩
  set settings p optarg :=
    match p with
    | .speed => (str2speed optarg).map fun v => { settings with speed := some v }
    | .duplex => (str2duplex optarg).map fun b => { settings with duplex := some b }
    | .autoneg => (str2bool optarg).map fun b => { settings with autoneg := some b }
    | .mtu => some { settings with mtu := some (strtoulTen optarg) }
    | .txqlen => some { settings with txQlen := some (strtoulTen optarg) }
  value p optarg :=
    match p with
    | .speed => (str2speed optarg).map .word
    | .duplex => (str2duplex optarg).map .flag
    | .autoneg => (str2bool optarg).map .flag
    | .mtu => some (.word (strtoulTen optarg))
    | .txqlen => some (.word (strtoulTen optarg))
  field settings p :=
    match p with
    | .speed => settings.speed.map .word
    | .duplex => settings.duplex.map .flag
    | .autoneg => settings.autoneg.map .flag
    | .mtu => settings.mtu.map .word
    | .txqlen => settings.txQlen.map .word
  field_init p := by cases p <;> rfl
  set_eq_none {settings p str} h := by
    cases p with
    | mtu => cases h
    | txqlen => cases h
    | _ => simpa using h
  field_set {settings settings' p str} h := by
    cases p with
    | mtu =>
        obtain rfl := Option.some.inj h
        exact ⟨rfl, fun q => by cases q <;> simp⟩
    | txqlen =>
        obtain rfl := Option.some.inj h
        exact ⟨rfl, fun q => by cases q <;> simp⟩
    | _ =>
        obtain ⟨b, hb, rfl⟩ := Option.map_eq_some_iff.1 h
        exact ⟨by simp [hb], fun q => by cases q <;> simp [hb]⟩

end Settings

section Coalesce

inductive CoalesceParam
  | adaptiveRx
  | adaptiveTx
  | rxUsecs
  | rxUsecsIrq
  | rxUsecsLow
  | rxUsecsHigh
  | rxFrames
  | rxFramesIrq
  | rxFramesLow
  | rxFramesHigh
  | txUsecs
  | txUsecsIrq
  | txUsecsLow
  | txUsecsHigh
  | txFrames
  | txFramesIrq
  | txFramesLow
  | txFramesHigh
  | packetRateLow
  | packetRateHigh
  | statsBlock
  | sampleInterval
deriving DecidableEq

/-- The command `dabba interface coalesce modify`. The option for the statistics block is in
the table, and has no case in the switch. -/
def cmdInterfaceCoalesceModify : ModifyCommand CoalesceParam ModifyValue InterfaceCoalesce where
  options :=
    [⟨"adaptive-rx", .required, .setting .adaptiveRx⟩,
      ⟨"adaptive-tx", .required, .setting .adaptiveTx⟩,
      ⟨"rx-usecs", .required, .setting .rxUsecs⟩,
      ⟨"rx-usecs-irq", .required, .setting .rxUsecsIrq⟩,
      ⟨"rx-usecs-low", .required, .setting .rxUsecsLow⟩,
      ⟨"rx-usecs-high", .required, .setting .rxUsecsHigh⟩,
      ⟨"rx-frames", .required, .setting .rxFrames⟩,
      ⟨"rx-frames-irq", .required, .setting .rxFramesIrq⟩,
      ⟨"rx-frames-low", .required, .setting .rxFramesLow⟩,
      ⟨"rx-frames-high", .required, .setting .rxFramesHigh⟩,
      ⟨"tx-usecs", .required, .setting .txUsecs⟩,
      ⟨"tx-usecs-irq", .required, .setting .txUsecsIrq⟩,
      ⟨"tx-usecs-low", .required, .setting .txUsecsLow⟩,
      ⟨"tx-usecs-high", .required, .setting .txUsecsHigh⟩,
      ⟨"tx-frames", .required, .setting .txFrames⟩,
      ⟨"tx-frames-irq", .required, .setting .txFramesIrq⟩,
      ⟨"tx-frames-low", .required, .setting .txFramesLow⟩,
      ⟨"tx-frames-high", .required, .setting .txFramesHigh⟩,
      ⟨"pkt-rate-low", .required, .setting .packetRateLow⟩,
      ⟨"pkt-rate-high", .required, .setting .packetRateHigh⟩,
      ⟨"stats-block-usecs", .required, .setting .statsBlock⟩,
      ⟨"sample-interval", .required, .setting .sampleInterval⟩,
      ⟨"id", .required, .interfaceId⟩,
      ⟨"tcp", .optional, .tcp⟩,
      ⟨"local", .optional, .localServer⟩,
      ⟨"help", .no, .help⟩]
  handles p := p ≠ .statsBlock
  init := ⟨[], none, none, none, none, none, none, none, none, none, none, none, none, none, none,
    none, none, none, none, none, none, none, none⟩
  set coalesce p optarg :=
    match p with
    | .adaptiveRx =>
        (str2bool optarg).map fun b => { coalesce with useAdaptiveRxCoalesce := some b }
    | .adaptiveTx =>
        (str2bool optarg).map fun b => { coalesce with useAdaptiveTxCoalesce := some b }
    | .rxUsecs => some { coalesce with rxCoalesceUsecs := some (strtoulTen optarg) }
    | .rxUsecsIrq => some { coalesce with rxCoalesceUsecsIrq := some (strtoulTen optarg) }
    | .rxUsecsLow => some { coalesce with rxCoalesceUsecsLow := some (strtoulTen optarg) }
    | .rxUsecsHigh => some { coalesce with rxCoalesceUsecsHigh := some (strtoulTen optarg) }
    | .rxFrames => some { coalesce with rxMaxCoalescedFrames := some (strtoulTen optarg) }
    | .rxFramesIrq => some { coalesce with rxMaxCoalescedFramesIrq := some (strtoulTen optarg) }
    | .rxFramesLow => some { coalesce with rxMaxCoalescedFramesLow := some (strtoulTen optarg) }
    | .rxFramesHigh => some { coalesce with rxMaxCoalescedFramesHigh := some (strtoulTen optarg) }
    | .txUsecs => some { coalesce with txCoalesceUsecs := some (strtoulTen optarg) }
    | .txUsecsIrq => some { coalesce with txCoalesceUsecsIrq := some (strtoulTen optarg) }
    | .txUsecsLow => some { coalesce with txCoalesceUsecsLow := some (strtoulTen optarg) }
    | .txUsecsHigh => some { coalesce with txCoalesceUsecsHigh := some (strtoulTen optarg) }
    | .txFrames => some { coalesce with txMaxCoalescedFrames := some (strtoulTen optarg) }
    | .txFramesIrq => some { coalesce with txMaxCoalescedFramesIrq := some (strtoulTen optarg) }
    | .txFramesLow => some { coalesce with txMaxCoalescedFramesLow := some (strtoulTen optarg) }
    | .txFramesHigh => some { coalesce with txMaxCoalescedFramesHigh := some (strtoulTen optarg) }
    | .packetRateLow => some { coalesce with pktRateLow := some (strtoulTen optarg) }
    | .packetRateHigh => some { coalesce with pktRateHigh := some (strtoulTen optarg) }
    | .statsBlock => none
    | .sampleInterval => some { coalesce with rateSampleInterval := some (strtoulTen optarg) }
  value p optarg :=
    match p with
    | .adaptiveRx => (str2bool optarg).map .flag
    | .adaptiveTx => (str2bool optarg).map .flag
    | .statsBlock => none
    | _ => some (.word (strtoulTen optarg))
  field coalesce p :=
    match p with
    | .adaptiveRx => coalesce.useAdaptiveRxCoalesce.map .flag
    | .adaptiveTx => coalesce.useAdaptiveTxCoalesce.map .flag
    | .rxUsecs => coalesce.rxCoalesceUsecs.map .word
    | .rxUsecsIrq => coalesce.rxCoalesceUsecsIrq.map .word
    | .rxUsecsLow => coalesce.rxCoalesceUsecsLow.map .word
    | .rxUsecsHigh => coalesce.rxCoalesceUsecsHigh.map .word
    | .rxFrames => coalesce.rxMaxCoalescedFrames.map .word
    | .rxFramesIrq => coalesce.rxMaxCoalescedFramesIrq.map .word
    | .rxFramesLow => coalesce.rxMaxCoalescedFramesLow.map .word
    | .rxFramesHigh => coalesce.rxMaxCoalescedFramesHigh.map .word
    | .txUsecs => coalesce.txCoalesceUsecs.map .word
    | .txUsecsIrq => coalesce.txCoalesceUsecsIrq.map .word
    | .txUsecsLow => coalesce.txCoalesceUsecsLow.map .word
    | .txUsecsHigh => coalesce.txCoalesceUsecsHigh.map .word
    | .txFrames => coalesce.txMaxCoalescedFrames.map .word
    | .txFramesIrq => coalesce.txMaxCoalescedFramesIrq.map .word
    | .txFramesLow => coalesce.txMaxCoalescedFramesLow.map .word
    | .txFramesHigh => coalesce.txMaxCoalescedFramesHigh.map .word
    | .packetRateLow => coalesce.pktRateLow.map .word
    | .packetRateHigh => coalesce.pktRateHigh.map .word
    | .statsBlock => coalesce.statsBlockCoalesceUsecs.map .word
    | .sampleInterval => coalesce.rateSampleInterval.map .word
  field_init p := by cases p <;> rfl
  set_eq_none {coalesce p str} h := by
    cases p with
    | adaptiveRx => simpa using h
    | adaptiveTx => simpa using h
    | statsBlock => rfl
    | _ => cases h
  field_set {coalesce coalesce' p str} h := by
    cases p with
    | adaptiveRx =>
        obtain ⟨b, hb, rfl⟩ := Option.map_eq_some_iff.1 h
        exact ⟨by rw [hb]; rfl, fun q => by cases q <;> simp [hb]⟩
    | adaptiveTx =>
        obtain ⟨b, hb, rfl⟩ := Option.map_eq_some_iff.1 h
        exact ⟨by rw [hb]; rfl, fun q => by cases q <;> simp [hb]⟩
    | statsBlock => cases h
    | _ =>
        obtain rfl := Option.some.inj h
        exact ⟨rfl, fun q => by cases q <;> rfl⟩

end Coalesce

section Capabilities

inductive CapabilitiesParam
  | aui
  | bnc
  | fibre
  | mii
  | tp
  | speed
  | halfDuplex
  | fullDuplex
  | autoneg
  | pause
deriving DecidableEq

/-- What the options of the command fill: the ports of the message, a speed, and the duplex
modes and options that the message will point to. -/
structure CapabilitiesArgs where
  aui : Option Bool
  bnc : Option Bool
  fibre : Option Bool
  mii : Option Bool
  tp : Option Bool
  speed : BitVec 32
  duplexCap : InterfaceDuplexCapabilites
  optCap : InterfaceOptionCapabilites

/-- The option loop of the command `dabba interface capabilities modify`. -/
def capabilitiesOptions : ModifyCommand CapabilitiesParam ModifyValue CapabilitiesArgs where
  options :=
    [⟨"aui", .required, .setting .aui⟩,
      ⟨"bnc", .required, .setting .bnc⟩,
      ⟨"fibre", .required, .setting .fibre⟩,
      ⟨"mii", .required, .setting .mii⟩,
      ⟨"tp", .required, .setting .tp⟩,
      ⟨"speed", .required, .setting .speed⟩,
      ⟨"half-duplex", .required, .setting .halfDuplex⟩,
      ⟨"full-duplex", .required, .setting .fullDuplex⟩,
      ⟨"autoneg", .required, .setting .autoneg⟩,
      ⟨"pause", .required, .setting .pause⟩,
      ⟨"id", .required, .interfaceId⟩,
      ⟨"tcp", .optional, .tcp⟩,
      ⟨"local", .optional, .localServer⟩,
      ⟨"help", .no, .help⟩]
  init := ⟨none, none, none, none, none, 0, ⟨none, none⟩, ⟨none, none⟩⟩
  set args p optarg :=
    match p with
    | .aui => (str2bool optarg).map fun b => { args with aui := some b }
    | .bnc => (str2bool optarg).map fun b => { args with bnc := some b }
    | .fibre => (str2bool optarg).map fun b => { args with fibre := some b }
    | .mii => (str2bool optarg).map fun b => { args with mii := some b }
    | .tp => (str2bool optarg).map fun b => { args with tp := some b }
    | .speed => (str2speed optarg).map fun v => { args with speed := v }
    | .halfDuplex => (str2bool optarg).map fun b =>
        { args with duplexCap := { args.duplexCap with half := some b } }
    | .fullDuplex => (str2bool optarg).map fun b =>
        { args with duplexCap := { args.duplexCap with full := some b } }
    | .autoneg => (str2bool optarg).map fun b =>
        { args with optCap := { args.optCap with autoneg := some b } }
    | .pause => (str2bool optarg).map fun b =>
        { args with optCap := { args.optCap with pause := some b } }
  value p optarg :=
    match p with
    | .speed => (str2speed optarg).map .word
    | _ => (str2bool optarg).map .flag
  field args p :=
    match p with
    | .aui => args.aui.map .flag
    | .bnc => args.bnc.map .flag
    | .fibre => args.fibre.map .flag
    | .mii => args.mii.map .flag
    | .tp => args.tp.map .flag
    | .speed => if args.speed = 0 then none else some (.word args.speed)
    | .halfDuplex => args.duplexCap.half.map .flag
    | .fullDuplex => args.duplexCap.full.map .flag
    | .autoneg => args.optCap.autoneg.map .flag
    | .pause => args.optCap.pause.map .flag
  field_init p := by cases p <;> rfl
  set_eq_none {args p str} h := by cases p <;> simpa using h
  field_set {args args' p str} h := by
    cases p with
    | speed =>
        obtain ⟨v, hv, rfl⟩ := Option.map_eq_some_iff.1 h
        exact ⟨by simp [hv], fun q => by cases q <;> simp [hv, str2speed_ne_zero hv]⟩
    | _ =>
        obtain ⟨b, hb, rfl⟩ := Option.map_eq_some_iff.1 h
        exact ⟨by simp [hb], fun q => by cases q <;> simp [hb]⟩

/-- The duplex modes stand in the message under the speed, if it is one of four. -/
def speedCap (args : CapabilitiesArgs) : InterfaceSpeedCapabilites where
  ethernet := if args.speed = 10 then some args.duplexCap else none
  fastEthernet := if args.speed = 100 then some args.duplexCap else none
  gbpsEthernet := if args.speed = 1000 then some args.duplexCap else none
  tenGbpsEthernet := if args.speed = 10000 then some args.duplexCap else none

/-- The message behind the loop. -/
def capabilitiesMessage (args : CapabilitiesArgs) : InterfaceCapabilities where
  name := []
  tp := args.tp
  aui := args.aui
  mii := args.mii
  fibre := args.fibre
  bnc := args.bnc
  supportedOpt := none
  advertisingOpt := some args.optCap
  lpAdvertisingOpt := none
  supportedSpeed := none
  advertisingSpeed := some (speedCap args)
  lpAdvertisingSpeed := none

def cmdInterfaceCapabilitiesModify (malloc : ℕ → Bool)
    (connect : AddressType → List Byte → Bool) (argv : List (List Byte)) :
    ℤ × Option (ModifyState InterfaceCapabilities) :=
  let (rc, sent) := capabilitiesOptions.run malloc connect argv
  (rc, sent.map fun s => ⟨capabilitiesMessage s.message, s.id, s.serverType, s.serverId⟩)

section Asked

variable (given : CapabilitiesParam → Option ModifyValue)

def flagAsked (p : CapabilitiesParam) : Option Bool := (given p).bind ModifyValue.toFlag

def duplexAsked (speed : BitVec 32) : Option InterfaceDuplexCapabilites :=
  if given .speed = some (.word speed) then
    some ⟨flagAsked given .halfDuplex, flagAsked given .fullDuplex⟩
  else none

/-- The request for the values that are given to the options. -/
def capabilitiesAsked : InterfaceCapabilities where
  name := []
  tp := flagAsked given .tp
  aui := flagAsked given .aui
  mii := flagAsked given .mii
  fibre := flagAsked given .fibre
  bnc := flagAsked given .bnc
  supportedOpt := none
  advertisingOpt := some ⟨flagAsked given .autoneg, flagAsked given .pause⟩
  lpAdvertisingOpt := none
  supportedSpeed := none
  advertisingSpeed := some ⟨duplexAsked given 10, duplexAsked given 100, duplexAsked given 1000,
    duplexAsked given 10000⟩
  lpAdvertisingSpeed := none

end Asked

/-- The message asks for what the loop has left. -/
theorem capabilitiesMessage_eq (args : CapabilitiesArgs) :
    capabilitiesMessage args = capabilitiesAsked (capabilitiesOptions.field args) := by
  have hflag : ∀ p (o : Option Bool), capabilitiesOptions.field args p = o.map .flag →
      flagAsked (capabilitiesOptions.field args) p = o := by
    intro p o hp
    rw [flagAsked, hp, bind_toFlag]
  have hspeed : ∀ v : BitVec 32, v ≠ 0 →
      (capabilitiesOptions.field args .speed = some (.word v) ↔ args.speed = v) := by
    intro v hv
    change (if args.speed = 0 then none else some (ModifyValue.word args.speed)) =
      some (.word v) ↔ args.speed = v
    split_ifs with hzero
    · refine iff_of_false nofun fun heq => hv ?_
      rw [← heq, hzero]
    · rw [Option.some_inj, ModifyValue.word.injEq]
  have hduplex : ∀ v : BitVec 32, v ≠ 0 →
      duplexAsked (capabilitiesOptions.field args) v =
        if args.speed = v then some args.duplexCap else none := by
    intro v hv
    rw [duplexAsked, hflag .halfDuplex _ rfl, hflag .fullDuplex _ rfl]
    exact if_congr (hspeed v hv) rfl rfl
  rw [capabilitiesAsked, hduplex 10 (by decide), hduplex 100 (by decide),
    hduplex 1000 (by decide), hduplex 10000 (by decide), hflag .tp _ rfl, hflag .aui _ rfl,
    hflag .mii _ rfl, hflag .fibre _ rfl, hflag .bnc _ rfl, hflag .autoneg _ rfl,
    hflag .pause _ rfl]
  rfl

/-- The command ends with the code of the first option that is refused, and then sends
nothing. Otherwise its request asks for the last value given to each option, the duplex modes
at the last speed. -/
def CapabilitiesExact : Prop :=
  ∀ (malloc : ℕ → Bool) (connect : AddressType → List Byte → Bool) (argv : List (List Byte)),
    (∀ rc, capabilitiesOptions.firstRefusal malloc 0
        (getoptAll capabilitiesOptions.options argv) = some rc →
      cmdInterfaceCapabilitiesModify malloc connect argv = (rc, none)) ∧
    (capabilitiesOptions.firstRefusal malloc 0
        (getoptAll capabilitiesOptions.options argv) = none →
      ∃ s : ModifyState InterfaceCapabilities,
        s.message = capabilitiesAsked (fun p =>
          lastOf (capabilitiesOptions.given p) (getoptAll capabilitiesOptions.options argv)) ∧
        s.id = lastOf ModifyCommand.names (getoptAll capabilitiesOptions.options argv) ∧
        (s.serverType, s.serverId) = (lastOf ModifyCommand.server
          (getoptAll capabilitiesOptions.options argv)).getD (.tcp, defaultTcpServerName) ∧
        cmdInterfaceCapabilitiesModify malloc connect argv =
          if connect s.serverType s.serverId = true then (0, some s)
          else ((einval : ℤ), none))

theorem capabilities_exact : CapabilitiesExact := by
  intro malloc connect argv
  obtain ⟨hrefused, hsent⟩ := capabilitiesOptions.exact malloc connect argv
  refine ⟨fun rc h => ?_, fun h => ?_⟩
  · rw [cmdInterfaceCapabilitiesModify, hrefused rc h]
    rfl
  · obtain ⟨s, hfield, hid, hserver, hrun⟩ := hsent h
    refine ⟨⟨capabilitiesMessage s.message, s.id, s.serverType, s.serverId⟩, ?_, hid, hserver, ?_⟩
    · exact (capabilitiesMessage_eq s.message).trans (congrArg capabilitiesAsked (funext hfield))
    · rw [cmdInterfaceCapabilitiesModify, hrun]
      split_ifs <;> rfl

end Capabilities

/-- Each of the commands refuses its first option that is not right, and otherwise requests
the last value of each field. -/
theorem modifyCommands_exact :
    cmdInterfaceStatusModify.Exact ∧ cmdInterfacePauseModify.Exact ∧
      cmdInterfaceOffloadModify.Exact ∧ cmdInterfaceSettingsModify.Exact ∧
      cmdInterfaceCoalesceModify.Exact ∧ CapabilitiesExact :=
  ⟨ModifyCommand.exact _, ModifyCommand.exact _, ModifyCommand.exact _,
    ModifyCommand.exact _, ModifyCommand.exact _, capabilities_exact⟩

end Cli
