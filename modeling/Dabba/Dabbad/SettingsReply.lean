import Dabba.Dabbad.InterfaceSettings
import Dabba.Stdio.Numeral

/-!
# What the reply to a settings request means

A reply of zero does not mean that every value of the request was written. Where a
request has values for both interfaces of the kernel, a failure of the ethtool requests
is hidden by the netlink message that succeeds. A port beyond eight bits is written as
another one.
-/

namespace Dabbad

open Posix Stdio

section Fields

variable (r : InterfaceSettings) (w : List Written)

def SettingWritten {α : Type} (requested : Option α)
    (holds : EthtoolCmd → α → Prop) : Prop :=
  ∀ v, requested = some v → ∃ cmd, .settings r.name cmd ∈ w ∧ holds cmd v

def ChangeWritten (requested : Option (BitVec 32))
    (field : LinkChange → Option (BitVec 32)) : Prop :=
  ∀ v, requested = some v → ∃ change, .link r.name change ∈ w ∧ field change = some v

/-- Every value of the request was written. -/
structure FieldsWritten : Prop where
  speed : SettingWritten r w r.speed fun cmd v => ethtoolCmdSpeed cmd = v
  duplex : SettingWritten r w r.duplex fun cmd v => cmd.duplex = v.toNat
  autoneg : SettingWritten r w r.autoneg fun cmd v => cmd.autoneg = v.toNat
  port : SettingWritten r w r.port fun cmd v => cmd.port.toNat = v.toNat
  maxrxpkt : SettingWritten r w r.maxrxpkt fun cmd v => cmd.maxrxpkt = v
  maxtxpkt : SettingWritten r w r.maxtxpkt fun cmd v => cmd.maxtxpkt = v
  mtu : ChangeWritten r w r.mtu LinkChange.mtu
  txQlen : ChangeWritten r w r.txQlen LinkChange.txqlen

end Fields

variable (r : InterfaceSettings) (o : LinkAnswers) (settings : List Byte → EthtoolCmd)

/-- The port of the request, if there is one, fits the field of eight bits. -/
def PortFits : Prop := ∀ v, r.port = some v → v.toNat < 2 ^ 8

/-- If the reply is zero, every value of the request was written. -/
def ReplyMeansWritten : Prop :=
  ∃ rc s, modifySettings r o settings = some (rc, s) ∧
    (rc = 0 → FieldsWritten r s.written)

theorem mem_settings {name : List Byte} {cmd : EthtoolCmd} :
    .settings name cmd ∈ requestWrites r o settings ↔
      (o.ethtoolGset = 0 ∧ AsksHardware r ∧ o.ethtoolSset = 0) ∧
        name = r.name ∧ cmd = (ethOverlay r (settings r.name)).1 := by
  have hlink : .settings name cmd ∉ linkWrites r o := by
    rw [linkWrites]
    split <;> simp
  rw [requestWrites, List.mem_append, or_iff_left hlink, hardwareWrites]
  split
  case isTrue h => simp [h]
  case isFalse h => exact iff_of_false List.not_mem_nil fun hmem => h hmem.1

theorem mem_link {name : List Byte} {change : LinkChange} :
    .link name change ∈ requestWrites r o settings ↔
      (AsksLink r ∧ o.rtnlLinkChange = 0) ∧
        name = r.name ∧ change = (nlOverlay r).1 := by
  have hhardware : .link name change ∉ hardwareWrites r o settings := by
    rw [hardwareWrites]
    split <;> simp
  rw [requestWrites, List.mem_append, or_iff_right hhardware, linkWrites]
  split
  case isTrue h => simp [h]
  case isFalse h => exact iff_of_false List.not_mem_nil fun hmem => h hmem.1

section

variable {r o settings}

theorem SettingWritten.holds {α : Type} {requested : Option α}
    {holds : EthtoolCmd → α → Prop}
    (h : SettingWritten r (requestWrites r o settings) requested holds)
    {v : α} (hv : requested = some v) :
    (o.ethtoolGset = 0 ∧ o.ethtoolSset = 0) ∧
      holds (ethOverlay r (settings r.name)).1 v := by
  obtain ⟨cmd, hmem, hholds⟩ := h v hv
  obtain ⟨⟨hget, -, hset⟩, -, rfl⟩ := (mem_settings r o settings).1 hmem
  exact ⟨⟨hget, hset⟩, hholds⟩

theorem SettingWritten.calls {α : Type} {requested : Option α}
    {holds : EthtoolCmd → α → Prop}
    (h : SettingWritten r (requestWrites r o settings) requested holds)
    (hsome : requested.isSome) : o.ethtoolGset = 0 ∧ o.ethtoolSset = 0 := by
  obtain ⟨v, hv⟩ := Option.isSome_iff_exists.1 hsome
  exact (h.holds hv).1

theorem ChangeWritten.call {requested : Option (BitVec 32)}
    {field : LinkChange → Option (BitVec 32)}
    (h : ChangeWritten r (requestWrites r o settings) requested field)
    (hsome : requested.isSome) : o.rtnlLinkChange = 0 := by
  obtain ⟨v, hv⟩ := Option.isSome_iff_exists.1 hsome
  obtain ⟨change, hmem, -⟩ := h v hv
  exact ((mem_link r o settings).1 hmem).1.2

end

theorem settingWritten_of {α : Type} {requested : Option α}
    {holds : EthtoolCmd → α → Prop}
    (hasks : requested.isSome → AsksHardware r)
    (hcalls : AsksHardware r → o.ethtoolGset = 0 ∧ o.ethtoolSset = 0)
    (hholds : ∀ v, requested = some v → holds (ethOverlay r (settings r.name)).1 v) :
    SettingWritten r (requestWrites r o settings) requested holds := by
  intro v hv
  have hsome : requested.isSome := by rw [hv, Option.isSome_some]
  obtain ⟨hget, hset⟩ := hcalls (hasks hsome)
  exact ⟨_, (mem_settings r o settings).2 ⟨⟨hget, hasks hsome, hset⟩, rfl, rfl⟩,
    hholds v hv⟩

theorem changeWritten_of {requested : Option (BitVec 32)}
    {field : LinkChange → Option (BitVec 32)} (hasks : requested.isSome → AsksLink r)
    (hcall : AsksLink r → o.rtnlLinkChange = 0)
    (hfield : ∀ v, requested = some v → field (nlOverlay r).1 = some v) :
    ChangeWritten r (requestWrites r o settings) requested field := by
  intro v hv
  have hsome : requested.isSome := by rw [hv, Option.isSome_some]
  exact ⟨_, (mem_link r o settings).2 ⟨⟨hasks hsome, hcall (hasks hsome)⟩, rfl, rfl⟩,
    hfield v hv⟩

/-- Every value was written if and only if the calls that write them succeed and the port
fits. -/
theorem fieldsWritten_iff :
    FieldsWritten r (requestWrites r o settings) ↔
      (AsksHardware r → o.ethtoolGset = 0 ∧ o.ethtoolSset = 0 ∧ PortFits r) ∧
        (AsksLink r → o.rtnlLinkChange = 0) := by
  constructor
  · intro h
    refine ⟨fun hasks => ?_, fun hasks => hasks.elim h.mtu.call h.txQlen.call⟩
    have hcalls : o.ethtoolGset = 0 ∧ o.ethtoolSset = 0 := by
      obtain hsome | hsome | hsome | hsome | hsome | hsome := hasks
      · exact h.speed.calls hsome
      · exact h.duplex.calls hsome
      · exact h.autoneg.calls hsome
      · exact h.port.calls hsome
      · exact h.maxrxpkt.calls hsome
      · exact h.maxtxpkt.calls hsome
    refine ⟨hcalls.1, hcalls.2, fun v hv => ?_⟩
    have hlt := (ethOverlay r (settings r.name)).1.port.isLt
    rwa [(h.port.holds hv).2] at hlt
  · rintro ⟨hhardware, hlink⟩
    have hcalls := fun hasks => (⟨(hhardware hasks).1, (hhardware hasks).2.1⟩ :
      o.ethtoolGset = 0 ∧ o.ethtoolSset = 0)
    refine ⟨?_, ?_, ?_, ?_, ?_, ?_, ?_, ?_⟩
    · exact settingWritten_of r o settings .inl hcalls fun v hv => ethOverlay_speed hv _
    · exact settingWritten_of r o settings (fun h => .inr (.inl h)) hcalls
        fun v hv => ethOverlay_duplex hv _
    · exact settingWritten_of r o settings (fun h => .inr (.inr (.inl h))) hcalls
        fun v hv => ethOverlay_autoneg hv _
    · have hasks : r.port.isSome → AsksHardware r := fun h => .inr (.inr (.inr (.inl h)))
      refine settingWritten_of r o settings hasks hcalls fun v hv => ?_
      rw [ethOverlay_port hv, BitVec.toNat_setWidth]
      exact Nat.mod_eq_of_lt
        ((hhardware (hasks (by rw [hv, Option.isSome_some]))).2.2 v hv)
    · exact settingWritten_of r o settings (fun h => .inr (.inr (.inr (.inr (.inl h)))))
        hcalls fun v hv => ethOverlay_maxrxpkt hv _
    · exact settingWritten_of r o settings (fun h => .inr (.inr (.inr (.inr (.inr h)))))
        hcalls fun v hv => ethOverlay_maxtxpkt hv _
    · exact changeWritten_of r o settings .inl hlink fun v hv => nlOverlay_mtu hv
    · exact changeWritten_of r o settings .inr hlink fun v hv => nlOverlay_txQlen hv

theorem replyCode_eq_zero_iff :
    replyCode r o = 0 ↔ (AsksLink r → o.rtnlLinkChange = 0) ∧
      (¬ AsksLink r → o.ethtoolGset = 0 ∧ (AsksHardware r → o.ethtoolSset = 0)) := by
  by_cases hlink : AsksLink r
  · simp [replyCode, hlink]
  · by_cases hget : o.ethtoolGset = 0#32
    · by_cases hhardware : AsksHardware r
      · simp [replyCode, hlink, hget, hhardware]
      · simp [replyCode, hlink, hget, hhardware]
    · simp [replyCode, hlink, hget]

theorem replyMeansWritten_of_found (hfound : Found r o) :
    ReplyMeansWritten r o settings ↔
      (replyCode r o = 0 → FieldsWritten r (requestWrites r o settings)) := by
  obtain ⟨s, hrun, hwritten⟩ := modifySettings_of_found r o settings hfound
  rw [ReplyMeansWritten, hrun, ← hwritten]
  constructor
  · rintro ⟨rc, s', heq, hwrites⟩
    cases heq
    exact hwrites
  · exact fun h => ⟨_, _, rfl, h⟩

/-- A reply of zero means that every value was written if and only if the interface is
not found, the call that decides the reply fails, or the hardware settings are fetched
and written with a port that fits. -/
theorem replyMeansWritten_iff :
    ReplyMeansWritten r o settings ↔
      ¬ Found r o ∨ (AsksLink r ∧ o.rtnlLinkChange ≠ 0) ∨
        (¬ AsksLink r ∧ (o.ethtoolGset ≠ 0 ∨ AsksHardware r ∧ o.ethtoolSset ≠ 0)) ∨
        (AsksHardware r → o.ethtoolGset = 0 ∧ o.ethtoolSset = 0 ∧ PortFits r) := by
  by_cases hfound : Found r o
  · rw [replyMeansWritten_of_found r o settings hfound, replyCode_eq_zero_iff,
      fieldsWritten_iff]
    tauto
  · obtain ⟨rc, s, hrun, hrc⟩ := modifySettings_of_not_found r o settings hfound
    exact iff_of_true ⟨rc, s, hrun, fun h => absurd h hrc⟩ (.inl hfound)

/-- A request for a speed and an MTU. -/
def speedAndMtu : InterfaceSettings where
  name := "wlan0".toList.map ascii
  speed := some 1000
  duplex := none
  autoneg := none
  mtu := some 1400
  txQlen := none
  port := none
  maxrxpkt := none
  maxtxpkt := none

def highPort : InterfaceSettings :=
  { speedAndMtu with speed := none, mtu := none, port := some 256 }

/-- An interface without ethtool: the requests fail with `EOPNOTSUPP`. -/
def withoutEthtool : LinkAnswers := ⟨true, true, true, 95, 95, 0⟩

def withEthtool : LinkAnswers := ⟨true, true, true, 0, 0, 0⟩

/-- The speed is not written, and the port 256 is written as 0; both replies are zero. -/
theorem not_replyMeansWritten_speedAndMtu :
    ¬ ReplyMeansWritten speedAndMtu withoutEthtool (fun _ => ⟨0, 0, 0, 0, 0, 0, 0⟩) ∧
      ¬ ReplyMeansWritten highPort withEthtool (fun _ => ⟨0, 0, 0, 0, 0, 0, 0⟩) := by
  have hfoundWlan : Found speedAndMtu withoutEthtool := ⟨rfl, rfl, rfl, by decide⟩
  have hfound : Found highPort withEthtool := ⟨rfl, rfl, rfl, by decide⟩
  rw [replyMeansWritten_of_found _ _ _ hfoundWlan,
    replyMeansWritten_of_found _ _ _ hfound, fieldsWritten_iff, fieldsWritten_iff]
  constructor
  · intro h
    have hhardware := (h (by decide)).1 (by decide)
    exact absurd hhardware.1 (by decide)
  · intro h
    have hhardware := (h (by decide)).1 (by decide)
    exact absurd (hhardware.2.2 256 rfl) (by decide)

end Dabbad
