import Dabba.Dabbad.InterfaceGet

/-!
# Coalescing parameters

A request to modify them fetches all of them from the device, replaces those it names,
and writes them back if there were any. The get handler reports each of them under its
name.
-/

namespace Dabbad

open Posix Program Interface

/-- A request to modify the coalescing parameters, an `interface_coalesce` message. -/
structure InterfaceCoalesce where
  name : List Byte
  pktRateHigh : Option (BitVec 32)
  pktRateLow : Option (BitVec 32)
  rateSampleInterval : Option (BitVec 32)
  statsBlockCoalesceUsecs : Option (BitVec 32)
  useAdaptiveRxCoalesce : Option Bool
  rxCoalesceUsecs : Option (BitVec 32)
  rxCoalesceUsecsIrq : Option (BitVec 32)
  rxCoalesceUsecsHigh : Option (BitVec 32)
  rxCoalesceUsecsLow : Option (BitVec 32)
  rxMaxCoalescedFrames : Option (BitVec 32)
  rxMaxCoalescedFramesIrq : Option (BitVec 32)
  rxMaxCoalescedFramesHigh : Option (BitVec 32)
  rxMaxCoalescedFramesLow : Option (BitVec 32)
  useAdaptiveTxCoalesce : Option Bool
  txCoalesceUsecs : Option (BitVec 32)
  txCoalesceUsecsIrq : Option (BitVec 32)
  txCoalesceUsecsHigh : Option (BitVec 32)
  txCoalesceUsecsLow : Option (BitVec 32)
  txMaxCoalescedFrames : Option (BitVec 32)
  txMaxCoalescedFramesIrq : Option (BitVec 32)
  txMaxCoalescedFramesHigh : Option (BitVec 32)
  txMaxCoalescedFramesLow : Option (BitVec 32)

/-- The parameters with those of the request, and whether there were any. -/
def coalesceOverlay (coalescep : InterfaceCoalesce) (ethCoalesce : EthtoolCoalesce) :
    EthtoolCoalesce × Bool :=
  let s := (ethCoalesce, false)
  let s := overlay coalescep.pktRateHigh (fun c v => { c with pktRateHigh := v }) s
  let s := overlay coalescep.pktRateLow (fun c v => { c with pktRateLow := v }) s
  -- The source has this block twice.
  let s := overlay coalescep.pktRateLow (fun c v => { c with pktRateLow := v }) s
  let s := overlay coalescep.rateSampleInterval
    (fun c v => { c with rateSampleInterval := v }) s
  let s := overlay coalescep.statsBlockCoalesceUsecs
    (fun c v => { c with statsBlockCoalesceUsecs := v }) s
  let s := overlay coalescep.useAdaptiveRxCoalesce
    (fun c v => { c with useAdaptiveRxCoalesce := v }) s
  let s := overlay coalescep.rxCoalesceUsecs
    (fun c v => { c with rxCoalesceUsecs := v }) s
  let s := overlay coalescep.rxCoalesceUsecsIrq
    (fun c v => { c with rxCoalesceUsecsIrq := v }) s
  let s := overlay coalescep.rxCoalesceUsecsHigh
    (fun c v => { c with rxCoalesceUsecsHigh := v }) s
  let s := overlay coalescep.rxCoalesceUsecsLow
    (fun c v => { c with rxCoalesceUsecsLow := v }) s
  let s := overlay coalescep.rxMaxCoalescedFrames
    (fun c v => { c with rxMaxCoalescedFrames := v }) s
  let s := overlay coalescep.rxMaxCoalescedFramesIrq
    (fun c v => { c with rxMaxCoalescedFramesIrq := v }) s
  let s := overlay coalescep.rxMaxCoalescedFramesHigh
    (fun c v => { c with rxMaxCoalescedFramesHigh := v }) s
  let s := overlay coalescep.rxMaxCoalescedFramesLow
    (fun c v => { c with rxMaxCoalescedFramesLow := v }) s
  let s := overlay coalescep.useAdaptiveTxCoalesce
    (fun c v => { c with useAdaptiveTxCoalesce := v }) s
  let s := overlay coalescep.txCoalesceUsecs
    (fun c v => { c with txCoalesceUsecs := v }) s
  let s := overlay coalescep.txCoalesceUsecsIrq
    (fun c v => { c with txCoalesceUsecsIrq := v }) s
  let s := overlay coalescep.txCoalesceUsecsHigh
    (fun c v => { c with txCoalesceUsecsHigh := v }) s
  let s := overlay coalescep.txCoalesceUsecsLow
    (fun c v => { c with txCoalesceUsecsLow := v }) s
  let s := overlay coalescep.txMaxCoalescedFrames
    (fun c v => { c with txMaxCoalescedFrames := v }) s
  let s := overlay coalescep.txMaxCoalescedFramesIrq
    (fun c v => { c with txMaxCoalescedFramesIrq := v }) s
  let s := overlay coalescep.txMaxCoalescedFramesHigh
    (fun c v => { c with txMaxCoalescedFramesHigh := v }) s
  overlay coalescep.txMaxCoalescedFramesLow
    (fun c v => { c with txMaxCoalescedFramesLow := v }) s

/-- Modifies the coalescing parameters of a device; the result is the code of the
reply. -/
def dabbadInterfaceCoalesceModify (coalescep : InterfaceCoalesce) :
    Prog DevCall (BitVec 32) := do
  let (rc, ethCoalesce) ← ldabDevCoalesceGet coalescep.name
  if rc ≠ 0 then
    return rc
  else
    let (ethCoalesce, apply) := coalesceOverlay coalescep ethCoalesce
    if apply = true then
      ldabDevCoalesceSet coalescep.name ethCoalesce
    else
      return rc

/-- The parameters of an interface, with the error number of the request for them. -/
structure CoalesceEntry where
  status : BitVec 32
  coalesce : InterfaceCoalesce

/-- The entry of a link: every parameter is reported. -/
def fillCoalesce (link : RtnlLink) : Prog DevCall CoalesceEntry := do
  let (rc, coalesce) ← ldabDevCoalesceGet link.name
  return {
    status := rc
    coalesce := {
      name := link.name
      pktRateHigh := some coalesce.pktRateHigh
      pktRateLow := some coalesce.pktRateLow
      rateSampleInterval := some coalesce.rateSampleInterval
      statsBlockCoalesceUsecs := some coalesce.statsBlockCoalesceUsecs
      useAdaptiveRxCoalesce := some coalesce.useAdaptiveRxCoalesce
      rxCoalesceUsecs := some coalesce.rxCoalesceUsecs
      rxCoalesceUsecsIrq := some coalesce.rxCoalesceUsecsIrq
      rxCoalesceUsecsHigh := some coalesce.rxCoalesceUsecsHigh
      rxCoalesceUsecsLow := some coalesce.rxCoalesceUsecsLow
      rxMaxCoalescedFrames := some coalesce.rxMaxCoalescedFrames
      rxMaxCoalescedFramesIrq := some coalesce.rxMaxCoalescedFramesIrq
      rxMaxCoalescedFramesHigh := some coalesce.rxMaxCoalescedFramesHigh
      rxMaxCoalescedFramesLow := some coalesce.rxMaxCoalescedFramesLow
      useAdaptiveTxCoalesce := some coalesce.useAdaptiveTxCoalesce
      txCoalesceUsecs := some coalesce.txCoalesceUsecs
      txCoalesceUsecsIrq := some coalesce.txCoalesceUsecsIrq
      txCoalesceUsecsHigh := some coalesce.txCoalesceUsecsHigh
      txCoalesceUsecsLow := some coalesce.txCoalesceUsecsLow
      txMaxCoalescedFrames := some coalesce.txMaxCoalescedFrames
      txMaxCoalescedFramesIrq := some coalesce.txMaxCoalescedFramesIrq
      txMaxCoalescedFramesHigh := some coalesce.txMaxCoalescedFramesHigh
      txMaxCoalescedFramesLow := some coalesce.txMaxCoalescedFramesLow } }

def dabbadInterfaceCoalesceGet (idList : List (List Byte)) :
    Prog DevCall (Option (List CoalesceEntry)) :=
  interfaceGet fillCoalesce idList

/-- The parameters that a request asks for, on top of those of the device. -/
def coalesceAsked (r : InterfaceCoalesce) (c : EthtoolCoalesce) : EthtoolCoalesce where
  pktRateHigh := r.pktRateHigh.getD c.pktRateHigh
  pktRateLow := r.pktRateLow.getD c.pktRateLow
  rateSampleInterval := r.rateSampleInterval.getD c.rateSampleInterval
  statsBlockCoalesceUsecs := r.statsBlockCoalesceUsecs.getD c.statsBlockCoalesceUsecs
  useAdaptiveRxCoalesce := r.useAdaptiveRxCoalesce.getD c.useAdaptiveRxCoalesce
  rxCoalesceUsecs := r.rxCoalesceUsecs.getD c.rxCoalesceUsecs
  rxCoalesceUsecsIrq := r.rxCoalesceUsecsIrq.getD c.rxCoalesceUsecsIrq
  rxCoalesceUsecsHigh := r.rxCoalesceUsecsHigh.getD c.rxCoalesceUsecsHigh
  rxCoalesceUsecsLow := r.rxCoalesceUsecsLow.getD c.rxCoalesceUsecsLow
  rxMaxCoalescedFrames := r.rxMaxCoalescedFrames.getD c.rxMaxCoalescedFrames
  rxMaxCoalescedFramesIrq := r.rxMaxCoalescedFramesIrq.getD c.rxMaxCoalescedFramesIrq
  rxMaxCoalescedFramesHigh := r.rxMaxCoalescedFramesHigh.getD c.rxMaxCoalescedFramesHigh
  rxMaxCoalescedFramesLow := r.rxMaxCoalescedFramesLow.getD c.rxMaxCoalescedFramesLow
  useAdaptiveTxCoalesce := r.useAdaptiveTxCoalesce.getD c.useAdaptiveTxCoalesce
  txCoalesceUsecs := r.txCoalesceUsecs.getD c.txCoalesceUsecs
  txCoalesceUsecsIrq := r.txCoalesceUsecsIrq.getD c.txCoalesceUsecsIrq
  txCoalesceUsecsHigh := r.txCoalesceUsecsHigh.getD c.txCoalesceUsecsHigh
  txCoalesceUsecsLow := r.txCoalesceUsecsLow.getD c.txCoalesceUsecsLow
  txMaxCoalescedFrames := r.txMaxCoalescedFrames.getD c.txMaxCoalescedFrames
  txMaxCoalescedFramesIrq := r.txMaxCoalescedFramesIrq.getD c.txMaxCoalescedFramesIrq
  txMaxCoalescedFramesHigh := r.txMaxCoalescedFramesHigh.getD c.txMaxCoalescedFramesHigh
  txMaxCoalescedFramesLow := r.txMaxCoalescedFramesLow.getD c.txMaxCoalescedFramesLow

theorem coalesceOverlay_fst (r : InterfaceCoalesce) (c : EthtoolCoalesce) :
    (coalesceOverlay r c).1 = coalesceAsked r c := by
  ext1 <;> simp (disch := exact fun _ _ => rfl) only [coalesceOverlay, coalesceAsked,
    overlay_frame EthtoolCoalesce.pktRateHigh, overlay_field EthtoolCoalesce.pktRateHigh,
    overlay_frame EthtoolCoalesce.pktRateLow, overlay_field EthtoolCoalesce.pktRateLow,
    overlay_frame EthtoolCoalesce.rateSampleInterval,
    overlay_field EthtoolCoalesce.rateSampleInterval,
    overlay_frame EthtoolCoalesce.statsBlockCoalesceUsecs,
    overlay_field EthtoolCoalesce.statsBlockCoalesceUsecs,
    overlay_frame EthtoolCoalesce.useAdaptiveRxCoalesce,
    overlay_field EthtoolCoalesce.useAdaptiveRxCoalesce,
    overlay_frame EthtoolCoalesce.rxCoalesceUsecs,
    overlay_field EthtoolCoalesce.rxCoalesceUsecs,
    overlay_frame EthtoolCoalesce.rxCoalesceUsecsIrq,
    overlay_field EthtoolCoalesce.rxCoalesceUsecsIrq,
    overlay_frame EthtoolCoalesce.rxCoalesceUsecsHigh,
    overlay_field EthtoolCoalesce.rxCoalesceUsecsHigh,
    overlay_frame EthtoolCoalesce.rxCoalesceUsecsLow,
    overlay_field EthtoolCoalesce.rxCoalesceUsecsLow,
    overlay_frame EthtoolCoalesce.rxMaxCoalescedFrames,
    overlay_field EthtoolCoalesce.rxMaxCoalescedFrames,
    overlay_frame EthtoolCoalesce.rxMaxCoalescedFramesIrq,
    overlay_field EthtoolCoalesce.rxMaxCoalescedFramesIrq,
    overlay_frame EthtoolCoalesce.rxMaxCoalescedFramesHigh,
    overlay_field EthtoolCoalesce.rxMaxCoalescedFramesHigh,
    overlay_frame EthtoolCoalesce.rxMaxCoalescedFramesLow,
    overlay_field EthtoolCoalesce.rxMaxCoalescedFramesLow,
    overlay_frame EthtoolCoalesce.useAdaptiveTxCoalesce,
    overlay_field EthtoolCoalesce.useAdaptiveTxCoalesce,
    overlay_frame EthtoolCoalesce.txCoalesceUsecs,
    overlay_field EthtoolCoalesce.txCoalesceUsecs,
    overlay_frame EthtoolCoalesce.txCoalesceUsecsIrq,
    overlay_field EthtoolCoalesce.txCoalesceUsecsIrq,
    overlay_frame EthtoolCoalesce.txCoalesceUsecsHigh,
    overlay_field EthtoolCoalesce.txCoalesceUsecsHigh,
    overlay_frame EthtoolCoalesce.txCoalesceUsecsLow,
    overlay_field EthtoolCoalesce.txCoalesceUsecsLow,
    overlay_frame EthtoolCoalesce.txMaxCoalescedFrames,
    overlay_field EthtoolCoalesce.txMaxCoalescedFrames,
    overlay_frame EthtoolCoalesce.txMaxCoalescedFramesIrq,
    overlay_field EthtoolCoalesce.txMaxCoalescedFramesIrq,
    overlay_frame EthtoolCoalesce.txMaxCoalescedFramesHigh,
    overlay_field EthtoolCoalesce.txMaxCoalescedFramesHigh,
    overlay_frame EthtoolCoalesce.txMaxCoalescedFramesLow,
    overlay_field EthtoolCoalesce.txMaxCoalescedFramesLow]
  cases r.pktRateLow <;> rfl

theorem coalesceAsked_of_not {r : InterfaceCoalesce} {c : EthtoolCoalesce}
    (h : (coalesceOverlay r c).2 = false) : coalesceAsked r c = c := by
  simp only [coalesceOverlay, overlay_snd, Bool.or_eq_false_iff,
    Option.isSome_eq_false_iff, Option.isNone_iff_eq_none] at h
  simp only [coalesceAsked, h, Option.getD_none]

/-- The message that reports the parameters of an interface. -/
def coalesceReported (name : List Byte) (c : EthtoolCoalesce) : InterfaceCoalesce where
  name := name
  pktRateHigh := some c.pktRateHigh
  pktRateLow := some c.pktRateLow
  rateSampleInterval := some c.rateSampleInterval
  statsBlockCoalesceUsecs := some c.statsBlockCoalesceUsecs
  useAdaptiveRxCoalesce := some c.useAdaptiveRxCoalesce
  rxCoalesceUsecs := some c.rxCoalesceUsecs
  rxCoalesceUsecsIrq := some c.rxCoalesceUsecsIrq
  rxCoalesceUsecsHigh := some c.rxCoalesceUsecsHigh
  rxCoalesceUsecsLow := some c.rxCoalesceUsecsLow
  rxMaxCoalescedFrames := some c.rxMaxCoalescedFrames
  rxMaxCoalescedFramesIrq := some c.rxMaxCoalescedFramesIrq
  rxMaxCoalescedFramesHigh := some c.rxMaxCoalescedFramesHigh
  rxMaxCoalescedFramesLow := some c.rxMaxCoalescedFramesLow
  useAdaptiveTxCoalesce := some c.useAdaptiveTxCoalesce
  txCoalesceUsecs := some c.txCoalesceUsecs
  txCoalesceUsecsIrq := some c.txCoalesceUsecsIrq
  txCoalesceUsecsHigh := some c.txCoalesceUsecsHigh
  txCoalesceUsecsLow := some c.txCoalesceUsecsLow
  txMaxCoalescedFrames := some c.txMaxCoalescedFrames
  txMaxCoalescedFramesIrq := some c.txMaxCoalescedFramesIrq
  txMaxCoalescedFramesHigh := some c.txMaxCoalescedFramesHigh
  txMaxCoalescedFramesLow := some c.txMaxCoalescedFramesLow

section Requests

variable (s : Devices) (r : InterfaceCoalesce)

/-- The devices after a request that was carried out: the device that the name of the
request stands for has the parameters asked for. -/
def coalesceModified : Devices :=
  s.set (deviceName r.name) { s.device (deviceName r.name) with
    coalesce := coalesceAsked r (s.device (deviceName r.name)).coalesce }

/-- A request is carried out and answered with zero, or changes nothing. -/
theorem run_coalesceModify (script : ℕ → BitVec 32) :
    ∃ rc s', (dabbadInterfaceCoalesceModify r).run DevCall.handle script s =
        some (rc, s') ∧
      (rc = 0 → s' = coalesceModified s r) ∧ (rc ≠ 0 → s' = s) := by
  simp only [dabbadInterfaceCoalesceModify, ldabDevCoalesceGet, ldabDevCoalesceSet,
    Prog.bind_eq, devStructGet_bind, Prog.run_call, DevCall.handle]
  by_cases hget : script 0 = 0 ∧ deviceName r.name ∈ s.names
  · obtain ⟨hzero, hmem⟩ := hget
    simp only [hzero, BitVec.ofNat_eq_ofNat,
      Devices.request_ifrName _ (r := .gcoalesce) rfl hmem, Request.serve, Option.getD_some,
      ne_eq, not_true_eq_false, if_false, Devices.set_device]
    cases happly : (coalesceOverlay r (s.device (deviceName r.name)).coalesce).2 with
    | false =>
        refine ⟨0, s, by simp [Prog.run], fun _ => ?_, fun h => absurd rfl h⟩
        rw [coalesceModified, coalesceAsked_of_not happly]
        exact (s.set_device _).symm
    | true =>
        rw [if_pos rfl, coalesceOverlay_fst]
        rw [run_devStructSet]
        by_cases hset : script 1 = 0
        · refine ⟨0, _, ?_, fun _ => rfl, fun h => absurd rfl h⟩
          have hserved := Devices.request_ifrName _ (s := s)
            (r := .scoalesce (coalesceAsked r (s.device (deviceName r.name)).coalesce)) rfl hmem
          simp only [hset, BitVec.ofNat_eq_ofNat, hserved]
          rfl
        · obtain ⟨rc, hrc, hrequest⟩ := s.request_of_fail (ifrName r.name)
            (.scoalesce (coalesceAsked r (s.device (deviceName r.name)).coalesce))
            (script 1) (.inl hset)
          exact ⟨rc, s, by simp only [hrequest], fun h => absurd h hrc, fun _ => rfl⟩
  · obtain ⟨rc, hrc, hrequest⟩ :=
      Devices.request_ifrName_of_fail r.name (r := .gcoalesce) rfl (script 0) (by tauto)
    refine ⟨rc, s, ?_, fun h => absurd h hrc, fun _ => rfl⟩
    simp only [hrequest]
    rw [if_pos hrc]
    rfl

end Requests

/-- The get handler reports every parameter of every device under its name. -/
structure CoalesceReported (s : Devices) : Prop where
  complete : ∀ idList, ∃ list,
    (dabbadInterfaceCoalesceGet idList).run DevCall.handle success s =
        some (some list, s) ∧
      ∀ name ∈ s.names, idList = [] ∨ name ∈ idList →
        ⟨0, coalesceReported name (s.device name).coalesce⟩ ∈ list
  right : ∀ idList, (dabbadInterfaceCoalesceGet idList).wp DevCall.anySem
    (fun reply _ => ∀ list, reply = some list → ∀ e ∈ list, e.status = 0 →
      e.coalesce =
        coalesceReported e.coalesce.name (s.device e.coalesce.name).coalesce) s

theorem run_coalesceGet (s : Devices) (idList : List (List Byte)) :
    (dabbadInterfaceCoalesceGet idList).run DevCall.handle success s =
      some (some ((visitedLinks idList s.links).map fun link =>
        ⟨0, coalesceReported link.name (s.device link.name).coalesce⟩), s) := by
  rw [dabbadInterfaceCoalesceGet, run_interfaceGet fun link hlink => ?_]
  obtain ⟨name, hname, rfl⟩ := List.mem_map.1 hlink
  simp [fillCoalesce, ldabDevCoalesceGet, Devices.ifrName_of_mem name hname, Prog.run,
    DevCall.handle, success, Devices.request_zero hname, Request.serve, coalesceReported]

theorem coalesceReported_of_devices (s : Devices) : CoalesceReported s where
  complete idList := by
    refine ⟨_, run_coalesceGet s idList, fun name hname hasked => ?_⟩
    exact mem_map_visitedLinks hname hasked fun link =>
      (⟨0, coalesceReported link.name (s.device link.name).coalesce⟩ : CoalesceEntry)
  right idList := by
    refine Prog.wp_mono _ (wp_interfaceGet fun link hlink => ?_) fun _ _ h => h.1
    obtain ⟨name, hname, rfl⟩ := List.mem_map.1 hlink
    rw [fillCoalesce, ldabDevCoalesceGet, Prog.bind_eq]
    refine wp_devStructGet _ (fun _ => rfl) ?_ fun rc hrc => ?_
    · refine ⟨fun _ => ?_, rfl⟩
      rw [Devices.deviceName_of_mem name hname]
      rfl
    · exact ⟨fun hzero => absurd hzero hrc, rfl⟩

/-- A request answered with zero changes exactly what was asked for, any other changes
nothing, and all parameters are reported afterwards. -/
def CoalesceKept (s : Devices) (r : InterfaceCoalesce) (script : ℕ → BitVec 32) : Prop :=
  ∃ rc s', (dabbadInterfaceCoalesceModify r).run DevCall.handle script s =
      some (rc, s') ∧
    (rc = 0 → s' = coalesceModified s r) ∧ (rc ≠ 0 → s' = s) ∧ CoalesceReported s'

/-- Every sequence of requests, whatever the outcomes of the calls, changes the devices
as it was asked to. -/
theorem coalesceModify_keeps (s : Devices)
    (requests : List (InterfaceCoalesce × (ℕ → BitVec 32))) :
    EveryStep DevCall.handle dabbadInterfaceCoalesceModify CoalesceKept s requests := by
  refine EveryStep.of_forall (fun s r script => ?_) s requests
  obtain ⟨rc, s', hrun, hzero, hne⟩ := run_coalesceModify s r script
  exact ⟨rc, s', hrun, hzero, hne, coalesceReported_of_devices s'⟩

end Dabbad
