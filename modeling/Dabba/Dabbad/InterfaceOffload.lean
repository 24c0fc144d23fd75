import Dabba.Dabbad.InterfaceGet

/-!
# Offload settings

A request to modify them is applied one feature after another, and after a failure no
further feature is touched. Two features of the message, large receive offload and receive
hashing, are neither written nor read, though the library has functions for both.
-/

namespace Dabbad

open Posix Program Interface

/-- A request to modify the offload settings, an `interface_offload` message. -/
structure InterfaceOffload where
  name : List Byte
  rxCsum : Option Bool
  txCsum : Option Bool
  sg : Option Bool
  tso : Option Bool
  ufo : Option Bool
  gso : Option Bool
  gro : Option Bool
  lro : Option Bool
  rxhash : Option Bool

/-- Applies a value of the request, if it has one and nothing failed before. -/
def setOffload (rc : BitVec 32) (requested : Option Bool)
    (set : BitVec 32 → Prog DevCall (BitVec 32)) : Prog DevCall (BitVec 32) :=
  match requested with
  | none => pure rc
  | some v => if rc = 0 then set v.toNat else pure rc

/-- The part of a request for an interface that is there. -/
def applyOffload (offloadp : InterfaceOffload) : Prog DevCall (BitVec 32) := do
  let rc ← setOffload 0 offloadp.rxCsum (ldabDevRxCsumOffloadSet offloadp.name)
  let rc ← setOffload rc offloadp.txCsum (ldabDevTxCsumOffloadSet offloadp.name)
  let rc ← setOffload rc offloadp.sg (ldabDevScatterGatherSet offloadp.name)
  let rc ← setOffload rc offloadp.tso (ldabDevTcpSegOffloadSet offloadp.name)
  let rc ← setOffload rc offloadp.ufo (ldabDevUdpFragOffloadSet offloadp.name)
  let rc ← setOffload rc offloadp.gso (ldabDevGenericSegOffloadSet offloadp.name)
  let rc ← setOffload rc offloadp.gro (ldabDevGenericRcvOffloadSet offloadp.name)
  return rc

/-- Modifies the offload settings of an interface; the result is the code of the
reply. -/
def dabbadInterfaceOffloadModify (offloadp : InterfaceOffload) :
    Prog DevCall (BitVec 32) := do
  let cache ← DevCall.link .linkCacheAlloc
  if cache = false then
    return enomem
  else
    let link ← DevCall.link (.rtnlLinkGetByName offloadp.name)
    if link = false then
      return enodev
    else
      applyOffload offloadp

/-- The offload settings of an interface, with the error number of the last request for
one of them. -/
structure OffloadEntry where
  status : BitVec 32
  offload : InterfaceOffload

/-- The entry of a link. -/
def fillOffload (link : RtnlLink) : Prog DevCall OffloadEntry := do
  let (_, rxCsum) ← ldabDevRxCsumOffloadGet link.name 0
  let (_, txCsum) ← ldabDevTxCsumOffloadGet link.name 0
  let (_, sg) ← ldabDevScatterGatherGet link.name 0
  let (_, tso) ← ldabDevTcpSegOffloadGet link.name 0
  let (_, ufo) ← ldabDevUdpFragOffloadGet link.name 0
  let (_, gso) ← ldabDevGenericSegOffloadGet link.name 0
  let (rc, gro) ← ldabDevGenericRcvOffloadGet link.name 0
  return {
    status := rc
    offload := {
      name := link.name
      rxCsum := some (rxCsum != 0)
      txCsum := some (txCsum != 0)
      sg := some (sg != 0)
      tso := some (tso != 0)
      ufo := some (ufo != 0)
      gso := some (gso != 0)
      gro := some (gro != 0)
      -- Said to be there, and left as the message is initialised.
      lro := some false
      -- The value is set to 1 in place of the mark that there is one.
      rxhash := none } }

def dabbadInterfaceOffloadGet (idList : List (List Byte)) :
    Prog DevCall (Option (List OffloadEntry)) :=
  interfaceGet fillOffload idList

section Features

def offloadsApplied : List Feature := [.rxcsum, .txcsum, .sg, .tso, .ufo, .gso, .gro]

def InterfaceOffload.feature (r : InterfaceOffload) : Feature → Option Bool
  | .rxcsum => r.rxCsum
  | .txcsum => r.txCsum
  | .sg => r.sg
  | .tso => r.tso
  | .ufo => r.ufo
  | .gso => r.gso
  | .gro => r.gro

def applyFeatures (r : InterfaceOffload) :
    List Feature → BitVec 32 → Prog DevCall (BitVec 32)
  | [], rc => pure rc
  | f :: fs, rc =>
      (setOffload rc (r.feature f) (devValueSet r.name (.set f))).bind fun rc =>
        applyFeatures r fs rc

theorem applyOffload_eq (r : InterfaceOffload) :
    applyOffload r = applyFeatures r offloadsApplied 0 := by
  simp only [applyOffload, offloadsApplied, applyFeatures, Prog.pure_eq, Prog.bind_ret]
  rfl

variable (r : InterfaceOffload)

def askedFor (fs : List Feature) (feature : Feature → Bool) : Feature → Bool := fun f =>
  if f ∈ fs then (r.feature f).getD (feature f) else feature f

def asks (fs : List Feature) : ℕ := (fs.filter fun f => (r.feature f).isSome).length

@[simp] theorem askedFor_nil (feature : Feature → Bool) : askedFor r [] feature = feature :=
  rfl

theorem askedFor_cons {f : Feature} {fs : List Feature} (hf : f ∉ fs)
    (feature : Feature → Bool) :
    askedFor r (f :: fs) feature =
      askedFor r fs (Function.update feature f ((r.feature f).getD (feature f))) := by
  funext g
  by_cases hg : g = f
  · subst hg
    simp [askedFor, hf]
  · simp [askedFor, hg]

theorem applyFeatures_of_ne {rc : BitVec 32} (hrc : rc ≠ 0) (fs : List Feature) :
    applyFeatures r fs rc = .ret rc := by
  induction fs with
  | nil => rfl
  | cons f fs ih =>
      rw [applyFeatures]
      cases r.feature f with
      | none => exact ih
      | some v =>
          rw [setOffload, if_neg hrc]
          exact ih

section Run

variable {r} {s : Devices}

theorem run_setOffload (hmem : r.name ∈ s.names) {f : Feature} {v : Bool}
    (hv : r.feature f = some v) (k : BitVec 32 → Prog DevCall (BitVec 32))
    (script : ℕ → BitVec 32) :
    ((setOffload 0 (r.feature f) (devValueSet r.name (.set f))).bind k).run
        DevCall.handle script s =
      if script 0 = 0 then
        (k 0).run DevCall.handle (fun n => script (n + 1))
          (s.set r.name { s.device r.name with
            feature := Function.update (s.device r.name).feature f v })
      else (k (script 0)).run DevCall.handle (fun n => script (n + 1)) s := by
  have hifr := Devices.ifrName_of_mem r.name hmem
  rw [hv, setOffload, if_pos rfl, devValueSet_bind, Prog.run_call, DevCall.handle, hifr]
  split
  case isTrue hzero =>
    rw [hzero, BitVec.ofNat_eq_ofNat, Devices.request_zero hmem]
    cases v <;> rfl
  case isFalse hne => rw [Devices.request, if_pos hne]

/-- The set for a feature fails, after those for the features in front of it. -/
def StopsAt (r : InterfaceOffload) (fs : List Feature) (script : ℕ → BitVec 32)
    (done : List Feature) (rc : BitVec 32) : Prop :=
  ∃ f rest, fs = done ++ f :: rest ∧ (r.feature f).isSome ∧
    (∀ n < asks r done, script n = 0) ∧ script (asks r done) = rc ∧ rc ≠ 0

theorem asks_cons_none {f : Feature} (hv : r.feature f = none) (fs : List Feature) :
    asks r (f :: fs) = asks r fs := by
  rw [asks, asks, List.filter_cons_of_neg (by simp [hv])]

theorem asks_cons_some {f : Feature} {v : Bool} (hv : r.feature f = some v)
    (fs : List Feature) : asks r (f :: fs) = asks r fs + 1 := by
  rw [asks, asks, List.filter_cons_of_pos (by simp [hv]), List.length_cons]

theorem StopsAt.of_none {f : Feature} (hv : r.feature f = none) {fs done : List Feature}
    {script : ℕ → BitVec 32} {rc : BitVec 32} (h : StopsAt r fs script done rc) :
    StopsAt r (f :: fs) script (f :: done) rc := by
  obtain ⟨g, rest, rfl, hg, h⟩ := h
  exact ⟨g, rest, rfl, hg, by rwa [asks_cons_none hv]⟩

theorem StopsAt.of_some {f : Feature} {v : Bool} (hv : r.feature f = some v)
    {fs done : List Feature} {script : ℕ → BitVec 32} (hzero : script 0 = 0) {rc : BitVec 32}
    (h : StopsAt r fs (fun n => script (n + 1)) done rc) :
    StopsAt r (f :: fs) script (f :: done) rc := by
  obtain ⟨g, rest, rfl, hg, hbefore, hfail⟩ := h
  refine ⟨g, rest, rfl, hg, ?_, ?_⟩
  · rw [asks_cons_some hv, Nat.forall_lt_succ_left]
    exact ⟨hzero, hbefore⟩
  · rwa [asks_cons_some hv]

theorem StopsAt.not_all {fs done : List Feature} {script : ℕ → BitVec 32} {rc : BitVec 32}
    (h : StopsAt r fs script done rc) : ¬ ∀ n < asks r fs, script n = 0 := by
  obtain ⟨f, rest, rfl, hf, -, hfail, hne⟩ := h
  intro hall
  have hlt : asks r done < asks r (done ++ f :: rest) := by
    rw [asks, asks, List.filter_append, List.length_append]
    exact Nat.lt_add_of_pos_right (List.length_pos_of_mem (List.mem_filter.2 ⟨.head _, hf⟩))
  exact hne (hfail.symm.trans (hall _ hlt))

/-- The features that were written are among those to be applied. -/
theorem notMem_of_applied {f : Feature} {fs done : List Feature} (hf : f ∉ fs)
    {script : ℕ → BitVec 32} {rc : BitVec 32}
    (h : (rc = 0 ∧ done = fs ∧ ∀ n < asks r fs, script n = 0) ∨ StopsAt r fs script done rc) :
    f ∉ done := by
  rcases h with ⟨-, rfl, -⟩ | ⟨g, rest, rfl, -⟩
  · exact hf
  · exact fun hmem => hf (List.mem_append_left _ hmem)

/-- The values of the request are all applied, or those up to the set that fails, whose
code it is. -/
theorem run_applyFeatures (hmem : r.name ∈ s.names) (fs : List Feature) (hfs : fs.Nodup)
    (script : ℕ → BitVec 32) :
    ∃ rc done,
      (applyFeatures r fs 0).run DevCall.handle script s =
        some (rc, s.set r.name { s.device r.name with
          feature := askedFor r done (s.device r.name).feature }) ∧
      ((rc = 0 ∧ done = fs ∧ ∀ n < asks r fs, script n = 0) ∨
        StopsAt r fs script done rc) := by
  induction fs generalizing s script with
  | nil =>
      refine ⟨0, [], ?_, .inl ⟨rfl, rfl, by simp [asks]⟩⟩
      simp only [askedFor_nil]
      exact congrArg (fun s => some (0, s)) (s.set_device r.name).symm
  | cons f fs ih =>
      obtain ⟨hf, hfs⟩ := List.nodup_cons.1 hfs
      cases hv : r.feature f with
      | none =>
          obtain ⟨rc, done, hrun, hrc⟩ := ih hmem hfs script
          refine ⟨rc, f :: done, ?_, hrc.imp ?_ (.of_none hv)⟩
          · rw [askedFor_cons r (notMem_of_applied hf hrc), hv, Option.getD_none,
              Function.update_eq_self, ← hrun, applyFeatures, hv]
            rfl
          · rintro ⟨rfl, rfl, hall⟩
            exact ⟨rfl, rfl, by rwa [asks_cons_none hv]⟩
      | some v =>
          rw [applyFeatures, run_setOffload hmem hv]
          split
          case isTrue hzero =>
            obtain ⟨rc, done, hrun, hrc⟩ :=
              ih (s := s.set r.name _) hmem hfs fun n => script (n + 1)
            refine ⟨rc, f :: done, ?_, hrc.imp ?_ (.of_some hv hzero)⟩
            · rw [hrun, Devices.set_set, Devices.device_set_self,
                askedFor_cons r (notMem_of_applied hf hrc), hv, Option.getD_some]
            · rintro ⟨rfl, rfl, hall⟩
              refine ⟨rfl, rfl, ?_⟩
              rw [asks_cons_some hv, Nat.forall_lt_succ_left]
              exact ⟨hzero, hall⟩
          case isFalse hne =>
            refine ⟨script 0, [], ?_, .inr ⟨f, fs, rfl, by rw [hv]; rfl, ?_, rfl, hne⟩⟩
            · rw [applyFeatures_of_ne r hne, askedFor_nil]
              exact congrArg (fun s => some (script 0, s)) (s.set_device r.name).symm
            · exact fun n hn => absurd hn (Nat.not_lt_zero n)

end Run

end Features

/-- A device as the requests see it: one value for each of the nine fields. -/
structure Offloads where
  rxCsum : Bool
  txCsum : Bool
  sg : Bool
  tso : Bool
  ufo : Bool
  gso : Bool
  gro : Bool
  lro : Bool
  rxhash : Bool

def offloadsOf (d : Device) : Offloads where
  rxCsum := d.feature .rxcsum
  txCsum := d.feature .txcsum
  sg := d.feature .sg
  tso := d.feature .tso
  ufo := d.feature .ufo
  gso := d.feature .gso
  gro := d.feature .gro
  lro := d.ethFlags &&& ethFlagLro != 0
  rxhash := d.ethFlags &&& ethFlagRxhash != 0

/-- The values that a request asks for, on top of those of the device. -/
def offloadsAsked (r : InterfaceOffload) (o : Offloads) : Offloads where
  rxCsum := r.rxCsum.getD o.rxCsum
  txCsum := r.txCsum.getD o.txCsum
  sg := r.sg.getD o.sg
  tso := r.tso.getD o.tso
  ufo := r.ufo.getD o.ufo
  gso := r.gso.getD o.gso
  gro := r.gro.getD o.gro
  lro := r.lro.getD o.lro
  rxhash := r.rxhash.getD o.rxhash

def offloadReported (name : List Byte) (o : Offloads) : InterfaceOffload :=
  ⟨name, some o.rxCsum, some o.txCsum, some o.sg, some o.tso, some o.ufo, some o.gso,
    some o.gro, some o.lro, some o.rxhash⟩

section Steps

variable (s : Devices) (r : InterfaceOffload) (script : ℕ → BitVec 32)

/-- The interface is there, and every call of the request succeeds. -/
def OffloadServed : Prop :=
  r.name ∈ s.names ∧ ∀ n < 2 + asks r offloadsApplied, script n = 0

/-- The two features that are never written have the values that the request has for
them. -/
def FlagsAgree (d : Device) : Prop :=
  r.lro.getD (offloadsOf d).lro = (offloadsOf d).lro ∧
    r.rxhash.getD (offloadsOf d).rxhash = (offloadsOf d).rxhash

/-- Where a request stops, with the features written before and the code: the interface is
not found, or the set for a feature fails. -/
inductive OffloadStopped : List Feature → BitVec 32 → Prop
  | cache (h : script 0 ≠ 0) : OffloadStopped [] enomem
  | link (hcache : script 0 = 0) (h : ¬ (script 1 = 0 ∧ r.name ∈ s.names)) :
      OffloadStopped [] enodev
  | set {done : List Feature} {rc : BitVec 32} (hcache : script 0 = 0)
      (hlink : script 1 = 0 ∧ r.name ∈ s.names)
      (h : StopsAt r offloadsApplied (fun n => script (n + 2)) done rc) :
      OffloadStopped done rc

/-- After a request, the values are those asked for when the code is zero. Otherwise they
are those asked for up to the set that failed, and unchanged from there on. The other
interfaces are unchanged. -/
structure OffloadKept (rc : BitVec 32) (s' : Devices) : Prop where
  asked : rc = 0 → offloadsOf (s'.device r.name) =
    offloadsAsked r (offloadsOf (s.device r.name))
  stopped : rc ≠ 0 → ∃ done, OffloadStopped s r script done rc ∧
    (s'.device r.name).feature = askedFor r done (s.device r.name).feature ∧
    (s'.device r.name).ethFlags = (s.device r.name).ethFlags
  others : ∀ name ≠ r.name, s'.device name = s.device name

/-- A request is served and all of its values are written, or those up to the failure. -/
theorem run_offloadModify :
    ∃ rc done,
      (dabbadInterfaceOffloadModify r).run DevCall.handle script s =
        some (rc, s.set r.name { s.device r.name with
          feature := askedFor r done (s.device r.name).feature }) ∧
      ((rc = 0 ∧ done = offloadsApplied ∧ OffloadServed s r script) ∨
        OffloadStopped s r script done rc) := by
  have hstay : s.set r.name { s.device r.name with
      feature := askedFor r [] (s.device r.name).feature } = s := s.set_device r.name
  simp only [dabbadInterfaceOffloadModify, Prog.bind_eq, Prog.liftM_eq,
    Prog.perform_bind, Prog.run_call, DevCall.handle, serveLink, decide_eq_false_iff_not]
  by_cases hcache : script 0 = 0
  · rw [if_neg (not_not.2 hcache), Prog.run_call]
    by_cases hlink : script 1 = 0 ∧ r.name ∈ s.names
    · obtain ⟨rc, done, hrun, hrc⟩ :=
        run_applyFeatures hlink.2 offloadsApplied (by decide) fun n => script (n + 2)
      refine ⟨rc, done, ?_, hrc.imp ?_ (.set hcache hlink)⟩
      · rw [← hrun, ← applyOffload_eq]
        simp only [DevCall.handle, serveLink, decide_eq_false_iff_not,
          if_neg (not_not.2 hlink)]
      · rintro ⟨rfl, rfl, hall⟩
        refine ⟨rfl, rfl, hlink.2, ?_⟩
        rw [Nat.add_comm 2, Nat.forall_lt_succ_left, Nat.forall_lt_succ_left]
        exact ⟨hcache, hlink.1, hall⟩
    · refine ⟨enodev, [], ?_, .inr (.link hcache hlink)⟩
      rw [hstay]
      simp only [DevCall.handle, serveLink, decide_eq_false_iff_not, if_pos hlink]
      rfl
  · refine ⟨enomem, [], ?_, .inr (.cache hcache)⟩
    rw [hstay, if_pos hcache]
    rfl

variable {r}

/-- With every feature applied, the values are those asked for if the two others agree. -/
theorem offloadsOf_asked_iff (d : Device) :
    offloadsOf { d with feature := askedFor r offloadsApplied d.feature } =
      offloadsAsked r (offloadsOf d) ↔ FlagsAgree r d := by
  have hall : ∀ f, askedFor r offloadsApplied d.feature f = (r.feature f).getD (d.feature f) :=
    fun f => by cases f <;> rfl
  simp only [offloadsOf, offloadsAsked, hall, InterfaceOffload.feature, FlagsAgree,
    Offloads.mk.injEq, true_and]
  exact and_congr eq_comm eq_comm

variable (r)

/-- The get handler says of the interface that it has its nine values. -/
def OffloadReported (name : List Byte) (s : Devices) : Prop :=
  ∀ idList, idList = [] ∨ name ∈ idList →
    ∃ list, (dabbadInterfaceOffloadGet idList).run DevCall.handle success s =
        some (some list, s) ∧
      (∃ e ∈ list, e.offload.name = name) ∧
      ∀ e ∈ list, e.offload.name = name →
        e.offload = offloadReported name (offloadsOf (s.device name))

/-- The message that the get handler makes: seven of the values are those of the device,
one is constant and one is missing. -/
def offloadShown (name : List Byte) (o : Offloads) : InterfaceOffload :=
  { offloadReported name o with lro := some false, rxhash := none }

theorem run_offloadGet (idList : List (List Byte)) :
    (dabbadInterfaceOffloadGet idList).run DevCall.handle success s =
      some (some ((visitedLinks idList s.links).map fun link =>
        ⟨0, offloadShown link.name (offloadsOf (s.device link.name))⟩), s) := by
  rw [dabbadInterfaceOffloadGet, run_interfaceGet fun link hlink => ?_]
  obtain ⟨name, hname, rfl⟩ := List.mem_map.1 hlink
  have hword : ∀ b : Bool, ((if b = true then 1#32 else 0#32) != 0#32) = b := by decide
  simp only [fillOffload, Prog.bind_eq, ldabDevRxCsumOffloadGet, ldabDevTxCsumOffloadGet,
    ldabDevScatterGatherGet, ldabDevTcpSegOffloadGet, ldabDevUdpFragOffloadGet,
    ldabDevGenericSegOffloadGet, ldabDevGenericRcvOffloadGet, devEthtoolRequest_bind,
    Devices.ifrName_of_mem name hname, Prog.run_call, DevCall.handle, success,
    BitVec.ofNat_eq_ofNat, Devices.request_zero hname, Request.serve,
    EthtoolValueCmd.serve, Devices.set_device, Option.getD_some]
  simp [Prog.run, offloadShown, offloadReported, offloadsOf, hword]

theorem not_offloadReported {name : List Byte} (hname : name ∈ s.names) :
    ¬ OffloadReported name s := by
  intro h
  obtain ⟨list, hget, -, hlist⟩ := h [] (.inl rfl)
  rw [run_offloadGet] at hget
  cases hget
  have hentry : offloadShown name (offloadsOf (s.device name)) =
      offloadReported name (offloadsOf (s.device name)) :=
    hlist _ (mem_map_visitedLinks hname (.inl rfl) _) rfl
  have hrxhash := congrArg InterfaceOffload.rxhash hentry
  cases hrxhash

/-- A request is honoured or refused. -/
def OffloadModified : Prop :=
  ∃ rc s', (dabbadInterfaceOffloadModify r).run DevCall.handle script s =
    some (rc, s') ∧ OffloadKept s r script rc s'

/-- A request is honoured or refused, and the values are reported after one that is
honoured. -/
def OffloadHonoured : Prop :=
  ∃ rc s', (dabbadInterfaceOffloadModify r).run DevCall.handle script s =
    some (rc, s') ∧ OffloadKept s r script rc s' ∧ (rc = 0 → OffloadReported r.name s')

variable {s r script}

theorem OffloadStopped.ne_zero {done : List Feature} {rc : BitVec 32}
    (h : OffloadStopped s r script done rc) : rc ≠ 0 := by
  cases h with
  | cache => decide
  | link => decide
  | set _ _ h => exact h.choose_spec.choose_spec.2.2.2.2

theorem OffloadStopped.not_served {done : List Feature} {rc : BitVec 32}
    (h : OffloadStopped s r script done rc) : ¬ OffloadServed s r script := by
  intro hserved
  cases h with
  | cache h => exact h (hserved.2 0 (by omega))
  | link _ h => exact h ⟨hserved.2 1 (by omega), hserved.1⟩
  | set _ _ h => exact h.not_all fun n hn => hserved.2 (n + 2) (by omega)

theorem offloadKept_of_served :
    OffloadKept s r script 0 (s.set r.name { s.device r.name with
        feature := askedFor r offloadsApplied (s.device r.name).feature }) ↔
      FlagsAgree r (s.device r.name) := by
  rw [← offloadsOf_asked_iff]
  constructor
  · intro h
    have hasked := h.asked rfl
    rwa [Devices.device_set_self] at hasked
  · intro h
    refine ⟨fun _ => ?_, fun hne => absurd rfl hne, fun name hname => ?_⟩
    · rwa [Devices.device_set_self]
    · exact s.device_set_of_ne r.name hname _

theorem offloadKept_of_stopped {done : List Feature} {rc : BitVec 32}
    (h : OffloadStopped s r script done rc) :
    OffloadKept s r script rc (s.set r.name { s.device r.name with
      feature := askedFor r done (s.device r.name).feature }) := by
  refine ⟨fun hrc => absurd hrc h.ne_zero, fun _ => ⟨done, h, ?_⟩, fun name hname => ?_⟩
  · rw [Devices.device_set_self]
    exact ⟨rfl, rfl⟩
  · exact s.device_set_of_ne r.name hname _

theorem offloadModified_iff :
    OffloadModified s r script ↔
      ¬ OffloadServed s r script ∨ FlagsAgree r (s.device r.name) := by
  obtain ⟨rc, done, hrun, ⟨rfl, rfl, hserved⟩ | hstopped⟩ := run_offloadModify s r script
  · rw [OffloadModified, hrun, or_iff_right (not_not.2 hserved), ← offloadKept_of_served]
    constructor
    · rintro ⟨rc, s', heq, hkept⟩
      cases heq
      exact hkept
    · exact fun h => ⟨_, _, rfl, h⟩
  · rw [OffloadModified, hrun]
    exact iff_of_true ⟨_, _, rfl, offloadKept_of_stopped hstopped⟩ (.inl hstopped.not_served)

theorem offloadHonoured_iff :
    OffloadHonoured s r script ↔ ¬ OffloadServed s r script := by
  obtain ⟨rc, done, hrun, ⟨rfl, rfl, hserved⟩ | hstopped⟩ := run_offloadModify s r script
  · refine iff_of_false ?_ (not_not.2 hserved)
    rw [OffloadHonoured, hrun]
    rintro ⟨rc, s', heq, -, hreported⟩
    cases heq
    exact not_offloadReported (s.set r.name _) hserved.1 (hreported rfl)
  · rw [OffloadHonoured, hrun]
    exact iff_of_true ⟨_, _, rfl, offloadKept_of_stopped hstopped,
      fun h => absurd h hstopped.ne_zero⟩ hstopped.not_served

end Steps

/-- In every sequence of requests, each is honoured or refused if and only if each one
fails or has for the two features that are not written the values they have; and the
values are reported after it if and only if it fails. -/
theorem offloadModify_honours_iff (s : Devices)
    (requests : List (InterfaceOffload × (ℕ → BitVec 32))) :
    (EveryStep DevCall.handle dabbadInterfaceOffloadModify OffloadModified s requests ↔
      EveryStep DevCall.handle dabbadInterfaceOffloadModify
        (fun s r script => ¬ OffloadServed s r script ∨ FlagsAgree r (s.device r.name))
        s requests) ∧
      (EveryStep DevCall.handle dabbadInterfaceOffloadModify OffloadHonoured s requests ↔
        EveryStep DevCall.handle dabbadInterfaceOffloadModify
          (fun s r script => ¬ OffloadServed s r script) s requests) :=
  ⟨everyStep_congr fun _ _ _ _ => offloadModified_iff,
    everyStep_congr fun _ _ _ _ => offloadHonoured_iff⟩

def lroRequest : InterfaceOffload :=
  ⟨eth0Name, none, none, none, none, none, none, none, some true, none⟩

/-- The request is answered with zero, and nothing was written. -/
theorem not_offloadModify_honours_lroRequest :
    ¬ EveryStep DevCall.handle dabbadInterfaceOffloadModify OffloadModified
        (oneDevice .fibre) [(lroRequest, success)] ∧
      ¬ EveryStep DevCall.handle dabbadInterfaceOffloadModify OffloadHonoured
        (oneDevice .fibre) [(lroRequest, success)] := by
  have hserved : OffloadServed (oneDevice .fibre) lroRequest success :=
    ⟨List.mem_singleton_self _, fun _ _ => rfl⟩
  have hflags : ¬ FlagsAgree lroRequest Device.fibre :=
    fun h => absurd h.1 (by decide)
  exact ⟨fun h => (offloadModified_iff.1 h.1).elim (fun hnot => hnot hserved) hflags,
    fun h => offloadHonoured_iff.1 h.1 hserved⟩

end Dabbad
