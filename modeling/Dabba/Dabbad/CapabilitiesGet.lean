import Dabba.Dabbad.InterfaceCapabilities
import Dabba.Dabbad.InterfaceGet
import Dabba.Resource.Blocks

/-!
# Listing the capabilities of interfaces

The entry of an interface is made of twenty-one blocks: the entry itself, eight messages
it points to, and twelve messages that the speeds point to. They are allocated in two
groups, and each group is checked on its own. After a failure in the second group
everything is released, and the function goes on.

What the handler does with blocks is a program over a heap, which aborts where it reads,
writes or releases a block that is not there.
-/

namespace Dabbad

open Posix Program Interface Resource

/-- The places at which blocks are allocated in the visit `v`. -/
inductive CapSite
  | array (v : ℕ)
  | entry (v : ℕ)
  | field (v a : ℕ)
  | duplex (v a : ℕ)

/-- The calls of the handler: those on devices, in the visit `v`, and those on the heap. -/
inductive HeapCall : Type → Type 1
  | dev {β : Type} (v : ℕ) (op : DevCall β) : HeapCall β
  | heap {β : Type} (op : BlockCall CapSite β) : HeapCall β

abbrev HeapCode : Type → Type _ := Prog (BlockCall CapSite)

/-- The part of the handler that is on the heap only. -/
def onHeap {α : Type} (p : HeapCode α) : Prog HeapCall α :=
  p.hoist fun _ op => HeapCall.heap op

def mallocs : List CapSite → HeapCode (List (Option ℕ)) :=
  Blocks.allocate fun site => Prog.perform (.malloc site)

/-- The capabilities of an interface, with the error number of the request for them. -/
structure CapabilitiesEntry where
  status : BitVec 32
  capabilities : InterfaceCapabilities

/-- An entry: its block, the blocks of its id, its status and its option and speed
messages, those of the messages the speeds point to, and what is written to them. -/
structure CapEntry where
  block : ℕ
  fields : List (Option ℕ)
  duplex : List (Option ℕ)
  value : CapabilitiesEntry

/-- The list that is built up: the array of pointers, and the entries it points to. -/
structure CapList where
  array : Option ℕ
  entries : List CapEntry

section Fill

def flagReported (word flag : BitVec 32) : Option Bool := some (word &&& flag != 0)

def optionsReported (word : BitVec 32) : InterfaceOptionCapabilites where
  autoneg := flagReported word advertisedAutoneg
  pause := flagReported word advertisedPause

/-- The speeds of a word of capabilities. There is no half duplex at 10 Gbps. -/
def speedsReported (word : BitVec 32) : InterfaceSpeedCapabilites where
  ethernet := some ⟨flagReported word advertised10baseTHalf,
    flagReported word advertised10baseTFull⟩
  fastEthernet := some ⟨flagReported word advertised100baseTHalf,
    flagReported word advertised100baseTFull⟩
  gbpsEthernet := some ⟨flagReported word advertised1000baseTHalf,
    flagReported word advertised1000baseTFull⟩
  tenGbpsEthernet := some ⟨some false, flagReported word advertised10000baseTFull⟩

def supportedTp : BitVec 32 := 1 <<< 7
def supportedAui : BitVec 32 := 1 <<< 8
def supportedMii : BitVec 32 := 1 <<< 9
def supportedFibre : BitVec 32 := 1 <<< 10
def supportedBnc : BitVec 32 := 1 <<< 11

/-- What is reported of the settings of an interface. The supported capabilities are
numbered like the advertised ones. -/
def capabilitiesReported (name : List Byte) (c : EthtoolSettings) :
    InterfaceCapabilities where
  name := name
  tp := flagReported c.supported supportedTp
  aui := flagReported c.supported supportedAui
  mii := flagReported c.supported supportedMii
  fibre := flagReported c.supported supportedFibre
  bnc := flagReported c.supported supportedBnc
  supportedOpt := some (optionsReported c.supported)
  advertisingOpt := some (optionsReported c.advertising)
  lpAdvertisingOpt := some (optionsReported c.lpAdvertising)
  supportedSpeed := some (speedsReported c.supported)
  advertisingSpeed := some (speedsReported c.advertising)
  lpAdvertisingSpeed := some (speedsReported c.lpAdvertising)

/-- Fetches the settings of a link. -/
def fillCapabilities (v : ℕ) (link : RtnlLink) : Prog HeapCall CapabilitiesEntry := do
  let (rc, capabilities) ←
    (Interface.ldabDevSettingsGet link.name).hoist fun _ op => HeapCall.dev v op
  return ⟨rc, capabilitiesReported link.name capabilities⟩

end Fill

def releaseBlocks (block : ℕ) (fields duplex : List (Option ℕ)) : HeapCode Unit := do
  Blocks.each Blocks.free duplex
  Blocks.each Blocks.free fields
  Blocks.free (some block)

/-- The first group of blocks: an entry, and those it points to. -/
def newEntry (v : ℕ) : HeapCode (Option (ℕ × List (Option ℕ))) := do
  let capabilitiesp ← Prog.perform (.malloc (.entry v))
  match capabilitiesp with
  | none => return none
  | some block =>
      Blocks.init (some block)
      let fields ← mallocs ((List.range 8).map (.field v))
      if none ∈ fields then
        Blocks.each Blocks.free fields
        Blocks.free (some block)
        return none
      else
        Blocks.each Blocks.init fields
        return some (block, fields)

/-- The second group of blocks: those the speeds point to. -/
def newDuplex (v block : ℕ) (fields : List (Option ℕ)) : HeapCode (List (Option ℕ)) := do
  let duplex ← mallocs ((List.range 12).map (.duplex v))
  if none ∈ duplex then
    releaseBlocks block fields duplex
  -- The function does not return here.
  Blocks.read (some block)
  Blocks.each Blocks.read fields
  Blocks.each Blocks.init duplex
  return duplex

/-- Makes the entry of a link, where the array has room for it. -/
def fillEntry (v : ℕ) (list : CapList) (link : RtnlLink) : Prog HeapCall CapList := do
  let capabilitiesp ← onHeap (newEntry v)
  match capabilitiesp with
  | none => return list
  | some (block, fields) =>
      let duplex ← onHeap (newDuplex v block fields)
      let value ← fillCapabilities v link
      return { list with entries := list.entries ++ [⟨block, fields, duplex, value⟩] }

/-- Appends the entry of a link to the list, in the visit `v`. -/
def interfaceCapabilitiesGet (v : ℕ) (list : CapList) (link : RtnlLink) :
    Prog HeapCall CapList := do
  let listpp ← onHeap (Prog.perform (.realloc (.array v) list.array))
  if listpp = none then
    return list
  else
    fillEntry v { list with array := listpp } link

/-- Visits the links one after another, from the visit `v` on. -/
def visitCapabilities : List RtnlLink → ℕ → CapList → Prog HeapCall CapList
  | [], _, list => pure list
  | link :: links, v, list => do
      let list ← interfaceCapabilitiesGet v list link
      visitCapabilities links (v + 1) list

def readEntry (e : CapEntry) : HeapCode Unit := do
  Blocks.read (some e.block)
  Blocks.each Blocks.read e.fields
  Blocks.each Blocks.read e.duplex

def closeCapabilities : List CapEntry → HeapCode Unit
  | [] => pure ()
  | e :: es => do
      readEntry e
      closeCapabilities es

def releaseEntries : List CapEntry → HeapCode Unit
  | [] => pure ()
  | e :: es => do
      Blocks.read (some e.block)
      Blocks.each Blocks.read e.fields
      releaseBlocks e.block e.fields e.duplex
      releaseEntries es

def replyCapabilities (list : CapList) : HeapCode Unit := do
  closeCapabilities list.entries
  releaseEntries list.entries
  Blocks.free list.array

def listCapabilities (links : List RtnlLink) : Prog HeapCall (List CapabilitiesEntry) := do
  let list ← visitCapabilities links 0 ⟨none, []⟩
  onHeap (replyCapabilities list)
  return list.entries.map CapEntry.value

/-- The get handler: the reply is the list, or nothing. -/
def dabbadInterfaceCapabilitiesGet (idList : List (List Byte)) :
    Prog HeapCall (Option (List CapabilitiesEntry)) := do
  let cache ← HeapCall.dev 0 .linkCache
  let link ← HeapCall.dev 0 (.link .rtnlLinkAlloc)
  match cache with
  | none => return none
  | some cache =>
      if link = false then
        return none
      else
        let list ← listCapabilities (visitedLinks idList cache)
        return some list

section Outcomes

/-- The state of a request: the devices, and the heap. -/
structure CapState where
  devices : Devices
  heap : Heap

/-- The outcomes of the calls of a request: those on devices, and for each place whether
memory is there. -/
structure CapAnswers where
  linkCache : BitVec 32
  rtnlLinkAlloc : BitVec 32
  settings : ℕ → BitVec 32
  served : CapSite → Bool

def CapAnswers.dev (o : CapAnswers) (v : ℕ) : {β : Type} → DevCall β → BitVec 32
  | _, .link _ => o.rtnlLinkAlloc
  | _, .kernelRequest _ _ => o.settings v
  | _, .linkCache => o.linkCache
  | _, .alloc => 0

def HeapCall.handle : Handler HeapCall CapAnswers CapState
  | _, .dev v op, o, s =>
      let r := op.handle (o.dev v op) s.devices
      (r.1, { s with devices := r.2 })
  | _, .heap op, o, s =>
      let r := op.handle o.served s.heap
      (r.1, { s with heap := r.2 })

def CapAnswers.sem (o : CapAnswers) : Sem HeapCall CapState :=
  HeapCall.handle.const o

end Outcomes

end Dabbad
