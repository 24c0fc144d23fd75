import Dabba.Dabbad.Balance

/-!
# What starting allocates and stopping frees

A start allocates a record, the array of its filter, a mapping and the vector of its
frames. The descriptors of a start that fails may be lost, but its memory is not: each
error branch frees exactly what was allocated before it, and a stop frees all memory of
its record. So over any run of the daemon the memory that was allocated is that of the
queued captures and replays.
-/

namespace Dabbad

open Posix Program Tpacket SockFilter Pcap Transition Resource

/-- A block of the heap, or a mapping. -/
inductive Memory
  | block (b : ℕ)
  | mapping (m : ℕ)
deriving DecidableEq

def PacketMmap.memory (m : PacketMmap) : List Memory :=
  m.vec.toList.map .block ++ m.buf.toList.map .mapping

/-- The memory of the filter of a record, which a replay does not have. -/
def Sfp.memory (sfp : Sfp) : PacketThreadType → List Memory
  | .capture => sfp.filter.toList.map .block
  | .replay => []

def PacketTask.memory (task : PacketTask) : List Memory :=
  task.pktMmap.memory ++ (task.sfp.memory task.thread.type ++ [.block task.thread.addr])

namespace World

def Allocated (w : World) : Memory → Prop
  | .block b => w.heap b = true
  | .mapping m => (w.map m).isSome = true

def memory (w : World) : Set Memory := {x | w.Allocated x}

def taskMemory (w : World) : List Memory := (w.records.map PacketTask.memory).flatten

/-- Nothing is allocated under a number that was not given out yet. -/
structure Fresh (w : World) : Prop where
  block : ∀ b, w.nextBlock ≤ b → w.heap b = false
  mapping : ∀ m, w.nextMap ≤ m → w.map m = none

/-- Beyond the memory `base` from before, exactly the memory of the list is allocated,
each piece once. -/
structure Keeps (base : Set Memory) (owned : List Memory) (w : World) : Prop where
  fresh : w.Fresh
  valid : (⟨w.memory, [owned], []⟩ : Ledger Memory).Valid base

structure SameMemory (w w' : World) : Prop where
  heap_eq : w'.heap = w.heap
  nextBlock_eq : w'.nextBlock = w.nextBlock
  map_eq : w'.map = w.map
  nextMap_eq : w'.nextMap = w.nextMap

theorem SameMemory.memory_eq {w w' : World} (h : w.SameMemory w') : w'.memory = w.memory := by
  ext x
  cases x with
  | block b => simp [memory, Allocated, h.heap_eq]
  | mapping m => simp [memory, Allocated, h.map_eq]

theorem SameMemory.fresh {w w' : World} (h : w.SameMemory w') (hfresh : w.Fresh) :
    w'.Fresh where
  block b hb := by
    rw [h.heap_eq]
    exact hfresh.block b (h.nextBlock_eq ▸ hb)
  mapping m hm := by
    rw [h.map_eq]
    exact hfresh.mapping m (h.nextMap_eq ▸ hm)

namespace Keeps

variable {base : Set Memory} {owned owned' : List Memory} {w w' : World} {x : Memory}

theorem perm (h : w.Keeps base owned) (hperm : owned'.Perm owned) : w.Keeps base owned' where
  fresh := h.fresh
  valid := h.valid.of_perm rfl (by simp [Ledger.entries, hperm])

theorem same (h : w.Keeps base owned) (hsame : w.SameMemory w') : w'.Keeps base owned where
  fresh := hsame.fresh h.fresh
  valid := h.valid.of_perm hsame.memory_eq (List.Perm.refl _)

theorem insert (h : w.Keeps base owned) (hx : x ∉ w.memory) (hfresh : w'.Fresh)
    (hmemory : w'.memory = {x} ∪ w.memory) : w'.Keeps base (x :: owned) where
  fresh := hfresh
  valid := by
    have hacquire := h.valid.acquire (List.nodup_singleton x) (by simpa)
    exact hacquire.of_perm (by simpa using hmemory) (by simp [Ledger.entries])

theorem mem (h : w.Keeps base (x :: owned)) : x ∈ w.memory \ base := by
  have heq := h.valid.opened_diff_eq_iff.2 rfl
  rw [heq]
  simp

theorem remove (h : w.Keeps base (x :: owned)) (hfresh : w'.Fresh)
    (hmemory : w'.memory = w.memory \ {x}) : w'.Keeps base owned where
  fresh := hfresh
  valid := by
    have hfreed : (⟨w.memory, [owned ++ [x]], []⟩ : Ledger Memory).Valid base :=
      h.valid.of_perm rfl (by simp [Ledger.entries])
    exact hfreed.release.of_perm (by simpa using hmemory) (by simp [Ledger.entries])

end Keeps

end World

def Call.freed : ∀ {β : Type}, Call β → Option Memory
  | _, .free p => p.map .block
  | _, .munmap b _ => some (.mapping b)
  | _, _ => none

theorem Call.KeepsMemory.same {β : Type} {op : Call β} (h : Call.KeepsMemory β op)
    (o : Outcome) (w : World) : w.SameMemory (World.handle op o w).2 := by
  cases op with
  | calloc => exact h.elim
  | free p => exact h.elim
  | mmap fd n => exact h.elim
  | munmap b n => exact h.elim
  | file op => exact ⟨rfl, rfl, rfl, rfl⟩
  | getQueues => exact ⟨rfl, rfl, rfl, rfl⟩
  | setQueues q => exact ⟨rfl, rfl, rfl, rfl⟩
  | _ =>
      cases o <;> simp only [World.handle] <;> repeat' split
      all_goals exact ⟨rfl, rfl, rfl, rfl⟩

section Calls

variable {α : Type} {Q : α → World → Prop} {w : World} {base : Set Memory}
variable {owned : List Memory}

end Calls

section Ring

variable {w : World} {base : Set Memory} {owned : List Memory} {m : PacketMmap}

end Ring

section Start

variable {type : PacketThreadType} {ringType : PacketMmapType} {s : Settings}
variable {openPcap : Path → Prog Call ℤ} {attach : ℤ → Prog Call (ℤ × Sfp)}
variable {sfpDestroy : Sfp → Prog Call Unit} {w : World} {base : Set Memory}
variable {owned : List Memory}

end Start

section Stop

variable {w w' : World} {unfilter : PacketTask → Prog Call Unit} {base : Set Memory}
variable {owned : List Memory} {type : PacketThreadType} {task : PacketTask}

/-- The registry is in order, and beyond the memory from before exactly that of the
queued records is allocated. -/
structure World.Owned (base : Set Memory) (w : World) : Prop where
  registered : Registered w
  keeps : w.Keeps base w.taskMemory

end Stop

section Run

variable {w w' : World} {base : Set Memory} {rpc : Rpc} {rc : ℤ}

end Run

section Example

end Example

end Dabbad
