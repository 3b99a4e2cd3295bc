import Strata.Memory.Block

/-!
# Device buffers

Buffers in the order of their creation; a buffer is known by its position. A destroyed buffer keeps
its contents, only mapping it is refused.
-/

namespace Strata

inductive SlotUsage
  /-- Read and written by shaders, copied either way. -/
  | storage
  /-- Parameters of a dispatch. -/
  | uniform
  /-- Copied into, then read by the host. -/
  | readback
  /-- A class that the device does not know. -/
  | other (name : String)
deriving Repr, DecidableEq

/-- Flags a device knows buffer uses by. -/
structure BufferFlags where
  mapRead : Nat
  copySource : Nat
  copyDestination : Nat
  uniform : Nat
  storage : Nat

def deviceFlags : BufferFlags := ⟨0x0001, 0x0004, 0x0008, 0x0040, 0x0080⟩

namespace SlotUsage

def all : List SlotUsage := [storage, uniform, readback]

def name : SlotUsage → String
  | storage => "storage"
  | uniform => "uniform"
  | readback => "readback"
  | other name => name

def ofName (s : String) : SlotUsage := (all.find? (·.name == s)).getD (other s)

def flags? : SlotUsage → Option Nat
  | storage => deviceFlags.storage ||| deviceFlags.copySource ||| deviceFlags.copyDestination
  | uniform => deviceFlags.uniform ||| deviceFlags.copyDestination
  | readback => deviceFlags.mapRead ||| deviceFlags.copyDestination
  | other _ => none

end SlotUsage

abbrev BufferId := Nat

structure Buffer (α : Type) where
  label : String
  /-- None if it was created for an unknown class. -/
  usage : Option Nat
  block : Block α
  destroyed : Bool
deriving Repr, DecidableEq

/-- Buffers of a device, by their ids. -/
abbrev Heap (α : Type) := Array (Buffer α)

namespace Heap

variable {α : Type}

def block (heap : Heap α) (id : BufferId) : Block α := (heap[id]?.map (·.block)).getD (Block.zero 0)

def modifyBlock (heap : Heap α) (id : BufferId) (f : Block α → Block α) : Heap α :=
  heap.modify id fun buffer => { buffer with block := f buffer.block }

end Heap

end Strata
