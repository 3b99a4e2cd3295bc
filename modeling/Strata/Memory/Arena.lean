import Strata.Device.Basic

/-!
# The arena

A table of slots that own buffers. A handle names a slot at one generation; a slot that becomes free
moves on to the next one, so old handles go stale and never match again. A slot that is released
while commands still refer to it waits for them.
-/

namespace Strata

/-- Declared format of the contents of a slot. -/
structure SlotFormat (ν : Type) where
  usage : SlotUsage
  /-- Name of the storage format of an image, none for a parameter block. -/
  pixels : Option String
  width : ν
  height : ν
deriving Repr, DecidableEq

namespace SlotFormat

variable {ν : Type}

def image (usage : SlotUsage) (pixels : PixelFormat) (width height : ν) : SlotFormat ν :=
  ⟨usage, some pixels.name, width, height⟩

def params [Measure ν] : SlotFormat ν := ⟨.uniform, none, 0, 0⟩

end SlotFormat

/-- What a slot holds for whoever allocated it. -/
structure Contents (ν : Type) where
  format : SlotFormat ν
  /-- Bytes asked for, in whole words. -/
  size : Nat
  /-- References of commands in flight. -/
  refs : Nat
deriving Repr, DecidableEq

inductive Occupancy (ν : Type)
  | free
  | live (contents : Contents ν)
  /-- Given up, but still referred to. -/
  | released (contents : Contents ν)
deriving Repr, DecidableEq

/-- The buffer of a slot, which may outlast its contents. -/
structure Backing where
  buffer : BufferId
  capacity : Nat
  usage : SlotUsage
deriving Repr, DecidableEq

structure Slot (ν : Type) where
  generation : Nat
  occupancy : Occupancy ν
  backing : Option Backing
deriving Repr, DecidableEq

namespace Slot

variable {ν : Type}

def empty : Slot ν := ⟨0, .free, none⟩

def capacity (s : Slot ν) : Nat := (s.backing.map (·.capacity)).getD 0

end Slot

structure ArenaOptions (ν : Type) where
  /-- Bound on the bytes of all buffers held. -/
  budget : Option ν
  /-- Bound on the bytes of the buffers of free slots. -/
  maxPooled : ν
  label : String
deriving Repr, DecidableEq

/-- No budget, and a pool of 64 MiB. -/
def ArenaOptions.standard {ν : Type} [Measure ν] : ArenaOptions ν :=
  ⟨none, Measure.ofNat (64 * 1024 * 1024), "Arena"⟩

structure Arena (ν : Type) where
  options : ArenaOptions ν
  slots : Array (Slot ν) := #[]
  /-- Free slots, longest free first. -/
  free : List Nat := []
  /-- Bytes of all buffers held. -/
  allocated : Nat := 0
  /-- Set once nothing can be allocated any more. -/
  closing : Option Closing := none
deriving Repr, DecidableEq

/-- A live slot, looked up. -/
structure SlotRef (ν : Type) where
  handle : Handle
  buffer : BufferId
  format : SlotFormat ν
  size : Nat
deriving Repr, DecidableEq

namespace Arena

variable {ν : Type}

def slotAt (a : Arena ν) (i : Nat) : Slot ν := a.slots.getD i .empty

/-- The position of the slot that a handle names, if the slot is at its generation. -/
def position? (a : Arena ν) (h : Handle) : Option Nat :=
  match h.index.number?, h.generation.number? with
  | some i, some generation =>
    match a.slots[i]? with
    | some slot => if slot.generation = generation then some i else none
    | none => none
  | _, _ => none

def handleAt (a : Arena ν) (i : Nat) : Handle := ⟨.number i, .number (a.slotAt i).generation⟩

def contains (a : Arena ν) (h : Handle) : Bool :=
  match a.position? h with
  | none => false
  | some i =>
    match (a.slotAt i).occupancy with
    | .live _ => true
    | _ => false

/-- Look up the position of a live slot. -/
def locate (a : Arena ν) (h : Handle) : Except Failure (Nat × SlotRef ν) :=
  match a.position? h with
  | none => .error (.of (.staleHandle h))
  | some i =>
    match (a.slotAt i).occupancy, (a.slotAt i).backing with
    | .live contents, some backing => .ok (i, ⟨h, backing.buffer, contents.format, contents.size⟩)
    | _, _ => .error (.of (.staleHandle h))

def resolve (a : Arena ν) (h : Handle) : Except Failure (SlotRef ν) := (a.locate h).map (·.2)

def checkOpen (a : Arena ν) : Except Failure Unit :=
  match a.closing with
  | none => .ok ()
  | some closing => .error closing.failure

/-! ## Counts -/

def liveCount (a : Arena ν) : Nat :=
  a.slots.countP fun slot => match slot.occupancy with
    | .live _ => true
    | _ => false

def releasedCount (a : Arena ν) : Nat :=
  a.slots.countP fun slot => match slot.occupancy with
    | .released _ => true
    | _ => false

def pooledBytes (a : Arena ν) : Nat := a.free.foldr (fun i bytes => (a.slotAt i).capacity + bytes) 0

/-! ## Changes of one slot -/

def modifySlot (a : Arena ν) (i : Nat) (f : Slot ν → Slot ν) : Arena ν := { a with slots := a.slots.modify i f }

def occupy (a : Arena ν) (i : Nat) (format : SlotFormat ν) (bytes : Nat) : Arena ν :=
  a.modifySlot i fun slot => { slot with occupancy := .live ⟨format, bytes, 0⟩ }

/-- Count one more reference to a slot. -/
def retain (a : Arena ν) (i : Nat) : Arena ν :=
  a.modifySlot i fun slot => match slot.occupancy with
    | .live c => { slot with occupancy := .live { c with refs := c.refs + 1 } }
    | .released c => { slot with occupancy := .released { c with refs := c.refs + 1 } }
    | .free => slot

def dropRef (a : Arena ν) (i : Nat) : Arena ν :=
  a.modifySlot i fun slot => match slot.occupancy with
    | .live c => { slot with occupancy := .live { c with refs := c.refs - 1 } }
    | .released c => { slot with occupancy := .released { c with refs := c.refs - 1 } }
    | .free => slot

def giveUp (a : Arena ν) (i : Nat) : Arena ν :=
  a.modifySlot i fun slot => match slot.occupancy with
    | .live c => { slot with occupancy := .released c }
    | _ => slot

/-- Whether a slot is given up and no longer referred to. -/
def isSpent (a : Arena ν) (i : Nat) : Bool :=
  match (a.slotAt i).occupancy with
  | .released c => c.refs == 0
  | _ => false

/-! ## Choosing a slot -/

/-- Whether a slot's buffer can be used for a request. -/
def fits (a : Arena ν) (usage : SlotUsage) (bytes : Nat) (i : Nat) : Bool :=
  match (a.slotAt i).backing with
  | some backing => backing.usage == usage && decide (bytes ≤ backing.capacity)
  | none => false

/-- The free slot with the smallest buffer that fits, the longest free of these. -/
def bestFit? (a : Arena ν) (usage : SlotUsage) (bytes : Nat) : Option Nat :=
  (a.free.filter (a.fits usage bytes)).foldl (fun best i =>
    match best with
    | none => some i
    | some b => if (a.slotAt i).capacity < (a.slotAt b).capacity then some i else some b) none

/-- The slot for a new buffer: the longest free one without a buffer, else a new one. -/
def vacancy (a : Arena ν) : Nat × Arena ν :=
  match a.free.find? fun i => (a.slotAt i).backing.isNone with
  | some i => (i, { a with free := a.free.erase i })
  | none => (a.slots.size, { a with slots := a.slots.push .empty })

end Arena

end Strata
