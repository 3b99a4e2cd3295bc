import Strata.Memory.Arena

/-!
# Pooled buffers

The arena together with the device that its buffers live on. Buffers of free slots are kept for
reuse within a bound, and given back to the device when the memory budget needs them. The device may
fail to destroy a buffer; the operation that asked for it then stops where it is.
-/

namespace Strata

structure Pool (ν α : Type) where
  arena : Arena ν
  device : Device ν α

namespace Pool

variable {ν α : Type}

/-- Take its buffer from a slot, if it has one, and destroy it. -/
def destroyBacking (p : Pool ν α) (i : Nat) : Attempt Failure (Pool ν α) Unit :=
  match (p.arena.slotAt i).backing with
  | none => (.ok (), p)
  | some backing =>
    match p.device.destroyBuffer backing.buffer with
    | (.error raised, device) => (.error (.ofRaised raised), { p with device })
    | (.ok (), device) => (.ok (), ⟨p.arena.modifySlot i fun slot => { slot with backing := none }, device⟩)

/-- Give back the bytes of a slot. -/
def dropBacking (p : Pool ν α) (i : Nat) : Attempt Failure (Pool ν α) Unit :=
  let bytes := (p.arena.slotAt i).capacity
  (p.destroyBacking i).andThen fun _ p =>
    (.ok (), { p with arena := { p.arena with allocated := p.arena.allocated - bytes } })

def trim (p : Pool ν α) : Attempt Failure (Pool ν α) Unit := Attempt.each dropBacking p p.arena.free

/-- The failure of an allocation whose buffer the device did not create. -/
def bufferFailure (bytes : Nat) : Raised → Failure
  | .error (.range message) => .engine (.refusedBuffer bytes) (some (.range message))
  | raised => .engine .bufferCreationFailed raised.error?

section
variable [Measure ν]

/-- The bytes that would be held after an allocation. -/
def demand (p : Pool ν α) (bytes : Nat) : ν := Measure.ofNat (p.arena.allocated + bytes)

/-- Make room in the budget, by trimming where that is needed. -/
def ensureBudget (p : Pool ν α) (bytes : Nat) : Attempt Failure (Pool ν α) Unit :=
  match p.arena.options.budget with
  | none => (.ok (), p)
  | some budget =>
    if p.demand bytes ≤ budget then (.ok (), p)
    else
      p.trim.andThen fun _ p =>
        if budget < p.demand bytes then
          (.error (.of (.budgetExceeded bytes p.arena.allocated (Numeral.text budget))), p)
        else (.ok (), p)

def createSlot (p : Pool ν α) (usage : SlotUsage) (bytes : Nat) : Attempt Failure (Pool ν α) Nat :=
  (p.ensureBudget bytes).andThen fun _ p =>
    let (i, arena) := p.arena.vacancy
    let label := s!"{arena.options.label} slot {i} ({usage.name})"
    match p.device.createBuffer label usage.flags? bytes with
    | (.error raised, device) =>
      (.error (bufferFailure bytes raised), ⟨{ arena with free := arena.free ++ [i] }, device⟩)
    | (.ok buffer, device) =>
      let arena := arena.modifySlot i fun slot => { slot with backing := some ⟨buffer, bytes, usage⟩ }
      (.ok i, ⟨{ arena with allocated := arena.allocated + bytes }, device⟩)

/-- A slot with a buffer for a request, taken off the free ones. -/
def takeSlot (p : Pool ν α) (usage : SlotUsage) (bytes : Nat) : Attempt Failure (Pool ν α) Nat :=
  match p.arena.bestFit? usage bytes with
  | some i => (.ok i, { p with arena := { p.arena with free := p.arena.free.erase i } })
  | none => p.createSlot usage bytes

/-- Allocate a slot for `size` bytes: of the free slots whose buffer fits, one with the smallest, or
else one with a new buffer. -/
def allocate (p : Pool ν α) (format : SlotFormat ν) (size : ν) : Attempt Failure (Pool ν α) Handle :=
  match p.arena.checkOpen, Measure.wholeWords? size with
  | .error failure, _ => (.error failure, p)
  | .ok (), none => (.error (.of (.invalidAllocationSize (Numeral.text size))), p)
  | .ok (), some bytes =>
    (p.takeSlot format.usage bytes).andThen fun i p =>
      (.ok (p.arena.handleAt i), { p with arena := p.arena.occupy i format bytes })

/-- Free a slot. Its buffer is kept unless that would exceed the bound on pooled bytes. A slot whose
buffer should be destroyed and is not stays out of use. -/
def reclaim (p : Pool ν α) (i : Nat) : Attempt Failure (Pool ν α) Unit :=
  let arena := p.arena.modifySlot i fun slot =>
    { slot with generation := slot.generation + 1, occupancy := .free }
  let pooled : ν := Measure.ofNat (arena.pooledBytes + (arena.slotAt i).capacity)
  let dropped :=
    if arena.options.maxPooled < pooled then dropBacking { p with arena } i else (.ok (), { p with arena })
  dropped.andThen fun _ p => (.ok (), { p with arena := { p.arena with free := p.arena.free ++ [i] } })

def reclaimSpent (p : Pool ν α) (i : Nat) : Attempt Failure (Pool ν α) Unit :=
  if p.arena.isSpent i then p.reclaim i else (.ok (), p)

/-- Drop a reference. One into a slot that has moved on is ignored. -/
def relinquish (p : Pool ν α) (h : Handle) : Attempt Failure (Pool ν α) Unit :=
  match p.arena.position? h with
  | none => (.ok (), p)
  | some i => { p with arena := p.arena.dropRef i }.reclaimSpent i

/-- Give up a live slot. It is free once nothing refers to it. -/
def release (p : Pool ν α) (h : Handle) : Attempt Failure (Pool ν α) Unit :=
  match p.arena.locate h with
  | .error failure => (.error failure, p)
  | .ok (i, _) => { p with arena := p.arena.giveUp i }.reclaimSpent i

def releaseIfLive (p : Pool ν α) (h : Handle) : Attempt Failure (Pool ν α) Unit :=
  if p.arena.contains h then p.release h else (.ok (), p)

def releaseLive (p : Pool ν α) (handles : List Handle) : Attempt Failure (Pool ν α) Unit :=
  Attempt.each releaseIfLive p handles

end

/-- Look up a slot and take a reference to it. -/
def acquire (p : Pool ν α) (h : Handle) : Attempt Failure (Pool ν α) (SlotRef ν) :=
  match p.arena.locate h with
  | .error failure => (.error failure, p)
  | .ok (i, ref) => (.ok ref, { p with arena := p.arena.retain i })

/-- Let the handles to one slot go stale, and free it without its buffer. -/
def invalidateSlot (p : Pool ν α) (i : Nat) : Attempt Failure (Pool ν α) Unit :=
  (p.destroyBacking i).andThen fun _ p =>
    let arena := p.arena.modifySlot i fun slot => ⟨slot.generation + 1, .free, none⟩
    (.ok (), { p with arena := { arena with free := arena.free ++ [i] } })

/-- Destroy every buffer and let every handle go stale. The bytes are given back at the end. -/
def invalidate (p : Pool ν α) : Attempt Failure (Pool ν α) Unit :=
  let indices := List.range p.arena.slots.size
  (Attempt.each invalidateSlot { p with arena := { p.arena with free := [] } } indices).andThen fun _ p =>
    (.ok (), { p with arena := { p.arena with allocated := 0 } })

/-- Invalidate every slot and refuse allocation from now on. -/
def close (p : Pool ν α) (closing : Closing) : Attempt Failure (Pool ν α) Unit :=
  p.invalidate.andThen fun _ p => (.ok (), { p with arena := { p.arena with closing := some closing } })

end Pool

end Strata
