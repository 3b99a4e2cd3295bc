import Strata.Color.Raster
import Strata.Device.Capabilities
import Strata.Memory.Pool
import Strata.Plan.Descriptor
import Strata.Plan.Stage

/-!
# From a stack to a plan

`Draft.check` looks at a stack, its uploads and the library, and changes nothing. `Draft.emit` runs
once the pipelines are there: it looks at the slots again, allocates working images and parameter
blocks, and lays out the stages. The bottom layer is copied into a working image, each later layer
folded onto the image before it. An image is used again as soon as the fold that reads it is laid
out, so two are enough.
-/

namespace Strata

structure PlanStep (ν α : Type) where
  source : Handle
  key : PipelineKey
  placement : Rectangle ν
  opacity : α
deriving Repr, DecidableEq

structure Draft (ν α : Type) where
  steps : List (PlanStep ν α)
  uploads : List (Upload α)
  destination : Handle
deriving Repr, DecidableEq

namespace Draft

variable {ν α : Type} [Measure ν]

/-! ## Checking -/

section
variable (arena : Arena ν) (capabilities : Capabilities ν)

/-- Whether the device can bind a working image and dispatch over it. -/
def checkCanvas (width height : ν) : Except Failure Unit :=
  let bytes := workingBytes width height
  if !capabilities.fits bytes then .error (.of (.workingImageTooLarge (Numeral.text bytes)))
  else
    let (x, y) := workgroupGrid width height (Measure.ofNat workgroupEdge)
    match capabilities.limits.maxWorkgroups with
    | none => .ok ()
    | some limit =>
      if limit < x ∨ limit < y then .error (.of (.gridTooLarge (Numeral.extent x y) (Numeral.text limit)))
      else .ok ()

/-- The slot that receives the result, and the canvas it declares. -/
def checkDestination (destination : Handle) : Except Failure (SlotRef ν) := do
  let slot ← arena.resolve destination
  if slot.format.usage ≠ .readback then throw (.of .destinationNotReadback)
  let needed := workingBytes slot.format.width slot.format.height
  if Measure.ofNat slot.size < needed then throw (.of (.destinationTooSmall slot.size (Numeral.text needed)))
  checkCanvas capabilities slot.format.width slot.format.height
  return slot

/-- One descriptor, at its place in the stack. -/
def checkStep (destination : Handle) (width height : ν) (index : Nat) (d : BlendDescriptor ν α) :
    Except Failure (PlanStep ν α) := do
  let canvas := Rectangle.ofSize width height
  let size := Numeral.extent width height
  if d.destination ≠ destination then throw (.of (.otherDestination index))
  let source ← arena.resolve d.source
  let some format := source.format.pixels | throw (.of (.sourceNotImage index))
  if source.format.usage ≠ .storage then throw (.of (.sourceNotImage index))
  if !capabilities.fits (Measure.ofNat source.size) then throw (.of (.sourceTooLarge index source.size))
  let placement := d.placement.getD canvas
  if index = 0 ∧ !placement.same canvas then throw (.of (.baseNotCanvas size placement.text))
  if !canvas.contains placement then throw (.of (.placementOutside index size placement.text))
  if !(source.format.width == placement.width && source.format.height == placement.height) then
    throw (.of (.sizeMismatch index (Numeral.extent source.format.width source.format.height)
      (Numeral.extent placement.width placement.height)))
  let mode := if index = 0 then copyMode else d.mode
  return ⟨d.source, ⟨mode, d.space, format⟩, placement, d.opacity⟩

def checkSteps (destination : Handle) (width height : ν) :
    (index : Nat) → List (BlendDescriptor ν α) → Except Failure (List (PlanStep ν α))
  | _, [] => .ok []
  | index, d :: rest => do
    let step ← checkStep arena capabilities destination width height index d
    let steps ← checkSteps destination width height (index + 1) rest
    return step :: steps

def checkUpload (upload : Upload α) : Except Failure Unit := do
  let slot ← arena.resolve upload.handle
  if slot.size < upload.data.size then throw (.of (.uploadTooLarge upload.data.size slot.size))
  if upload.data.size % copyAlignment ≠ 0 then throw (.of .uploadMisaligned)

/-- Check a stack and its uploads. -/
def check (library : Library) (stack : List (BlendDescriptor ν α)) (uploads : List (Upload α)) :
    Except Failure (Draft ν α) := do
  arena.checkOpen
  let some base := stack.head? | throw (.of .emptyStack)
  let destination ← checkDestination arena capabilities base.destination
  let steps ← checkSteps arena capabilities base.destination destination.format.width
    destination.format.height 0 stack
  uploads.forM (checkUpload arena)
  steps.forM fun step =>
    if (library.resolve step.key).isNone then throw (.of (.unsupportedKey step.key.text)) else pure ()
  return ⟨steps, uploads, base.destination⟩

end

/-! ## Emitting -/

structure Emission (ν α : Type) where
  pool : Pool ν α
  owned : List Handle
  stages : List (Stage ν α)

namespace Emission

def allocate (e : Emission ν α) (purpose : AllocationPurpose) (width height : ν) :
    Attempt Failure (Emission ν α) Handle :=
  let (format, size) := match purpose with
    | .intermediate => (SlotFormat.image .storage .float32 width height, workingBytes width height)
    | .params => (SlotFormat.params, Measure.ofNat paramsSize)
  ((e.pool.allocate format size).lift fun pool => { e with pool }).andThen fun handle e =>
    (.ok handle, { e with owned := e.owned ++ [handle], stages := e.stages ++ [.allocate handle purpose] })

omit [Measure ν] in
/-- Append a stage, after a barrier if it reads what the stage before it writes. -/
def push (e : Emission ν α) (stage : Stage ν α) : Emission ν α :=
  let waits := (e.stages.getLast?.map stage.readsFrom).getD false
  { e with stages := e.stages ++ (if waits then [.barrier, stage] else [stage]) }

/-- Working images for `count` results. `spare` holds images whose readers are laid out; `previous`
becomes spare once the next result is chosen. -/
def images (width height : ν) : (count : Nat) → (spare : List Handle) → (previous : Option Handle) →
    Emission ν α → Attempt Failure (Emission ν α) (List Handle)
  | 0, _, _, e => (.ok [], e)
  | count + 1, handle :: spare, previous, e =>
    (images width height count (previous.toList ++ spare) (some handle) e).andThen fun results e =>
      (.ok (handle :: results), e)
  | count + 1, [], previous, e =>
    (e.allocate .intermediate width height).andThen fun handle e =>
      (images width height count previous.toList (some handle) e).andThen fun results e =>
        (.ok (handle :: results), e)

section
variable [Channel α] [Stored α]

def params (width height : ν) (step : PlanStep ν α) : DispatchParams ν α :=
  ⟨width, height, step.opacity, step.placement.x, step.placement.y, step.placement.width, step.placement.height⟩

def paramBlocks (width height : ν) : List (PlanStep ν α) → Emission ν α →
    Attempt Failure (Emission ν α) (List Handle)
  | [], e => (.ok [], e)
  | step :: rest, e =>
    (e.allocate .params width height).andThen fun handle e =>
      let e := { e with stages := e.stages ++ [.upload handle (params width height step).pack] }
      (paramBlocks width height rest e).andThen fun handles e => (.ok (handle :: handles), e)

end

def dispatch (width height : ν) (index : Nat) (step : PlanStep ν α) (pipeline : Pipeline)
    (backdrop : Option Handle) (result params : Handle) : Stage ν α :=
  let (x, y) := workgroupGrid width height (Measure.ofNat workgroupEdge)
  .dispatch s!"Blend {index} ({step.key.text})" pipeline ⟨backdrop, step.source, result, params⟩ x y

/-- Append the dispatches of all steps. `backdrop` is the result of the step before. -/
def dispatches (width height : ν) : (index : Nat) → (backdrop : Option Handle) → List (PlanStep ν α) →
    List Pipeline → (results params : List Handle) → Emission ν α → Emission ν α
  | index, backdrop, step :: steps, pipeline :: pipelines, result :: results, block :: blocks, e =>
    dispatches width height (index + 1) (some result) steps pipelines results blocks
      (e.push (dispatch width height index step pipeline backdrop result block))
  | _, _, _, _, _, _, e => e

/-- Lay out all stages. -/
def layOut [Channel α] [Stored α] (draft : Draft ν α) (pipelines : List Pipeline) (width height : ν)
    (e : Emission ν α) : Attempt Failure (Emission ν α) (Plan ν α) :=
  let e := { e with stages := e.stages ++ draft.uploads.map fun u => .upload u.handle u.data }
  (images width height draft.steps.length [] none e).andThen fun results e =>
    (paramBlocks width height draft.steps e).andThen fun blocks e =>
      let e := dispatches width height 0 none draft.steps pipelines results blocks e
      match results.getLast? with
      | none => (.error (.of .emptyStack), e)
      | some last =>
        let e := e.push (.download last draft.destination (workingBytes width height))
        (.ok ⟨e.stages, e.owned, width, height, dataLength width height⟩, e)

end Emission

omit [Measure ν] in
/-- Whether everything the plan needs is still there; answers the canvas. -/
def recheck (draft : Draft ν α) (arena : Arena ν) : Except Failure (SlotFormat ν) := do
  arena.checkOpen
  let destination ← arena.resolve draft.destination
  draft.steps.forM fun step => do
    let _ ← arena.resolve step.source
    return ()
  return destination.format

/-- Make the plan. What a failing attempt allocated is released. -/
def emit [Channel α] [Stored α] (draft : Draft ν α) (pipelines : List Pipeline) (pool : Pool ν α) :
    Attempt Failure (Pool ν α) (Plan ν α) :=
  match draft.recheck pool.arena with
  | .error failure => (.error failure, pool)
  | .ok canvas =>
    match Emission.layOut draft pipelines canvas.width canvas.height ⟨pool, [], []⟩ with
    | (.ok plan, e) => (.ok plan, e.pool)
    | (.error failure, e) => (e.pool.releaseLive e.owned).endWith (.error failure)

end Draft

end Strata
