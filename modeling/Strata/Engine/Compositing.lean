import Strata.Engine.Submission

/-!
# Composite calls

A call validates its layers, then makes attempts. An attempt allocates a slot for each layer and one
for the result, makes a plan, submits it, waits, and stores the output; however it ends, it releases
what it allocated. An attempt that ran out of memory may be made again after the pool is trimmed. An
abort ends the wait at once, the submission drains by itself.
-/

namespace Strata

def Texels.block {α : Type} : Texels α → Block α
  | .srgb8 bytes | .unorm8 bytes => .ofBytes bytes
  | .float32 values => .ofChannels values

namespace Engine

variable {ν α : Type}

def setCall (e : Engine ν α) (job : JobId) (c : CompositeCall ν α) : Engine ν α := e.setJob job (.composite c)

/-- An attempt ends: release what it allocated itself and what its plan owns. What fails meanwhile
becomes its result. -/
def leave [Measure ν] (e : Engine ν α) (job : JobId) (owned : List Handle)
    (result : Except Failure (Raster ν α)) : Engine ν α :=
  match e.call? job with
  | none => e
  | some c =>
    let (result, pool) := (e.pool.releaseLive (c.held ++ owned)).endWith result
    ({ e with pool }.setCall job { c with held := [], phase := .ended }).schedule 1 (.attemptEnded job result)

def ownedBy (e : Engine ν α) (plan : PlanId) : List Handle := (e.plans[plan]?.map (·.plan.owned)).getD []

/-- Slots for the layers, in order. Answers those that were allocated before a failure, too. -/
def allocateSources [Measure ν] (pool : Pool ν α) :
    List (Layer ν α) → Except Failure Unit × List Handle × Pool ν α
  | [] => (.ok (), [], pool)
  | layer :: rest =>
    let (width, height, format) := (layer.raster.width, layer.raster.height, layer.raster.format)
    match pool.allocate (.image .storage format width height) (imageBytes format width height) with
    | (.error failure, pool) => (.error failure, [], pool)
    | (.ok handle, pool) =>
      let (result, handles, pool) := allocateSources pool rest
      (result, handle :: handles, pool)

section
variable [Measure ν] [Channel α]

/-- The stack of some layers over their slots. -/
def stackOf (destination : Handle) (layers : List (Layer ν α)) (sources : List Handle) :
    Except Failure (List (BlendDescriptor ν α)) :=
  (layers.zip sources).mapM fun (layer, source) =>
    BlendDescriptor.make source destination layer.mode.name layer.space.name layer.opacity layer.placement

def uploadsOf (layers : List (Layer ν α)) (sources : List Handle) : List (Upload α) :=
  (layers.zip sources).map fun (layer, source) => ⟨source, layer.raster.texels.block⟩

/-- Make a plan over the slots of an attempt. -/
def planAttempt (e : Engine ν α) (job : JobId) (c : CompositeCall ν α) (destination : Handle)
    (sources : List Handle) : Engine ν α :=
  let c := { c with held := sources ++ [destination] }
  match stackOf destination c.layers sources with
  | .error failure => (e.setCall job c).leave job [] (.error failure)
  | .ok stack =>
    match e.beginPlanning job stack (uploadsOf c.layers sources) with
    | (.error failure, e) =>
      (e.setCall job { c with phase := .planned (.error failure) }).schedule 1 (.planned job)
    | (.ok p, e) => e.setCall job { c with phase := .planning p }

def startAttempt (e : Engine ν α) (job : JobId) (c : CompositeCall ν α) : Engine ν α :=
  match e.session.checkUsable, c.layers.head? with
  | .error failure, _ =>
    (e.setCall job { c with held := [], phase := .ended }).schedule 1 (.attemptEnded job (.error failure))
  | .ok (), none =>
    (e.setCall job { c with held := [], phase := .ended }).schedule 1
      (.attemptEnded job (.error (.of (.malformed "layers" [⟨[], .noLayers⟩]))))
  | .ok (), some base =>
    match allocateSources e.pool c.layers with
    | (.error failure, sources, pool) =>
      ({ e with pool }.setCall job { c with held := sources }).leave job [] (.error failure)
    | (.ok (), sources, pool) =>
      let (width, height) := (base.raster.width, base.raster.height)
      match pool.allocate (.image .readback .float32 width height) (workingBytes width height) with
      | (.error failure, pool) =>
        ({ e with pool }.setCall job { c with held := sources }).leave job [] (.error failure)
      | (.ok destination, pool) => { e with pool }.planAttempt job c destination sources

/-- Begin a call. `verifies` compares its result with the one computed on the host. -/
def startComposite (e : Engine ν α) (layers options : Value α) (verifies : Bool) : JobId × Engine ν α :=
  let (job, e) := e.addJob .lookup
  match parseLayers layers, parseOptions options with
  | .error failure, _ => (job, e.settle job (.error failure))
  | .ok _, .error failure => (job, e.settle job (.error failure))
  | .ok layers, .ok options =>
    match e.abortReason? options.signal with
    | some reason => (job, e.settle job (.error reason))
    | none =>
      (job, e.startAttempt job ⟨layers, options.outputFormat, options.signal, verifies, 0, [], .ended⟩)

def configure (e : Engine ν α) (change : Value α) : Except Failure Unit × Engine ν α :=
  match parseConfig change with
  | .error failure => (.error failure, e)
  | .ok change => (.ok (), { e with config := e.config.update change })

end

section
variable [Measure ν] [Channel α] [Stored α] [Transfer α]

/-- The plan of an attempt is there, or has failed. Nothing is submitted after an abort. -/
def planned (e : Engine ν α) (job : JobId) : Engine ν α :=
  match e.call? job with
  | some c =>
    match c.phase with
    | .planned (.error failure) => e.leave job [] (.error failure)
    | .planned (.ok plan) =>
      match e.abortReason? c.signal with
      | some reason => e.leave job (e.ownedBy plan) (.error reason)
      | none =>
        match e.submit plan with
        | (.error failure, e) => e.leave job (e.ownedBy plan) (.error failure)
        | (.ok token, e) =>
          let e := e.setCall job { c with phase := .draining plan token }
          let e := match c.signal with
            | some signal => { e with listeners := e.listeners ++ [(signal, job, token)] }
            | none => e
          e.waitFor job token
    | _ => e
  | none => e

/-- The submission of an attempt has ended, or its wait was aborted. -/
def resumed (e : Engine ν α) (job : JobId) (token : SubmissionId) (outcome : Outcome) : Engine ν α :=
  match e.call? job with
  | some c =>
    match c.phase, c.layers.head? with
    | .draining plan awaited, some base =>
      if awaited = token then
        let output := (e.plans[plan]?.map PlanRecord.output).getD #[]
        e.leave job (e.ownedBy plan) <| outcome.map fun _ =>
          Raster.encode output base.raster.width base.raster.height (c.outputFormat.getD base.raster.format)
      else e
    | _, _ => e
  | none => e

/-- The submission of a call that can be aborted has ended. If the call has already left it, only a
failure is reported. -/
def drained (e : Engine ν α) (job : JobId) (token : SubmissionId) (outcome : Outcome) : Engine ν α :=
  let listening := e.listeners.any fun l => l.2 == (job, token)
  let e := { e with listeners := e.listeners.filter fun l => l.2 != (job, token) }
  let aborted := match e.call? job with
    | some c => (e.abortReason? c.signal).isSome
    | none => false
  let e := match outcome with
    | .error failure => if aborted then e.report (.failedAfterAbort failure) else e
    | .ok () => e
  if listening then e.schedule 1 (.resumed job token outcome) else e

/-- What a finished call answers. -/
def answerOf (e : Engine ν α) (c : CompositeCall ν α) (result : Raster ν α) : Except Failure (JobValue ν α) :=
  if c.verifies then do
    let host ← Direct.composite c.layers (some result.format)
    let comparison ← result.compare host e.config.tolerance
    return .verified result host comparison
  else .ok (.raster result)

/-- An attempt has ended. If it ran out of memory and retries are left, the pool is trimmed and
another attempt starts; otherwise the call ends. -/
def attemptEnded (e : Engine ν α) (job : JobId) (result : Except Failure (Raster ν α)) : Engine ν α :=
  match e.call? job, result with
  | none, _ => e
  | some c, .ok raster =>
    let e := match e.config.logPerformance, c.layers.head? with
      | some true, some base =>
        e.report (.composited c.layers.length (Numeral.extent base.raster.width base.raster.height) c.retries)
      | _, _ => e
    e.settle job (e.answerOf c raster)
  | some c, .error failure =>
    let limit := e.config.retries.getD 0
    if failure.code? = some .outOfMemory ∧ c.retries < limit then
      let e := e.report (.retrying (c.retries + 1) limit)
      match e.pool.trim with
      | (.ok (), pool) => { e with pool }.startAttempt job { c with retries := c.retries + 1 }
      | (.error failure, pool) => { e with pool }.settle job (.error failure)
    else e.settle job (.error failure)

end

/-! ## Aborting -/

def addSignal (e : Engine ν α) : SignalId × Engine ν α :=
  (e.signals.size, { e with signals := e.signals.push none })

/-- The failure that a reason aborts with. None is the platform's own; what is no error is replaced. -/
def abortFailure : Option Raised → Failure
  | none => .aborted "This operation was aborted"
  | some (.error error) => .host error
  | some (.text _) => .aborted "The operation was aborted"

/-- Abort a signal, the first time. Calls that listen to it go on at once. -/
def abort (e : Engine ν α) (signal : SignalId) (reason : Option Raised) : Engine ν α :=
  if (e.signals.getD signal none).isSome then e
  else
    let failure := abortFailure reason
    let told := e.listeners.filter (·.1 == signal)
    let e := { e with
      signals := e.signals.setIfInBounds signal (some failure)
      listeners := e.listeners.filter (·.1 != signal) }
    told.foldl (fun e (_, job, token) => e.schedule 1 (.resumed job token (.error failure))) e

end Engine

end Strata
