import Strata.Engine.Planning

/-!
# Submissions

A plan is submitted once. Its slots are referred to until it has finished; its stages are recorded
and run inside two error scopes; when the queue is done its downloads are read, and its outcome is
delivered to whoever waits for its token. Losing or destroying the device settles what is pending.
-/

namespace Strata.Engine

variable {ν α : Type}

/-! ## Encoding -/

/-- A command buffer in the making. -/
structure Encoder (ν α : Type) where
  device : Device ν α
  /-- Whether a compute pass is open. -/
  passOpen : Bool := false
  commands : List (Command ν) := []
  downloads : List (Download ν) := []

namespace Encoder

/-- Begin a compute pass unless one is open. -/
def ensurePass (c : Encoder ν α) : Encoder ν α :=
  if c.passOpen then c
  else { c with passOpen := true, device := { c.device with passes := c.device.passes + 1 } }

def bind (arena : Arena ν) (label : String) (pipeline : Pipeline) (b : Bindings) :
    Except Failure DispatchBuffers := do
  let source ← arena.resolve b.source
  let result ← arena.resolve b.result
  let params ← arena.resolve b.params
  match pipeline.bindings with
  | .copy => return ⟨source.buffer, source.buffer, result.buffer, params.buffer⟩
  | .blend =>
    let some handle := b.backdrop | throw (.of (.noBackdrop label))
    let backdrop ← arena.resolve handle
    return ⟨backdrop.buffer, source.buffer, result.buffer, params.buffer⟩

variable [Measure ν] [Channel α] [Stored α] [Transfer α]

/-- Record one stage. Uploads take effect at once; a barrier and a download end the open pass. -/
def stage (arena : Arena ν) (plan : PlanId) (c : Encoder ν α) (s : Stage ν α) :
    Attempt Failure (Encoder ν α) Unit :=
  match s with
  | .allocate .. => (.ok (), c)
  | .upload handle data =>
    match arena.resolve handle with
    | .error failure => (.error failure, c)
    | .ok slot =>
      let (result, device) := c.device.writeBuffer slot.buffer data
      (result.mapError .ofRaised, { c with device })
  | .barrier => (.ok (), { c with passOpen := false })
  | .dispatch label pipeline bindings x y =>
    let c := c.ensurePass
    match bind arena label pipeline bindings with
    | .error failure => (.error failure, c)
    | .ok buffers =>
      match c.device.call .createBindGroup id with
      | (.error raised, device) => (.error (.ofRaised raised), { c with device })
      | (.ok (), device) =>
        let dispatch : Dispatch ν := ⟨pipeline.artifact.program, buffers, x, y⟩
        (.ok (), { c with device, commands := c.commands ++ [.dispatch dispatch] })
  | .download source destination bytes =>
    let c := { c with passOpen := false }
    match arena.resolve destination.slot, arena.resolve source with
    | .error failure, _ => (.error failure, c)
    | .ok _, .error failure => (.error failure, c)
    | .ok slot, .ok source =>
      (.ok (), { c with
        commands := c.commands ++ [.copy source.buffer slot.buffer bytes]
        downloads := c.downloads ++ [⟨slot.buffer, bytes, destination.target.within plan⟩] })

def stages (arena : Arena ν) (plan : PlanId) (c : Encoder ν α) :
    List (Stage ν α) → Attempt Failure (Encoder ν α) Unit
  | [] => (.ok (), c)
  | s :: rest =>
    match c.stage arena plan s with
    | (.error failure, c) => (.error failure, c)
    | (.ok (), c) => c.stages arena plan rest

/-- Record all stages into one command buffer and submit it. Answers what is to be read. -/
def run (arena : Arena ν) (plan : PlanId) (device : Device ν α) (stages : List (Stage ν α)) :
    Attempt Failure (Device ν α) (List (Download ν)) :=
  match device.call .createEncoder id with
  | (.error raised, device) => (.error (.ofRaised raised), device)
  | (.ok (), device) =>
    match Encoder.stages arena plan { device } stages with
    | (.error failure, c) => (.error failure, c.device)
    | (.ok (), c) =>
      match c.device.submit c.commands with
      | (.error raised, device) => (.error (.ofRaised raised), device)
      | (.ok (), device) => (.ok c.downloads, device)

end Encoder

/-! ## Submitting -/

/-- Take a reference to every handle; on a failure none is kept. -/
def acquireAll [Measure ν] (pool : Pool ν α) :
    (taken : List Handle) → List Handle → Attempt Failure (Pool ν α) Unit
  | _, [] => (.ok (), pool)
  | taken, h :: rest =>
    match pool.acquire h with
    | (.error failure, pool) => (Attempt.each Pool.relinquish pool taken.reverse).endWith (.error failure)
    | (.ok _, pool) => acquireAll pool (h :: taken) rest

def setDevice (e : Engine ν α) (device : Device ν α) : Engine ν α := { e with pool := { e.pool with device } }

/-- Open both scopes of a submission, the one for memory outside. -/
def pushScopes (d : Device ν α) : Attempt Raised (Device ν α) Unit :=
  match d.pushScope .outOfMemory with
  | (.error raised, d) => (.error raised, d)
  | (.ok (), d) => d.pushScope .validation

/-- Run the stages of a plan inside error scopes. -/
def execute [Measure ν] [Channel α] [Stored α] [Transfer α] (e : Engine ν α) (token : SubmissionId) (id : PlanId)
    (plan : Plan ν α) : Attempt Failure (Engine ν α) (Encoded ν) :=
  match pushScopes e.pool.device with
  | (.error raised, device) => (.error (.ofRaised raised), e.setDevice device)
  | (.ok (), device) =>
    let (downloads, device) := Encoder.run e.pool.arena id device plan.stages
    let (validation, device) := device.popScope
    let (memory, device) := device.popScope
    (.ok ⟨token, validation.mapError .ofRaised, memory.mapError .ofRaised, downloads⟩, e.setDevice device)

/-- Submit a plan. Answers the token to wait for. -/
def submit [Measure ν] [Channel α] [Stored α] [Transfer α] (e : Engine ν α) (id : PlanId) :
    Attempt Failure (Engine ν α) SubmissionId :=
  match e.session.checkUsable, e.plans[id]? with
  | .error failure, _ => (.error failure, e)
  | .ok (), none => (.error (.of .alreadySubmitted), e)
  | .ok (), some record =>
    if id ∈ e.session.consumed then (.error (.of .alreadySubmitted), e)
    else
      let handles := record.plan.stages.flatMap Stage.handles
      match acquireAll e.pool [] handles with
      | (.error failure, pool) => (.error failure, { e with pool })
      | (.ok (), pool) =>
        let token := Ident.number e.session.nextToken
        let e := { e with
          pool
          session := { e.session with
            consumed := id :: e.session.consumed
            nextToken := e.session.nextToken + 1
            pending := e.session.pending ++ [(token, handles)]
            unawaited := e.session.unawaited ++ [token] } }
        match e.execute token id record.plan with
        | (.error failure, e) => (.error failure, e)
        | (.ok encoded, e) =>
          (.ok token, { e.schedule 2 (.scopesClosed encoded) with completion := e.completion.watch token })

/-! ## The way to the outcome -/

/-- Bring what was raised under an error the engine knows. -/
def classify (e : Engine ν α) (failure : Failure) : Failure :=
  let cause := match failure with
    | .host error => some error
    | _ => none
  match failure with
  | .engine .. | .host (.coded ..) => failure
  | _ =>
    if e.session.phase = .lost then .engine .deviceLost cause
    else
      match failure with
      | .host (.range _) => .engine .ranOutOfMemory cause
      | _ => .engine .submissionFailed cause

def reject (e : Engine ν α) (token : SubmissionId) (failure : Failure) : Engine ν α :=
  e.schedule 1 (.rejected token failure)

/-- The scopes of a submission have answered. What failed while encoding is classified only now. -/
def scopesClosed (e : Engine ν α) (s : Encoded ν) : Engine ν α :=
  match s.validation, s.memory, s.downloads with
  | .error failure, _, .error _ => e.schedule 1 (.finished s.token (.error failure))
  | .ok _, .error failure, .error _ => e.schedule 1 (.finished s.token (.error failure))
  | .ok _, .ok _, .error failure => e.schedule 1 (.finished s.token (.error (e.classify failure)))
  | .error failure, _, .ok _ => e.reject s.token failure
  | .ok _, .error failure, .ok _ => e.reject s.token failure
  | .ok _, .ok _, .ok _ =>
    match e.pool.device.takeFault .workDone with
    | (some raised, device) => (e.setDevice device).schedule 1 (.workDone s (.error (.ofRaised raised)))
    | (none, device) =>
      let e := e.setDevice device
      if device.held then { e with heldBack := e.heldBack ++ [s] } else e.schedule 1 (.workDone s (.ok ()))

/-- Map the next download, or finish if there is none. -/
def nextDownload (e : Engine ν α) (token : SubmissionId) :
    List (Download ν) → Engine ν α
  | [] => e.schedule 2 (.finished token (.ok ()))
  | d :: rest =>
    let (result, device) := e.pool.device.mapBuffer d.buffer
    (e.setDevice device).schedule 1 (.mapped token (d :: rest) (result.mapError .ofRaised))

def workDone (e : Engine ν α) (s : Encoded ν) (outcome : Outcome) : Engine ν α :=
  match outcome with
  | .error failure => e.reject s.token failure
  | .ok () =>
    if e.session.phase ≠ .ready then e.reject s.token (.of .lostDuringSubmission)
    else
      match s.memory, s.validation with
      | .ok (some message), _ => e.reject s.token (.of (.capturedOutOfMemory message))
      | _, .ok (some message) => e.reject s.token (.of (.capturedValidation message))
      | _, _ => e.nextDownload s.token (s.downloads.toOption.getD [])

def readMapped [Measure ν] [Zero α] [Stored α] (block : Block α) (bytes : ν) (room : Nat) :
    Except Raised (Array α) :=
  match Measure.toLength? bytes with
  | none => .error Device.outOfRange
  | some length =>
    if length % 4 ≠ 0 ∨ room < length / 4 then .error Device.outOfRange
    else .ok (Array.ofFn (n := length / 4) fun i => block.channelAt i)

/-- The same array with other channels at its start. -/
def overwrite (old values : Array α) : Array α := values ++ old.extract values.size old.size

/-- Write channels to the start of an array of the host. -/
def fill (e : Engine ν α) (a : HostArray) (values : Array α) : Engine ν α :=
  { e with
    plans := match a with
      | .output plan => e.plans.modify plan fun r => { r with filled := overwrite r.filled values }
      | .made _ => e.plans
    arrays := match a with
      | .output _ => e.arrays
      | .made id => e.arrays.modify id (overwrite · values) }

/-- A buffer is mapped: read it into the target of the download. -/
def mapped [Measure ν] [Channel α] [Stored α] (e : Engine ν α) (token : SubmissionId)
    (downloads : List (Download ν)) (outcome : Outcome) : Engine ν α :=
  match downloads, outcome with
  | _, .error failure => e.reject token failure
  | [], .ok () => e.nextDownload token []
  | d :: rest, .ok () =>
    match e.pool.device.call .mappedRange id with
    | (.error raised, device) => (e.setDevice device).reject token (.ofRaised raised)
    | (.ok (), device) =>
      let e := e.setDevice device
      match readMapped (device.buffers.block d.buffer) d.bytes (e.room d.target) with
      | .error raised => e.reject token (.ofRaised raised)
      | .ok values =>
        let e := e.fill d.target values
        match device.call .unmapBuffer id with
        | (.error raised, device) => (e.setDevice device).reject token (.ofRaised raised)
        | (.ok (), device) => (e.setDevice device).nextDownload token rest

/-- Drop the references of a submission that is still pending. -/
def finish [Measure ν] (e : Engine ν α) (token : SubmissionId) : Attempt Failure (Engine ν α) Unit :=
  match e.session.pending.lookup token with
  | none => (.ok (), e)
  | some handles =>
    let pending := e.session.pending.filter (·.1 != token)
    (Attempt.each Pool.relinquish e.pool handles).lift fun pool =>
      { e with pool, session := { e.session with pending } }

/-- A submission has ended. What fails while its references are dropped becomes its outcome. -/
def finished [Measure ν] (e : Engine ν α) (token : SubmissionId) (outcome : Outcome) : Engine ν α :=
  match e.finish token with
  | (.ok (), e) => e.schedule 3 (.reported token outcome)
  | (.error failure, e) => e.schedule 1 (.reported token (.error failure))

def wake (e : Engine ν α) (token : SubmissionId) (woken : List (JobId × Outcome)) : Engine ν α :=
  woken.foldl (fun e (job, outcome) => e.schedule e.completion.wakeTurns (.collected job token outcome)) e

def reported (e : Engine ν α) (token : SubmissionId) (outcome : Outcome) : Engine ν α :=
  let (woken, completion) := e.completion.settle token (outcome.mapError Failure.asError)
  { e with completion }.wake token woken

/-! ## Waiting -/

/-- A waiter has its outcome. A call that can be aborted first stops to listen. -/
def pass (e : Engine ν α) (job : JobId) (token : SubmissionId) (outcome : Outcome) : Engine ν α :=
  match e.jobs[job]? with
  | some .wait => e.settle job (outcome.map fun _ => .nothing)
  | some (.composite c) =>
    e.schedule 2 (if c.signal.isSome then .drained job token outcome else .resumed job token outcome)
  | _ => e

def collected (e : Engine ν α) (job : JobId) (token : SubmissionId) (outcome : Outcome) : Engine ν α :=
  { e with completion := e.completion.collect token }.pass job token outcome

def waitFor (e : Engine ν α) (job : JobId) (token : SubmissionId) : Engine ν α :=
  if e.session.phase = .destroyed then e.pass job token (.error (.of (.sessionDestroyed .validation)))
  else if token ∉ e.session.unawaited then e.pass job token (.error (.of (.unknownToken token)))
  else
    let e := { e with session := { e.session with unawaited := e.session.unawaited.erase token } }
    let (reply, completion) := e.completion.wait token job
    let e := { e with completion }
    match reply with
    | .now outcome => e.pass job token outcome
    | .later outcome => e.schedule 1 (.collected job token outcome)
    | .suspended => e

/-- A call of its own that waits for a token. -/
def startWait (e : Engine ν α) (token : SubmissionId) : JobId × Engine ν α :=
  let (job, e) := e.addJob .wait
  (job, e.waitFor job token)

/-! ## The end of a session -/

/-- Finish every pending submission and settle it with a failure. -/
def abandonPending [Measure ν] (e : Engine ν α) (failure : Failure) : Attempt Failure (Engine ν α) Unit :=
  Attempt.each (fun e token => (e.finish token).andThen fun _ e =>
    let (woken, completion) := e.completion.abandon token failure
    (.ok (), { e with completion }.wake token woken)) e (e.session.pending.map (·.1))

/-- Close the arena and the pipelines, and destroy the device. -/
def shutDown (e : Engine ν α) (closing : Closing) : Attempt Failure (Engine ν α) Unit :=
  ((e.pool.close closing).lift fun pool => { e with pool }).andThen fun _ e =>
    let e := e.closePipelines closing
    let (destroyed, device) := e.pool.device.destroy
    (destroyed.mapError .ofRaised, e.setDevice device)

/-- Forget the submissions that nobody has asked to wait for. -/
def discardUnawaited (e : Engine ν α) : Engine ν α :=
  let e := e.session.unawaited.foldl (fun e token =>
    let (woken, completion) := e.completion.discard token
    { e with completion }.wake token woken) e
  { e with session := { e.session with unawaited := [] } }

def destroy [Measure ν] (e : Engine ν α) : Attempt Failure (Engine ν α) Unit :=
  if e.session.phase = .destroyed then (.ok (), e)
  else
    let e := { e with session := { e.session with phase := .destroyed } }
    (e.abandonPending (.of (.sessionDestroyed .deviceLost))).andThen fun _ e =>
      e.discardUnawaited.shutDown ⟨.validation, (Complaint.sessionDestroyed .validation).message⟩

/-- The device announces its loss, once. -/
def lose (e : Engine ν α) (message : String) : Engine ν α :=
  if e.lossAnnounced || e.pool.device.destroyed then e
  else
    let e := { e with lossAnnounced := true }
    if e.supervised then e.schedule 1 (.lossSeen "unknown" message) else e

/-- The session learns of the loss. A destroyed one has nothing to lose. Nobody is told of what fails
meanwhile. -/
def lossSeen [Measure ν] (e : Engine ν α) (reason message : String) : Engine ν α :=
  if e.session.phase = .destroyed then e
  else
    let e := e.report (.deviceLost reason message)
    let complaint := Complaint.deviceLostBecause reason message
    let e := { e with session := { e.session with phase := .lost } }
    ((e.abandonPending (.of complaint)).andThen fun _ e => e.shutDown ⟨complaint.code, complaint.message⟩).2

/-- The device reports an error that no scope captured. -/
def uncaptured (e : Engine ν α) (message : String) : Engine ν α := e.report (.uncaptured message)

end Strata.Engine
