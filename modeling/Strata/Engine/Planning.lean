import Strata.Engine.State

/-!
# Pipelines and plans

Requests for pipelines start builds or wait on them; a plan waits until the pipelines of all its
steps have arrived or one has failed, then looks at its slots again and is made.
-/

namespace Strata.Engine

variable {ν α : Type}

/-! ## Builds -/

def answer (e : Engine ν α) (waiter : PipelineWaiter) (result : Except Failure Pipeline) : Engine ν α :=
  match waiter with
  | .lookup job => e.settle job (result.map .pipeline)
  | .step job index => e.schedule 1 (.pipelineArrived job index result)

def answerAll (e : Engine ν α) (answers : List (PipelineWaiter × Except Failure Pipeline)) : Engine ν α :=
  answers.foldl (fun e (waiter, result) => e.answer waiter result) e

def startBuild (e : Engine ν α) (serial : Nat) (key : PipelineKey) : Engine ν α :=
  let (compilation, cache, device) := e.cache.compile e.pool.device key
  let e := { e with cache, pool := { e.pool with device } }
  match compilation with
  | .failed failure => e.schedule 1 (.buildEnded serial (.error failure))
  | .refused failure => e.schedule 2 (.buildEnded serial (.error failure))
  | .compiling none => e.schedule 2 (.buildEnded serial (cache.compiled device key))
  | .compiling (some gate) => { e with gated := e.gated ++ [(gate, serial, key)] }

/-- Ask for a pipeline. The answer is none if the request has to wait. -/
def requestPipeline (e : Engine ν α) (key : PipelineKey) (waiter : PipelineWaiter) :
    Option (Except Failure Pipeline) × Engine ν α :=
  let (reply, cache) := e.cache.request key waiter
  let e := { e with cache }
  match reply with
  | .refused failure => (some (.error failure), e)
  | .ready pipeline => (some (.ok pipeline), e)
  | .joined => (none, e)
  | .started serial => (none, e.startBuild serial key)

/-- A call that asks for one pipeline. -/
def lookupPipeline (e : Engine ν α) (key : PipelineKey) : JobId × Engine ν α :=
  let (job, e) := e.addJob .lookup
  match e.requestPipeline key (.lookup job) with
  | (some result, e) => (job, e.settle job (result.map .pipeline))
  | (none, e) => (job, e)

def buildUngated (e : Engine ν α) (serial : Nat) (key : PipelineKey) : Engine ν α :=
  e.schedule 2 (.buildEnded serial (e.cache.compiled e.pool.device key))

def buildEnded (e : Engine ν α) (serial : Nat) (result : Except Failure Artifact) : Engine ν α :=
  let (finished, cache) := e.cache.finish serial result
  let e := { e with cache }
  let e := match finished.warning with
    | some (key, failure) => e.report (.buildFailed key failure)
    | none => e
  e.answerAll finished.answers

/-- Close the pipeline cache. Requests that wait on it are refused. -/
def closePipelines (e : Engine ν α) (closing : Closing) : Engine ν α :=
  let (waiting, cache) := e.cache.close closing
  { e with cache }.answerAll (waiting.map (·, .error closing.failure))

def openGate (e : Engine ν α) : Engine ν α :=
  let gate := e.pool.device.gates
  let opened := e.gated.filter (·.1 == gate)
  let e := { e with
    gated := e.gated.filter (·.1 != gate)
    pool := { e.pool with device := { e.pool.device with gate := none } } }
  opened.foldl (fun e (_, serial, key) => e.schedule 1 (.buildUngated serial key)) e

/-! ## Plans -/

/-- Ask for the pipelines of steps, from the `i`th on. -/
def requestSteps (e : Engine ν α) (job : JobId) : (i : Nat) → List (PlanStep ν α) →
    List (Option (Except Failure Pipeline)) × Engine ν α
  | _, [] => ([], e)
  | i, step :: rest =>
    let (reply, e) := e.requestPipeline step.key (.step job i)
    let (replies, e) := e.requestSteps job (i + 1) rest
    (reply :: replies, e)

/-- Pipelines that are there at once arrive after all have been asked for. -/
def arriveNow (e : Engine ν α) (job : JobId) : (i : Nat) → List (Option (Except Failure Pipeline)) → Engine ν α
  | _, [] => e
  | i, none :: rest => e.arriveNow job (i + 1) rest
  | i, some result :: rest => (e.schedule 1 (.pipelineArrived job i result)).arriveNow job (i + 1) rest

/-- Check a stack and ask for its pipelines. -/
def beginPlanning [Measure ν] (e : Engine ν α) (job : JobId) (stack : List (BlendDescriptor ν α))
    (uploads : List (Upload α)) : Except Failure (Planning ν α) × Engine ν α :=
  match Draft.check e.pool.arena e.capabilities e.cache.library stack uploads with
  | .error failure => (.error failure, e)
  | .ok draft =>
    let (replies, e) := e.requestSteps job 0 draft.steps
    let e := e.arriveNow job 0 replies
    (.ok ⟨draft, draft.steps.map fun _ => none, false⟩, e)

def planning? (e : Engine ν α) (job : JobId) : Option (Planning ν α) :=
  match e.jobs[job]? with
  | some (.plan p) => some p
  | some (.composite { phase := .planning p, .. }) => some p
  | _ => none

def setPlanning (e : Engine ν α) (job : JobId) (p : Planning ν α) : Engine ν α :=
  match e.jobs[job]? with
  | some (.plan _) => e.setJob job (.plan p)
  | some (.composite c) => e.setJob job (.composite { c with phase := .planning p })
  | _ => e

/-- One pipeline of a plan arrives. The plan goes on after the last, or after the first failure. -/
def pipelineArrived (e : Engine ν α) (job : JobId) (index : Nat) (result : Except Failure Pipeline) : Engine ν α :=
  match e.planning? job with
  | none => e
  | some p =>
    if p.ended then e
    else
      match result with
      | .error failure => (e.setPlanning job { p with ended := true }).schedule 1 (.planReady job (.error failure))
      | .ok pipeline =>
        let arrived := p.arrived.set index (some pipeline)
        if arrived.all Option.isSome then
          (e.setPlanning job { p with arrived, ended := true }).schedule 1
            (.planReady job (.ok (arrived.filterMap id)))
        else e.setPlanning job { p with arrived }

def startPlan [Measure ν] (e : Engine ν α) (stack : List (BlendDescriptor ν α)) (uploads : List (Upload α)) :
    JobId × Engine ν α :=
  let (job, e) := e.addJob .lookup
  match e.beginPlanning job stack uploads with
  | (.error failure, e) => (job, e.settle job (.error failure))
  | (.ok p, e) => (job, e.setJob job (.plan p))

/-- The plan is there, or has failed. -/
def planMade (e : Engine ν α) (job : JobId) (result : Except Failure PlanId) : Engine ν α :=
  match e.jobs[job]? with
  | some (.plan _) => e.settle job (result.map .plan)
  | some (.composite c) =>
    (e.setJob job (.composite { c with phase := .planned result })).schedule 1 (.planned job)
  | _ => e

def planReady [Measure ν] [Channel α] [Stored α] (e : Engine ν α) (job : JobId)
    (result : Except Failure (List Pipeline)) : Engine ν α :=
  match e.planning? job, result with
  | none, _ => e
  | some _, .error failure => e.planMade job (.error failure)
  | some p, .ok pipelines =>
    match p.draft.emit pipelines e.pool with
    | (.error failure, pool) => { e with pool }.planMade job (.error failure)
    | (.ok plan, pool) =>
      let (id, e) := { e with pool }.addPlan plan
      e.planMade job (.ok id)

end Strata.Engine
