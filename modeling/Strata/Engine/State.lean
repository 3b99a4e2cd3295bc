import Strata.Composite.Comparison
import Strata.Composite.Direct
import Strata.Engine.Completion
import Strata.Plan.Draft
import Strata.Text.Duration

/-!
# The engine

One device with its pool, pipelines, session and compositor, and the calls that are under way. Nothing
runs by itself: a call that has to wait leaves a turn behind, and turns are run one at a time. A turn
that is due only after some others have passed carries their count.
-/

namespace Strata

abbrev JobId := Nat
abbrev SignalId := Nat

/-! ## The session -/

inductive Phase
  | ready
  | lost
  | destroyed
deriving Repr, DecidableEq

def Phase.name : Phase → String
  | ready => "ready"
  | lost => "lost"
  | destroyed => "destroyed"

structure Session where
  phase : Phase := .ready
  /-- Number of the next submission. -/
  nextToken : Nat := 1
  /-- Submissions that have not finished, with the slots they refer to. -/
  pending : List (SubmissionId × List Handle) := []
  /-- Submissions that nobody has asked to wait for. -/
  unawaited : List SubmissionId := []
  /-- Plans that were submitted. -/
  consumed : List PlanId := []
deriving Repr, DecidableEq

/-- Whether the session accepts work. -/
def Session.checkUsable (s : Session) : Except Failure Unit :=
  match s.phase with
  | .ready => .ok ()
  | .lost => .error (.of .deviceLost)
  | .destroyed => .error (.of (.sessionDestroyed .validation))

/-! ## Calls under way -/

/-- A plan that waits for its pipelines. -/
structure Planning (ν α : Type) where
  draft : Draft ν α
  /-- The pipelines that have arrived, one place for each step. -/
  arrived : List (Option Pipeline)
  /-- Set once the wait is over. -/
  ended : Bool

/-- Where an attempt of a composite call stands. -/
inductive AttemptPhase (ν α : Type)
  | planning (p : Planning ν α)
  /-- The plan is made or has failed, and the call is about to go on. -/
  | planned (result : Except Failure PlanId)
  /-- A plan is submitted. -/
  | draining (plan : PlanId) (token : SubmissionId)
  | ended

structure CompositeCall (ν α : Type) where
  layers : List (Layer ν α)
  outputFormat : Option PixelFormat
  signal : Option SignalId
  /-- Compare the result with the one computed on the host. -/
  verifies : Bool
  /-- Attempts after the first. -/
  retries : Nat
  /-- Slots that the attempt allocated itself. -/
  held : List Handle
  phase : AttemptPhase ν α

inductive Job (ν α : Type)
  /-- Waits for a pipeline. -/
  | lookup
  | plan (p : Planning ν α)
  /-- Waits for a submission. -/
  | wait
  | composite (c : CompositeCall ν α)

/-- What a call answers. -/
inductive JobValue (ν α : Type)
  | nothing
  | pipeline (p : Pipeline)
  | plan (id : PlanId)
  | raster (r : Raster ν α)
  | verified (device host : Raster ν α) (comparison : Comparison α)

inductive PipelineWaiter
  | lookup (job : JobId)
  | step (job : JobId) (index : Nat)
deriving Repr, DecidableEq

/-! ## Turns -/

/-- A copied result that is to be mapped and read. -/
structure Download (ν : Type) where
  buffer : BufferId
  bytes : ν
  target : HostArray
deriving Repr, DecidableEq

/-- A submission after encoding: what its error scopes answered and what is to be read. -/
structure Encoded (ν : Type) where
  token : SubmissionId
  validation : Except Failure (Option String)
  memory : Except Failure (Option String)
  downloads : Except Failure (List (Download ν))

inductive Turn (ν α : Type)
  /-- The gate that a build waited for is open. -/
  | buildUngated (serial : Nat) (key : PipelineKey)
  | buildEnded (serial : Nat) (result : Except Failure Artifact)
  | pipelineArrived (job : JobId) (index : Nat) (result : Except Failure Pipeline)
  /-- All pipelines of a plan have arrived, or one has failed. -/
  | planReady (job : JobId) (result : Except Failure (List Pipeline))
  /-- A composite call goes on with its plan. -/
  | planned (job : JobId)
  | scopesClosed (e : Encoded ν)
  /-- The queue has run a submission. -/
  | workDone (e : Encoded ν) (outcome : Outcome)
  /-- The first of some downloads is mapped. -/
  | mapped (token : SubmissionId) (downloads : List (Download ν)) (outcome : Outcome)
  | rejected (token : SubmissionId) (failure : Failure)
  | finished (token : SubmissionId) (outcome : Outcome)
  /-- The outcome of a submission reaches the completion. -/
  | reported (token : SubmissionId) (outcome : Outcome)
  | lossSeen (reason message : String)
  /-- A woken waiter takes its outcome. -/
  | collected (job : JobId) (token : SubmissionId) (outcome : Outcome)
  /-- The submission of a composite call that can be aborted has ended. -/
  | drained (job : JobId) (token : SubmissionId) (outcome : Outcome)
  /-- A composite call goes on after its submission. -/
  | resumed (job : JobId) (token : SubmissionId) (outcome : Outcome)
  | attemptEnded (job : JobId) (result : Except Failure (Raster ν α))

/-! ## Reports -/

inductive LogEntry
  | opened (platform : Platform) (adapter : Option AdapterInfo)
  | buildFailed (key : String) (failure : Failure)
  | deviceLost (reason message : String)
  | uncaptured (message : String)
  | retrying (attempt limit : Nat)
  | failedAfterAbort (failure : Failure)
  | composited (layers : Nat) (size : Quoted) (retries : Nat)
deriving Repr, DecidableEq

inductive LogLevel
  | info
  | warning
  | error
deriving Repr, DecidableEq

/-- What a level is called where entries are written. -/
def LogLevel.name : LogLevel → String
  | info => "log"
  | warning => "warn"
  | error => "error"

/-- What an entry consists of. -/
inductive LogPart
  | text (s : String)
  | failure (f : Failure)
  | adapter (info : Option AdapterInfo)
deriving Repr, DecidableEq

namespace LogEntry

def level : LogEntry → LogLevel
  | opened .. | composited .. => .info
  | buildFailed .. | deviceLost .. | retrying .. | failedAfterAbort .. => .warning
  | uncaptured _ => .error

def parts : LogEntry → List LogPart
  | opened platform adapter => [.text s!"[DeviceSession] Opened ({platform.name}):", .adapter adapter]
  | buildFailed key failure => [.text s!"[PipelineCache] Build failed for {key}:", .failure failure]
  | deviceLost reason message => [.text "[DeviceSession] Device lost:", .text reason, .text message]
  | uncaptured message => [.text "[DeviceSession] Uncaptured GPU error:", .text message]
  | retrying attempt limit =>
    [.text s!"[Compositor] Out of memory, trimming pool and retrying ({attempt}/{Numeral.text limit})"]
  | failedAfterAbort failure => [.text "[Compositor] Submission failed after abort:", .failure failure]
  | composited layers size retries =>
    let line := s!"[Compositor] {layers} layers {size}: {Duration.placeholder}"
    [.text (if 0 < retries then s!"{line} after {retries} retries" else line)]

/-- What an entry is written as: durations are left open, the engine's own and any that a message has. -/
def written (entry : LogEntry) : List LogPart := entry.parts.map fun
  | .text s | .failure (.bare s) => .text (Duration.hide s)
  | part => part

end LogEntry

/-! ## The whole -/

structure PlanRecord (ν α : Type) where
  plan : Plan ν α
  /-- The channels of the output that have been filled. -/
  filled : Array α

def PlanRecord.output {ν α : Type} [Zero α] (r : PlanRecord ν α) : Array α :=
  r.filled ++ Array.replicate (r.plan.outputLength - r.filled.size) 0

structure Engine (ν α : Type) where
  pool : Pool ν α
  cache : Cache PipelineWaiter
  capabilities : Capabilities ν
  completion : Completion JobId
  config : Config α
  session : Session := {}
  /-- Whether there is a session, which listens to the device. -/
  supervised : Bool := true
  /-- Whether the loss of the device is announced. -/
  lossAnnounced : Bool := false
  plans : Array (PlanRecord ν α) := #[]
  /-- Arrays that callers have made to have downloads read into. -/
  arrays : Array (Array α) := #[]
  jobs : Array (Job ν α) := #[]
  /-- For each controller the failure it was aborted with. -/
  signals : Array (Option Failure) := #[]
  /-- Calls to be told of an abort, in the order in which they began to listen. -/
  listeners : List (SignalId × JobId × SubmissionId) := []
  /-- Builds that wait for a gate. -/
  gated : List (Nat × Nat × PipelineKey) := []
  /-- Submissions whose completion is held back. -/
  heldBack : List (Encoded ν) := []
  /-- Turns to run, each with the count of turns it has to be put back. -/
  turns : List (Nat × Turn ν α) := []
  /-- Calls that have ended since this was last looked at. -/
  settled : List (JobId × Except Failure (JobValue ν α)) := []
  log : List LogEntry := []

namespace Engine

variable {ν α : Type}

/-- Let a turn run after `delay` others that are put at the end in its place. -/
def schedule (e : Engine ν α) (delay : Nat) (turn : Turn ν α) : Engine ν α :=
  { e with turns := e.turns ++ [(delay, turn)] }

def report (e : Engine ν α) (entry : LogEntry) : Engine ν α := { e with log := e.log ++ [entry] }

/-- A call ends. -/
def settle (e : Engine ν α) (job : JobId) (result : Except Failure (JobValue ν α)) : Engine ν α :=
  { e with settled := e.settled ++ [(job, result)] }

def addJob (e : Engine ν α) (job : Job ν α) : JobId × Engine ν α :=
  (e.jobs.size, { e with jobs := e.jobs.push job })

def setJob (e : Engine ν α) (id : JobId) (job : Job ν α) : Engine ν α :=
  { e with jobs := e.jobs.setIfInBounds id job }

def addPlan (e : Engine ν α) (plan : Plan ν α) : PlanId × Engine ν α :=
  (e.plans.size, { e with plans := e.plans.push ⟨plan, #[]⟩ })

/-- The channels that an array of the host has room for. -/
def room (e : Engine ν α) : HostArray → Nat
  | .output plan => (e.plans[plan]?.map (·.plan.outputLength)).getD 0
  | .made id => (e.arrays.getD id #[]).size

/-- What an array of the host has been filled with. -/
def contents (e : Engine ν α) : HostArray → Array α
  | .output plan => (e.plans[plan]?.map (·.filled)).getD #[]
  | .made id => e.arrays.getD id #[]

def call? (e : Engine ν α) (id : JobId) : Option (CompositeCall ν α) :=
  match e.jobs[id]? with
  | some (.composite c) => some c
  | _ => none

/-- The failure that a signal was aborted with. -/
def abortReason? (e : Engine ν α) (signal : Option SignalId) : Option Failure :=
  signal.bind fun id => (e.signals.getD id none)

end Engine

end Strata
