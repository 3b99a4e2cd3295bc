import Strata.Engine.Compositing

/-!
# Running turns

`fire` takes the turn at the head of the queue; `settleAll` fires until none is left. Any order of the
pending turns is a possible run of the engine, this is the one that queues them.
-/

namespace Strata.Engine

variable {ν α : Type} [Measure ν] [Channel α] [Stored α] [Transfer α]

def perform (e : Engine ν α) : Turn ν α → Engine ν α
  | .buildUngated serial key => e.buildUngated serial key
  | .buildEnded serial result => e.buildEnded serial result
  | .pipelineArrived job index result => e.pipelineArrived job index result
  | .planReady job result => e.planReady job result
  | .planned job => e.planned job
  | .scopesClosed encoded => e.scopesClosed encoded
  | .workDone encoded outcome => e.workDone encoded outcome
  | .mapped token downloads outcome => e.mapped token downloads outcome
  | .rejected token failure => e.schedule 1 (.finished token (.error (e.classify failure)))
  | .finished token outcome => e.finished token outcome
  | .reported token outcome => e.reported token outcome
  | .lossSeen reason message => e.lossSeen reason message
  | .collected job token outcome => e.collected job token outcome
  | .drained job token outcome => e.drained job token outcome
  | .resumed job token outcome => e.resumed job token outcome
  | .attemptEnded job result => e.attemptEnded job result

/-- Take the turn at the head: run it if it is due, else put it at the end. -/
def fire (e : Engine ν α) : Engine ν α :=
  match e.turns with
  | [] => e
  | (delay, turn) :: rest =>
    let e := { e with turns := rest }
    if delay ≤ 1 then e.perform turn else e.schedule (delay - 1) turn

def fireMany : Nat → Engine ν α → Engine ν α
  | 0, e => e
  | n + 1, e => if e.turns.isEmpty then e else fireMany n e.fire

/-- More turns than a call can leave behind, unless it is told to retry without end. -/
def turnBound : Nat := Nat.pow 10 7

def settleAll (e : Engine ν α) : Engine ν α := fireMany turnBound e

def unhold (e : Engine ν α) : Engine ν α :=
  let held := e.heldBack
  let e := { e with heldBack := [], pool := { e.pool with device := { e.pool.device with held := false } } }
  held.foldl (fun e s => e.schedule 1 (.workDone s (.ok ()))) e

end Strata.Engine
