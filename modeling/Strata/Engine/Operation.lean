import Strata.Engine.Run

/-!
# Operations

All that is done to an engine from outside, by its callers or by the platform, and what is answered at
once. A history is a list of operations; after each of them the turns that are due have run.
-/

namespace Strata

inductive Operation (ν α : Type)
  -- Slots
  | allocate (format : SlotFormat ν) (size : ν)
  | resolve (slot : Handle)
  | acquire (slot : Handle)
  | contains (slot : Handle)
  | relinquish (slot : Handle)
  | release (slot : Handle)
  | invalidate
  | trim
  | closeArena (closing : Closing)
  | checkArena
  /-- The contents of the buffer of a slot. -/
  | read (slot : Handle)
  -- Pipelines
  | supports (key : PipelineKey)
  | hasPipeline (key : PipelineKey)
  | lookUp (key : PipelineKey)
  | clearPipelines
  | closePipelines (closing : Closing)
  -- Plans and submissions
  | makePlan (stack : List (BlendDescriptor ν α)) (uploads : List (Upload α))
  /-- A plan that was made elsewhere. -/
  | takePlan (plan : Plan ν α)
  /-- A caller makes an array. Arrays are numbered in the order in which they are made. -/
  | makeArray (values : Array α)
  | output (plan : PlanId)
  | submit (plan : PlanId)
  | wait (token : SubmissionId)
  | destroy
  | checkUsable
  -- Composite calls
  | composite (layers options : Value α) (verifies : Bool)
  | configure (change : Value α)
  | config
  | newSignal
  | abort (signal : SignalId) (reason : Option Raised)
  -- The device
  | inject (filter : ScopeFilter) (message : Option String)
  | fault (call : DeviceCall) (raised : Raised)
  | lose (message : String)
  | uncaptured (message : String)
  | hold
  | unhold
  | gate
  | openGate
  | refuseBuilds (on : Bool)
  | limitAllocation (limit : Option ν)

/-- Whether an operation is addressed to a session, to the compositor on it, or to what a session listens
to. -/
def Operation.needsSession {ν α : Type} : Operation ν α → Bool
  | submit _ | wait _ | destroy | checkUsable | composite .. | configure _ | config | uncaptured _ => true
  | _ => false

inductive Answer (ν α : Type)
  | done
  | flag (b : Bool)
  | handle (h : Handle)
  | slot (ref : SlotRef ν) (buffer : Option (Buffer α))
  | contents (block : Block α)
  | channels (values : Array α)
  | token (id : SubmissionId)
  | config (c : Config α)
  /-- A call is under way, and may have ended already. -/
  | started (job : JobId)
  | signal (id : SignalId)
  | plan (id : PlanId)

/-- What is answered, and the engine afterwards. -/
abbrev Answered (ν α : Type) := Attempt Failure (Engine ν α) (Answer ν α)

namespace Engine

variable {ν α : Type}

def replyDone (e : Engine ν α) : Answered ν α := (.ok .done, e)

def replyUnit (r : Attempt Failure (Engine ν α) Unit) : Answered ν α := (r.1.map fun _ => .done, r.2)

def replyJob (r : JobId × Engine ν α) : Answered ν α := (.ok (.started r.1), r.2)

/-- An operation of the pool. -/
def onPool {β : Type} (e : Engine ν α) (r : Attempt Failure (Pool ν α) β) (f : β → Answer ν α) : Answered ν α :=
  (r.1.map f, { e with pool := r.2 })

/-- An operation of the pool that answers nothing but a failure. -/
def onPoolUnit (e : Engine ν α) (r : Attempt Failure (Pool ν α) Unit) : Answered ν α := e.onPool r fun _ => .done

/-- A change of the device that cannot fail. -/
def onDeviceState (e : Engine ν α) (f : Device ν α → Device ν α) : Answered ν α :=
  (e.setDevice (f e.pool.device)).replyDone

/-- A call of the device that changes nothing but its state. -/
def onDeviceCall (e : Engine ν α) (call : DeviceCall) (f : Device ν α → Device ν α) : Answered ν α :=
  let (result, device) := e.pool.device.call call f
  ((result.mapError .ofRaised).map fun _ => .done, e.setDevice device)

def replySlot (e : Engine ν α) (ref : SlotRef ν) : Answer ν α := .slot ref e.pool.device.buffers[ref.buffer]?

def outputOf [Zero α] (e : Engine ν α) (plan : PlanId) : Array α := (e.plans[plan]?.map PlanRecord.output).getD #[]

variable [Measure ν] [Channel α] [Stored α] [Transfer α]

/-- Carry an operation out, on an engine that has what it is addressed to. -/
def carryOut (e : Engine ν α) : Operation ν α → Answered ν α
  | .allocate format size => e.onPool (e.pool.allocate format size) .handle
  | .resolve h => (e.pool.arena.resolve h |>.map e.replySlot, e)
  | .acquire h => e.onPool (e.pool.acquire h) e.replySlot
  | .contains h => (.ok (.flag (e.pool.arena.contains h)), e)
  | .relinquish h => e.onPoolUnit (e.pool.relinquish h)
  | .release h => e.onPoolUnit (e.pool.release h)
  | .invalidate => e.onPoolUnit e.pool.invalidate
  | .trim => e.onPoolUnit e.pool.trim
  | .closeArena closing => e.onPoolUnit (e.pool.close closing)
  | .checkArena => replyUnit (e.pool.arena.checkOpen, e)
  | .read h => (e.pool.arena.resolve h |>.map fun ref => .contents (e.pool.device.buffers.block ref.buffer), e)
  | .supports key => (.ok (.flag (e.cache.supports key)), e)
  | .hasPipeline key => (.ok (.flag (e.cache.has key)), e)
  | .lookUp key => replyJob (e.lookupPipeline key)
  | .clearPipelines => { e with cache := e.cache.clear }.replyDone
  | .closePipelines closing => (e.closePipelines closing).replyDone
  | .makePlan stack uploads => replyJob (e.startPlan stack uploads)
  | .takePlan plan =>
    let (id, e) := e.addPlan plan
    (.ok (.plan id), e)
  | .makeArray values => { e with arrays := e.arrays.push values }.replyDone
  | .output plan => (.ok (.channels (e.outputOf plan)), e)
  | .submit plan =>
    let (token, e) := e.submit plan
    (token.map .token, e)
  | .wait token => replyJob (e.startWait token)
  | .destroy => replyUnit e.destroy
  | .checkUsable => replyUnit (e.session.checkUsable, e)
  | .composite layers options verifies => replyJob (e.startComposite layers options verifies)
  | .configure change => replyUnit (e.configure change)
  | .config => (.ok (.config e.config), e)
  | .newSignal =>
    let (id, e) := e.addSignal
    (.ok (.signal id), e)
  | .abort signal reason => (e.abort signal reason).replyDone
  | .inject filter message => e.onDeviceCall .inject (·.inject filter message)
  | .fault call raised => e.onDeviceState fun d => { d with faults := d.faults ++ [(call, raised)] }
  | .lose message => (e.onDeviceCall .lose id).andThen fun _ e => (e.lose message).replyDone
  | .uncaptured message => (e.uncaptured message).replyDone
  | .hold => e.onDeviceCall .hold fun d => { d with held := true }
  | .unhold => (e.onDeviceCall .unhold id).andThen fun _ e => e.unhold.replyDone
  | .gate => e.onDeviceCall .gate fun d => { d with gate := some (d.gates + 1), gates := d.gates + 1 }
  | .openGate => if e.pool.device.gates = 0 then (.error (.host .mistyped), e) else e.openGate.replyDone
  | .refuseBuilds on => e.onDeviceState fun d => { d with refusesBuilds := on }
  | .limitAllocation limit => e.onDeviceState fun d => { d with maxAllocation := limit }

/-- Without a session there is nothing that its operations could be addressed to. -/
def apply (e : Engine ν α) (op : Operation ν α) : Answered ν α :=
  if op.needsSession && !e.supervised then (.error (.host .mistyped), e) else e.carryOut op

/-- Apply an operation, then run the turns that are due. -/
def advance (e : Engine ν α) (op : Operation ν α) : Answered ν α :=
  let (reply, e) := e.apply op
  (reply, e.settleAll)

def history (e : Engine ν α) (ops : List (Operation ν α)) : Engine ν α :=
  ops.foldl (fun e op => (e.advance op).2) e

end Engine

end Strata
