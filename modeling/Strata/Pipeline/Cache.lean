import Strata.Device.Basic

/-!
# The pipeline cache

Pipelines are built once for each key. Requests for a key that is being built wait on that build and
share its outcome; a failed build is forgotten. Clearing detaches the builds in flight: they still
answer who waits on them, but leave no entry. `W` is whatever a request is remembered by.
-/

namespace Strata

/-- A built pipeline. The serial number of its build tells it from every other. -/
structure Pipeline where
  serial : Nat
  key : PipelineKey
  artifact : Artifact
deriving Repr, DecidableEq

namespace Pipeline

def label (p : Pipeline) : String := s!"{p.artifact.label} Compute Pipeline"

def bindings (p : Pipeline) : BindingKind := p.artifact.program.bindings

end Pipeline

inductive CacheEntry
  | building (serial : Nat)
  | ready (pipeline : Pipeline)
deriving Repr, DecidableEq

/-- A build in flight, with the requests that wait on it. -/
structure Build (W : Type) where
  serial : Nat
  key : PipelineKey
  /-- The epoch of the cache when the build started. -/
  epoch : Nat
  waiters : List W
deriving Repr, DecidableEq

structure Cache (W : Type) where
  library : Library := .full
  /-- Entries by key text, oldest first. -/
  entries : List (String × CacheEntry) := []
  inFlight : List (Build W) := []
  /-- Times the cache was cleared. -/
  epoch : Nat := 0
  /-- Builds started, of any key. -/
  serials : Nat := 0
  /-- Builds started, of keys the library serves. -/
  builds : Nat := 0
  /-- Shader texts that a module exists for. -/
  modules : List SourceKind := []
  /-- Binding shapes that a layout exists for. -/
  layouts : List BindingKind := []
  closing : Option Closing := none

/-- How a request is met. -/
inductive Reply
  | refused (failure : Failure)
  | ready (pipeline : Pipeline)
  /-- The request waits on a build in flight. -/
  | joined
  /-- The request waits on a build that has to be started now. -/
  | started (serial : Nat)
deriving Repr, DecidableEq

/-- What the end of a build brings about. -/
structure Finished (W : Type) where
  answers : List (W × Except Failure Pipeline)
  /-- The key text and the failure to report. -/
  warning : Option (String × Failure)

namespace Cache

variable {W : Type}

def entry? (c : Cache W) (id : String) : Option CacheEntry := c.entries.lookup id

def supports (c : Cache W) (key : PipelineKey) : Bool := (c.library.resolve key).isSome

def has (c : Cache W) (key : PipelineKey) : Bool :=
  match c.entry? key.text with
  | some (.ready _) => true
  | _ => false

def readyCount (c : Cache W) : Nat :=
  c.entries.countP fun e => match e.2 with
    | .ready _ => true
    | .building _ => false

def pendingCount (c : Cache W) : Nat :=
  c.entries.countP fun e => match e.2 with
    | .ready _ => false
    | .building _ => true

/-- Let a request wait on a build. -/
def join (c : Cache W) (serial : Nat) (w : W) : Cache W :=
  { c with inFlight := c.inFlight.map fun b =>
      if b.serial = serial then { b with waiters := b.waiters ++ [w] } else b }

/-- Ask for the pipeline of a key. -/
def request (c : Cache W) (key : PipelineKey) (w : W) : Reply × Cache W :=
  match c.closing with
  | some closing => (.refused closing.failure, c)
  | none =>
    match c.entry? key.text with
    | some (.ready pipeline) => (.ready pipeline, c)
    | some (.building serial) => (.joined, c.join serial w)
    | none =>
      let serial := c.serials
      (.started serial,
        { c with
          serials := serial + 1
          entries := c.entries ++ [(key.text, .building serial)]
          inFlight := c.inFlight ++ [⟨serial, key, c.epoch, [w]⟩] })

def promote (c : Cache W) (serial : Nat) (pipeline : Pipeline) : Cache W :=
  { c with entries := c.entries.map fun e =>
      if e.2 = .building serial then (e.1, .ready pipeline) else e }

def forget (c : Cache W) (serial : Nat) : Cache W :=
  { c with entries := c.entries.filter fun e => e.2 ≠ .building serial }

/-- A build ends. Its requests are answered, unless the cache was closed meanwhile. -/
def finish (c : Cache W) (serial : Nat) (result : Except Failure Artifact) : Finished W × Cache W :=
  match c.inFlight.find? (·.serial == serial) with
  | none => (⟨[], none⟩, c)
  | some build =>
    let c := { c with inFlight := c.inFlight.filter (·.serial != serial) }
    if c.closing.isSome then (⟨[], none⟩, c)
    else
      match result with
      | .ok artifact =>
        let pipeline : Pipeline := ⟨serial, build.key, artifact⟩
        (⟨build.waiters.map (·, .ok pipeline), none⟩,
          if build.epoch = c.epoch then c.promote serial pipeline else c)
      | .error failure =>
        (⟨build.waiters.map (·, .error failure), some (build.key.text, failure)⟩, c.forget serial)

def clear (c : Cache W) : Cache W :=
  { c with epoch := c.epoch + 1, entries := [], modules := [], layouts := [] }

/-- Clear the cache and refuse requests from now on. Requests waiting on a build that has an entry
are refused too; they are returned in the order of the entries. -/
def close (c : Cache W) (closing : Closing) : List W × Cache W :=
  let attached := c.entries.filterMap fun e => match e.2 with
    | .building serial => some serial
    | .ready _ => none
  let waiting := attached.flatMap fun serial =>
    (c.inFlight.filter (·.serial == serial)).flatMap (·.waiters)
  let c := c.clear
  (waiting, { c with
    closing := some closing
    inFlight := c.inFlight.map fun b => if b.serial ∈ attached then { b with waiters := [] } else b })

/-! ## Compiling -/

/-- How far a build gets before it has to wait. -/
inductive Compilation
  /-- It fails without asking the device for a pipeline. -/
  | failed (failure : Failure)
  /-- The device refuses at once. -/
  | refused (failure : Failure)
  /-- The device compiles, behind a gate if one is installed. -/
  | compiling (gate : Option Nat)
deriving Repr, DecidableEq

section
variable {ν α : Type}

/-- The failure of a build that got as far as its program. -/
def compileFailure (key : PipelineKey) (raised : Raised) : Failure :=
  .engine (.pipelineFailed key.text) raised.error?

/-- The layout of a binding shape, created when it is first needed. -/
def ensureLayout (c : Cache W) (d : Device ν α) (kind : BindingKind) :
    Except Raised Unit × Cache W × Device ν α :=
  if kind ∈ c.layouts then (.ok (), c, d)
  else
    match d.call .createBindGroupLayout id with
    | (.error raised, d) => (.error raised, c, d)
    | (.ok (), d) => (.ok (), { c with layouts := kind :: c.layouts }, d)

/-- The module of a shader text, created when it is first needed. -/
def ensureModule (c : Cache W) (d : Device ν α) (kind : SourceKind) :
    Except Raised Unit × Cache W × Device ν α :=
  if kind ∈ c.modules then (.ok (), c, d)
  else
    match d.call .createShaderModule fun d => { d with modules := d.modules + 1 } with
    | (.error raised, d) => (.error raised, c, d)
    | (.ok (), d) => (.ok (), { c with modules := kind :: c.modules }, d)

def compile (c : Cache W) (d : Device ν α) (key : PipelineKey) : Compilation × Cache W × Device ν α :=
  match c.library.resolve key with
  | none => (.failed (.of (.unsupportedKey key.text)), c, d)
  | some artifact =>
    let c := { c with builds := c.builds + 1 }
    match c.ensureLayout d artifact.program.bindings with
    | (.error raised, c, d) => (.failed (.ofRaised raised), c, d)
    | (.ok (), c, d) =>
      match d.call .createPipelineLayout id with
      | (.error raised, d) => (.failed (.ofRaised raised), c, d)
      | (.ok (), d) =>
        match c.ensureModule d artifact.sourceKind with
        | (.error raised, c, d) => (.failed (compileFailure key raised), c, d)
        | (.ok (), c, d) =>
          match d.call .createPipeline fun d => { d with builds := d.builds + 1 } with
          | (.error raised, d) => (.refused (compileFailure key raised), c, d)
          | (.ok (), d) => (.compiling d.gate, c, d)

/-- What the device answers once nothing holds a build back. -/
def compiled (c : Cache W) (d : Device ν α) (key : PipelineKey) : Except Failure Artifact :=
  if d.refusesBuilds then .error (compileFailure key (.error (.plain "Pipeline compilation failed")))
  else
    match c.library.resolve key with
    | some artifact => .ok artifact
    | none => .error (.of (.unsupportedKey key.text))

end

end Cache

end Strata
