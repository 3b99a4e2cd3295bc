import Strata.Attempt
import Strata.Device.Kernel
import Strata.Failure

/-!
# The device

An in-process device: buffers in host memory, commands that run when they are submitted, error
scopes, and the faults that can be scripted into it. Every call may be made to fail once; otherwise
only oversized buffers, writes and dispatches fail.
-/

namespace Strata

inductive ScopeFilter
  | validation
  | outOfMemory
  | internal
deriving Repr, DecidableEq

namespace ScopeFilter

def all : List ScopeFilter := [validation, outOfMemory, internal]

def name : ScopeFilter → String
  | validation => "validation"
  | outOfMemory => "out-of-memory"
  | internal => "internal"

def ofName? (s : String) : Option ScopeFilter := all.find? (·.name == s)

end ScopeFilter

/-- Calls that a fault can be scripted for. -/
inductive DeviceCall
  | createBuffer
  | destroyBuffer
  | destroyDevice
  | createShaderModule
  | createBindGroupLayout
  | createPipelineLayout
  | createPipeline
  | createBindGroup
  | createEncoder
  | pushScope
  | popScope
  | writeBuffer
  | submit
  | workDone
  | mapBuffer
  | mappedRange
  | unmapBuffer
  | inject
  | lose
  | gate
  | hold
  | unhold
deriving Repr, DecidableEq

namespace DeviceCall

def all : List DeviceCall :=
  [createBuffer, destroyBuffer, destroyDevice, createShaderModule, createBindGroupLayout, createPipelineLayout,
    createPipeline, createBindGroup, createEncoder, pushScope, popScope, writeBuffer, submit, workDone, mapBuffer,
    mappedRange, unmapBuffer, inject, lose, gate, hold, unhold]

/-- The object that is called, and the name of the call. -/
def name : DeviceCall → String × String
  | createBuffer => ("device", "createBuffer")
  | destroyBuffer => ("buffer", "destroy")
  | destroyDevice => ("device", "destroy")
  | createShaderModule => ("device", "createShaderModule")
  | createBindGroupLayout => ("device", "createBindGroupLayout")
  | createPipelineLayout => ("device", "createPipelineLayout")
  | createPipeline => ("device", "createComputePipelineAsync")
  | createBindGroup => ("device", "createBindGroup")
  | createEncoder => ("device", "createCommandEncoder")
  | pushScope => ("device", "pushErrorScope")
  | popScope => ("device", "popErrorScope")
  | writeBuffer => ("queue", "writeBuffer")
  | submit => ("queue", "submit")
  | workDone => ("queue", "onSubmittedWorkDone")
  | mapBuffer => ("buffer", "mapAsync")
  | mappedRange => ("buffer", "getMappedRange")
  | unmapBuffer => ("buffer", "unmap")
  | inject => ("device", "injectError")
  | lose => ("device", "lose")
  | gate => ("device", "gatePipelineBuilds")
  | hold => ("queue", "hold")
  | unhold => ("queue", "release")

def ofName? (on method : String) : Option DeviceCall := all.find? (·.name == (on, method))

end DeviceCall

/-- Limits of a device, as it reports them. -/
structure DeviceLimits (ν : Type) where
  maxBufferSize : ν
  maxStorageBinding : ν
  maxWorkgroupSizeX : ν
  maxWorkgroupSizeY : ν
  maxWorkgroupSizeZ : ν
  /-- None if the device does not say. -/
  maxWorkgroups : Option ν
deriving Repr, DecidableEq

/-- Limits a device reports unless told otherwise. -/
def DeviceLimits.standard {ν : Type} [Measure ν] : DeviceLimits ν where
  maxBufferSize := Measure.ofNat (256 * 1024 * 1024)
  maxStorageBinding := Measure.ofNat (128 * 1024 * 1024)
  maxWorkgroupSizeX := Measure.ofNat 256
  maxWorkgroupSizeY := Measure.ofNat 256
  maxWorkgroupSizeZ := Measure.ofNat 64
  maxWorkgroups := some (Measure.ofNat 65535)

/-- Recorded work. -/
inductive Command (ν : Type)
  | dispatch (d : Dispatch ν)
  /-- Copy the first bytes of one buffer to another. -/
  | copy (source destination : BufferId) (bytes : ν)
deriving Repr, DecidableEq

structure Device (ν α : Type) where
  limits : DeviceLimits ν
  buffers : Heap α := #[]
  /-- Shader modules created. -/
  modules : Nat := 0
  /-- Pipeline builds asked for. -/
  builds : Nat := 0
  /-- Compute passes begun. -/
  passes : Nat := 0
  /-- Submissions received. -/
  submitted : Nat := 0
  /-- Open error scopes, innermost first, each with what it captured. -/
  scopes : List (ScopeFilter × Option String) := []
  /-- Errors that the next scope of a filter captures. -/
  injected : List (ScopeFilter × String) := []
  /-- Calls that fail the next time they are made. -/
  faults : List (DeviceCall × Raised) := []
  /-- Bytes above which a buffer is refused. -/
  maxAllocation : Option ν := none
  /-- Pipeline builds fail. -/
  refusesBuilds : Bool := false
  /-- The gate that pipeline builds wait for. -/
  gate : Option Nat := none
  /-- Gates installed so far. -/
  gates : Nat := 0
  /-- Completion of submitted work is held back. -/
  held : Bool := false
  destroyed : Bool := false

namespace Device

variable {ν α : Type}

def hostMemory : Nat := Nat.pow 10 16

def liveBuffers (d : Device ν α) : Nat := d.buffers.countP (!·.destroyed)

def takeFault (d : Device ν α) (call : DeviceCall) : Option Raised × Device ν α :=
  match d.faults.lookup call with
  | none => (none, d)
  | some fault => (some fault, { d with faults := d.faults.eraseP (·.1 == call) })

/-- Make a call that has no effect but to count. -/
def call (d : Device ν α) (which : DeviceCall) (effect : Device ν α → Device ν α) :
    Attempt Raised (Device ν α) Unit :=
  match d.takeFault which with
  | (some fault, d) => (.error fault, d)
  | (none, d) => (.ok (), effect d)

def outOfRange : Raised := .error (.range "out of range")

/-! ## Buffers -/

def createBuffer [Measure ν] (d : Device ν α) (label : String) (usage : Option Nat) (bytes : Nat) :
    Attempt Raised (Device ν α) BufferId :=
  match d.takeFault .createBuffer with
  | (some fault, d) => (.error fault, d)
  | (none, d) =>
    if d.maxAllocation.any (fun limit => limit < Measure.ofNat bytes) || hostMemory ≤ bytes then
      (.error (.error (.range s!"Buffer size {Numeral.text bytes} exceeds limit")), d)
    else
      (.ok d.buffers.size, { d with buffers := d.buffers.push ⟨label, usage, Block.zero bytes, false⟩ })

def destroyBuffer (d : Device ν α) (id : BufferId) : Attempt Raised (Device ν α) Unit :=
  d.call .destroyBuffer fun d =>
    { d with buffers := d.buffers.modify id fun buffer => { buffer with destroyed := true } }

/-- Destroy the device with all its buffers. -/
def destroy (d : Device ν α) : Attempt Raised (Device ν α) Unit :=
  (d.call .destroyDevice fun d => { d with destroyed := true }).andThen fun _ d =>
    Attempt.each destroyBuffer d (List.range d.buffers.size)

def writeBuffer [Stored α] (d : Device ν α) (id : BufferId) (data : Block α) : Attempt Raised (Device ν α) Unit :=
  match d.takeFault .writeBuffer with
  | (some fault, d) => (.error fault, d)
  | (none, d) =>
    if (d.buffers.block id).size < data.size then (.error outOfRange, d)
    else (.ok (), { d with buffers := d.buffers.modifyBlock id fun b => b.overwrite data data.size })

/-! ## Error scopes -/

/-- Let the next scope of a filter capture an error, or none after all. -/
def inject (d : Device ν α) (filter : ScopeFilter) (message : Option String) : Device ν α :=
  { d with injected := message.toList.map (filter, ·) ++ d.injected.filter (·.1 ≠ filter) }

/-- Open a scope. It captures at once what was injected for its filter. -/
def pushScope (d : Device ν α) (filter : ScopeFilter) : Attempt Raised (Device ν α) Unit :=
  d.call .pushScope fun d =>
    { d with
      scopes := (filter, d.injected.lookup filter) :: d.scopes
      injected := d.injected.filter (·.1 ≠ filter) }

/-- Close the innermost scope and report what it captured. -/
def popScope (d : Device ν α) : Attempt Raised (Device ν α) (Option String) :=
  match d.takeFault .popScope with
  | (some fault, d) => (.error fault, d)
  | (none, d) =>
    match d.scopes with
    | [] => (.error (.error (.plain "OperationError: error scope stack is empty")), d)
    | scope :: rest => (.ok scope.2, { d with scopes := rest })

/-! ## The queue -/

section
variable [Measure ν] [Channel α] [Stored α] [Transfer α]

def runCommand (heap : Heap α) : Command ν → Bool × Heap α
  | .dispatch d => d.run heap
  | .copy source destination bytes =>
    match Measure.toLength? bytes with
    | none => (false, heap)
    | some count =>
      if (heap.block source).size < count ∨ (heap.block destination).size < count then (false, heap)
      else (true, heap.modifyBlock destination fun b => b.overwrite (heap.block source) count)

def runCommands (heap : Heap α) : List (Command ν) → Bool × Heap α
  | [] => (true, heap)
  | command :: rest =>
    match runCommand heap command with
    | (true, heap) => runCommands heap rest
    | (false, heap) => (false, heap)

def submit (d : Device ν α) (commands : List (Command ν)) : Attempt Raised (Device ν α) Unit :=
  match d.takeFault .submit with
  | (some fault, d) => (.error fault, d)
  | (none, d) =>
    let (finished, heap) := runCommands d.buffers commands
    let d := { d with submitted := d.submitted + 1, buffers := heap }
    (if finished then .ok () else .error outOfRange, d)

def mapBuffer (d : Device ν α) (id : BufferId) : Attempt Raised (Device ν α) Unit :=
  match d.takeFault .mapBuffer with
  | (some fault, d) => (.error fault, d)
  | (none, d) =>
    match d.buffers[id]? with
    | some buffer =>
      if buffer.destroyed then (.error (.error (.plain s!"Buffer \"{buffer.label}\" is destroyed")), d)
      else (.ok (), d)
    | none => (.ok (), d)

end

end Device

end Strata
