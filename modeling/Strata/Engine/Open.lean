import Strata.Engine.Run

/-!
# Opening an engine

An engine is put together over a device, either as a bare bench without a session, or with a session
on a device that is given or acquired.
-/

namespace Strata

/-- Parts that a caller may choose. -/
structure EngineOptions (ν : Type) where
  platform : Platform := .native
  library : Library := .full
  budget : Option ν := none
  /-- None keeps the bound of the arena. -/
  maxPooled : Option ν := none
  /-- None leaves the label to who opens the engine. -/
  label : Option String := none
  capabilities : Option (Capabilities ν) := none

section
variable {α : Type} [Channel α]

/-- The options that a value overrides. A field that is given counts even if it is undefined. -/
def InitOptions.overridden (v : Value α) : InitOptions :=
  let flag (name : String) (standard : Bool) : Bool := ((v.given? name).map Value.truthy).getD standard
  let standard : InitOptions := {}
  ⟨flag "preferHighPerformance" standard.preferHighPerformance, flag "allowFallbackAdapter" standard.allowFallback⟩

/-- The options that reach a device when an engine is opened: both are handed on, as undefined where
they are left out. -/
def InitOptions.handedOn (v : Value α) : InitOptions :=
  ⟨(v.field "preferHighPerformance").truthy, (v.field "allowFallbackAdapter").truthy⟩

end

namespace EngineOptions

/-- Options of the arena of an engine. -/
def arena {ν : Type} [Measure ν] (o : EngineOptions ν) (label : String) : ArenaOptions ν :=
  ⟨o.budget, o.maxPooled.getD ArenaOptions.standard.maxPooled, o.label.getD label⟩

end EngineOptions

namespace Engine

variable {ν α : Type} [Measure ν] [Channel α]

/-- An engine on a device, without a session. -/
def bare (device : Device ν α) (o : EngineOptions ν) : Engine ν α where
  pool := ⟨{ options := o.arena "Arena" }, device⟩
  cache := { library := o.library }
  capabilities := o.capabilities.getD (.ofDevice device.limits {} false)
  completion := .ofPlatform o.platform
  config := .standard
  supervised := false

def onDevice (device : Device ν α) (o : EngineOptions ν) (config : Value α) : Except Failure (Engine ν α) := do
  let change ← parseConfig config
  return { bare device o with
    pool := ⟨{ options := o.arena "Session" }, device⟩
    config := Config.standard.update change
    supervised := true }

/-- How the in-process device is offered. -/
structure Simulation where
  noAdapter : Bool := false
  fallback : Bool := false
  refusesDevice : Bool := false

def testAdapter (fallback refuses : Bool) : Adapter where
  report := some ⟨"test-vendor", "test-arch", "test-device", "In-process test adapter", fallback⟩
  refusal := if refuses then some (.error (.plain "Device request refused")) else none

def Simulation.entryPoint (s : Simulation) (limits : DeviceLimits ν) : EntryPoint ν :=
  ⟨if s.noAdapter then none else some (testAdapter s.fallback s.refusesDevice), limits⟩

/-- The result of opening an engine on an acquired device. -/
structure Opening (ν α : Type) where
  result : Except Failure (Engine ν α)
  log : List LogEntry
  calls : List AcquireCall

/-- Acquire a device and open an engine on it. -/
def acquire (gpu : Option (EntryPoint ν)) (device : Device ν α) (o : EngineOptions ν) (init config : Value α) :
    Opening ν α :=
  match acquireDevice gpu (.handedOn init) with
  | (.error failure, calls) => ⟨.error failure, [], calls⟩
  | (.ok capabilities, calls) =>
    ⟨onDevice device { o with capabilities := some capabilities } config,
      [.opened o.platform capabilities.adapter], calls⟩

end Engine

end Strata
