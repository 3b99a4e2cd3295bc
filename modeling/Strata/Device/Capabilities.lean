import Strata.Device.Basic

/-!
# Capabilities

What an adapter reports about itself, what a device is able to do, and how a device is acquired: an
adapter is asked for, a software adapter is refused unless allowed, and the device is requested.
-/

namespace Strata

structure AdapterInfo where
  vendor : String
  architecture : String
  device : String
  description : String
deriving Repr, DecidableEq

/-- What an adapter says about itself; it may leave anything out. -/
structure AdapterReport where
  vendor : Option String := none
  architecture : Option String := none
  device : Option String := none
  description : Option String := none
  fallback : Option Bool := none
deriving Repr, DecidableEq

def AdapterReport.orUnknown (field : Option String) : String :=
  match field with
  | some text => if text.isEmpty then "Unknown" else text
  | none => "Unknown"

def AdapterReport.info (r : AdapterReport) : AdapterInfo :=
  ⟨orUnknown r.vendor, orUnknown r.architecture, orUnknown r.device, orUnknown r.description⟩

structure CapabilityLimits (ν : Type) where
  maxBufferSize : ν
  maxStorageBinding : ν
  maxWorkgroupSize : ν
  /-- None if the device does not say. -/
  maxWorkgroups : Option ν
deriving Repr, DecidableEq

structure Capabilities (ν : Type) where
  /-- Whether there is a device. -/
  available : Bool
  /-- Whether its adapter is a software one. -/
  fallback : Bool
  adapter : Option AdapterInfo
  limits : CapabilityLimits ν
deriving Repr, DecidableEq

namespace Capabilities

variable {ν : Type} [Measure ν]

def ofDevice (limits : DeviceLimits ν) (report : AdapterReport) (fallback : Bool) : Capabilities ν where
  available := true
  fallback
  adapter := some report.info
  limits :=
    { maxBufferSize := limits.maxBufferSize
      maxStorageBinding := limits.maxStorageBinding
      maxWorkgroupSize :=
        Measure.lesser (Measure.lesser limits.maxWorkgroupSizeX limits.maxWorkgroupSizeY) limits.maxWorkgroupSizeZ
      maxWorkgroups := limits.maxWorkgroups }

/-- Whether a buffer of this many bytes can be created and bound as storage. -/
def fits (c : Capabilities ν) (bytes : ν) : Bool :=
  c.available && decide (bytes ≤ c.limits.maxBufferSize) && decide (bytes ≤ c.limits.maxStorageBinding)

end Capabilities

/-! ## Acquiring a device -/

structure InitOptions where
  preferHighPerformance : Bool := true
  allowFallback : Bool := false
deriving Repr, DecidableEq

structure Adapter where
  report : Option AdapterReport := none
  /-- The fallback flag, of adapters that carry it themselves. -/
  fallback : Option Bool := none
  /-- A report that has to be asked for, and may then be missing. -/
  asked : Option (Option AdapterReport) := none
  /-- What a request for a device fails with. -/
  refusal : Option Raised := none
deriving Repr, DecidableEq

namespace Adapter

/-- The report of an adapter; nothing has to be said. -/
def report? (a : Adapter) : Except Failure AdapterReport :=
  match a.report, a.asked with
  | some report, _ | none, some (some report) => .ok report
  | none, some none => .error (.host .mistyped)
  | none, none => .ok {}

/-- Whether an adapter is a software one. The report knows better than the adapter. -/
def isFallback (a : Adapter) (report : AdapterReport) : Bool := (report.fallback.or a.fallback).getD false

end Adapter

/-- Where devices come from. -/
structure EntryPoint (ν : Type) where
  adapter : Option Adapter
  limits : DeviceLimits ν

/-- Whether a host offers an entry point: it has such a field, whatever its value. -/
def offersEntryPoint (hostFields : Option (List String)) : Bool := hostFields.any (·.contains "gpu")

/-- Requests made on the way to a device. -/
inductive AcquireCall
  | adapter (highPerformance : Bool)
  | device
deriving Repr, DecidableEq

/-- Acquire a device and report what it can do, with the requests that were made. -/
def acquireDevice {ν : Type} [Measure ν] (gpu : Option (EntryPoint ν)) (options : InitOptions) :
    Except Failure (Capabilities ν) × List AcquireCall :=
  match gpu with
  | none => (.error (.of .noGPU), [])
  | some gpu =>
    let asked := [AcquireCall.adapter options.preferHighPerformance]
    match gpu.adapter with
    | none => (.error (.of .noAdapter), asked)
    | some adapter =>
      match adapter.report? with
      | .error failure => (.error failure, asked)
      | .ok report =>
        let fallback := adapter.isFallback report
        if fallback && !options.allowFallback then (.error (.of .onlyFallbackAdapter), asked)
        else
          let asked := asked ++ [.device]
          match adapter.refusal with
          | some raised => (.error (.engine .deviceRefused raised.error?), asked)
          | none => (.ok (.ofDevice gpu.limits report fallback), asked)

end Strata
