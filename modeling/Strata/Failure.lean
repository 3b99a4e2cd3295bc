import Strata.Layer.Issue
import Strata.Number.Ident
import Strata.Text.Blank

/-!
# Failures

Why a call fails. The engine's own failures are causes, each with a code that says what a caller may
do about it and a wording; beside them stand the errors of the device and of callers, passed on
unchanged.
-/

namespace Strata

inductive ErrorCode
  | notSupported
  | adapterNotFound
  | deviceCreationFailed
  | staleHandle
  | incompatibleFormats
  | unsupportedMode
  | deviceLost
  | outOfMemory
  | validation
  | internal
  /-- A code that the engine does not know. -/
  | other (name : String)
deriving Repr, DecidableEq

namespace ErrorCode

/-- The codes that the engine knows. -/
def all : List ErrorCode :=
  [notSupported, adapterNotFound, deviceCreationFailed, staleHandle, incompatibleFormats,
    unsupportedMode, deviceLost, outOfMemory, validation, internal]

def name : ErrorCode → String
  | notSupported => "NOT_SUPPORTED"
  | adapterNotFound => "ADAPTER_NOT_FOUND"
  | deviceCreationFailed => "DEVICE_CREATION_FAILED"
  | staleHandle => "STALE_HANDLE"
  | incompatibleFormats => "INCOMPATIBLE_FORMATS"
  | unsupportedMode => "UNSUPPORTED_MODE"
  | deviceLost => "DEVICE_LOST"
  | outOfMemory => "OUT_OF_MEMORY"
  | validation => "VALIDATION_ERROR"
  | internal => "INTERNAL_ERROR"
  | other name => name

def ofName (s : String) : ErrorCode := (all.find? (·.name == s)).getD (other s)

/-- Whether the caller may reformulate or retry. -/
def recoverable : ErrorCode → Bool
  | incompatibleFormats | unsupportedMode | outOfMemory => true
  | _ => false

end ErrorCode

/-- Names a slot of the arena, for as long as its contents last. -/
structure Handle where
  index : Ident
  generation : Ident
deriving Repr, DecidableEq

namespace Handle

def text (h : Handle) : String := s!"{h.index.text}:{h.generation.text}"

/-- Equality of both numbers. -/
def same (a b : Handle) : Bool := a.index.same b.index && a.generation.same b.generation

end Handle

/-- Errors raised outside the engine. -/
inductive HostError
  | plain (message : String)
  | range (message : String)
  /-- An error of the engine's kind, whose code may be missing. -/
  | coded (code : Option ErrorCode) (message : String)
  /-- The report of a value of the wrong shape. -/
  | malformed
  /-- Something is used as what it is not. -/
  | mistyped
deriving Repr, DecidableEq

/-- What a call into the device can raise: an error, or a text that is none. -/
inductive Raised
  | error (e : HostError)
  | text (s : String)
deriving Repr, DecidableEq

def Raised.error? : Raised → Option HostError
  | error e => some e
  | text _ => none

/-- Reasons of the engine's own. -/
inductive Complaint
  | noGPU
  | noAdapter
  | onlyFallbackAdapter
  | deviceRefused
  | staleHandle (h : Handle)
  | invalidAllocationSize (size : Quoted)
  | refusedBuffer (bytes : Nat)
  | bufferCreationFailed
  | budgetExceeded (bytes inUse : Nat) (budget : Quoted)
  | unsupportedKey (key : String)
  | pipelineFailed (key : String)
  | emptyStack
  | destinationNotReadback
  | destinationTooSmall (held : Nat) (needed : Quoted)
  | workingImageTooLarge (bytes : Quoted)
  | gridTooLarge (grid limit : Quoted)
  | otherDestination (index : Nat)
  | sourceNotImage (index : Nat)
  | sourceTooLarge (index : Nat) (bytes : Nat)
  | baseNotCanvas (canvas placement : Quoted)
  | placementOutside (index : Nat) (canvas placement : Quoted)
  | sizeMismatch (index : Nat) (size expected : Quoted)
  | uploadTooLarge (bytes size : Nat)
  | uploadMisaligned
  | opacityOutOfRange (opacity : Quoted)
  | alreadySubmitted
  | noBackdrop (label : String)
  | unknownToken (id : Ident)
  | sessionDestroyed (code : ErrorCode)
  | deviceLost
  | deviceLostBecause (reason message : String)
  | lostDuringSubmission
  | ranOutOfMemory
  | capturedOutOfMemory (message : String)
  | capturedValidation (message : String)
  | submissionFailed
  | malformed (what : String) (issues : List Issue)
  | baseLayerNotCanvas (canvas placement : Quoted)
  | layerOutside (canvas placement : Quoted)
  | layerSizeMismatch (size expected : Quoted)
  /-- Sizes with formats. -/
  | incomparable (first second : Quoted)
  /-- The reason a part of the engine was closed with. -/
  | closed (code : ErrorCode) (message : String)
deriving Repr, DecidableEq

namespace Complaint

def code : Complaint → ErrorCode
  | noGPU => .notSupported
  | noAdapter | onlyFallbackAdapter => .adapterNotFound
  | deviceRefused => .deviceCreationFailed
  | staleHandle _ => .staleHandle
  | refusedBuffer _ | budgetExceeded .. | ranOutOfMemory | capturedOutOfMemory _ => .outOfMemory
  | bufferCreationFailed | submissionFailed => .internal
  | unsupportedKey _ => .unsupportedMode
  | baseNotCanvas .. | placementOutside .. | sizeMismatch .. | baseLayerNotCanvas .. | layerOutside ..
  | layerSizeMismatch .. | incomparable .. => .incompatibleFormats
  | deviceLost | deviceLostBecause .. | lostDuringSubmission => .deviceLost
  | sessionDestroyed code | closed code _ => code
  | invalidAllocationSize _ | pipelineFailed _ | emptyStack | destinationNotReadback
  | destinationTooSmall .. | workingImageTooLarge _ | gridTooLarge .. | otherDestination _
  | sourceNotImage _ | sourceTooLarge .. | uploadTooLarge .. | uploadMisaligned
  | opacityOutOfRange _ | alreadySubmitted | noBackdrop _ | unknownToken _ | capturedValidation _
  | malformed .. => .validation

def message : Complaint → String
  | noGPU => "WebGPU is not available"
  | noAdapter => "No suitable GPU adapter found"
  | onlyFallbackAdapter => "Only fallback (software) adapter available"
  | deviceRefused => "Device creation failed"
  | staleHandle h => s!"Stale handle {h.text}"
  | invalidAllocationSize size => s!"Invalid allocation size: {size}"
  | refusedBuffer bytes => s!"Device refused a {Numeral.text bytes} byte buffer"
  | bufferCreationFailed => "Buffer creation failed"
  | budgetExceeded bytes inUse budget =>
    let use := s!"{Numeral.text inUse}/{budget} in use"
    s!"Allocation of {Numeral.text bytes} bytes exceeds memory budget ({use})"
  | unsupportedKey key => s!"No pipeline available for {key}"
  | pipelineFailed key => s!"Pipeline creation failed for {key}"
  | emptyStack => "Blend stack is empty"
  | destinationNotReadback => "Destination must be a readback slot"
  | destinationTooSmall held needed =>
    s!"Destination holds {Numeral.text held} bytes, {needed} needed"
  | workingImageTooLarge bytes => s!"Working image of {bytes} bytes exceeds the device limits"
  | gridTooLarge grid limit => s!"Dispatch of {grid} workgroups exceeds {limit} per dimension"
  | otherDestination index => s!"Descriptor {index} targets a different destination"
  | sourceNotImage index => s!"Descriptor {index} source is not an image slot"
  | sourceTooLarge index bytes =>
    s!"Descriptor {index} source of {Numeral.text bytes} bytes exceeds the device limits"
  | baseNotCanvas canvas placement => s!"Descriptor 0 must cover the {canvas} canvas, got {placement}"
  | placementOutside index canvas placement =>
    s!"Descriptor {index} placement {placement} is outside the {canvas} canvas"
  | sizeMismatch index size expected => s!"Descriptor {index} is {size}, expected {expected}"
  | uploadTooLarge bytes size =>
    s!"Upload of {Numeral.text bytes} bytes exceeds slot size {Numeral.text size}"
  | uploadMisaligned => "Upload size must be a multiple of 4 bytes"
  | opacityOutOfRange opacity => s!"Opacity must be in [0, 1], got {opacity}"
  | alreadySubmitted => "Plan was already submitted"
  | noBackdrop label => s!"{label} has no backdrop"
  | unknownToken id => s!"Token {id.text} was already awaited or never issued"
  | sessionDestroyed _ => "Session destroyed"
  | deviceLost => "Device lost"
  | deviceLostBecause reason message => trimEnd s!"Device lost: {reason} {message}"
  | lostDuringSubmission => "Device lost during submission"
  | ranOutOfMemory => "Out of memory"
  | capturedOutOfMemory message => s!"Out of memory: {message}"
  | capturedValidation message => s!"Validation failed: {message}"
  | submissionFailed => "Submission failed"
  | malformed what issues =>
    let report := "; ".intercalate (issues.map Issue.text)
    s!"Invalid {what}: {report}"
  | baseLayerNotCanvas canvas placement => s!"Base layer must cover the {canvas} canvas, got {placement}"
  | layerOutside canvas placement => s!"Layer placement {placement} is outside the {canvas} canvas"
  | layerSizeMismatch size expected => s!"Layer is {size}, expected {expected}"
  | incomparable first second => s!"Cannot compare {first} with {second}"
  | closed _ message => message

end Complaint

/-- How a call can fail. -/
inductive Failure
  | engine (complaint : Complaint) (cause : Option HostError)
  | host (error : HostError)
  /-- A text raised in place of an error. -/
  | bare (text : String)
  | aborted (message : String)
deriving Repr, DecidableEq

namespace Failure

def of (complaint : Complaint) : Failure := engine complaint none

def code? : Failure → Option ErrorCode
  | engine complaint _ => some complaint.code
  | host (.coded code _) => code
  | _ => none

/-- Whether the caller may reformulate or retry. -/
def recoverable (f : Failure) : Bool := f.code?.any ErrorCode.recoverable

def hasCode (f : Failure) (code : ErrorCode) : Bool := f.code? == some code

def ofRaised : Raised → Failure
  | .error e => host e
  | .text s => bare s

/-- The failure as an error: a bare text becomes the message of one. -/
def asError : Failure → Failure
  | bare text => host (.plain text)
  | failure => failure

end Failure

/-- The reason a part of the engine is closed with. -/
structure Closing where
  code : ErrorCode
  message : String
deriving Repr, DecidableEq

def Closing.failure (c : Closing) : Failure := .of (.closed c.code c.message)

end Strata
