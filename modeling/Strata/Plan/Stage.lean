import Strata.Memory.Arena
import Strata.Pipeline.Cache

/-!
# Plans

An ordered list of stages over handles: slots that were allocated for the plan, uploads, dispatches,
barriers, and downloads. A download is read into an array of the host; a plan that is made from a
stack has one, which is read into the output of the plan.
-/

namespace Strata

abbrev PlanId := Nat

/-- An array of the host: the output of a plan, or one that a caller has made. -/
inductive HostArray
  | output (plan : PlanId)
  | made (id : Nat)
deriving Repr, DecidableEq

/-- What a download is read into. -/
inductive Target
  /-- The output of the plan that the download belongs to. -/
  | output
  /-- Any array; plans may share one. -/
  | array (a : HostArray)
deriving Repr, DecidableEq

def Target.within (plan : PlanId) : Target → HostArray
  | output => .output plan
  | array a => a

/-- Where a result goes: a slot that the host can map, and the array that it is read into from there. -/
structure Readback where
  slot : Handle
  target : Target := .output
deriving Repr, DecidableEq

instance : Coe Handle Readback := ⟨fun slot => { slot }⟩

instance : Coe Readback Handle := ⟨Readback.slot⟩

/-- Slots bound to a dispatch. A copy has no backdrop. -/
structure Bindings where
  backdrop : Option Handle
  source : Handle
  result : Handle
  params : Handle
deriving Repr, DecidableEq

inductive AllocationPurpose
  /-- A working image. -/
  | intermediate
  | params
deriving Repr, DecidableEq

def AllocationPurpose.name : AllocationPurpose → String
  | intermediate => "intermediate"
  | params => "params"

inductive Stage (ν α : Type)
  | allocate (handle : Handle) (purpose : AllocationPurpose)
  /-- Write data to the start of a slot. -/
  | upload (handle : Handle) (data : Block α)
  | dispatch (label : String) (pipeline : Pipeline) (bindings : Bindings) (workgroupsX workgroupsY : ν)
  /-- What follows sees what precedes. -/
  | barrier
  /-- Copy a result to a slot the host reads, and from there to the target. -/
  | download (source : Handle) (destination : Readback) (bytes : ν)
deriving Repr, DecidableEq

namespace Bindings

def handles (b : Bindings) : List Handle := b.backdrop.toList ++ [b.source, b.result, b.params]

def reads (b : Bindings) : List Handle := b.backdrop.toList ++ [b.source, b.params]

end Bindings

namespace Stage

variable {ν α : Type}

def reads : Stage ν α → List Handle
  | dispatch _ _ bindings _ _ => bindings.reads
  | download source _ _ => [source]
  | _ => []

def writes : Stage ν α → List Handle
  | upload handle _ => [handle]
  | dispatch _ _ bindings _ _ => [bindings.result]
  | download _ destination _ => [destination.slot]
  | _ => []

def handles : Stage ν α → List Handle
  | upload handle _ => [handle]
  | dispatch _ _ bindings _ _ => bindings.handles
  | download source destination _ => [source, destination.slot]
  | allocate .. | barrier => []

/-- Whether a stage reads what another writes. -/
def readsFrom (stage previous : Stage ν α) : Bool := stage.reads.any (· ∈ previous.writes)

end Stage

structure Plan (ν α : Type) where
  stages : List (Stage ν α)
  /-- Handles allocated for the plan; whoever asked for it releases them. -/
  owned : List Handle
  width : ν
  height : ν
  /-- Channels of the output. -/
  outputLength : Nat
deriving Repr, DecidableEq

end Strata
