import Strata.Color.Format
import Strata.Geometry.Rectangle
import Strata.Memory.Block

/-!
# Footprints

How many bytes an image takes, how many workgroups cover it, and the parameter block that tells a
dispatch its canvas, its opacity and the region its source covers.
-/

namespace Strata

/-- Sizes and copy ranges are multiples of this. -/
def copyAlignment : Nat := 4

/-- Bytes of a parameter block. -/
def paramsSize : Nat := 32

/-- Edge of a workgroup. -/
def workgroupEdge : Nat := 16

section
variable {ν : Type} [Measure ν]

def alignedBytes (bytes : ν) : ν :=
  Measure.ceilDiv bytes (Measure.ofNat copyAlignment) * Measure.ofNat copyAlignment

def imageBytes (format : PixelFormat) (width height : ν) : ν :=
  alignedBytes (width * height * Measure.ofNat format.bytesPerPixel)

def workingBytes (width height : ν) : ν := imageBytes .float32 width height

/-- Workgroups along both edges of an image. -/
def workgroupGrid (width height edge : ν) : ν × ν :=
  (Measure.ceilDiv width edge, Measure.ceilDiv height edge)

end

/-- What one dispatch is told: the canvas, the source's opacity and where its corner and size lie
on the canvas. -/
structure DispatchParams (ν α : Type) where
  width : ν
  height : ν
  opacity : α
  originX : ν
  originY : ν
  sourceWidth : ν
  sourceHeight : ν

namespace DispatchParams

variable {ν α : Type} [Measure ν] [Channel α] [Stored α]

/-- A source that covers the canvas. -/
def whole (width height : ν) (opacity : α) : DispatchParams ν α :=
  ⟨width, height, opacity, 0, 0, width, height⟩

/-- Eight words: the canvas, the opacity, a gap, the region. -/
def pack (p : DispatchParams ν α) : Block α :=
  let word (n : ν) : Word α := .bits (Measure.toWord n)
  Block.ofWords #[word p.width, word p.height, .channel (Stored.round p.opacity), .bits 0,
    word p.originX, word p.originY, word p.sourceWidth, word p.sourceHeight]

end DispatchParams

/-- Packed parameters as a program reads them back. -/
structure PackedParams (α : Type) where
  width : Nat
  height : Nat
  opacity : α
  originX : Nat
  originY : Nat
  sourceWidth : Nat
  sourceHeight : Nat
deriving Repr, DecidableEq

/-- Read a parameter block. A copy reads only as far as the opacity and takes its source to cover
the canvas; none if the block ends before what is read. -/
def PackedParams.ofBlock? {α : Type} [Zero α] [Stored α] (block : Block α) (copies : Bool) :
    Option (PackedParams α) :=
  let field (i : Nat) : Nat := (block.word i).toBits.toNat
  if block.size < (if copies then 12 else paramsSize) then none
  else
    let (width, height) := (field 0, field 1)
    let opacity := (block.word 2).toChannel
    if copies then some ⟨width, height, opacity, 0, 0, width, height⟩
    else some ⟨width, height, opacity, field 4, field 5, field 6, field 7⟩

end Strata
