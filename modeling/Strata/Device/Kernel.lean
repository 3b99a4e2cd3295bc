import Strata.Color.Blend
import Strata.Device.Buffer
import Strata.Memory.Footprint
import Strata.Pipeline.Key

/-!
# Dispatches

A dispatch visits the pixels of its canvas in reading order and writes one result texel for each. A
copy loads the source texel; a blend folds the source onto the backdrop inside the region that the
source covers, and passes the backdrop through outside it. Reads beyond a buffer give 0, a write
beyond one stops the dispatch with what it wrote so far.
-/

namespace Strata

/-- Buffers bound to a dispatch; a blend also has a backdrop. -/
structure DispatchBuffers where
  backdrop : BufferId
  source : BufferId
  result : BufferId
  params : BufferId
deriving Repr, DecidableEq

structure Dispatch (ν : Type) where
  program : Program
  buffers : DispatchBuffers
  workgroupsX : ν
  workgroupsY : ν
deriving Repr, DecidableEq

section
variable {α : Type} [Channel α] [Stored α] [Transfer α]

def Block.pixelAt (block : Block α) (index : Nat) : Pixel α :=
  ⟨block.channelAt (4 * index), block.channelAt (4 * index + 1), block.channelAt (4 * index + 2),
    block.channelAt (4 * index + 3)⟩

def Block.sourceAt (block : Block α) (format : PixelFormat) (index : Nat) : Pixel α :=
  match format with
  | .float32 =>
    let p := block.pixelAt index
    ⟨clampUnit p.r, clampUnit p.g, clampUnit p.b, clampUnit p.a⟩
  | .srgb8 | .unorm8 =>
    let byte (k : Nat) : α := Channel.ofByte (block.byteAt (4 * index + k))
    ⟨format.decodeChannel (byte 0), format.decodeChannel (byte 1), format.decodeChannel (byte 2),
      byte 3 / Channel.ofNat 255⟩

def Block.setPixel (block : Block α) (index : Nat) (p : Pixel α) : Block α :=
  (((block.setChannel (4 * index) p.r).setChannel (4 * index + 1) p.g).setChannel (4 * index + 2) p.b).setChannel
    (4 * index + 3) p.a

namespace Dispatch

variable {ν : Type}

/-- The result texel at a canvas position. -/
def texel (d : Dispatch ν) (p : PackedParams α) (heap : Heap α) (x y : Nat) : Pixel α :=
  let index := y * p.width + x
  let source := heap.block d.buffers.source
  match d.program with
  | .copy format => Pixel.load p.opacity (source.sourceAt format index)
  | .blend mode space format =>
    let below := (heap.block d.buffers.backdrop).pixelAt index
    if x < p.originX ∨ y < p.originY ∨ p.sourceWidth ≤ x - p.originX ∨ p.sourceHeight ≤ y - p.originY then
      below
    else
      let place := (y - p.originY) * p.sourceWidth + (x - p.originX)
      Pixel.blend mode space p.opacity below (source.sourceAt format place)

/-- Visit `count` positions, from the `n`th in reading order of rows of `columns`. -/
def sweep (d : Dispatch ν) (p : PackedParams α) (columns : Nat) : (count n : Nat) → Heap α → Bool × Heap α
  | 0, _, heap => (true, heap)
  | count + 1, n, heap =>
    let x := n % columns
    let y := n / columns
    let index := y * p.width + x
    if (heap.block d.buffers.result).covers (4 * index + 3) then
      let texel := d.texel p heap x y
      d.sweep p columns count (n + 1) (heap.modifyBlock d.buffers.result (·.setPixel index texel))
    else (false, heap)

/-- How far a dispatch of this many workgroups goes along an edge. -/
def reach [Measure ν] (edge : Nat) (workgroups : ν) : Nat :=
  Measure.toCount (Measure.lesser (Measure.ofNat edge) (workgroups * Measure.ofNat workgroupEdge))

def run [Measure ν] (d : Dispatch ν) (heap : Heap α) : Bool × Heap α :=
  match PackedParams.ofBlock? (heap.block d.buffers.params) (d.program.bindings == .copy) with
  | none => (false, heap)
  | some p =>
    let columns := reach p.width d.workgroupsX
    let rows := reach p.height d.workgroupsY
    d.sweep p columns (rows * columns) 0 heap

end Dispatch

end

end Strata
