import Strata.Layer.Basic

/-!
# Compositing on the host

The fold of a stack without a device: the bottom layer is loaded, every later layer is blended onto
the canvas cells of its placement, and the canvas is stored. Between layers it keeps full precision.
-/

namespace Strata

section
variable {ν : Type} [Measure ν]

def Rectangle.cells (r : Rectangle ν) : List (ν × ν) :=
  (List.range (Measure.toCount (r.maxY - r.y))).flatMap fun (j : Nat) =>
    (List.range (Measure.toCount (r.maxX - r.x))).map fun (i : Nat) =>
      (r.x + Measure.ofNat i, r.y + Measure.ofNat j)

/-- Position of a cell in rows of `width`. -/
def cellIndex (width x y : ν) : Nat := (Measure.natural? (y * width + x)).getD 0

end

/-- Pixels in reading order. -/
abbrev Canvas (α : Type) := Array (Pixel α)

namespace Canvas

variable {ν α : Type} [Measure ν] [Channel α]

def transparent : Pixel α := ⟨0, 0, 0, 0⟩

def ofChannels (channels : Array α) : Canvas α :=
  Array.ofFn (n := channels.size / 4) fun i =>
    let part (k : Nat) : α := channels.getD (4 * i + k) 0
    ⟨part 0, part 1, part 2, part 3⟩

def channels (canvas : Canvas α) : Array α :=
  canvas.flatMap fun p => #[p.r, p.g, p.b, p.a]

section
variable [Stored α] [Transfer α]

def ofRaster (raster : Raster ν α) : Canvas α := ofChannels raster.decode

/-- Blend a source onto the cells of a placement. -/
def blend (canvas : Canvas α) (width : ν) (placement : Rectangle ν) (sourceWidth : ν) (source : Canvas α)
    (mode : BlendMode) (space : ColorSpace) (opacity : α) : Canvas α :=
  placement.cells.foldl (fun canvas (x, y) =>
    let texel := source.getD (cellIndex sourceWidth (x - placement.x) (y - placement.y)) transparent
    canvas.modify (cellIndex width x y) (Pixel.blend mode space opacity · texel)) canvas

end

end Canvas

namespace Direct

variable {ν α : Type} [Measure ν]

/-- The bottom layer has to cover the canvas that it defines. -/
def checkBase (base : Layer ν α) : Except Failure (Rectangle ν) :=
  let (width, height) := (base.raster.width, base.raster.height)
  let canvas := Rectangle.ofSize width height
  match base.placement with
  | some placement =>
    if placement.normalize.same canvas then .ok canvas
    else .error (.of (.baseLayerNotCanvas (Numeral.extent width height) placement.text))
  | none => .ok canvas

/-- The region of a later layer, which lies on the canvas and has the layer's size. -/
def checkPlacement (canvas : Rectangle ν) (layer : Layer ν α) : Except Failure (Rectangle ν) := do
  let placement := match layer.placement with
    | some placement => placement.normalize
    | none => canvas
  if !canvas.contains placement then
    throw (.of (.layerOutside (Numeral.extent canvas.maxX canvas.maxY) placement.text))
  let (width, height) := (layer.raster.width, layer.raster.height)
  if !(width == placement.width && height == placement.height) then
    throw (.of (.layerSizeMismatch (Numeral.extent width height)
      (Numeral.extent placement.width placement.height)))
  return placement

def checkPlacements (canvas : Rectangle ν) :
    List (Layer ν α) → Except Failure (List (Layer ν α × Rectangle ν))
  | [] => .ok []
  | layer :: rest => do
    let placement ← checkPlacement canvas layer
    let placed ← checkPlacements canvas rest
    return (layer, placement) :: placed

variable [Channel α] [Stored α] [Transfer α]

/-- Blend one placed layer onto the canvas. -/
def blendLayer (width : ν) (canvas : Canvas α) (placed : Layer ν α × Rectangle ν) : Canvas α :=
  let (layer, placement) := placed
  canvas.blend width placement layer.raster.width (.ofRaster layer.raster) layer.mode layer.space
    (layer.opacity.getD 1)

def loadBase (base : Layer ν α) : Canvas α :=
  (Canvas.ofRaster base.raster).map (Pixel.load (base.opacity.getD 1))

def composite (layers : List (Layer ν α)) (outputFormat : Option PixelFormat) :
    Except Failure (Raster ν α) :=
  match layers with
  | [] => .error (.of (.malformed "layers" [⟨[], .noLayers⟩]))
  | base :: rest => do
    let canvas ← checkBase base
    let placed ← checkPlacements canvas rest
    let (width, height) := (base.raster.width, base.raster.height)
    let pixels := placed.foldl (blendLayer width) (loadBase base)
    return Raster.encode pixels.channels width height (outputFormat.getD base.raster.format)

end Direct

def compositeDirect {ν α : Type} [Measure ν] [Channel α] [Stored α] [Transfer α] (layers options : Value α) :
    Except Failure (Raster ν α) := do
  let layers ← parseLayers layers
  let options ← parseOptions options
  Direct.composite layers options.outputFormat

end Strata
