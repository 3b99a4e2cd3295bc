import Strata.Color.Raster
import Strata.Failure
import Strata.Geometry.Rectangle
import Strata.Layer.Check

/-!
# Layers

What a composite request consists of, and how it is read from values: a layer is a raster with a
mode, a space, and optionally an opacity and a placement. Unknown fields are dropped.
-/

namespace Strata

structure Layer (ν α : Type) where
  raster : Raster ν α
  mode : BlendMode
  space : ColorSpace
  opacity : Option α
  /-- The region the layer covers, the canvas if there is none. -/
  placement : Option (Rectangle ν)
deriving Repr, DecidableEq

structure CompositeOptions where
  /-- None keeps the format of the bottom layer. -/
  outputFormat : Option PixelFormat := none
  signal : Option Nat := none
deriving Repr, DecidableEq

/-- Settings as they are given: a setting may be left out, or given and undefined. -/
structure ConfigChange (α : Type) where
  retries : Option (Option Nat) := none
  tolerance : Option (Option α) := none
  logPerformance : Option (Option Bool) := none
deriving Repr, DecidableEq

structure Config (α : Type) where
  /-- How often a call that ran out of memory starts over. -/
  retries : Option Nat
  /-- Allowed difference of a channel, in steps of a byte. -/
  tolerance : Option α
  logPerformance : Option Bool
deriving Repr, DecidableEq

namespace Config

variable {α : Type}

def standard [One α] : Config α := ⟨some 0, some 1, some false⟩

/-- Replace the settings that are given. -/
def update (c : Config α) (change : ConfigChange α) : Config α :=
  ⟨change.retries.getD c.retries, change.tolerance.getD c.tolerance, change.logPerformance.getD c.logPerformance⟩

end Config

namespace Value

variable {ν α : Type} [Measure ν] [Channel α]

def measureOf (x : α) : ν := Measure.ofInt (integerOf x)

/-! ## Rasters -/

/-- The byte formats, by name. -/
def byteFormat? (s : String) : Option (Array UInt8 → Texels α) :=
  match PixelFormat.ofName? s with
  | some .srgb8 => some .srgb8
  | some .unorm8 => some .unorm8
  | _ => none

def floatFormat? (s : String) : Option (Array α → Texels α) :=
  match PixelFormat.ofName? s with
  | some .float32 => some .float32
  | _ => none

def byteData? : Value α → Option (Array UInt8)
  | bytes data => some data
  | _ => none

def floatData? : Value α → Option (Array α)
  | singles data => some data
  | _ => none

def name? : Value α → Option String
  | string s => some s
  | _ => none

/-- The texels of an object that has a format and data to match. -/
def texels? (v : Value α) : Option (Texels α) :=
  (do (← byteFormat? (← (v.field "format").name?)) <$> (v.field "data").byteData?) <|>
    (do (← floatFormat? (← (v.field "format").name?)) <$> (v.field "data").floatData?)

def checkDimension (v : Value α) : Checked α := v.checkNumber [isIntegral, isPositive]

/-- The report on a count of channels that does not match the size. -/
def checkCount (width height : α) (count : Nat) : List Issue :=
  let (matching, expected) : Bool × Quoted :=
    match Channel.integer? width, Channel.integer? height with
    | some w, some h => (channelCount w h == (count : Int), Numeral.text (channelCount w h))
    | _, _ =>
      let product := width * height * Channel.ofNat 4
      (decide (product ≤ Channel.ofNat count ∧ Channel.ofNat count ≤ product), Numeral.text product)
  if matching then [] else [⟨[.field "data"], .wrongCount expected count⟩]

/-- A raster. Unless its format fits its data and its size is at least given in numbers, nothing more
is said about it. -/
def checkRaster (v : Value α) : Checked (Raster ν α) :=
  match v.texels?, v.field "width", v.field "height" with
  | some texels, number width, number height =>
    if Channel.isNaN width || Channel.isNaN height then .problem .invalid
    else
      let size := ((checkField v "width" checkDimension).map Prod.mk).both (checkField v "height" checkDimension)
      match size.issues ++ checkCount width height texels.size with
      | [] => .ok ⟨measureOf width, measureOf height, texels⟩
      | issues => .failed issues
  | _, _, _ => .problem .invalid

/-! ## Layers -/

def checkCoordinate (v : Value α) : Checked ν := (v.checkNumber [isIntegral, isAtLeast 0]).map measureOf

def checkRectangle (v : Value α) : Checked (Rectangle ν) :=
  v.checkObject fun v =>
    ((((checkField v "x" checkCoordinate).map Rectangle.mk).both (checkField v "y" checkCoordinate)).both
      (checkField v "maxX" checkCoordinate)).both (checkField v "maxY" checkCoordinate)

def checkMode (v : Value α) : Checked BlendMode :=
  v.checkName (BlendMode.all.map BlendMode.name) BlendMode.ofName?

def checkSpace (v : Value α) : Checked ColorSpace :=
  v.checkName (ColorSpace.all.map ColorSpace.name) ColorSpace.ofName?

def checkFormat (v : Value α) : Checked PixelFormat :=
  v.checkName (PixelFormat.all.map PixelFormat.name) PixelFormat.ofName?

def checkOpacity (v : Value α) : Checked α := v.checkNumber [isAtLeast 0, isAtMost 1]

def checkLayer (v : Value α) : Checked (Layer ν α) :=
  v.checkObject fun v =>
    (((((checkField v "buffer" checkRaster).map Layer.mk).both (checkField v "mode" checkMode)).both
      (checkField v "space" checkSpace)).both (checkField v "opacity" (optional · checkOpacity))).both
      (checkField v "placement" (optional · checkRectangle))

def checkLayers (v : Value α) : Checked (List (Layer ν α)) :=
  match v with
  | array [] => .problem .noLayers
  | array items => .all 0 (items.map checkLayer)
  | _ => .problem (v.mismatch .array)

/-! ## Options and settings -/

def checkOptions (v : Value α) : Checked CompositeOptions :=
  v.checkObject fun v =>
    ((checkField v "outputFormat" (optional · checkFormat)).map CompositeOptions.mk).both
      (checkField v "signal" (optional · checkSignal))

/-- A setting, if it is given. -/
def setting {β : Type} (v : Value α) (name : String) (check : Value α → Checked β) :
    Checked (Option (Option β)) :=
  match v.given? name with
  | none => .ok none
  | some value => ((value.optional check).map some).within (.field name)

def checkConfig (v : Value α) : Checked (ConfigChange α) :=
  v.checkObject fun v =>
    (((v.setting "outOfMemoryRetries" fun n =>
          (n.checkNumber [isIntegral, isAtLeast 0]).map fun x => (integerOf x).toNat).map ConfigChange.mk).both
      (v.setting "channelTolerance" (·.checkNumber [isAtLeast 0]))).both
      (v.setting "logPerformance" checkBoolean)

end Value

def Checked.orMalformed {β : Type} (what : String) : Checked β → Except Failure β
  | ok value => .ok value
  | failed issues => .error (.engine (.malformed what issues) (some .malformed))

variable {ν α : Type} [Measure ν] [Channel α]

def parseLayers (v : Value α) : Except Failure (List (Layer ν α)) := (Value.checkLayers v).orMalformed "layers"

def parseOptions (v : Value α) : Except Failure CompositeOptions :=
  (Value.checkOptions v).orMalformed "composite options"

def parseConfig (v : Value α) : Except Failure (ConfigChange α) :=
  (Value.checkConfig v).orMalformed "compositor config"

end Strata
