import Strata.Color.Blend
import Strata.Geometry.Measure

/-!
# Rasters

An image in storage, and its conversion to and from a row of linear channels. Channels lie in
reading order, four to a pixel. Conversions read 0 beyond the end of the data.
-/

namespace Strata

inductive Texels (α : Type)
  | srgb8 (bytes : Array UInt8)
  | unorm8 (bytes : Array UInt8)
  | float32 (values : Array α)
deriving Repr, DecidableEq

namespace Texels

variable {α : Type}

def format : Texels α → PixelFormat
  | srgb8 _ => .srgb8
  | unorm8 _ => .unorm8
  | float32 _ => .float32

/-- Count of stored channel values. -/
def size : Texels α → Nat
  | srgb8 bytes | unorm8 bytes => bytes.size
  | float32 values => values.size

variable [Channel α]

def value (texels : Texels α) (i : Nat) : α :=
  match texels with
  | srgb8 bytes | unorm8 bytes => Channel.ofByte (bytes.getD i 0)
  | float32 values => values.getD i 0

variable [Stored α]

/-- Texels of a format holding what remains of the given values in it. -/
def ofFn (format : PixelFormat) (n : Nat) (f : Nat → α) : Texels α :=
  match format with
  | .srgb8 => srgb8 (Array.ofFn (n := n) fun i => Channel.toByte (f i))
  | .unorm8 => unorm8 (Array.ofFn (n := n) fun i => Channel.toByte (f i))
  | .float32 => float32 (Array.ofFn (n := n) fun i => Stored.round (f i))

end Texels

/-- An image of a size that need not be whole. -/
structure Raster (ν α : Type) where
  width : ν
  height : ν
  texels : Texels α
deriving Repr, DecidableEq

section
variable {ν : Type} [Measure ν]

def channelCount (width height : ν) : ν := width * height * Measure.ofNat 4

/-- Length of the data of an image of this size, if it can have one. -/
def dataLength? (width height : ν) : Option Nat := Measure.toLength? (channelCount width height)

def dataLength (width height : ν) : Nat := (dataLength? width height).getD 0

end

namespace Raster

variable {ν α : Type} [Measure ν]

def format (raster : Raster ν α) : PixelFormat := raster.texels.format

variable [Channel α]

/-- The channel value at a flat index, 0 outside the data. -/
def valueAt (raster : Raster ν α) (i : ν) : α :=
  match Measure.natural? i with
  | some i => raster.texels.value i
  | none => 0

/-- The four stored values at a position. -/
def texel (raster : Raster ν α) (x y : ν) : Pixel α :=
  let offset := (y * raster.width + x) * Measure.ofNat 4
  let channel (k : Nat) : α := raster.valueAt (offset + Measure.ofNat k)
  ⟨channel 0, channel 1, channel 2, channel 3⟩

variable [Stored α]

/-- An image of one stored texel, if its data can have a length. -/
def solid? (width height : ν) (texel : Pixel α) (format : PixelFormat) : Option (Raster ν α) :=
  let value (i : Nat) : α :=
    match i % 4 with
    | 0 => texel.r
    | 1 => texel.g
    | 2 => texel.b
    | _ => texel.a
  (dataLength? width height).map fun length => ⟨width, height, Texels.ofFn format length value⟩

def blank? (width height : ν) (format : PixelFormat) : Option (Raster ν α) :=
  solid? width height ⟨0, 0, 0, 0⟩ format

variable [Transfer α]

omit [Stored α] in
/-- One channel of linear light, from its stored value. -/
def decodeValue (format : PixelFormat) (i : Nat) (stored : α) : α :=
  match format with
  | .float32 => clampUnit stored
  | .srgb8 | .unorm8 =>
    if i % 4 = 3 then stored / Channel.ofNat 255 else format.decodeChannel stored

omit [Stored α] in
def encodeValue (format : PixelFormat) (i : Nat) (linear : α) : α :=
  match format with
  | .float32 => clampUnit linear
  | .srgb8 | .unorm8 => if i % 4 = 3 then quantize linear 8 else format.encodeChannel linear

/-- Linear light of every channel, as memory would hold it. -/
def decode (raster : Raster ν α) : Array α :=
  Array.ofFn (n := dataLength raster.width raster.height) fun i =>
    Stored.round (decodeValue raster.format i (raster.texels.value i))

/-- Store linear channels in a format. -/
def encode (linear : Array α) (width height : ν) (format : PixelFormat) : Raster ν α :=
  ⟨width, height, Texels.ofFn format (dataLength width height) fun i =>
    encodeValue format i (linear.getD i 0)⟩

/-- `decode`, if the data can have a length. -/
def decode? (raster : Raster ν α) : Option (Array α) :=
  (dataLength? raster.width raster.height).map fun _ => raster.decode

/-- `encode`, if the data can have a length. -/
def encode? (linear : Array α) (width height : ν) (format : PixelFormat) : Option (Raster ν α) :=
  (dataLength? width height).map fun _ => encode linear width height format

/-- Store an image in another format; in its own format it is returned as it is. -/
def convert? (raster : Raster ν α) (format : PixelFormat) : Option (Raster ν α) :=
  if raster.format = format then some raster
  else raster.decode?.bind fun linear => encode? linear raster.width raster.height format

end Raster

end Strata
