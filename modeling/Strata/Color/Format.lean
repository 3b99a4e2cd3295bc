/-!
# Vocabulary of colour

Storage formats, colour spaces and blend modes, with the names by which requests refer to them.
-/

namespace Strata

/-- Space in which a blend formula is evaluated. -/
inductive ColorSpace
  | srgb
  | linear
deriving Repr, DecidableEq

/-- Storage encodings of an image. -/
inductive PixelFormat
  /-- Bytes, colour under the sRGB curve, linear alpha. -/
  | srgb8
  /-- Bytes, linear. -/
  | unorm8
  /-- Single precision floats, linear. -/
  | float32
deriving Repr, DecidableEq

inductive BlendMode
  | sourceOver
  | multiply
  | screen
  | overlay
  | hardLight
  | darken
  | lighten
  | difference
  | exclusion
deriving Repr, DecidableEq

namespace ColorSpace

def all : List ColorSpace := [srgb, linear]

def name : ColorSpace → String
  | srgb => "srgb"
  | linear => "linear"

def ofName? (s : String) : Option ColorSpace := all.find? (·.name == s)

end ColorSpace

namespace PixelFormat

def all : List PixelFormat := [srgb8, unorm8, float32]

def name : PixelFormat → String
  | srgb8 => "rgba8unorm-srgb"
  | unorm8 => "rgba8unorm"
  | float32 => "rgba32float"

def ofName? (s : String) : Option PixelFormat := all.find? (·.name == s)

/-- The space in which colour channels are stored. -/
def space : PixelFormat → ColorSpace
  | srgb8 => .srgb
  | unorm8 | float32 => .linear

def bytesPerPixel : PixelFormat → Nat
  | srgb8 | unorm8 => 4
  | float32 => 16

end PixelFormat

namespace BlendMode

def all : List BlendMode :=
  [sourceOver, multiply, screen, overlay, hardLight, darken, lighten, difference, exclusion]

def name : BlendMode → String
  | sourceOver => "source-over"
  | multiply => "multiply"
  | screen => "screen"
  | overlay => "overlay"
  | hardLight => "hard-light"
  | darken => "darken"
  | lighten => "lighten"
  | difference => "difference"
  | exclusion => "exclusion"

def ofName? (s : String) : Option BlendMode := all.find? (·.name == s)

end BlendMode

end Strata
