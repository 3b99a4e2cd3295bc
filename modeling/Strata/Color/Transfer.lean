import Strata.Color.Channel
import Strata.Color.Format

/-!
# Moving between encodings

Conversions of one channel between storage, linear light and the space a blend is evaluated in.
Every conversion clamps its argument first, so the curve is only asked about the unit interval.
-/

namespace Strata

variable {α : Type} [Channel α] [Transfer α]

namespace ColorSpace

def toLinear (space : ColorSpace) (encoded : α) : α :=
  match space with
  | .linear => clampUnit encoded
  | .srgb => Transfer.decode (clampUnit encoded)

def fromLinear (space : ColorSpace) (linear : α) : α :=
  match space with
  | .linear => clampUnit linear
  | .srgb => Transfer.encode (clampUnit linear)

end ColorSpace

namespace PixelFormat

/-- Linear light of a stored byte value of a colour channel. -/
def decodeChannel (format : PixelFormat) (stored : α) : α :=
  format.space.toLinear (stored / Channel.ofNat 255)

/-- Byte value that stores a colour channel of linear light. -/
def encodeChannel (format : PixelFormat) (linear : α) : α :=
  quantize (format.space.fromLinear linear) 8

end PixelFormat

end Strata
