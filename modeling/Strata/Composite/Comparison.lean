import Strata.Color.Raster
import Strata.Failure

/-!
# Comparing rasters

Differences of stored channels, in steps of a byte; floats are scaled to them.
-/

namespace Strata

structure Comparison (α : Type) where
  /-- The largest difference. -/
  maxDifference : α
  /-- Channels that differ by more than the tolerance. -/
  mismatched : Nat
deriving Repr, DecidableEq

def Comparison.within {α : Type} (c : Comparison α) : Bool := c.mismatched == 0

namespace Raster

variable {ν α : Type} [Measure ν] [Channel α]

/-- Byte steps between 0 and 1 in the storage of a format. -/
def stepScale (format : PixelFormat) : α :=
  match format with
  | .float32 => Channel.ofNat 255
  | .srgb8 | .unorm8 => 1

/-- Difference of one channel. -/
def difference (a b : Raster ν α) (i : Nat) : α :=
  Channel.magnitude (a.texels.value i - b.texels.value i) * stepScale a.format

/-- Take note of one difference. -/
def note (tolerance : α) (c : Comparison α) (difference : α) : Comparison α :=
  { maxDifference := if c.maxDifference < difference then difference else c.maxDifference
    mismatched := if tolerance < difference then c.mismatched + 1 else c.mismatched }

/-- The size and the format, as they are quoted. -/
def shape (a : Raster ν α) : Quoted := s!"{Numeral.extent a.width a.height} {a.format.name}"

/-- Compare two rasters of one size and format, channel by channel. -/
def compare (a b : Raster ν α) (tolerance : Option α) : Except Failure (Comparison α) :=
  if a.width == b.width && a.height == b.height && a.format == b.format then
    .ok (((List.range a.texels.size).map (difference a b)).foldl (note (tolerance.getD 1)) ⟨0, 0⟩)
  else .error (.of (.incomparable a.shape b.shape))

end Raster

end Strata
