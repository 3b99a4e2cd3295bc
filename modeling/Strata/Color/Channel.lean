import Strata.Number.Text

/-!
# Channel arithmetic

Colour is computed over any `Channel` type: binary64 when the library runs, an exact ordered field
in its theory. What is not arithmetic is kept apart: `Stored` is the rounding of a value that is
written to memory, `Transfer` the sRGB curve on the unit interval.
-/

namespace Strata

/-- Arithmetic of channel values. Comparisons with a value that is not a number fail. -/
class Channel (α : Type) extends Zero α, One α, Add α, Sub α, Mul α, Div α, LT α, LE α, Numeral α where
  ofNat : Nat → α
  decidableLT : DecidableLT α
  decidableLE : DecidableLE α
  /-- The lesser value; not a number if one of them is not. -/
  lesser : α → α → α
  /-- The greater value; not a number if one of them is not. -/
  greater : α → α → α
  magnitude : α → α
  /-- The greatest integral value that is not greater. -/
  floor : α → α
  /-- The integer a value is, if it is one. -/
  integer? : α → Option Int
  /-- Drop the fraction, then reduce modulo 256. -/
  toByte : α → UInt8

attribute [reducible, instance] Channel.decidableLT Channel.decidableLE

/-- Memory holds channels in single precision. -/
class Stored (α : Type) where
  /-- The value that a written channel reads back as. -/
  round : α → α
  bits : α → UInt32
  ofBits : UInt32 → α

/-- The sRGB curve on the unit interval. -/
class Transfer (α : Type) where
  /-- Encoded value to linear light. -/
  decode : α → α
  /-- Linear light to encoded value. -/
  encode : α → α

section
variable {α : Type} [Channel α]

def Channel.ofByte (b : UInt8) : α := Channel.ofNat b.toNat

/-- A value that is not a number is not even equal to itself. -/
def Channel.isNaN (x : α) : Bool := !decide (x ≤ x)

/-- Clamp to the unit interval; what is not a number becomes 0. -/
def clampUnit (x : α) : α := if 0 < x then if x < 1 then x else 1 else 0

/-- Whether an integral value is a multiple of two. -/
def isEven (n : α) : Bool :=
  let double := Channel.ofNat 2 * Channel.floor (n / Channel.ofNat 2)
  decide (double ≤ n) && decide (n ≤ double)

/-- Round to the nearest integral value, a tie to the even one. -/
def roundHalfEven (x : α) : α :=
  let below := Channel.floor x
  let fraction := x - below
  let half : α := 1 / Channel.ofNat 2
  if half < fraction then below + 1
  else if fraction < half then below
  else if isEven below then below else below + 1

/-- The integral value nearest to a share of a maximum. -/
def quantizeTo (maximum x : α) : α := roundHalfEven (clampUnit x * maximum)

/-- The integral value of `bits` bits nearest to a share of their maximum. -/
def quantize (x : α) (bits : Nat) : α := quantizeTo (Channel.ofNat (Nat.pow 2 bits - 1)) x

end

namespace Float

/-- Neither argument is taken when one is not a number, and a negative zero lies below a positive
one. -/
def lesser (x y : Float) : Float :=
  if x.isNaN || y.isNaN then 0 / 0
  else if x < y then x
  else if y < x then y
  else if x.toBits ≥ y.toBits then x else y

def greater (x y : Float) : Float :=
  if x.isNaN || y.isNaN then 0 / 0
  else if x < y then y
  else if y < x then x
  else if x.toBits ≥ y.toBits then y else x

end Float

instance : Channel Float where
  zero := 0
  one := 1
  ofNat n := Float.ofNat n
  decidableLT := inferInstance
  decidableLE := inferInstance
  lesser := Float.lesser
  greater := Float.greater
  magnitude x := x.abs
  floor x := x.floor
  integer? := Float.integer?
  toByte x := UInt8.ofNat ((Float.truncated? x).getD 0 % 256).toNat

/-- Values that are not numbers share one bit pattern. -/
instance : Stored Float where
  round x := x.toFloat32.toFloat
  bits x := if x.isNaN then 0x7fc00000 else x.toFloat32.toBits
  ofBits w := (Float32.ofBits w).toFloat

instance : Transfer Float where
  decode c := if c ≤ 0.04045 then c / 12.92 else Float.pow ((c + 0.055) / 1.055) 2.4
  encode l := if l ≤ 0.0031308 then l * 12.92 else 1.055 * Float.pow l (1 / 2.4) - 0.055

end Strata
