import Strata.Number.Binary

/-!
# Shortest decimals

`Binary.shortest` is the decimal with the fewest digits among those that read back as a given
magnitude, and the nearest of them. A magnitude is read from every decimal in the interval halfway
to its neighbours, ends included when its mantissa is even.
-/

namespace Strata

/-- The decimal `coefficient * 10 ^ exponent`. -/
structure Decimal where
  coefficient : Nat
  exponent : Int
deriving Repr, DecidableEq

namespace Decimal

def digitCount (n : Nat) : Nat := (Nat.toDigits 10 n).length

/-- Drop zeros at the end of the coefficient. -/
def strip : Nat → Decimal → Decimal
  | 0, d => d
  | fuel + 1, d =>
    if d.coefficient % 10 = 0 ∧ d.coefficient ≠ 0 then strip fuel ⟨d.coefficient / 10, d.exponent + 1⟩
    else d

end Decimal

namespace Binary

/-- The decimals that read back, as fractions over one denominator. -/
structure Interval where
  low : Nat
  value : Nat
  high : Nat
  denominator : Nat
  closed : Bool

/-- Neighbours lie one unit away, except that the one below a power of two is half as far. -/
def interval (b : Binary) : Interval :=
  let quarters (n : Nat) : Nat := if 2 ≤ b.exponent then n <<< (b.exponent - 2).toNat else n
  let below := if b.mantissa = Nat.pow 2 52 ∧ minExponent < b.exponent then 1 else 2
  { low := quarters (4 * b.mantissa - below)
    value := quarters (4 * b.mantissa)
    high := quarters (4 * b.mantissa + 2)
    denominator := if 2 ≤ b.exponent then 1 else Nat.pow 2 (2 - b.exponent).toNat
    closed := b.mantissa % 2 = 0 }

namespace Interval

def contains (i : Interval) (n : Nat) : Bool :=
  if i.closed then i.low ≤ n ∧ n ≤ i.high else i.low < n ∧ n < i.high

/-- The value lies below `10 ^ magnitude`, and not below a tenth of it. -/
def magnitude (i : Interval) : Int :=
  let scale := Decimal.digitCount i.denominator
  (Decimal.digitCount (i.value * Nat.pow 10 scale / i.denominator) : Int) - scale

/-- The interval in units of `10 ^ e`: fractions over the denominator returned with it. -/
def scaled (i : Interval) (e : Int) : Interval × Nat :=
  if 0 ≤ e then (i, i.denominator * Nat.pow 10 e.toNat)
  else
    let factor := Nat.pow 10 (-e).toNat
    ({ i with low := i.low * factor, value := i.value * factor, high := i.high * factor }, i.denominator)

/-- The point of the grid of multiples of `10 ^ e` that reads back and is nearest, a tie going to
the even one. -/
def onGrid (i : Interval) (e : Int) : Option Decimal :=
  let (i, unit) := i.scaled e
  let floor := i.value / unit
  let below := i.contains (floor * unit)
  let above := i.contains ((floor + 1) * unit)
  if below && above then
    let fromBelow := i.value - floor * unit
    let toAbove := (floor + 1) * unit - i.value
    if fromBelow < toAbove ∨ (fromBelow = toAbove ∧ floor % 2 = 0) then some ⟨floor, e⟩
    else some ⟨floor + 1, e⟩
  else if below then some ⟨floor, e⟩
  else if above then some ⟨floor + 1, e⟩
  else none

end Interval

/-- Seventeen digits always suffice. -/
def shortest (b : Binary) : Decimal :=
  let i := b.interval
  let found := (List.range 17).findSome? fun n => i.onGrid (i.magnitude - (n + 1 : Nat))
  (found.getD ⟨b.mantissa, 0⟩).strip 20

end Binary

end Strata
