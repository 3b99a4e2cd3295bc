/-!
# Binary magnitudes

Positive dyadic numbers `mantissa * 2 ^ exponent` in the form a binary64 value holds them: at most
53 bits, and exactly 53 above the least exponent. `Binary.ofNat?` rounds an integer to the nearest
one, ties to even; `Binary.ofFloat?` takes a finite value apart.
-/

namespace Strata

structure Binary where
  mantissa : Nat
  exponent : Int
deriving Repr, DecidableEq

namespace Binary

/-- Bits of a full mantissa. -/
def precision : Nat := 53

/-- Exponent of the least magnitude. -/
def minExponent : Int := -1074

/-- Exponent of the greatest magnitudes. -/
def maxExponent : Int := 971

/-- The magnitude of a finite value that is not zero. -/
def ofFloat? (x : Float) : Option Binary :=
  let bits : Nat := x.toBits.toNat
  let fraction : Nat := bits % Nat.pow 2 52
  let biased : Nat := bits / Nat.pow 2 52 % Nat.pow 2 11
  if biased = 2047 then none
  else if biased = 0 then if fraction = 0 then none else some ⟨fraction, minExponent⟩
  else some ⟨fraction + Nat.pow 2 52, (biased : Int) - 1075⟩

/-- The nearest integer quotient of `n` by `2 ^ shift`, a tie going to the even one. -/
def roundShift (n shift : Nat) : Nat :=
  let quotient := n >>> shift
  let rest := n - quotient <<< shift
  let half := Nat.pow 2 (shift - 1)
  if rest < half then quotient
  else if half < rest then quotient + 1
  else quotient + quotient % 2

/-- The magnitude nearest to a positive integer; none for zero and beyond the greatest magnitude. -/
def ofNat? (n : Nat) : Option Binary :=
  if n = 0 then none
  else
    let width := n.log2 + 1
    if width ≤ precision then
      some ⟨n <<< (precision - width), -((precision - width : Nat) : Int)⟩
    else
      let shift := width - precision
      let mantissa := roundShift n shift
      let rounded : Binary :=
        if mantissa = Nat.pow 2 precision then ⟨Nat.pow 2 (precision - 1), shift + 1⟩ else ⟨mantissa, shift⟩
      if rounded.exponent ≤ maxExponent then some rounded else none

def toFloat (b : Binary) (negative : Bool) : Float :=
  let sign := if negative then Nat.pow 2 63 else 0
  let biased := if b.mantissa < Nat.pow 2 52 then 0 else (b.exponent + 1075).toNat
  Float.ofBits (UInt64.ofNat (sign + biased * Nat.pow 2 52 + b.mantissa % Nat.pow 2 52))

end Binary

/-- The value nearest to an integer. -/
def Float.nearest (n : Int) : Float :=
  match Binary.ofNat? n.natAbs with
  | some b => b.toFloat (n < 0)
  | none => if n = 0 then 0 else if n < 0 then -1 / 0 else 1 / 0

def Float.integer? (x : Float) : Option Int :=
  if x == 0 then some 0
  else do
    let b ← Binary.ofFloat? x
    let magnitude ←
      if 0 ≤ b.exponent then some (b.mantissa <<< b.exponent.toNat)
      else
        let unit := Nat.pow 2 (-b.exponent).toNat
        if b.mantissa % unit = 0 then some (b.mantissa / unit) else none
    some (if x < 0 then -(magnitude : Int) else magnitude)

/-- The integer reached by dropping the fraction; none for values that are not finite. -/
def Float.truncated? (x : Float) : Option Int :=
  if x == 0 then some 0
  else do
    let b ← Binary.ofFloat? x
    let magnitude := if 0 ≤ b.exponent then b.mantissa <<< b.exponent.toNat
      else b.mantissa >>> (-b.exponent).toNat
    some (if x < 0 then -(magnitude : Int) else magnitude)

end Strata
