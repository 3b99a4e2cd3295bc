import Strata.Number.Text

/-!
# Lengths and byte counts

Geometry and sizes are computed over any `Measure` type: binary64 numbers when the library runs, the
integers in its theory. A measure need not be whole; where something is counted, `toLength?` and
`toCount` say how.
-/

namespace Strata

class Measure (ν : Type) extends Zero ν, Add ν, Sub ν, Mul ν, LT ν, LE ν, BEq ν, Numeral ν where
  ofInt : Int → ν
  decidableLT : DecidableLT ν
  decidableLE : DecidableLE ν
  lesser : ν → ν → ν
  greater : ν → ν → ν
  /-- A quotient, rounded up. -/
  ceilDiv : ν → ν → ν
  /-- Drop the fraction, then reduce modulo `2 ^ 32`. -/
  toWord : ν → UInt32
  /-- The amount itself, of a finite amount above zero, rounded up to a multiple of four. -/
  wholeWords? : ν → Option Nat
  /-- The length of an array of this many elements: the fraction is dropped, and what is not a number
  counts as zero. None below zero, and none beyond what can be addressed. -/
  toLength? : ν → Option Nat
  /-- How many natural numbers lie below. -/
  toCount : ν → Nat
  /-- The natural number a measure is, if it is one. -/
  natural? : ν → Option Nat

attribute [reducible, instance] Measure.decidableLT Measure.decidableLE

def Measure.ofNat {ν : Type} [Measure ν] (n : Nat) : ν := Measure.ofInt n

/-- Whatever the length, it can be addressed. -/
instance : Measure Int where
  zero := 0
  ofInt n := n
  decidableLT := inferInstance
  decidableLE := inferInstance
  lesser a b := min a b
  greater a b := max a b
  ceilDiv a b := -(Int.fdiv (-a) b)
  toWord n := UInt32.ofNat (n % 0x100000000).toNat
  wholeWords? n := if 0 < n then some ((n.toNat + 3) / 4 * 4) else none
  toLength? n := if 0 ≤ n then some n.toNat else none
  toCount n := n.toNat
  natural? n := if 0 ≤ n then some n.toNat else none

/-- Longest array of binary64 measures. -/
def longestArray : Nat := Nat.pow 2 32

/-- A fraction is refused its own cell: the quotient rounds up before it is scaled. -/
instance : Measure Float where
  zero := 0
  ofInt n := Float.nearest n
  decidableLT := inferInstance
  decidableLE := inferInstance
  lesser a b := if a.isNaN || b.isNaN then 0 / 0 else if b < a then b else a
  greater a b := if a.isNaN || b.isNaN then 0 / 0 else if a < b then b else a
  ceilDiv a b := (a / b).ceil
  toWord x := UInt32.ofNat ((Float.truncated? x).getD 0 % 0x100000000).toNat
  wholeWords? x :=
    if 0 < x then (Float.truncated? ((x / 4).ceil * 4)).map Int.toNat else none
  toLength? x :=
    if x.isNaN then some 0
    else do
      let length ← Float.truncated? x
      if 0 ≤ length ∧ length.toNat ≤ longestArray then some length.toNat else none
  toCount x := ((Float.truncated? x.ceil).getD 0).toNat
  natural? x := do
    let n ← Float.integer? x
    if 0 ≤ n then some n.toNat else none

end Strata
