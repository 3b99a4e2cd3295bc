import Strata.Number.Text

/-!
# Identifiers

Slots and submissions are known by natural numbers, and callers may ask for them by any number. One
that is not natural names nothing; it is only quoted, and compared with others.
-/

namespace Strata

inductive Ident
  | number (n : Nat)
  /-- A number that names nothing, as it is written. -/
  | foreign (numeral : String)
  | notANumber
deriving Repr, DecidableEq

namespace Ident

def text : Ident → String
  | number n => Numeral.text n
  | foreign numeral => numeral
  | notANumber => NumeralStyle.message.notANumber

/-- The natural number it is. -/
def number? : Ident → Option Nat
  | number n => some n
  | _ => none

/-- Equality of the numbers; what is not a number differs even from itself. -/
def same : Ident → Ident → Bool
  | notANumber, _ | _, notANumber => false
  | a, b => a == b

/-- A number as a caller writes it. -/
def ofFloat (x : Float) : Ident :=
  if x.isNaN then notANumber
  else
    match Float.integer? x with
    | some (.ofNat n) => number n
    | _ => foreign (Numeral.text x)

end Ident

end Strata
