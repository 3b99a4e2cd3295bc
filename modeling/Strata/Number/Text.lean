import Strata.Number.Shortest

/-!
# Numerals in messages

A number is written with the fewest digits that read back: positionally while the decimal point
stays within a window around the digits, and with an exponent outside it.
-/

namespace Strata

/-- Where positional notation ends. -/
structure NumeralStyle where
  /-- Most digits before the point. -/
  maxIntegerDigits : Int
  /-- Most zeros between the point and the first digit. -/
  maxLeadingZeros : Int
  notANumber : String
  infinite : String

namespace NumeralStyle

/-- Up to 21 digits before the point, up to five zeros after it. -/
def message : NumeralStyle := ⟨21, 5, "NaN", "Infinity"⟩

def decimal (style : NumeralStyle) (d : Decimal) : String :=
  let digits := Nat.toDigits 10 d.coefficient
  let count : Int := digits.length
  let point := count + d.exponent
  if count ≤ point ∧ point ≤ style.maxIntegerDigits then
    String.ofList (digits ++ List.replicate (point - count).toNat '0')
  else if 0 < point ∧ point ≤ style.maxIntegerDigits then
    String.ofList (digits.take point.toNat ++ '.' :: digits.drop point.toNat)
  else if point ≤ 0 ∧ -style.maxLeadingZeros ≤ point then
    String.ofList ('0' :: '.' :: (List.replicate (-point).toNat '0' ++ digits))
  else
    let head := digits.take 1
    let tail := digits.drop 1
    let power := point - 1
    let sign := if power < 0 then '-' else '+'
    String.ofList (head ++ (if tail.isEmpty then [] else '.' :: tail) ++
      'e' :: sign :: Nat.toDigits 10 power.natAbs)

def signed (negative : Bool) (text : String) : String :=
  if negative then "-" ++ text else text

end NumeralStyle

/-- A number or a size as messages quote it. -/
abbrev Quoted := String

/-- Numbers that messages can quote. -/
class Numeral (ν : Type) where
  text : ν → Quoted

def Numeral.extent {ν : Type} [Numeral ν] (width height : ν) : Quoted :=
  s!"{Numeral.text width}x{Numeral.text height}"

namespace Float

def text (style : NumeralStyle) (x : Float) : String :=
  if x.isNaN then style.notANumber
  else if x == 0 then "0"
  else NumeralStyle.signed (x < 0) <|
    match Binary.ofFloat? x with
    | some b => style.decimal b.shortest
    | none => style.infinite

end Float

instance : Numeral Float := ⟨Float.text .message⟩

/-- An integer is quoted as the binary64 value nearest to it. -/
instance : Numeral Int where
  text n :=
    if n = 0 then "0"
    else NumeralStyle.signed (n < 0) <|
      match Binary.ofNat? n.natAbs with
      | some b => NumeralStyle.message.decimal b.shortest
      | none => NumeralStyle.message.infinite

instance : Numeral Nat := ⟨fun n => Numeral.text (n : Int)⟩

end Strata
