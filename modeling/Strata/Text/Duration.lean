/-!
# Durations

A duration in a message is a count of milliseconds with two decimals: digits, a point, two digits, and
the unit. Messages that are to be compared leave it open.
-/

namespace Strata

namespace Duration

/-- What stands for a duration. -/
def placeholder : String := "<time>"

/-- What follows the duration that starts a text, if one does. -/
def rest? (cs : List Char) : Option (List Char) :=
  match cs.takeWhile Char.isDigit, cs.dropWhile Char.isDigit with
  | _ :: _, '.' :: a :: b :: 'm' :: 's' :: rest => if a.isDigit && b.isDigit then some rest else none
  | _, _ => none

/-- Replace the first duration. -/
def hideIn : List Char → List Char
  | [] => []
  | c :: cs =>
    match rest? (c :: cs) with
    | some rest => placeholder.toList ++ rest
    | none => c :: hideIn cs

def hide (s : String) : String := String.ofList (hideIn s.toList)

end Duration

end Strata
