import Strata.Number.Text

/-!
# Issues

What validation finds wrong with a value, and where. A report lists every issue, each with the path
of the value it is about.
-/

namespace Strata

/-- Types that a report distinguishes. -/
inductive ValueKind
  | undefined
  | null
  | boolean
  | number
  | nan
  | string
  | array
  | object
deriving Repr, DecidableEq

def ValueKind.name : ValueKind → String
  | undefined => "undefined"
  | null => "null"
  | boolean => "boolean"
  | number => "number"
  | nan => "nan"
  | string => "string"
  | array => "array"
  | object => "object"

inductive Problem
  /-- Nothing was given where something is required. -/
  | required
  | wrongKind (expected received : ValueKind)
  /-- One of some names is expected, and something else than a name is given. -/
  | notAName (choices : List String) (received : ValueKind)
  | unknownName (choices : List String) (received : String)
  | notIntegral
  | notPositive
  | below (least : Nat)
  | above (greatest : Nat)
  | notAbortSignal
  | noLayers
  /-- No shape of a raster fits. -/
  | invalid
  /-- Another count of channel values than the size asks for; the count is quoted. -/
  | wrongCount (expected : String) (received : Nat)
deriving Repr, DecidableEq

namespace Problem

def quote (s : String) : String := "'" ++ s ++ "'"

def choiceText (choices : List String) : String := " | ".intercalate (choices.map quote)

def message : Problem → String
  | required => "Required"
  | wrongKind expected received => s!"Expected {expected.name}, received {received.name}"
  | notAName choices received => s!"Expected {choiceText choices}, received {received.name}"
  | unknownName choices received =>
    s!"Invalid enum value. Expected {choiceText choices}, received {quote received}"
  | notIntegral => "Expected integer, received float"
  | notPositive => "Number must be greater than 0"
  | below least => s!"Number must be greater than or equal to {least}"
  | above greatest => s!"Number must be less than or equal to {greatest}"
  | notAbortSignal => "Input not instance of AbortSignal"
  | noLayers => "At least one layer is required"
  | invalid => "Invalid input"
  | wrongCount expected received => s!"Expected {expected} channel values, got {Numeral.text received}"

/-- Failures of a number check leave the shape of a value intact. -/
def keepsShape : Problem → Bool
  | notIntegral | notPositive | below _ | above _ => true
  | _ => false

end Problem

/-- A step into a value. -/
inductive PathStep
  | field (name : String)
  | index (i : Nat)
deriving Repr, DecidableEq

def PathStep.text : PathStep → String
  | field name => name
  | index i => toString i

structure Issue where
  path : List PathStep
  problem : Problem
deriving Repr, DecidableEq

namespace Issue

/-- The same issue, seen from the value that holds this one. -/
def within (step : PathStep) (issue : Issue) : Issue := { issue with path := step :: issue.path }

def pathText (issue : Issue) : String :=
  let text := ".".intercalate (issue.path.map PathStep.text)
  if text.isEmpty then "(root)" else text

def text (issue : Issue) : String := s!"{issue.pathText}: {issue.problem.message}"

end Issue

end Strata
