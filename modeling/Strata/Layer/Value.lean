import Strata.Color.Channel
import Strata.Layer.Issue

/-!
# Values

What a caller may hand in before anything is known about it.
-/

namespace Strata

/-- What a check of layers or settings tells apart. There is no constructor for big integers, symbols, functions,
promises, dates, maps or sets: no field of a layer or of the settings accepts one, and each check that refuses an
`opaqueObject` refuses them with the same problem. Only the name of the received kind in the report would be another
one, which `ValueKind` lacks as well. -/
inductive Value (α : Type)
  | undefined
  | null
  | boolean (b : Bool)
  | number (x : α)
  | string (s : String)
  | array (items : List (Value α))
  /-- Fields in order; a field may be undefined. -/
  | object (fields : List (String × Value α))
  /-- An array of bytes. -/
  | bytes (data : Array UInt8)
  /-- An array of single precision floats. -/
  | singles (data : Array α)
  /-- Names a controller that may abort. -/
  | abortSignal (id : Nat)
  /-- Any other object, without fields of interest. -/
  | opaqueObject
deriving Inhabited

namespace Value

variable {α : Type}

def kind [Channel α] : Value α → ValueKind
  | undefined => .undefined
  | null => .null
  | boolean _ => .boolean
  | number x => if Channel.isNaN x then .nan else .number
  | string _ => .string
  | array _ => .array
  | object _ | bytes _ | singles _ | abortSignal _ | opaqueObject => .object

/-- The field of an object, which may be given and still undefined. -/
def given? (v : Value α) (name : String) : Option (Value α) :=
  match v with
  | object fields => fields.lookup name
  | _ => none

/-- The field of an object, undefined if there is none. -/
def field (v : Value α) (name : String) : Value α := (v.given? name).getD undefined

def isUndefined : Value α → Bool
  | undefined => true
  | _ => false

/-- What counts as a set flag: all but absence, zero, NaN and the empty text. -/
def truthy [Channel α] : Value α → Bool
  | undefined | null => false
  | boolean b => b
  | number x => decide (x < 0) || decide (0 < x)
  | string s => !s.isEmpty
  | _ => true

/-- The fields of two objects; the second wins. -/
def override (v w : Value α) : Value α :=
  match v, w with
  | object first, object second => object (second ++ first)
  | _, object second => object second
  | object first, _ => object first
  | _, _ => object []

end Value

end Strata
