import Strata.Geometry.Measure

/-!
# Rectangles

A rectangle has an inclusive least corner and an exclusive greatest one; with the corners reversed
it is empty. `contains` compares remaining space, so an empty rectangle still has a place.
-/

namespace Strata

structure Rectangle (ν : Type) where
  x : ν
  y : ν
  maxX : ν
  maxY : ν
deriving Repr, DecidableEq

namespace Rectangle

def corners {ν : Type} (r : Rectangle ν) : List ν := [r.x, r.y, r.maxX, r.maxY]

variable {ν : Type} [Measure ν]

/-- From the origin. -/
def ofSize (width height : ν) : Rectangle ν := ⟨0, 0, width, height⟩

def placed (x y width height : ν) : Rectangle ν := ⟨x, y, x + width, y + height⟩

def width (r : Rectangle ν) : ν := Measure.greater 0 (r.maxX - r.x)

def height (r : Rectangle ν) : ν := Measure.greater 0 (r.maxY - r.y)

/-- Whether `inner` starts inside `outer` and what remains of `outer` from there holds it. -/
def contains (outer inner : Rectangle ν) : Bool :=
  if inner.x < outer.x ∨ inner.y < outer.y then false
  else
    decide (inner.width ≤ outer.width - (inner.x - outer.x)) &&
      decide (inner.height ≤ outer.height - (inner.y - outer.y))

/-- The same least corner and size, the greatest corner no longer before the least. -/
def normalize (r : Rectangle ν) : Rectangle ν := placed r.x r.y r.width r.height

def same (a b : Rectangle ν) : Bool :=
  a.x == b.x && a.y == b.y && a.maxX == b.maxX && a.maxY == b.maxY

def text (r : Rectangle ν) : String :=
  s!"({Numeral.text r.x},{Numeral.text r.y})-({Numeral.text r.maxX},{Numeral.text r.maxY})"

end Rectangle

end Strata
