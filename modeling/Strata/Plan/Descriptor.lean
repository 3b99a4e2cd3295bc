import Strata.Memory.Arena

/-!
# Blend stacks

A stack is a list of descriptors, bottom layer first: which slot to fold onto the running result,
how, and where on the canvas.
-/

namespace Strata

structure BlendDescriptor (ν α : Type) where
  source : Handle
  /-- The slot that receives the result of the whole stack. -/
  destination : Handle
  mode : String
  space : String
  opacity : α
  /-- None covers the canvas. -/
  placement : Option (Rectangle ν)
deriving Repr, DecidableEq

/-- A descriptor whose opacity lies in the unit interval, its placement normalised. -/
def BlendDescriptor.make {ν α : Type} [Measure ν] [Channel α] (source destination : Handle) (mode space : String)
    (opacity : Option α) (placement : Option (Rectangle ν)) : Except Failure (BlendDescriptor ν α) :=
  let opacity := opacity.getD 1
  if 0 ≤ opacity ∧ opacity ≤ 1 then
    .ok ⟨source, destination, mode, space, opacity, placement.map Rectangle.normalize⟩
  else .error (.of (.opacityOutOfRange (Numeral.text opacity)))

/-- Source data to write to a slot before the stack runs. -/
structure Upload (α : Type) where
  handle : Handle
  data : Block α
deriving Repr, DecidableEq

end Strata
