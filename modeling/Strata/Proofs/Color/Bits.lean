import Mathlib.Algebra.Ring.BooleanRing
import Strata.Proofs.Composite.Agreement

/-!
# Channels of one bit

The least channels that have all that is assumed of channels: they are ordered, and memory holds them as they are.
-/

namespace Strata

instance : Channel Bool where
  zero := false
  one := true
  add := or
  sub x y := x && !y
  mul := and
  div := and
  lt x y := x = false ∧ y = true
  le x y := x = true → y = true
  text x := if x then "1" else "0"
  ofNat n := n != 0
  decidableLT := fun _ _ => inferInstanceAs (Decidable (_ ∧ _))
  decidableLE := fun _ _ => inferInstanceAs (Decidable (_ → _))
  lesser := and
  greater := or
  magnitude := id
  floor := id
  integer? x := some x.toNat
  toByte x := UInt8.ofNat x.toNat

instance : Stored Bool where
  round := id
  bits x := x.toNat.toUInt32
  ofBits w := w != 0

instance : Transfer Bool where
  decode := id
  encode := id

instance : Stored.Lossless Bool := ⟨fun _ => rfl⟩

instance : Channel.Ordered Bool where
  ofNat_zero := rfl
  ofNat_one := rfl
  zero_le_one := fun _ => rfl
  one_le_one := fun _ => rfl
  integer_pos x n hx hn := by
    obtain ⟨-, rfl⟩ := hx
    cases hn
    decide

end Strata
