import Mathlib.Data.Rat.Floor
import Strata.Proofs.Composite.Agreement

/-!
# Exact channels

The rational numbers as channels: arithmetic without rounding, on which everything still computes. Memory keeps
every channel as it is, and a word of memory holds a whole number.
-/

namespace Strata

instance : Channel Rat where
  zero := 0
  one := 1
  text x := if x.den = 1 then Numeral.text x.num else s!"{Numeral.text x.num}/{Numeral.text x.den}"
  ofNat n := n
  decidableLT := inferInstance
  decidableLE := inferInstance
  lesser := min
  greater := max
  magnitude := abs
  floor x := x.floor
  integer? x := if x.den = 1 then some x.num else none
  toByte x := UInt8.ofNat (x.num.tdiv x.den % 256).toNat

instance : Stored Rat where
  round := id
  bits x := UInt32.ofNat x.floor.toNat
  ofBits w := w.toNat

instance : Transfer Rat where
  decode := id
  encode := id

instance : Stored.Lossless Rat := ⟨fun _ => rfl⟩

instance : Channel.Ordered Rat where
  ofNat_zero := Nat.cast_zero
  ofNat_one := Nat.cast_one
  zero_le_one := (by decide : (0 : Rat) ≤ 1)
  one_le_one := le_refl (1 : Rat)
  integer_pos x n hx hn := by
    have hn : (if x.den = 1 then some x.num else none) = some n := hn
    split at hn
    · cases hn
      exact Rat.num_pos.mpr hx
    · cases hn

end Strata
