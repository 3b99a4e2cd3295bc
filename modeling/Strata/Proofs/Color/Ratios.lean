import Mathlib.Data.Rat.Floor
import Mathlib.Tactic.FieldSimp
import Strata.Proofs.Color.Numbers
import Strata.Proofs.Composite.Agreement

/-!
# Ratios

The rational numbers, and one channel more that is no number: what a division by zero answers. Comparisons with it
fail. The curve is a fraction of degree one that bends as the sRGB curve does, so that everything computes.
-/

namespace Strata

inductive Ratio
  | of (x : Rat)
  | undefined
deriving Repr, DecidableEq

namespace Ratio

def map (f : Rat → Rat) : Ratio → Ratio
  | of x => of (f x)
  | undefined => undefined

def map₂ (f : Rat → Rat → Rat) : Ratio → Ratio → Ratio
  | of x, of y => of (f x y)
  | _, _ => undefined

def divide : Ratio → Ratio → Ratio
  | of x, of y => if y = 0 then undefined else of (x / y)
  | _, _ => undefined

def Compares (r : Rat → Rat → Prop) : Ratio → Ratio → Prop
  | of x, of y => r x y
  | _, _ => False

instance (r : Rat → Rat → Prop) [DecidableRel r] : DecidableRel (Compares r)
  | of x, of y => inferInstanceAs (Decidable (r x y))
  | of _, undefined | undefined, _ => .isFalse id

def toText : Ratio → Quoted
  | of x => if x.den = 1 then Numeral.text x.num else s!"{Numeral.text x.num}/{Numeral.text x.den}"
  | undefined => "NaN"

def integer? : Ratio → Option Int
  | of x => if x.den = 1 then some x.num else none
  | undefined => none

def toByte : Ratio → UInt8
  | of x => UInt8.ofNat (x.num.tdiv x.den % 256).toNat
  | undefined => 0

def bits : Ratio → UInt32
  | of x => UInt32.ofNat x.floor.toNat
  | undefined => 0x7fc00000

end Ratio

instance : Channel Ratio where
  zero := .of 0
  one := .of 1
  add := .map₂ (· + ·)
  sub := .map₂ (· - ·)
  mul := .map₂ (· * ·)
  div := .divide
  lt := Ratio.Compares (· < ·)
  le := Ratio.Compares (· ≤ ·)
  text := Ratio.toText
  ofNat n := .of n
  decidableLT := inferInstanceAs (DecidableRel (Ratio.Compares (· < ·)))
  decidableLE := inferInstanceAs (DecidableRel (Ratio.Compares (· ≤ ·)))
  lesser := .map₂ min
  greater := .map₂ max
  magnitude := .map abs
  floor := .map fun x => x.floor
  integer? := Ratio.integer?
  toByte := Ratio.toByte

instance : Stored Ratio where
  round := id
  bits := Ratio.bits
  ofBits w := .of w.toNat

instance : Transfer Ratio where
  decode := .map fun x => x / (2 - x)
  encode := .map fun x => 2 * x / (1 + x)

instance : Stored.Lossless Ratio := ⟨fun _ => rfl⟩

theorem Ratio.integer?_eq {c : Ratio} {n : Int} : c.integer? = some n ↔ c = .of n := by
  cases c with
  | undefined => simp [integer?]
  | of x =>
    simp only [integer?, Ratio.of.injEq]
    constructor
    · intro h
      split at h
      · rename_i hden
        cases h
        exact (Rat.den_eq_one_iff x).mp hden |>.symm
      · cases h
    · rintro rfl
      simp

instance : Channel.Exact Ratio Rat where
  number := .of
  zero := rfl
  one := rfl
  ofNat _ := rfl
  add _ _ := rfl
  sub _ _ := rfl
  mul _ _ := rfl
  div _ _ h := if_neg h
  lt _ _ := Iff.rfl
  le _ _ := Iff.rfl
  lesser _ _ := rfl
  greater _ _ := rfl
  magnitude _ := rfl
  integer _ _ := Ratio.integer?_eq
  le_of_lt c d h := by
    cases c with
    | undefined => exact h
    | of x =>
      cases d with
      | undefined => exact h
      | of y => exact (show x < y from h).le
  isNumber c h _ := by
    cases c with
    | undefined => exact absurd h id
    | of x => exact ⟨x, rfl⟩

/-- A quotient by 0 may as well be 0. -/
theorem Ratio.divide_eq (x : Ratio) {y : Ratio} (h : 0 < y) : Ratio.map₂ (· / ·) x y = x / y := by
  cases x with
  | undefined => rfl
  | of x =>
    cases y with
    | undefined => rfl
    | of y => exact (if_neg (ne_of_gt (show 0 < y from h))).symm

/-- What the curve does on the unit interval. -/
theorem Ratio.curve {c : Ratio} (h : InUnit c) : (InUnit (Transfer.decode c) ∧ InUnit (Transfer.encode c)) ∧
    Transfer.decode (Transfer.encode c) = c ∧ Transfer.encode (Transfer.decode c) = c := by
  obtain ⟨x, hx, rfl⟩ := h.exists_number Rat
  have hnonneg := hx.nonneg
  have hle := hx.le_one
  have hlow : (0 : Rat) < 2 - x := by linarith
  have hhigh : (0 : Rat) < 1 + x := by linarith
  refine ⟨⟨?_, ?_⟩, ?_, ?_⟩
  · show InUnit (Channel.Exact.number (x / (2 - x)) : Ratio)
    exact inUnit_number.mpr ⟨div_nonneg hnonneg hlow.le, (div_le_one hlow).mpr (by linarith)⟩
  · show InUnit (Channel.Exact.number (2 * x / (1 + x)) : Ratio)
    exact inUnit_number.mpr ⟨div_nonneg (by linarith) hhigh.le, (div_le_one hhigh).mpr (by linarith)⟩
  · show of (2 * x / (1 + x) / (2 - 2 * x / (1 + x))) = of x
    have hrest : 2 - 2 * x / (1 + x) = 2 / (1 + x) := by
      field_simp
      ring
    rw [hrest]
    field_simp
  · show of (2 * (x / (2 - x)) / (1 + x / (2 - x))) = of x
    have hrest : 1 + x / (2 - x) = 2 / (2 - x) := by
      field_simp
      ring
    rw [hrest]
    field_simp

instance : Transfer.Invertible Ratio where
  decode _ h := (Ratio.curve h).1.1
  encode _ h := (Ratio.curve h).1.2
  decode_encode _ h := (Ratio.curve h).2.1
  encode_decode _ h := (Ratio.curve h).2.2
  decode_zero := by decide +kernel

end Strata
