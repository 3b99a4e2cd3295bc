import Mathlib.Algebra.Order.Field.Basic
import Mathlib.Tactic.Linarith
import Mathlib.Tactic.Positivity
import Mathlib.Tactic.Ring
import Strata.Color.Blend

/-!
# Exact arithmetic

Channels that are numbers are computed with as in an ordered field; a channel need not be a number
(`Channel.Exact`). Clamping makes a number of every channel, so all that a blend computes is a formula over the
field (`compositeChannel_number`).
-/

namespace Strata

structure InUnit {β : Type} [Zero β] [One β] [LE β] (x : β) : Prop where
  nonneg : 0 ≤ x
  le_one : x ≤ 1

/-- Arithmetic of channels that are numbers is that of a field. Of the others nothing is known but that none lies on
the unit interval. -/
class Channel.Exact (α : Type) [Channel α] (K : Type) [Field K] [LinearOrder K] [IsStrictOrderedRing K] where
  number : K → α
  zero : number 0 = 0
  one : number 1 = 1
  ofNat (n : Nat) : Channel.ofNat n = number n
  add (x y : K) : number x + number y = number (x + y)
  sub (x y : K) : number x - number y = number (x - y)
  mul (x y : K) : number x * number y = number (x * y)
  div (x y : K) : y ≠ 0 → number x / number y = number (x / y)
  lt (x y : K) : number x < number y ↔ x < y
  le (x y : K) : number x ≤ number y ↔ x ≤ y
  lesser (x y : K) : Channel.lesser (number x) (number y) = number (min x y)
  greater (x y : K) : Channel.greater (number x) (number y) = number (max x y)
  magnitude (x : K) : Channel.magnitude (number x) = number |x|
  integer (c : α) (n : Int) : Channel.integer? c = some n ↔ c = number n
  le_of_lt (c d : α) : c < d → c ≤ d
  isNumber (c : α) : 0 ≤ c → c ≤ 1 → ∃ x, number x = c

attribute [simp] Channel.Exact.add Channel.Exact.sub Channel.Exact.mul Channel.Exact.lt Channel.Exact.le
  Channel.Exact.lesser
  Channel.Exact.greater Channel.Exact.magnitude

open Channel.Exact (number)

section
variable {K : Type} [Field K] [LinearOrder K] [IsStrictOrderedRing K]

/-! ## The unit interval of a field -/

namespace InUnit

variable {t x y : K}

theorem zero : InUnit (0 : K) := ⟨le_rfl, zero_le_one⟩

theorem one : InUnit (1 : K) := ⟨zero_le_one, le_rfl⟩

theorem compl (h : InUnit x) : InUnit (1 - x) := ⟨sub_nonneg.mpr h.le_one, sub_le_self 1 h.nonneg⟩

theorem mix (ht : InUnit t) (hx : InUnit x) (hy : InUnit y) : InUnit ((1 - t) * x + t * y) where
  nonneg := add_nonneg (mul_nonneg ht.compl.nonneg hx.nonneg) (mul_nonneg ht.nonneg hy.nonneg)
  le_one :=
    calc (1 - t) * x + t * y ≤ (1 - t) * 1 + t * 1 :=
          add_le_add (mul_le_mul_of_nonneg_left hx.le_one ht.compl.nonneg)
            (mul_le_mul_of_nonneg_left hy.le_one ht.nonneg)
      _ = 1 := by ring

theorem mul (hx : InUnit x) (hy : InUnit y) : InUnit (x * y) := by
  simpa using mix hx zero hy

end InUnit

/-! ## Formulas over the field -/

namespace Blend

def hard (b s : K) : K := if s ≤ 1 / 2 then b * (2 * s) else b + (2 * s - 1) - b * (2 * s - 1)

def formula (mode : BlendMode) (b s : K) : K :=
  match mode with
  | .sourceOver => s
  | .multiply => b * s
  | .screen => b + s - b * s
  | .overlay => hard s b
  | .hardLight => hard b s
  | .darken => min b s
  | .lighten => max b s
  | .difference => |b - s|
  | .exclusion => b + s - 2 * b * s

/-- Alpha of a source of alpha `y` over a backdrop of alpha `x`. -/
def cover (x y : K) : K := y + x * (1 - y)

def weighted (mode : BlendMode) (x y b s : K) : K := y * ((1 - x) * s + x * formula mode b s) + x * b * (1 - y)

/-- A composited channel. Without alpha it is 0, as a quotient by 0. -/
def composed (mode : BlendMode) (x y b s : K) : K := weighted mode x y b s / cover x y

end Blend

end

/-! ## Channels -/

section
variable {α : Type} [Channel α] {K : Type} [Field K] [LinearOrder K] [IsStrictOrderedRing K] [Channel.Exact α K]

@[simp] theorem number_nonneg {x : K} : (0 : α) ≤ number x ↔ 0 ≤ x := by
  rw [← Channel.Exact.zero (K := K), Channel.Exact.le]

@[simp] theorem number_pos {x : K} : (0 : α) < number x ↔ 0 < x := by
  rw [← Channel.Exact.zero (K := K), Channel.Exact.lt]

@[simp] theorem number_le_one {x : K} : (number x : α) ≤ 1 ↔ x ≤ 1 := by
  rw [← Channel.Exact.one (K := K), Channel.Exact.le]

@[simp] theorem number_lt_one {x : K} : (number x : α) < 1 ↔ x < 1 := by
  rw [← Channel.Exact.one (K := K), Channel.Exact.lt]

@[simp] theorem number_inj {x y : K} : (number x : α) = number y ↔ x = y := by
  refine ⟨fun h => le_antisymm ?_ ?_, congrArg number⟩
  · rw [← Channel.Exact.le (α := α), h, Channel.Exact.le]
  · rw [← Channel.Exact.le (α := α), h, Channel.Exact.le]

@[simp] theorem number_eq_zero {x : K} : (number x : α) = 0 ↔ x = 0 := by
  rw [← Channel.Exact.zero (K := K), number_inj]

@[simp] theorem one_sub_number (x : K) : (1 : α) - number x = number (1 - x) := by
  rw [← Channel.Exact.one (K := K), Channel.Exact.sub]

theorem two_number : (Channel.ofNat 2 : α) = number (2 : K) := by
  rw [Channel.Exact.ofNat (K := K), Nat.cast_ofNat]

@[simp] theorem inUnit_number {x : K} : InUnit (number x : α) ↔ InUnit x :=
  ⟨fun h => ⟨number_nonneg.mp h.nonneg, number_le_one.mp h.le_one⟩,
    fun h => ⟨number_nonneg.mpr h.nonneg, number_le_one.mpr h.le_one⟩⟩

theorem InUnit.exists_number (K : Type) [Field K] [LinearOrder K] [IsStrictOrderedRing K]
    [Channel.Exact α K] {c : α} (h : InUnit c) : ∃ x : K, InUnit x ∧ number x = c := by
  obtain ⟨x, rfl⟩ := Channel.Exact.isNumber (K := K) c h.nonneg h.le_one
  exact ⟨x, inUnit_number.mp h, rfl⟩

/-! ### Clamping -/

theorem clampUnit_number {x : K} (h : InUnit x) : clampUnit (number x : α) = number x := by
  unfold clampUnit
  by_cases hpos : 0 < x
  · rw [if_pos (number_pos.mpr hpos)]
    by_cases hlt : x < 1
    · rw [if_pos (number_lt_one.mpr hlt)]
    · rw [if_neg (fun hc => hlt (number_lt_one.mp hc)), le_antisymm h.le_one (not_lt.mp hlt), Channel.Exact.one]
  · rw [if_neg (fun hc => hpos (number_pos.mp hc)), le_antisymm (not_lt.mp hpos) h.nonneg, Channel.Exact.zero]

section
variable (K)
include K

theorem inUnit_zero : InUnit (0 : α) := by
  rw [← Channel.Exact.zero (K := K)]
  exact inUnit_number.mpr .zero

theorem inUnit_one : InUnit (1 : α) := by
  rw [← Channel.Exact.one (K := K)]
  exact inUnit_number.mpr .one

theorem inUnit_clampUnit (c : α) : InUnit (clampUnit c) := by
  unfold clampUnit
  split
  · rename_i hpos
    split
    · rename_i hlt
      exact ⟨Channel.Exact.le_of_lt K _ _ hpos, Channel.Exact.le_of_lt K _ _ hlt⟩
    · exact inUnit_one K
  · exact inUnit_zero K

theorem clampUnit_of_inUnit {c : α} (h : InUnit c) : clampUnit c = c := by
  obtain ⟨x, hx, rfl⟩ := h.exists_number K
  exact clampUnit_number hx

end

/-! ### Alpha -/

section
variable (K)
include K

theorem inUnit_effectiveAlpha (a o : α) : InUnit (Pixel.effectiveAlpha a o) := by
  obtain ⟨x, hx, ha⟩ := (inUnit_clampUnit K a).exists_number K
  obtain ⟨y, hy, ho⟩ := (inUnit_clampUnit K o).exists_number K
  unfold Pixel.effectiveAlpha
  rw [← ha, ← ho, Channel.Exact.mul]
  exact inUnit_number.mpr (hx.mul hy)

theorem effectiveAlpha_one (a : α) : Pixel.effectiveAlpha a 1 = clampUnit a := by
  obtain ⟨x, -, ha⟩ := (inUnit_clampUnit K a).exists_number K
  unfold Pixel.effectiveAlpha
  rw [clampUnit_of_inUnit K (inUnit_one K), ← ha, ← Channel.Exact.one (K := K), Channel.Exact.mul, mul_one]

theorem clampUnit_effectiveAlpha (a o : α) : clampUnit (Pixel.effectiveAlpha a o) = Pixel.effectiveAlpha a o :=
  clampUnit_of_inUnit K (inUnit_effectiveAlpha K a o)

end

/-! ### Blending -/

@[simp] theorem hardLight_number (b s : K) :
    Blend.hardLight (number b : α) (number s) = number (Blend.hard b s) := by
  have hhalf : (1 : α) / Channel.ofNat 2 = number (1 / 2 : K) := by
    rw [two_number (K := K), ← Channel.Exact.one (K := K), Channel.Exact.div _ _ two_ne_zero]
  unfold Blend.hardLight Blend.multiply Blend.screen Blend.hard
  dsimp only
  rw [hhalf, two_number (K := K), ← Channel.Exact.one (K := K)]
  simp only [Channel.Exact.le, Channel.Exact.mul, Channel.Exact.add, Channel.Exact.sub]
  split <;> rfl

@[simp] theorem channel_number (mode : BlendMode) (b s : K) :
    mode.channel (number b : α) (number s) = number (Blend.formula mode b s) := by
  cases mode with
  | sourceOver => rfl
  | multiply => exact Channel.Exact.mul b s
  | screen => simp [BlendMode.channel, Blend.screen, Blend.formula]
  | overlay => exact hardLight_number s b
  | hardLight => exact hardLight_number b s
  | darken => exact Channel.Exact.lesser b s
  | lighten => exact Channel.Exact.greater b s
  | difference => simp [BlendMode.channel, Blend.formula]
  | exclusion => simp [BlendMode.channel, Blend.formula, two_number (K := K)]

@[simp] theorem overAlpha_number (x y : K) :
    Pixel.overAlpha (number x : α) (number y) = number (Blend.cover x y) := by
  simp [Pixel.overAlpha, Blend.cover]

theorem compositeChannel_number (mode : BlendMode) {x y : K} (b s : K) (h : 0 ≤ Blend.cover x y) :
    Pixel.compositeChannel mode (number x : α) (number y) (number b)
    (number s) = number (Blend.composed mode x y b s) := by
  unfold Pixel.compositeChannel Blend.composed
  simp only [overAlpha_number, one_sub_number, channel_number, Channel.Exact.mul, Channel.Exact.add, number_pos]
  split
  · rename_i hpos
    rw [Channel.Exact.div _ _ (ne_of_gt hpos)]
    rfl
  · rename_i hpos
    rw [le_antisymm (not_lt.mp hpos) h, div_zero, Channel.Exact.zero]

end

/-! ## The curve -/

class Transfer.Bounded (α : Type) [Channel α] [Transfer α] : Prop where
  decode (c : α) : InUnit c → InUnit (Transfer.decode c)
  encode (c : α) : InUnit c → InUnit (Transfer.encode c)

/-- On the unit interval, encoding and decoding undo each other, and keep 0. -/
class Transfer.Invertible (α : Type) [Channel α] [Transfer α] : Prop extends Transfer.Bounded α where
  decode_encode (c : α) : InUnit c → Transfer.decode (Transfer.encode c) = c
  encode_decode (c : α) : InUnit c → Transfer.encode (Transfer.decode c) = c
  decode_zero : Transfer.decode (0 : α) = 0

namespace ColorSpace

variable {α : Type} [Channel α] [Transfer α] (K : Type) [Field K] [LinearOrder K] [IsStrictOrderedRing K]
  [Channel.Exact α K]
include K

section
variable [Transfer.Bounded α]

theorem inUnit_toLinear (space : ColorSpace) (c : α) : InUnit (space.toLinear c) := by
  cases space with
  | srgb => exact Transfer.Bounded.decode _ (inUnit_clampUnit K c)
  | linear => exact inUnit_clampUnit K c

theorem inUnit_fromLinear (space : ColorSpace) (c : α) : InUnit (space.fromLinear c) := by
  cases space with
  | srgb => exact Transfer.Bounded.encode _ (inUnit_clampUnit K c)
  | linear => exact inUnit_clampUnit K c

end

variable [Transfer.Invertible α]

theorem toLinear_fromLinear (space : ColorSpace) (c : α) : space.toLinear (space.fromLinear c) = clampUnit c := by
  have hc := inUnit_clampUnit K c
  cases space with
  | srgb =>
    simp only [toLinear, fromLinear]
    rw [clampUnit_of_inUnit K (Transfer.Bounded.encode _ hc), Transfer.Invertible.decode_encode _ hc]
  | linear => exact clampUnit_of_inUnit K hc

theorem fromLinear_toLinear (space : ColorSpace) {c : α} (hc : InUnit c) :
    space.fromLinear (space.toLinear c) = c := by
  have hsame := clampUnit_of_inUnit K hc
  cases space with
  | srgb =>
    simp only [toLinear, fromLinear, hsame]
    rw [clampUnit_of_inUnit K (Transfer.Bounded.decode _ hc), Transfer.Invertible.encode_decode _ hc]
  | linear => simp only [toLinear, fromLinear, hsame]

theorem toLinear_zero (space : ColorSpace) : space.toLinear (0 : α) = 0 := by
  have hzero := clampUnit_of_inUnit K (inUnit_zero (α := α) K)
  cases space with
  | srgb => simp only [toLinear, hzero, Transfer.Invertible.decode_zero]
  | linear => exact hzero

end ColorSpace

end Strata
