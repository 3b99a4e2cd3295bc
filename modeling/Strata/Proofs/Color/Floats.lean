import Mathlib
import Strata.Color.Channel

/-!
# Comparing and subtracting channels

Channels that are numbers are ordered, and a channel that is not a number is not even below itself. This is all that
a comparison of differences needs to know of them (`Channel.Comparable`, `Channel.Subtractive`), and binary64
channels obey it, infinities and rounding included.
-/

namespace Strata

/-! ## Laws -/

section
variable {α : Type} [Channel α]

def Channel.IsNumber (x : α) : Prop := x ≤ x

/-- A number that leaves a number when it is taken from itself, as an infinity does not. -/
def Channel.IsFinite (x : α) : Prop := Channel.IsNumber (x - x)

end

/-- Numbers are ordered, and nothing else is compared. -/
class Channel.Comparable (α : Type) [Channel α] : Prop where
  lt_iff (x y : α) : x < y ↔ x ≤ y ∧ ¬y ≤ x
  trans {x y z : α} : x ≤ y → y ≤ z → x ≤ z
  total {x y : α} : IsNumber x → IsNumber y → x ≤ y ∨ y ≤ x
  numbers {x y : α} : x ≤ y → IsNumber x ∧ IsNumber y

namespace Channel.Comparable

variable {α : Type} [Channel α] [Channel.Comparable α] {x y : α}

theorem le_of_lt (h : x < y) : x ≤ y := ((lt_iff x y).mp h).1

theorem not_le_of_lt (h : x < y) : ¬y ≤ x := ((lt_iff x y).mp h).2

theorem le_of_not_lt (hx : IsNumber x) (hy : IsNumber y) (h : ¬x < y) : y ≤ x := by
  rcases total hx hy with hle | hle
  · by_contra hnot
    exact h ((lt_iff x y).mpr ⟨hle, hnot⟩)
  · exact hle

end Channel.Comparable

/-- What a scaled difference is, but for its value. -/
class Channel.Subtractive (α : Type) [Channel α] : Prop extends Channel.Comparable α where
  magnitude_sub_comm (x y : α) : magnitude (x - y) = magnitude (y - x)
  magnitude_nonneg {x : α} : IsNumber x → 0 ≤ magnitude x
  sub_number {x y : α} : IsFinite x → IsFinite y → IsNumber (x - y)
  number_of_magnitude {x : α} : IsNumber (magnitude x) → IsNumber x
  mul_nonneg {x y : α} : 0 ≤ x → 0 ≤ y → IsNumber (x * y) → 0 ≤ x * y
  mul_number {x y : α} : IsNumber x → 0 < y → IsFinite y → IsNumber (x * y)
  number_of_mul {x y : α} : IsNumber (x * y) → IsNumber x
  ofNat_one : (Channel.ofNat 1 : α) = 1
  ofNat_finite {n : Nat} : n < 256 → IsFinite (Channel.ofNat n : α)
  ofNat_pos {n : Nat} : 0 < n → n < 256 → (0 : α) < Channel.ofNat n

/-! ## Binary64 -/

namespace Binary64

open Float.Model UnpackedFloat

/-! ### Order -/

/-- Floats that are numbers are in the order of their places; both zeros have one. -/
def place : UnpackedFloat → Int ×ₗ Int ×ₗ Int
  | .infinity .positive => toLex (2, toLex (0, 0))
  | .finite .positive m e _ => toLex (1, toLex (e, (m : Int)))
  | .zero _ | .notANumber => toLex (0, toLex (0, 0))
  | .finite .negative m e _ => toLex (-1, toLex (-e, -(m : Int)))
  | .infinity .negative => toLex (-2, toLex (0, 0))

theorem compare_then (e e' : Int) (m m' : Nat) : (compare e e').then (compare m m') =
    if e < e' ∨ e = e' ∧ m < m' then .lt else if e = e' ∧ m = m' then .eq else .gt := by
  rcases lt_trichotomy e e' with h | rfl | h
  · simp [Int.compare_eq_lt.mpr h, h]
  · rcases lt_trichotomy m m' with h | rfl | h
    · simp [Nat.compare_eq_lt.mpr h, h]
    · simp
    · simp [Nat.compare_eq_gt.mpr h, h.not_gt, h.ne']
  · simp [Int.compare_eq_gt.mpr h, h.not_gt, h.ne']

theorem isLE_then (e e' : Int) (m m' : Nat) :
    ((compare e e').then (compare m m')).isLE = true ↔ e < e' ∨ e = e' ∧ m ≤ m' := by
  rw [compare_then]
  split_ifs with hlt heq
  · exact iff_of_true rfl (by omega)
  · exact iff_of_true rfl (by omega)
  · exact iff_of_false nofun (by omega)

theorem isGE_then (e e' : Int) (m m' : Nat) :
    ((compare e e').then (compare m m')).isGE = true ↔ e' < e ∨ e = e' ∧ m' ≤ m := by
  rw [compare_then]
  split_ifs with hlt heq
  · exact iff_of_false nofun (by omega)
  · exact iff_of_true rfl (by omega)
  · exact iff_of_true rfl (by omega)

theorem le_iff (u v : UnpackedFloat) : u.le v = true ↔ u.isNaN = false ∧ v.isNaN = false ∧ place u ≤ place v := by
  rcases u with (_ | _) | _ | (_ | _) | ⟨_ | _, m, e, hm⟩ <;>
    rcases v with (_ | _) | _ | (_ | _) | ⟨_ | _, m', e', hm'⟩ <;>
    simp [UnpackedFloat.le, UnpackedFloat.compare, place, UnpackedFloat.isNaN, Prod.Lex.toLex_le_toLex,
      isLE_then, isGE_then]
  all_goals rfl

theorem lt_iff (u v : UnpackedFloat) : u.lt v = true ↔ u.le v = true ∧ ¬v.le u = true := by
  rcases u with (_ | _) | _ | (_ | _) | ⟨_ | _, m, e, hm⟩ <;>
    rcases v with (_ | _) | _ | (_ | _) | ⟨_ | _, m', e', hm'⟩ <;>
    simp [UnpackedFloat.le, UnpackedFloat.lt, UnpackedFloat.compare]
  case infinity.negative.infinity.positive => decide
  all_goals
    simp only [compare_then]
    split_ifs <;> simp <;> omega

theorem le_self (u : UnpackedFloat) : u.le u = true ↔ u.isNaN = false := by
  simp [le_iff]

/-- What lies at or above zero. -/
def upper : UnpackedFloat → Bool
  | .infinity s | .finite s .. => s == .positive
  | .zero _ => true
  | .notANumber => false

theorem zero_le (s : Sign) (u : UnpackedFloat) : (UnpackedFloat.zero s).le u = upper u := by
  cases s <;> rcases u with (_ | _) | _ | (_ | _) | ⟨_ | _, m, e, hm⟩ <;> rfl

/-! ### Packing -/

section
variable {spec : Format}

theorem abs_unpack_packComponents (s : Sign) (e : BitVec spec.exponentBits)
    (m : BitVec spec.mantissaBitsWithoutImplicit) :
    (unpack spec (packComponents spec s e m)).abs = unpack spec (packComponents spec .positive e m) := by
  unfold UnpackedFloat.unpack
  simp only [unpackExponent_packComponents, unpackMantissa_packComponents, unpackSign_packComponents,
    Sign.ofBitVec_toBitVec]
  split_ifs <;> rfl

theorem isNaN_unpack_packComponents (s : Sign) {e : BitVec spec.exponentBits}
    {m : BitVec spec.mantissaBitsWithoutImplicit}
    (h : e = -1#_ → m = 0#_) : (unpack spec (packComponents spec s e m)).isNaN = false := by
  unfold UnpackedFloat.unpack
  simp only [unpackExponent_packComponents, unpackMantissa_packComponents]
  split_ifs with he hm
  · rfl
  · exact absurd (h he) hm
  · rfl
  · rfl
  · rfl

end

/-- What a packed float unpacks to. -/
def repack (u : UnpackedFloat) : UnpackedFloat := unpack Format.binary64 (pack Format.binary64 u)

theorem isNaN_repack (u : UnpackedFloat) : (repack u).isNaN = u.isNaN := by
  cases u with
  | notANumber => exact congrArg UnpackedFloat.isNaN unpack_packedNaN
  | infinity s => exact isNaN_unpack_packComponents s fun _ => rfl
  | zero s => exact isNaN_unpack_packComponents s fun _ => rfl
  | finite s m e hm =>
    unfold repack
    simp only [UnpackedFloat.pack]
    split_ifs with hbig
    · exact isNaN_unpack_packComponents s fun _ => rfl
    · refine isNaN_unpack_packComponents s fun hmost => absurd (congrArg BitVec.toNat hmost) ?_
      have hlt : (e + Format.binary64.exponentBias + Format.binary64.mantissaBitsWithoutImplicit).toNat + 1 <
          2 ^ 11 :=
        not_le.mp hbig
      rw [BitVec.toNat_ofNat]
      show _ % 2 ^ 11 ≠ 2 ^ 11 - 1
      omega
    · exact isNaN_unpack_packComponents s fun hmost => absurd hmost (by decide)

theorem repack_abs (u : UnpackedFloat) : repack u.abs = (repack u).abs := by
  unfold repack
  cases u with
  | notANumber => rw [UnpackedFloat.abs, UnpackedFloat.pack, unpack_packedNaN, UnpackedFloat.abs]
  | infinity s => exact (abs_unpack_packComponents s _ _).symm
  | zero s => exact (abs_unpack_packComponents s _ _).symm
  | finite s m e hm =>
    simp only [UnpackedFloat.abs, UnpackedFloat.pack]
    split_ifs
    · exact (abs_unpack_packComponents s _ _).symm
    · exact (abs_unpack_packComponents s _ _).symm
    · exact (abs_unpack_packComponents s _ _).symm

theorem isNaN_abs (u : UnpackedFloat) : u.abs.isNaN = u.isNaN := by
  cases u <;> rfl

theorem upper_abs (u : UnpackedFloat) : upper u.abs = !u.isNaN := by
  cases u <;> rfl

theorem upper_repack {u : UnpackedFloat} (h : upper u = true) : upper (repack u) = true := by
  have habs {w : UnpackedFloat} (hnumber : w.isNaN = false) : upper (repack w.abs) = true := by
    rw [repack_abs, upper_abs, isNaN_repack, hnumber]
    rfl
  rcases u with (_ | _) | _ | s | ⟨_ | _, m, e, hm⟩
  · cases h
  · exact habs (w := .infinity .positive) rfl
  · cases h
  · rw [repack, UnpackedFloat.pack, unpack_packedZero]
    rfl
  · cases h
  · exact habs (w := .finite .positive m e hm) rfl

/-! ### Arithmetic -/

section
variable {spec : Format}

theorem isNaN_of_isFinite {u : UnpackedFloat} (h : u.isFinite = true) : u.isNaN = false := by
  cases u with
  | notANumber => cases h
  | infinity s | zero s | finite s => rfl

theorem abs_roundWithAccuracy (s : Sign) (m : Nat) (e : Int) (a : Accuracy) :
    (roundWithAccuracy spec s m e a).abs = roundWithAccuracy spec .positive m e a := by
  unfold roundWithAccuracy
  dsimp only
  split <;> rfl

theorem isFinite_roundWithAccuracy (s : Sign) (m : Nat) (e : Int) (a : Accuracy) :
    (roundWithAccuracy spec s m e a).isFinite = true := by
  unfold roundWithAccuracy
  dsimp only
  split <;> rfl

theorem abs_normalize_neg (m e : Int) (s : Sign) :
    (UnpackedFloat.normalize spec (-m) e s).abs = (UnpackedFloat.normalize spec m e s).abs := by
  unfold UnpackedFloat.normalize UnpackedFloat.round
  rcases lt_trichotomy m 0 with h | rfl | h
  · rw [Int.compare_eq_lt.mpr h, Int.compare_eq_gt.mpr (by omega)]
    dsimp only
    rw [abs_roundWithAccuracy, abs_roundWithAccuracy]
  · rfl
  · rw [Int.compare_eq_gt.mpr h, Int.compare_eq_lt.mpr (by omega), neg_neg]
    dsimp only
    rw [abs_roundWithAccuracy, abs_roundWithAccuracy]

theorem isFinite_normalize (m e : Int) (s : Sign) : (UnpackedFloat.normalize spec m e s).isFinite = true := by
  unfold UnpackedFloat.normalize UnpackedFloat.round
  split
  · exact isFinite_roundWithAccuracy ..
  · rfl
  · exact isFinite_roundWithAccuracy ..

theorem abs_sub_comm (u v : UnpackedFloat) :
    (UnpackedFloat.sub spec u v).abs = (UnpackedFloat.sub spec v u).abs := by
  rcases u with s | _ | s | ⟨s, m, e, hm⟩ <;> rcases v with s' | _ | s' | ⟨s', m', e', hm'⟩
  case finite.finite =>
    simp only [UnpackedFloat.sub]
    rw [← abs_normalize_neg, neg_sub, min_comm]
  case infinity.infinity => cases s <;> cases s' <;> rfl
  case zero.zero => cases s <;> cases s' <;> rfl
  all_goals rfl

theorem isNaN_sub {u v : UnpackedFloat} (hu : u.isFinite = true) (hv : v.isFinite = true) :
    (UnpackedFloat.sub spec u v).isNaN = false := by
  rcases u with s | _ | s | ⟨s, m, e, hm⟩ <;> rcases v with s' | _ | s' | ⟨s', m', e', hm'⟩
  case finite.finite => exact isNaN_of_isFinite (isFinite_normalize ..)
  case zero.zero => cases s <;> cases s' <;> rfl
  case zero.finite => rfl
  case finite.zero => rfl
  all_goals simp [UnpackedFloat.isFinite] at hu hv

theorem isFinite_of_isNaN_sub {u : UnpackedFloat} (h : (UnpackedFloat.sub spec u u).isNaN = false) :
    u.isFinite = true := by
  rcases u with (_ | _) | _ | s | ⟨s, m, e, hm⟩
  · cases h
  · cases h
  · cases h
  · rfl
  · rfl

theorem isNaN_of_mul {u v : UnpackedFloat} (h : (UnpackedFloat.mul spec u v).isNaN = false) : u.isNaN = false := by
  cases u with
  | notANumber => cases h
  | infinity s | zero s | finite s => rfl

theorem isNaN_mul {s : Sign} {u v : UnpackedFloat} (hu : u.isNaN = false) (hv : v.isFinite = true)
    (hpos : (UnpackedFloat.zero s).lt v = true) : (UnpackedFloat.mul spec u v).isNaN = false := by
  rcases v with s' | _ | s' | ⟨s', m', e', hm'⟩
  · cases hv
  · cases hv
  · cases hpos
  · cases u with
    | notANumber => cases hu
    | infinity t | zero t => rfl
    | finite t m e hm => exact isNaN_of_isFinite (isFinite_roundWithAccuracy ..)

theorem upper_mul {u v : UnpackedFloat} (hu : upper u = true) (hv : upper v = true)
    (h : (UnpackedFloat.mul spec u v).isNaN = false) : upper (UnpackedFloat.mul spec u v) = true := by
  rcases u with (_ | _) | _ | s | ⟨_ | _, m, e, hm⟩ <;> rcases v with (_ | _) | _ | s' | ⟨_ | _, m', e', hm'⟩
  case finite.positive.finite.positive =>
    simp only [UnpackedFloat.mul] at h ⊢
    rw [show Sign.positive * .positive = .positive from rfl, ← abs_roundWithAccuracy .positive, upper_abs,
      Bool.not_eq_true']
    exact h
  all_goals first | rfl | simp [upper, UnpackedFloat.mul, UnpackedFloat.isNaN] at hu hv h

end

/-! ### Channels -/

def parts (x : Float) : UnpackedFloat := x.toModel.unpack

theorem le_parts {x y : Float} : x ≤ y ↔ (parts x).le (parts y) = true := decide_eq_true_iff

theorem lt_parts {x y : Float} : x < y ↔ (parts x).lt (parts y) = true := decide_eq_true_iff

theorem isNumber_parts {x : Float} : Channel.IsNumber x ↔ (parts x).isNaN = false := le_parts.trans (le_self _)

theorem parts_sub (x y : Float) : parts (x - y) = repack (UnpackedFloat.sub Format.binary64 (parts x) (parts y)) :=
  rfl

theorem parts_mul (x y : Float) : parts (x * y) = repack (UnpackedFloat.mul Format.binary64 (parts x) (parts y)) :=
  rfl

theorem parts_abs (x : Float) : parts x.abs = repack (parts x).abs := rfl

theorem isFinite_parts {x : Float} : Channel.IsFinite x ↔ (parts x).isFinite = true := by
  unfold Channel.IsFinite
  rw [isNumber_parts, parts_sub, isNaN_repack]
  exact ⟨isFinite_of_isNaN_sub, fun h => isNaN_sub h h⟩

theorem parts_zero : parts 0 = .zero .positive := by
  have hmodel : (0 : Float).toModel = .pack (.zero .positive) := by decide +kernel
  rw [parts, hmodel]
  exact unpack_packedZero

theorem zero_le_parts {x : Float} : (0 : Float) ≤ x ↔ upper (parts x) = true := by
  rw [le_parts, parts_zero, zero_le]

/-- The floats of bytes are finite, and above zero but for the first. -/
theorem parts_ofNat {n : Nat} (h : n < 256) : (parts (Float.ofNat n)).isFinite = true ∧
    (0 < n → (UnpackedFloat.zero .positive).lt (parts (Float.ofNat n)) = true) := by
  have hall : ∀ n < 256, (parts (Float.ofNat n)).isFinite = true ∧
      (0 < n → (UnpackedFloat.zero .positive).lt (parts (Float.ofNat n)) = true) := by decide +kernel
  exact hall n h

end Binary64

open Binary64 in
instance : Channel.Comparable Float where
  lt_iff x y := by rw [lt_parts, le_parts, le_parts, Binary64.lt_iff]
  trans hxy hyz := by
    obtain ⟨hx, hy, hle⟩ := (le_iff _ _).mp (le_parts.mp hxy)
    obtain ⟨-, hz, hle'⟩ := (le_iff _ _).mp (le_parts.mp hyz)
    exact le_parts.mpr ((le_iff _ _).mpr ⟨hx, hz, hle.trans hle'⟩)
  total hx hy := by
    rw [isNumber_parts] at hx hy
    simp only [le_parts, le_iff, hx, hy, true_and]
    exact le_total _ _
  numbers h := by
    obtain ⟨hx, hy, -⟩ := (le_iff _ _).mp (le_parts.mp h)
    exact ⟨isNumber_parts.mpr hx, isNumber_parts.mpr hy⟩

open Binary64 in
instance : Channel.Subtractive Float where
  magnitude_sub_comm x y := by
    show (x - y).abs = (y - x).abs
    have hsame : (parts (x - y)).abs = (parts (y - x)).abs := by
      rw [parts_sub, parts_sub, ← repack_abs, ← repack_abs, abs_sub_comm]
    exact congrArg (fun u => Float.ofModel (.pack u)) hsame
  magnitude_nonneg {x} h := by
    show (0 : Float) ≤ x.abs
    rw [zero_le_parts, parts_abs, repack_abs, upper_abs, isNaN_repack, isNumber_parts.mp h]
    rfl
  sub_number {x y} hx hy := by
    rw [isNumber_parts, parts_sub, isNaN_repack]
    exact isNaN_sub (isFinite_parts.mp hx) (isFinite_parts.mp hy)
  number_of_magnitude {x} h := by
    have hmagnitude : (parts x.abs).isNaN = false := isNumber_parts.mp h
    rw [parts_abs, isNaN_repack] at hmagnitude
    rw [isNumber_parts, ← isNaN_abs, hmagnitude]
  mul_nonneg {x y} hx hy h := by
    rw [isNumber_parts, parts_mul, isNaN_repack] at h
    rw [zero_le_parts, parts_mul]
    exact upper_repack (upper_mul (zero_le_parts.mp hx) (zero_le_parts.mp hy) h)
  mul_number {x y} hx hpos hy := by
    rw [isNumber_parts, parts_mul, isNaN_repack]
    exact isNaN_mul (isNumber_parts.mp hx) (isFinite_parts.mp hy) (parts_zero ▸ lt_parts.mp hpos)
  number_of_mul {x y} h := by
    rw [isNumber_parts, parts_mul, isNaN_repack] at h
    exact isNumber_parts.mpr (isNaN_of_mul h)
  ofNat_one := rfl
  ofNat_finite h := isFinite_parts.mpr (parts_ofNat h).1
  ofNat_pos hpos h := lt_parts.mpr (parts_zero ▸ (parts_ofNat h).2 hpos)

end Strata
