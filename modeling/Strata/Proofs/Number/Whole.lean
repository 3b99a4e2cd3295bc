import Strata.Geometry.Measure
import Strata.Proofs.Number.Rounding

/-!
# Whole numbers

Integers of less than 54 bits have one form in binary64 (`Whole`): rounding and packing leave it alone
(`round_mul_pow`, `Whole.repack`), and it is what such an integer is read off (`Float.Denotes.iff_whole`). So floats
that denote integers are added, subtracted and compared as these are, as long as the result has less than 54 bits as
well. A longer difference is rounded, but its sign is still that of the integers (`Float.Denotes.sub_negative`,
`Float.Denotes.sub_sub_negative`).
-/

namespace Strata

namespace Binary64

open Float.Model UnpackedFloat

/-! ### Mantissas -/

theorem exists_full {k : Nat} (hk : 0 < k) (hlt : k < 2 ^ 53) : ∃ j, Full (k * 2 ^ j) := by
  have hlog : k.log2 < 53 := (Nat.log2_lt hk.ne').mpr hlt
  have hfilled : (k * 2 ^ (52 - k.log2)).log2 = 52 := by
    rw [log2_mul_two_pow hk]
    omega
  exact ⟨52 - k.log2, (Nat.log2_eq_iff (by positivity)).mp hfilled⟩

section
variable {k k' i j j' : Nat}

theorem log2_mul_pow (h : Full (k * 2 ^ j)) (i : Nat) : (k * 2 ^ i).log2 + j = 52 + i := by
  have hk : 0 < k := Nat.pos_of_mul_pos_right h.pos
  have hlog := h.log2
  rw [log2_mul_two_pow hk] at hlog ⊢
  omega

theorem exponent_le (h : Full (k * 2 ^ j)) : j ≤ 52 := by
  have hlog := log2_mul_pow h 0
  omega

theorem lt_of_full (h : Full (k * 2 ^ j)) (h' : Full (k' * 2 ^ j')) (hj : j < j') : k' < k := by
  obtain ⟨hlow, -⟩ := h
  obtain ⟨-, hhigh⟩ := h'
  have hdouble : k' * 2 ^ j * 2 ≤ k' * 2 ^ j' := by
    rw [mul_assoc, ← pow_succ]
    exact Nat.mul_le_mul_left _ (Nat.pow_le_pow_right (by decide) hj)
  have hlt : k' * 2 ^ j < k * 2 ^ j := by omega
  exact Nat.lt_of_mul_lt_mul_right hlt

/-- The more zeros fill a mantissa, the smaller is the number. -/
theorem lex_full (h : Full (k * 2 ^ j)) (h' : Full (k' * 2 ^ j')) :
    (j' < j ∨ j = j' ∧ (k : Int) * 2 ^ j ≤ k' * 2 ^ j') ↔ k ≤ k' := by
  rcases lt_trichotomy j j' with hj | rfl | hj
  · have hlt := lt_of_full h h' hj
    exact iff_of_false (by omega) (by omega)
  · simp
  · have hlt := lt_of_full h' h hj
    exact iff_of_true (.inl hj) hlt.le

/-! ### Rounding -/

theorem targetExponent_mul_pow (h : Full (k * 2 ^ j)) (i : Nat) :
    Format.binary64.targetExponent (totalExponent (k * 2 ^ i) (-i)) = -j := by
  have hlog := log2_mul_pow h i
  have hj := exponent_le h
  rw [targetExponent_eq (by omega)]
  omega

theorem shiftRight_mul_pow (m n : Nat) :
    (⟨m * 2 ^ n, false, false⟩ : ExtendedMantissa) >>> n = ⟨m, false, false⟩ := by
  show Nat.repeat ExtendedMantissa.shiftRightOne n _ = _
  induction n generalizing m with
  | zero => simp [Nat.repeat]
  | succ n ih =>
    have heven : m * 2 ^ (n + 1) = m * 2 * 2 ^ n := by ring
    rw [Nat.repeat, heven, ih]
    simp [ExtendedMantissa.shiftRightOne]

/-- Only zeros are shifted out of a mantissa that has enough of them. -/
theorem shiftToTargetExponent_mul_pow (h : Full (k * 2 ^ j)) (hij : j ≤ i) :
    shiftToTargetExponent Format.binary64 (k * 2 ^ i) (-i) .exact = (⟨k * 2 ^ j, false, false⟩, -(j : Int)) := by
  obtain ⟨n, rfl⟩ := Nat.exists_eq_add_of_le hij
  have hshift : (-(j : Int) - -((j + n : Nat) : Int)).toNat = n := by omega
  have hvalue : k * 2 ^ (j + n) = k * 2 ^ j * 2 ^ n := by ring
  unfold shiftToTargetExponent shiftToExponent
  dsimp only
  rw [targetExponent_mul_pow h, hshift, hvalue]
  refine Prod.ext (shiftRight_mul_pow _ _) ?_
  push_cast
  ring

theorem roundWithAccuracy_mul_pow (s : Sign) (h : Full (k * 2 ^ j)) (hij : j ≤ i) :
    roundWithAccuracy Format.binary64 s (k * 2 ^ i) (-i) .exact = .finite s (k * 2 ^ j) (-j) h.pos := by
  unfold roundWithAccuracy
  rw [shiftToTargetExponent_mul_pow h hij]
  have hagain := shiftToTargetExponent_mul_pow h le_rfl
  dsimp only [ExtendedMantissa.roundedMantissa, ExtendedMantissa.accuracy, Accuracy.roundToNearestEven]
  rw [hagain]
  exact dif_neg h.pos.ne'

/-- A number of less than 54 bits is not rounded, however many zeros follow. -/
theorem round_mul_pow (s : Sign) (h : Full (k * 2 ^ j)) (i : Nat) :
    UnpackedFloat.round Format.binary64 s (k * 2 ^ i) (-i) = .finite s (k * 2 ^ j) (-j) h.pos := by
  have hshift : (-(i : Int) - -(j : Int)).toNat = j - i := by omega
  have hvalue : (k * 2 ^ i) <<< (j - i) = k * 2 ^ (i + (j - i)) := by rw [Nat.shiftLeft_eq]; ring
  have hexponent : -(i : Int) - (j - i : Nat) = -((i + (j - i) : Nat) : Int) := by push_cast; ring
  unfold UnpackedFloat.round decreaseExponent
  dsimp only
  rw [targetExponent_mul_pow h, hshift, hvalue, hexponent]
  exact roundWithAccuracy_mul_pow s h (by omega)

end

/-! ### Signs -/

theorem add_eq_sub_neg (u v : UnpackedFloat) :
    UnpackedFloat.add Format.binary64 u v = UnpackedFloat.sub Format.binary64 u v.neg := by
  rcases u with s | _ | s | ⟨s, m, e, hm⟩ <;> rcases v with s' | _ | s' | ⟨s', m', e', hm'⟩
  case finite.finite => simp only [UnpackedFloat.add, UnpackedFloat.sub, UnpackedFloat.neg, apply_neg,
    sub_neg_eq_add]
  case infinity.infinity => cases s <;> cases s' <;> rfl
  case zero.zero => cases s <;> cases s' <;> rfl
  case zero.infinity | zero.finite | finite.infinity => cases s' <;> rfl
  all_goals rfl

theorem beq_iff (u v : UnpackedFloat) : u.beq v = true ↔ u.le v = true ∧ v.le u = true := by
  rcases u with (_ | _) | _ | (_ | _) | ⟨_ | _, m, e, hm⟩ <;>
    rcases v with (_ | _) | _ | (_ | _) | ⟨_ | _, m', e', hm'⟩ <;>
    simp [UnpackedFloat.le, UnpackedFloat.beq, UnpackedFloat.compare, isLE_then, isGE_then]
  case finite.negative.finite.negative | finite.positive.finite.positive => omega
  all_goals decide

/-! ### Whole numbers -/

/-- A float is an integer, in the form in which those of less than 54 bits are held. -/
inductive Whole : UnpackedFloat → Int → Prop
  | zero (s : Sign) : Whole (.zero s) 0
  | finite (s : Sign) {k j : Nat} (hfull : Full (k * 2 ^ j)) :
      Whole (.finite s (k * 2 ^ j) (-j) hfull.pos) (s.apply k)

theorem whole_round (s : Sign) {k : Nat} (hk : 0 < k) (hlt : k < 2 ^ 53) (i : Nat) :
    Whole (UnpackedFloat.round Format.binary64 s (k * 2 ^ i) (-i)) (s.apply k) := by
  obtain ⟨j, hfull⟩ := exists_full hk hlt
  rw [round_mul_pow s hfull]
  exact .finite s hfull

theorem whole_normalize {n : Int} (h : n.natAbs < 2 ^ 53) (i : Nat) (s : Sign) :
    Whole (UnpackedFloat.normalize Format.binary64 (n * 2 ^ i) (-i) s) n := by
  rcases eq_or_ne n 0 with rfl | hn
  · rw [zero_mul]
    exact .zero s
  · obtain ⟨s', k, hk, rfl⟩ := exists_apply hn
    rw [← apply_mul_pow, normalize_apply s' (Nat.mul_pos hk (Nat.two_pow_pos i))]
    exact whole_round s' hk (natAbs_apply s' k ▸ h) i

theorem normalize_within (s : Sign) {k : Nat} (hk : 0 < k) (i : Nat) (s' : Sign) :
    Within s (k.log2 - 52) (k.log2 - 51) (UnpackedFloat.normalize Format.binary64 (s.apply k * 2 ^ i) (-i) s') := by
  have hlog : ((k * 2 ^ i).log2 : Int) + -(i : Int) = k.log2 := by
    rw [log2_mul_two_pow hk]
    omega
  have hrounded := round_within s (Nat.mul_pos hk (Nat.two_pow_pos i)) (e := -i) (by omega)
  rw [hlog] at hrounded
  rw [← apply_mul_pow, normalize_apply s (Nat.mul_pos hk (Nat.two_pow_pos i))]
  exact hrounded

theorem Full.whole {m t : Nat} (h : Full m) (hsize : m * 2 ^ t < 2 ^ 53) (s : Sign) :
    Whole (.finite s m t h.pos) (s.apply (m * 2 ^ t : Nat)) := by
  cases t with
  | zero => simpa using Whole.finite s (k := m) (j := 0) (by simpa using h)
  | succ t =>
    have hdouble : m * 2 ≤ m * 2 ^ (t + 1) := Nat.mul_le_mul_left _ (Nat.le_self_pow t.succ_ne_zero 2)
    unfold Full at h
    omega

theorem sub_finite (s s' : Sign) {k k' j j' : Nat} (h : 0 < k * 2 ^ j) (h' : 0 < k' * 2 ^ j') :
    UnpackedFloat.sub Format.binary64 (.finite s (k * 2 ^ j) (-j) h) (.finite s' (k' * 2 ^ j') (-j') h') =
      UnpackedFloat.normalize Format.binary64 ((s.apply k - s'.apply k') * 2 ^ max j j')
      (-(max j j' : Nat)) .positive := by
  -- Both mantissas are filled up with zeros to the same exponent.
  have hmin : min (-(j : Int)) (-(j' : Int)) = -(max j j' : Nat) := by omega
  have hshift (i : Nat) : (-(i : Int) - -((max j j' : Nat) : Int)).toNat = max j j' - i := by omega
  have hscale (k : Nat) {i : Nat} (hi : i ≤ max j j') : (k * 2 ^ i) <<< (max j j' - i) = k * 2 ^ max j j' := by
    rw [Nat.shiftLeft_eq, mul_assoc, ← pow_add, Nat.add_sub_cancel' hi]
  simp only [UnpackedFloat.sub, decreaseExponent, hmin, hshift]
  rw [hscale k (le_max_left ..), hscale k' (le_max_right ..), apply_mul_pow, apply_mul_pow, ← sub_mul]

namespace Whole

variable {u v : UnpackedFloat} {a b : Int}

theorem isNaN (h : Whole u a) : u.isNaN = false := by
  cases h <;> rfl

theorem natAbs_lt (h : Whole u a) : a.natAbs < 2 ^ 53 := by
  cases h with
  | zero s => decide
  | @finite s k j hfull =>
    rw [natAbs_apply]
    exact (Nat.le_mul_of_pos_right _ (Nat.two_pow_pos j)).trans_lt hfull.2

theorem within (h : Whole u a) {s : Sign} {k : Nat} (hk : 0 < k) (ha : a = s.apply k) :
    Within s (k.log2 - 52) (k.log2 - 52) u := by
  cases h with
  | zero s' =>
    have hnone := natAbs_apply s k
    rw [← ha] at hnone
    omega
  | @finite s' k' j hfull =>
    obtain ⟨rfl, rfl⟩ := apply_inj hk ha.symm
    have hlog := log2_mul_pow hfull 0
    rw [pow_zero, mul_one] at hlog
    exact .finite hfull (by omega) (by omega)

theorem repack (h : Whole u a) : repack u = u := by
  cases h with
  | zero s => exact unpack_packedZero
  | @finite s k j hfull =>
    have hj := exponent_le hfull
    exact (Within.finite hfull (by omega) (by omega)).repack

/-! ### Arithmetic and order -/

theorem neg (h : Whole u a) : Whole u.neg (-a) := by
  cases h with
  | zero s => exact .zero (-s)
  | finite s hfull => exact apply_neg s _ ▸ .finite (-s) hfull

theorem sub (hu : Whole u a) (hv : Whole v b) (h : (a - b).natAbs < 2 ^ 53) :
    Whole (UnpackedFloat.sub Format.binary64 u v) (a - b) := by
  cases hu with
  | zero s =>
    rw [zero_sub]
    cases hv with
    | zero s' => cases s <;> cases s' <;> exact .zero _
    | finite s' hfull' => exact (finite s' hfull').neg
  | @finite s k j hfull =>
    cases hv with
    | zero s' =>
      rw [sub_zero]
      exact .finite s hfull
    | finite s' hfull' =>
      rw [sub_finite]
      exact whole_normalize h _ _

/-- A difference may be rounded, but keeps its sign and, to one bit, its size. -/
theorem sub_within (hu : Whole u a) (hv : Whole v b) {s : Sign} {k : Nat} (hk : 0 < k) (h : a - b = s.apply k) :
    Within s (k.log2 - 52) (k.log2 - 51) (UnpackedFloat.sub Format.binary64 u v) := by
  cases hu with
  | zero t =>
    rw [zero_sub] at h
    cases hv with
    | zero t' =>
      have hnone := natAbs_apply s k
      rw [← h] at hnone
      omega
    | finite t' hfull' => exact ((finite t' hfull').neg.within hk h).mono le_rfl (by omega)
  | finite t hfull =>
    cases hv with
    | zero t' =>
      rw [sub_zero] at h
      exact ((finite t hfull).within hk h).mono le_rfl (by omega)
    | finite t' hfull' =>
      rw [sub_finite, h]
      exact normalize_within s hk _ _

/-- Nothing is left of a whole number when more than it can be is taken from it. -/
theorem sub_beyond (hu : Whole u a) (hv : Within .positive 1 2 v) :
    Within .negative (-1074) 971 (UnpackedFloat.sub Format.binary64 u v) := by
  cases hv with
  | @finite m e hfull hlow hle =>
    cases hu with
    | zero s => exact .finite hfull (by omega) (by omega)
    | @finite s k j hfull' =>
      obtain ⟨t, rfl⟩ : ∃ t : Nat, e = t := ⟨e.toNat, by omega⟩
      have hj := exponent_le hfull'
      have hmin : min (-(j : Int)) t = -j := by omega
      have hshift : ((t : Int) - -j).toNat = t + j := by omega
      -- Written with the exponent of the whole number, the other mantissa is the larger one.
      have hlarger : m * 2 ≤ m * 2 ^ (t + j) := Nat.mul_le_mul_left _ (Nat.le_self_pow (by omega) 2)
      have hlargest : m * 2 ^ (t + j) ≤ m * 2 ^ 54 :=
        Nat.mul_le_mul_left _ (Nat.pow_le_pow_right (by decide) (by omega))
      have hsize := natAbs_apply s (k * 2 ^ j)
      simp only [UnpackedFloat.sub, decreaseExponent, hmin, hshift, sub_self, Int.toNat_zero, Nat.shiftLeft_eq,
        pow_zero, mul_one]
      unfold Full at hfull hfull'
      generalize m * 2 ^ (t + j) = larger at hlarger hlargest ⊢
      generalize k * 2 ^ j = smaller at hfull' hsize ⊢
      obtain ⟨k', hk'⟩ : ∃ k' : Nat, (larger : Int) - s.apply smaller = k' :=
        ⟨((larger : Int) - s.apply smaller).toNat, by omega⟩
      have hdifference : s.apply smaller - Sign.positive.apply larger = Sign.negative.apply k' := by
        show s.apply smaller - (larger : Int) = -(k' : Int)
        omega
      have hlog : k'.log2 < 108 := (Nat.log2_lt (by omega)).mpr (by omega)
      rw [hdifference, normalize_apply _ (by omega)]
      exact (round_within .negative (by omega) (by omega)).mono (by omega) (by omega)

theorem add (hu : Whole u a) (hv : Whole v b) (h : (a + b).natAbs < 2 ^ 53) :
    Whole (UnpackedFloat.add Format.binary64 u v) (a + b) := by
  rw [add_eq_sub_neg, ← sub_neg_eq_add]
  exact hu.sub hv.neg (by rwa [sub_neg_eq_add])

theorem le_iff (hu : Whole u a) (hv : Whole v b) : u.le v = true ↔ a ≤ b := by
  rw [Binary64.le_iff, hu.isNaN, hv.isNaN]
  simp only [true_and]
  cases hu with
  | zero s =>
    cases hv with
    | zero s' => simp [place]
    | @finite s' k' j' hfull' =>
      have hpos' : 0 < k' := Nat.pos_of_mul_pos_right hfull'.pos
      cases s' <;> simp [place, Sign.apply, Prod.Lex.toLex_le_toLex, hpos'.ne']
  | @finite s k j hfull =>
    have hpos : 0 < k := Nat.pos_of_mul_pos_right hfull.pos
    cases hv with
    | zero s' => cases s <;> simp [place, Sign.apply, Prod.Lex.toLex_le_toLex, hpos.ne']
    | @finite s' k' j' hfull' =>
      cases s <;> cases s' <;> simp [place, Sign.apply, Prod.Lex.toLex_le_toLex]
      case negative.negative => rw [eq_comm, lex_full hfull' hfull]
      case positive.negative => omega
      case positive.positive => exact lex_full hfull hfull'

theorem lt_iff (hu : Whole u a) (hv : Whole v b) : u.lt v = true ↔ a < b := by
  rw [Binary64.lt_iff, hu.le_iff hv, hv.le_iff hu]
  omega

theorem beq_iff (hu : Whole u a) (hv : Whole v b) : u.beq v = true ↔ a = b := by
  rw [Binary64.beq_iff, hu.le_iff hv, hv.le_iff hu]
  omega

end Whole

/-! ### Reading -/

theorem toNat_unpackMantissa (b : BitVec 64) : (@unpackMantissa .binary64 b).toNat = b.toNat % 2 ^ 52 := by
  rw [unpackMantissa_def, BitVec.extractLsb'_toNat, Nat.shiftRight_zero]

theorem toNat_unpackExponent (b : BitVec 64) : (@unpackExponent .binary64 b).toNat = b.toNat / 2 ^ 52 % 2 ^ 11 := by
  rw [unpackExponent_def, BitVec.extractLsb'_toNat, Nat.shiftRight_eq_div_pow]

/-- The magnitude that a float's bits hold. Only the smallest have a mantissa that is not full. -/
theorem ofFloat?_parts (x : Float) :
    match parts x with
    | .finite _ m e _ => Binary.ofFloat? x = some ⟨m, e⟩ ∧ (Full m ∨ m < 2 ^ 52 ∧ e = -1074)
    | _ => Binary.ofFloat? x = none := by
  have hread : Binary.ofFloat? x =
      let m := (@unpackMantissa .binary64 x.toModel.toBits.toBitVec).toNat
      let e := (@unpackExponent .binary64 x.toModel.toBits.toBitVec).toNat
      if e = 2047 then none
      else if e = 0 then if m = 0 then none else some ⟨m, -1074⟩
      else some ⟨m + 2 ^ 52, e - 1075⟩ := by
    rw [toNat_unpackMantissa, toNat_unpackExponent]
    rfl
  have hlt := (@unpackMantissa .binary64 x.toModel.toBits.toBitVec).isLt
  have hbias : (Format.binary64.exponentBias : Int) + (52 : Nat) = 1075 := rfl
  have hones (e : BitVec 11) : e = -1#11 ↔ e.toNat = 2047 := BitVec.toNat_inj.symm
  have hzero {n : Nat} (v : BitVec n) : v = 0#n ↔ v.toNat = 0 := by
    rw [← BitVec.toNat_inj, BitVec.toNat_ofNat, Nat.zero_mod]
  rw [hread]
  unfold parts Float.Model.unpack UnpackedFloat.unpack
  simp only [hbias, hones, hzero, toNat_one_append]
  by_cases he : (@unpackExponent .binary64 x.toModel.toBits.toBitVec).toNat = 2047
  · by_cases hm : (@unpackMantissa .binary64 x.toModel.toBits.toBitVec).toNat = 0 <;> simp [he, hm]
  · by_cases he' : (@unpackExponent .binary64 x.toModel.toBits.toBitVec).toNat = 0
    · by_cases hm : (@unpackMantissa .binary64 x.toModel.toBits.toBitVec).toNat = 0
      · simp [he', hm]
      · simp only [he', hm]
        exact ⟨rfl, .inr ⟨hlt, rfl⟩⟩
    · simp only [he, he', if_false]
      rw [Nat.add_comm]
      exact ⟨rfl, .inl ⟨Nat.le_add_right _ _, Nat.add_lt_add_left hlt _⟩⟩

theorem beq_zero_parts (x : Float) : (x == 0) = (parts x).beq (.zero .positive) := by
  rw [← parts_zero]
  rfl

theorem integer?_zero {x : Float} {s : Sign} (h : parts x = .zero s) : Float.integer? x = some 0 := by
  have hzero := beq_zero_parts x
  rw [h] at hzero
  exact if_pos (hzero.trans (by cases s <;> rfl))

theorem integer?_none {x : Float} (h : (parts x).isFinite = false) : Float.integer? x = none := by
  have hmagnitude := ofFloat?_parts x
  have hzero := beq_zero_parts x
  unfold Float.integer?
  generalize parts x = u at h hmagnitude hzero
  cases u with
  | zero s | finite s => cases h
  | notANumber =>
    rw [hzero, hmagnitude]
    rfl
  | infinity s =>
    rw [hzero, hmagnitude]
    cases s <;> rfl

theorem integer?_finite {x : Float} {s : Sign} {m : Nat} {e : Int} {hm : 0 < m} (h : parts x = .finite s m e hm) :
    Float.integer? x =
      if 0 ≤ e then some (s.apply (m * 2 ^ e.toNat : Nat))
      else if m % 2 ^ (-e).toNat = 0 then some (s.apply (m / 2 ^ (-e).toNat : Nat)) else none := by
  have hmagnitude := ofFloat?_parts x
  have hzero := beq_zero_parts x
  have hneg : x < 0 ↔ (parts x).lt (parts 0) = true := lt_parts
  rw [parts_zero] at hneg
  rw [h] at hmagnitude hzero hneg
  have hnot : (x == 0) = false := hzero.trans (by cases s <;> rfl)
  have hsign (n : Nat) : (if x < 0 then -(n : Int) else n) = s.apply n := by
    cases s with
    | positive => exact if_neg (hneg.not.mpr nofun)
    | negative => exact if_pos (hneg.mpr rfl)
  have hpow (n : Nat) : Nat.pow 2 n = 2 ^ n := rfl
  unfold Float.integer?
  rw [hnot, if_neg nofun, hmagnitude.1]
  simp only [Option.bind_eq_bind, Option.bind_some, Nat.shiftLeft_eq, hpow]
  split
  · exact congrArg some (hsign _)
  · split
    · exact congrArg some (hsign _)
    · rfl

theorem Whole.integer? {x : Float} {n : Int} (h : Whole (parts x) n) : Float.integer? x = some n := by
  rcases hx : parts x with s | _ | s | ⟨s, m, e, hm⟩ <;> rw [hx] at h
  · cases h
  · cases h
  · cases h
    exact integer?_zero hx
  · rw [integer?_finite hx]
    cases h with
    | @finite s k j hfull =>
      cases j with
      | zero => simp
      | succ j =>
        have hj : (-(-((j + 1 : Nat) : Int))).toNat = j + 1 := by omega
        rw [if_neg (by omega), hj, if_pos (Nat.mul_mod_left ..), Nat.mul_div_cancel _ (Nat.two_pow_pos _)]

theorem whole_of_integer? {x : Float} {n : Int} (h : Float.integer? x = some n) (hlt : n.natAbs < 2 ^ 53) :
    Whole (parts x) n := by
  have hmagnitude := ofFloat?_parts x
  rcases hx : parts x with s | _ | s | ⟨s, m, e, hm⟩
  · rw [integer?_none (by rw [hx]; rfl)] at h
    cases h
  · rw [integer?_none (by rw [hx]; rfl)] at h
    cases h
  · rw [integer?_zero hx] at h
    cases h
    exact .zero s
  · rw [integer?_finite hx] at h
    rw [hx] at hmagnitude
    split at h
    · rename_i he
      obtain ⟨t, rfl⟩ := Int.eq_ofNat_of_zero_le he
      cases h
      have hfull : Full m := hmagnitude.2.resolve_right (by omega)
      exact hfull.whole (natAbs_apply s (m * 2 ^ t) ▸ hlt) s
    · obtain ⟨j, rfl⟩ : ∃ j : Nat, e = -j := ⟨(-e).toNat, by omega⟩
      rw [neg_neg, Int.toNat_natCast] at h
      split at h
      · rename_i hdvd
        cases h
        obtain ⟨k, rfl⟩ := exists_eq_mul_left_of_dvd (Nat.dvd_of_mod_eq_zero hdvd)
        have hfull : Full (k * 2 ^ j) := hmagnitude.2.resolve_right fun ⟨hsmall, hj⟩ => by
          have hk : 0 < k := Nat.pos_of_mul_pos_right hm
          have hbig : 2 ^ 52 ≤ 2 ^ j := Nat.pow_le_pow_right (by decide) (by omega)
          exact absurd (hbig.trans (Nat.le_mul_of_pos_left _ hk)) (not_le.mpr hsmall)
        rw [Nat.mul_div_cancel _ (Nat.two_pow_pos j)]
        exact .finite s hfull
      · cases h

end Binary64

/-! ## Floats that are integers -/

/-- A float is an integer, in the range where none is skipped. -/
def Float.Denotes (x : Float) (n : Int) : Prop := Float.integer? x = some n ∧ n.natAbs < 2 ^ 53

instance (x : Float) (n : Int) : Decidable (Float.Denotes x n) := inferInstanceAs (Decidable (_ ∧ _))

/-- A float is below zero, and can be packed as it is. -/
def Float.Negative (x : Float) : Prop := Binary64.Within .negative (-1074) 971 (Binary64.parts x)

namespace Float.Denotes

open Binary64 Float.Model UnpackedFloat

variable {x y z : Float} {a b c : Int}

theorem iff_whole : Denotes x a ↔ Whole (parts x) a :=
  ⟨fun h => whole_of_integer? h.1 h.2, fun h => ⟨h.integer?, h.natAbs_lt⟩⟩

theorem zero : Denotes 0 0 := iff_whole.mpr (parts_zero ▸ .zero .positive)

theorem sub (hx : Denotes x a) (hy : Denotes y b) (h : (a - b).natAbs < 2 ^ 53) : Denotes (x - y) (a - b) := by
  have hwhole := (iff_whole.mp hx).sub (iff_whole.mp hy) h
  rw [iff_whole, parts_sub, hwhole.repack]
  exact hwhole

theorem add (hx : Denotes x a) (hy : Denotes y b) (h : (a + b).natAbs < 2 ^ 53) : Denotes (x + y) (a + b) := by
  have hwhole := (iff_whole.mp hx).add (iff_whole.mp hy) h
  have hparts : parts (x + y) = repack (.add .binary64 (parts x) (parts y)) := rfl
  rw [iff_whole, hparts, hwhole.repack]
  exact hwhole

theorem le_iff (hx : Denotes x a) (hy : Denotes y b) : x ≤ y ↔ a ≤ b :=
  le_parts.trans ((iff_whole.mp hx).le_iff (iff_whole.mp hy))

theorem lt_iff (hx : Denotes x a) (hy : Denotes y b) : x < y ↔ a < b :=
  lt_parts.trans ((iff_whole.mp hx).lt_iff (iff_whole.mp hy))

theorem beq_iff (hx : Denotes x a) (hy : Denotes y b) : (x == y) = true ↔ a = b :=
  (iff_whole.mp hx).beq_iff (iff_whole.mp hy)

theorem greater (hx : Denotes x a) (hy : Denotes y b) : Denotes (Measure.greater x y) (max a b) := by
  have hnumbers : (x.isNaN || y.isNaN) = false :=
    Bool.or_eq_false_iff.mpr ⟨(iff_whole.mp hx).isNaN, (iff_whole.mp hy).isNaN⟩
  show Denotes (if x.isNaN || y.isNaN then 0 / 0 else if x < y then y else x) (max a b)
  rw [hnumbers, if_neg Bool.false_ne_true]
  simp only [hx.lt_iff hy]
  split
  · rename_i hlt
    rwa [max_eq_right hlt.le]
  · rename_i hge
    rwa [max_eq_left (not_lt.mp hge)]

/-! ### Distances that are rounded -/

theorem parts_within {s : Sign} {k : Nat} (hx : Denotes x a) (hy : Denotes y b) (hk : 0 < k)
    (h : a - b = s.apply k) : k.log2 < 54 ∧ Within s (k.log2 - 52) (k.log2 - 51) (parts (x - y)) := by
  have hsize := natAbs_apply s k
  have ha := hx.2
  have hb := hy.2
  have hlog : k.log2 < 54 := (Nat.log2_lt hk.ne').mpr (by omega)
  have hwithin := (iff_whole.mp hx).sub_within (iff_whole.mp hy) hk h
  rw [parts_sub, (hwithin.mono (by omega) (by omega)).repack]
  exact ⟨hlog, hwithin⟩

theorem sub_negative (hx : Denotes x a) (hy : Denotes y b) (h : a < b) : Negative (x - y) := by
  have hdifference : a - b = Sign.negative.apply ((b - a).toNat : Nat) := by
    show a - b = -((b - a).toNat : Int)
    omega
  obtain ⟨hlog, hwithin⟩ := hx.parts_within hy (by omega) hdifference
  exact hwithin.mono (by omega) (by omega)

/-- What is taken from a float that denotes an integer is rounded, but not below the least that none denotes. -/
theorem sub_sub_negative (hx : Denotes x a) (hy : Denotes y b) (hz : Denotes z c) (h : 2 ^ 53 ≤ b - c) :
    Negative (x - (y - z)) := by
  have hdifference : b - c = Sign.positive.apply ((b - c).toNat : Nat) := by
    show b - c = ((b - c).toNat : Int)
    omega
  obtain ⟨hlog, hwithin⟩ := hy.parts_within hz (by omega) hdifference
  have hleast : 53 ≤ (b - c).toNat.log2 := (Nat.le_log2 (by omega)).mpr (by omega)
  have hnegative := (iff_whole.mp hx).sub_beyond (hwithin.mono (by omega) (by omega))
  unfold Negative
  rw [parts_sub, hnegative.repack]
  exact hnegative

end Float.Denotes

namespace Float.Negative

open Binary64

variable {x y : Float} {b : Int}

theorem not_zero_le (h : Negative x) : ¬(0 : Float) ≤ x := by
  rw [zero_le_parts, Within.not_upper h]
  exact Bool.false_ne_true

theorem greater_zero (h : Negative x) : Denotes (Measure.greater 0 x) 0 := by
  have hnumber : x.isNaN = false := h.isNaN
  have hnot : ¬(0 : Float) < x := fun hlt => h.not_zero_le (Channel.Comparable.le_of_lt hlt)
  show Denotes (if (0 : Float).isNaN || x.isNaN then 0 / 0 else if 0 < x then x else 0) 0
  rw [hnumber, if_neg (by decide +kernel), if_neg hnot]
  exact .zero

theorem not_le (h : Negative x) (hy : Denotes y b) (hb : 0 ≤ b) : ¬y ≤ x := fun hle =>
  h.not_zero_le (Channel.Comparable.trans ((Denotes.zero.le_iff hy).mpr hb) hle)

end Float.Negative

end Strata
