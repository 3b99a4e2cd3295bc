import Strata.Proofs.Color.Floats

/-!
# Rounding to binary64

Rounding leaves a full mantissa and adds at most one to the exponent that it aims at (`round_within`). So a rounded
number keeps its sign and, to one bit, its size, and packing changes nothing as long as the exponent can be packed
(`Within.repack`).
-/

namespace Strata

namespace Binary64

open Float.Model UnpackedFloat

/-! ### Mantissas -/

/-- All bits of a mantissa are in use. -/
def Full (m : Nat) : Prop := 2 ^ 52 ≤ m ∧ m < 2 ^ 53

theorem Full.pos {m : Nat} (h : Full m) : 0 < m := Nat.lt_of_lt_of_le (by decide) h.1

theorem Full.log2 {m : Nat} (h : Full m) : m.log2 = 52 := (Nat.log2_eq_iff h.pos.ne').mpr h

theorem full_div {m : Nat} (h : 2 ^ 52 ≤ m) : Full (m / 2 ^ (m.log2 - 52)) := by
  have hm : m ≠ 0 := by omega
  have hlog : 52 ≤ m.log2 := (Nat.le_log2 hm).mpr h
  have hsplit : 2 ^ m.log2 = 2 ^ 52 * 2 ^ (m.log2 - 52) := by rw [← pow_add, Nat.add_sub_cancel' hlog]
  have hlow := Nat.log2_self_le hm
  have hhigh := Nat.lt_log2_self (n := m)
  rw [pow_succ, hsplit] at hhigh
  rw [hsplit] at hlow
  refine ⟨(Nat.le_div_iff_mul_le (Nat.two_pow_pos _)).mpr hlow, (Nat.div_lt_iff_lt_mul (Nat.two_pow_pos _)).mpr ?_⟩
  omega

theorem log2_mul_two_pow {m : Nat} (hm : 0 < m) (i : Nat) : (m * 2 ^ i).log2 = m.log2 + i := by
  rw [Nat.log2_eq_iff (Nat.mul_pos hm (Nat.two_pow_pos i)).ne', pow_add, Nat.add_right_comm, pow_add _ _ i]
  exact ⟨Nat.mul_le_mul_right _ (Nat.log2_self_le hm.ne'),
    Nat.mul_lt_mul_of_pos_right Nat.lt_log2_self (Nat.two_pow_pos i)⟩

/-! ### Rounding -/

/-- Between the bounds, a float has a full mantissa. -/
inductive Within (s : Sign) (low high : Int) : UnpackedFloat → Prop
  | finite {m : Nat} {e : Int} (hfull : Full m) (hlow : low ≤ e) (hhigh : e ≤ high) :
      Within s low high (.finite s m e hfull.pos)

theorem targetExponent_eq {m : Nat} {e : Int} (h : -1022 ≤ m.log2 + e) :
    Format.binary64.targetExponent (totalExponent m e) = m.log2 + e - 52 := by
  have hleast : Format.binary64.minExponent = -1074 := rfl
  have hbits : Format.binary64.mantissaBits = 53 := rfl
  unfold Format.targetExponent totalExponent
  rw [hleast, hbits]
  omega

theorem mantissa_shiftRight (m : ExtendedMantissa) (n : Nat) : (m >>> n).mantissa = m.mantissa / 2 ^ n := by
  show (Nat.repeat ExtendedMantissa.shiftRightOne n m).mantissa = _
  induction n with
  | zero => exact (Nat.div_one _).symm
  | succ n ih =>
    rw [pow_succ, ← Nat.div_div_eq_div_mul, ← ih]
    rfl

theorem roundedMantissa_cases (m : ExtendedMantissa) :
    m.roundedMantissa = m.mantissa ∨ m.roundedMantissa = m.mantissa + 1 := by
  rcases m with ⟨m, _ | _, _ | _⟩
  · exact .inl rfl
  · exact .inl rfl
  · show m + m % 2 = m ∨ m + m % 2 = m + 1
    omega
  · exact .inr rfl

/-- A shift to the target exponent leaves as many bits as a mantissa holds. -/
theorem shiftToTargetExponent_full {m : Nat} {e : Int} (hm : 2 ^ 52 ≤ m) (h : -1022 ≤ m.log2 + e) :
    Full (shiftToTargetExponent .binary64 m e .exact).1.mantissa ∧
      (shiftToTargetExponent .binary64 m e .exact).2 = m.log2 + e - 52 := by
  have hlog : 52 ≤ m.log2 := (Nat.le_log2 (by omega)).mpr hm
  have hshift : (m.log2 + e - 52 - e).toNat = m.log2 - 52 := by omega
  unfold shiftToTargetExponent shiftToExponent
  dsimp only
  rw [targetExponent_eq h, hshift, mantissa_shiftRight]
  exact ⟨full_div hm, by omega⟩

theorem roundWithAccuracy_within (s : Sign) {m : Nat} {e : Int} (hm : 2 ^ 52 ≤ m) (h : -1022 ≤ m.log2 + e) :
    Within s (m.log2 + e - 52) (m.log2 + e - 51) (roundWithAccuracy .binary64 s m e .exact) := by
  obtain ⟨hfull, hexponent⟩ := shiftToTargetExponent_full hm h
  unfold roundWithAccuracy
  generalize shiftToTargetExponent .binary64 m e .exact = first at hfull hexponent
  obtain ⟨shifted, e'⟩ := first
  dsimp only at hfull hexponent ⊢
  -- Rounded up, a mantissa can have one bit too many.
  have hrounded : 2 ^ 52 ≤ shifted.roundedMantissa ∧ shifted.roundedMantissa ≤ 2 ^ 53 := by
    have hcases := roundedMantissa_cases shifted
    unfold Full at hfull
    omega
  have hlow : 52 ≤ shifted.roundedMantissa.log2 := (Nat.le_log2 (by omega)).mpr hrounded.1
  have hhigh : shifted.roundedMantissa.log2 < 54 := (Nat.log2_lt (by omega)).mpr (by omega)
  obtain ⟨hfull', hexponent'⟩ := shiftToTargetExponent_full (m := shifted.roundedMantissa)
      (e := e') hrounded.1 (by omega)
  rw [dif_neg hfull'.pos.ne']
  exact .finite hfull' (by omega) (by omega)

theorem round_within (s : Sign) {m : Nat} {e : Int} (hm : 0 < m) (h : -1022 ≤ m.log2 + e) :
    Within s (m.log2 + e - 52) (m.log2 + e - 51) (UnpackedFloat.round .binary64 s m e) := by
  have hshift : (e - (m.log2 + e - 52)).toNat = 52 - m.log2 := by omega
  have hlog := log2_mul_two_pow hm (52 - m.log2)
  have hfilled : 2 ^ 52 ≤ m * 2 ^ (52 - m.log2) := (Nat.le_log2 (by positivity)).mp (by omega)
  have hrounded := roundWithAccuracy_within s hfilled (e := e - (52 - m.log2 : Nat)) (by omega)
  rw [hlog] at hrounded
  unfold UnpackedFloat.round decreaseExponent
  dsimp only
  rw [targetExponent_eq h, hshift, Nat.shiftLeft_eq]
  convert hrounded using 1 <;> omega

/-! ### Signs -/

theorem apply_neg (s : Sign) (n : Int) : (-s).apply n = -s.apply n := by
  cases s with
  | positive => rfl
  | negative => exact (neg_neg n).symm

theorem natAbs_apply (s : Sign) (k : Nat) : (s.apply k).natAbs = k := by
  cases s <;> simp [Sign.apply]

theorem exists_apply {n : Int} (hn : n ≠ 0) : ∃ (s : Sign) (k : Nat), 0 < k ∧ n = s.apply k := by
  rcases Int.lt_or_gt_of_ne hn with h | h
  · exact ⟨.negative, n.natAbs, by omega, by show n = -(n.natAbs : Int); omega⟩
  · exact ⟨.positive, n.natAbs, by omega, by show n = (n.natAbs : Int); omega⟩

theorem apply_inj {s s' : Sign} {k k' : Nat} (hk : 0 < k) (h : s.apply k = s'.apply k') : s = s' ∧ k = k' := by
  have hsame := congrArg Int.natAbs h
  rw [natAbs_apply, natAbs_apply] at hsame
  subst hsame
  cases s <;> cases s' <;> simp [Sign.apply] at h ⊢ <;> omega

theorem apply_mul_pow (s : Sign) (k i : Nat) : s.apply (k * 2 ^ i : Nat) = s.apply k * 2 ^ i := by
  cases s <;> simp [Sign.apply]

theorem normalize_apply (s : Sign) {k : Nat} (hk : 0 < k) (e : Int) (s' : Sign) :
    UnpackedFloat.normalize .binary64 (s.apply k) e s' = UnpackedFloat.round .binary64 s k e := by
  unfold UnpackedFloat.normalize
  cases s with
  | positive =>
    rw [Int.compare_eq_gt.mpr (by exact Int.natCast_pos.mpr hk)]
    rfl
  | negative =>
    rw [Int.compare_eq_lt.mpr (by show -(k : Int) < 0; omega)]
    show UnpackedFloat.round .binary64 .negative (- -(k : Int)).toNat e = _
    rw [neg_neg, Int.toNat_natCast]

/-! ### Packing -/

theorem toNat_one_append (v : BitVec 52) : (1#1 ++ v).toNat = 2 ^ 52 + v.toNat := by
  rw [BitVec.toNat_append]
  exact (Nat.two_pow_add_eq_or_of_lt v.isLt 1).symm

namespace Within

variable {s : Sign} {low high : Int} {u : UnpackedFloat}

theorem mono (h : Within s low high u) {low' high' : Int} (hlow : low' ≤ low) (hhigh : high ≤ high') :
    Within s low' high' u := by
  cases h with
  | finite hfull hlow' hhigh' => exact .finite hfull (hlow.trans hlow') (hhigh'.trans hhigh)

theorem repack (h : Within s (-1074) 971 u) : repack u = u := by
  cases h with
  | @finite m e hfull hlow hhigh =>
    obtain ⟨n, rfl⟩ : ∃ n : Nat, e = n - 1075 := ⟨(e + 1075).toNat, by omega⟩
    have hbiased : ((n : Int) - 1075 + (Format.binary64.exponentBias : Nat) + (52 : Nat)).toNat = n := by
      show ((n : Int) - 1075 + 1023 + 52).toNat = n
      omega
    have hexponent : (BitVec.ofNat 11 n).toNat = n := by rw [BitVec.toNat_ofNat, Nat.mod_eq_of_lt (by omega)]
    unfold Binary64.repack UnpackedFloat.pack
    dsimp only
    rw [hbiased, hfull.log2, if_neg (by omega), if_pos (show 52 + 1 = Format.binary64.mantissaBits from rfl)]
    unfold UnpackedFloat.unpack
    simp only [unpackExponent_packComponents, unpackMantissa_packComponents, unpackSign_packComponents,
      Sign.ofBitVec_toBitVec]
    -- The exponent is neither that of an infinity nor that of a mantissa that is not full.
    rw [if_neg fun hmost => ?_, if_neg fun hleast => ?_]
    · congr 1
      · rw [toNat_one_append, BitVec.toNat_ofNat]
        unfold Full at hfull
        omega
      · rw [hexponent]
        show (n : Int) - (1023 + 52) = n - 1075
        omega
    · have hzero : n = 0 := hexponent.symm.trans (congrArg BitVec.toNat hleast)
      omega
    · have hones : n = 2047 := hexponent.symm.trans (congrArg BitVec.toNat hmost)
      omega

theorem isNaN (h : Within s low high u) : u.isNaN = false := by
  cases h
  rfl

theorem not_upper (h : Within .negative low high u) : upper u = false := by
  cases h
  rfl

end Within

end Binary64

end Strata
