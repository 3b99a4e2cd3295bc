import Strata.Proofs.Color.Ratios

/-!
# Rounding

To every number belongs one integer that is nearest, a tie going to the even one (`Nearest.le_of_le`,
`Nearest.unique`), and rounding answers it (`roundHalfEven_nearest`). So rounding is monotone, odd and keeps
integers, and quantizing answers the integer nearest to a share of the maximum (`quantize_nearest`).
-/

namespace Strata

open Channel.Exact (number)

/-! ## The nearest integer -/

section
variable {K : Type} [Field K] [LinearOrder K]

/-- No integer is nearer, and of two equally near ones it is the even one. -/
structure Nearest (x : K) (n : Int) : Prop where
  near : |x - n| ≤ 1 / 2
  even : |x - n| = 1 / 2 → Even n

namespace Nearest

variable [IsStrictOrderedRing K] {x y : K} {m n : Int}

theorem intCast (n : Int) : Nearest (n : K) n where
  near := by simp
  even h := by simp at h

omit [IsStrictOrderedRing K] in
theorem neg (h : Nearest x n) : Nearest (-x) (-n) := by
  have hsame : |-x - ((-n : Int) : K)| = |x - n| := by
    push_cast
    rw [neg_sub_neg, abs_sub_comm]
  exact ⟨hsame ▸ h.near, fun htie => (h.even (hsame ▸ htie)).neg⟩

theorem le_of_le (hx : Nearest x m) (hy : Nearest y n) (h : x ≤ y) : m ≤ n := by
  by_contra hlt
  have hstep : (n : K) + 1 ≤ m := by exact_mod_cast not_le.mp hlt
  have hlow := (abs_le.mp hx.near).1
  have hhigh := (abs_le.mp hy.near).2
  -- Nothing is left between both numbers, so both are ties.
  have hm : x - m = -(1 / 2) := by linarith
  have hn : y - n = 1 / 2 := by linarith
  have hnext : m = n + 1 := by
    have hcast : (m : K) = n + 1 := by linarith
    exact_mod_cast hcast
  have heven := hx.even (by rw [hm, abs_neg, abs_of_pos one_half_pos])
  have hodd := (hy.even (by rw [hn, abs_of_pos one_half_pos])).add_one
  exact Int.not_even_iff_odd.mpr (hnext ▸ hodd) heven

theorem unique (hm : Nearest x m) (hn : Nearest x n) : m = n :=
  le_antisymm (hm.le_of_le hn le_rfl) (hn.le_of_le hm le_rfl)

end Nearest

end

/-! ## Rounding channels -/

class Channel.Floored (α : Type) [Channel α] (K : Type) [Field K] [LinearOrder K] [IsStrictOrderedRing K]
    [Channel.Exact α K] [FloorRing K] : Prop where
  floor (x : K) : Channel.floor (number x : α) = number (⌊x⌋ : K)

instance : Channel.Floored Ratio Rat := ⟨fun _ => rfl⟩

section
variable {α : Type} [Channel α] {K : Type} [Field K] [LinearOrder K] [IsStrictOrderedRing K]
  [Channel.Exact α K] [FloorRing K] [Channel.Floored α K]

theorem isEven_number (n : Int) : isEven (number (n : K) : α) = decide (Even n) := by
  have hdouble : 2 * (⌊(n : K) / 2⌋ : K) = n ↔ Even n := by
    constructor
    · intro h
      have hint : 2 * ⌊(n : K) / 2⌋ = n := by exact_mod_cast h
      exact ⟨_, by rw [← two_mul, hint]⟩
    · rintro ⟨m, rfl⟩
      have hhalf : ((m + m : Int) : K) / 2 = m := by
        push_cast
        ring
      rw [hhalf, Int.floor_intCast]
      push_cast
      ring
  unfold isEven
  dsimp only
  rw [two_number (K := K), Channel.Exact.div _ _ two_ne_zero, Channel.Floored.floor, Channel.Exact.mul]
  simp only [Channel.Exact.le]
  rw [← Bool.decide_and, decide_eq_decide, ← le_antisymm_iff, hdouble]

/-- Rounding a number answers the integer nearest to it. -/
theorem roundHalfEven_nearest (x : K) : ∃ n : Int, Nearest x n ∧ roundHalfEven (number x : α) = number (n : K) := by
  have hhalf : (1 : α) / Channel.ofNat 2 = number (1 / 2 : K) := by
    rw [two_number (K := K), ← Channel.Exact.one (K := K), Channel.Exact.div _ _ two_ne_zero]
  have hnext : (number (⌊x⌋ : K) : α) + 1 = number ((⌊x⌋ + 1 : Int) : K) := by
    rw [← Channel.Exact.one (K := K), Channel.Exact.add, Int.cast_add, Int.cast_one]
  have hlow : x - ⌊x⌋ = Int.fract x := Int.self_sub_floor x
  have hhigh : x - (⌊x⌋ + 1 : Int) = -(1 - Int.fract x) := by
    push_cast
    linarith
  have hnonneg := Int.fract_nonneg x
  have hlt := Int.fract_lt_one x
  have hup : 0 < 1 - Int.fract x := sub_pos.mpr hlt
  unfold roundHalfEven
  dsimp only
  rw [Channel.Floored.floor, Channel.Exact.sub, hhalf, hlow, hnext, isEven_number]
  simp only [Channel.Exact.lt]
  by_cases habove : 1 / 2 < Int.fract x
  · refine ⟨⌊x⌋ + 1, ⟨?_, fun htie => ?_⟩, if_pos habove⟩
    · rw [hhigh, abs_neg, abs_of_pos hup]
      linarith
    · rw [hhigh, abs_neg, abs_of_pos hup] at htie
      linarith
  · rw [if_neg habove]
    by_cases hbelow : Int.fract x < 1 / 2
    · refine ⟨⌊x⌋, ⟨?_, fun htie => ?_⟩, if_pos hbelow⟩
      · rw [hlow, abs_of_nonneg hnonneg]
        exact hbelow.le
      · rw [hlow, abs_of_nonneg hnonneg] at htie
        exact absurd htie hbelow.ne
    · have htie : Int.fract x = 1 / 2 := le_antisymm (not_lt.mp habove) (not_lt.mp hbelow)
      rw [if_neg hbelow]
      by_cases heven : Even ⌊x⌋
      · refine ⟨⌊x⌋, ⟨?_, fun _ => heven⟩, if_pos (decide_eq_true heven)⟩
        rw [hlow, htie, abs_of_pos one_half_pos]
      · refine ⟨⌊x⌋ + 1, ⟨?_, fun _ => (Int.not_even_iff_odd.mp heven).add_one⟩, if_neg (by simpa using heven)⟩
        rw [hhigh, abs_neg, abs_of_pos hup, htie]
        linarith

theorem roundHalfEven_of_nearest {x : K} {n : Int} (h : Nearest x n) :
    roundHalfEven (number x : α) = number (n : K) := by
  obtain ⟨m, hm, hround⟩ := roundHalfEven_nearest (α := α) x
  rw [hround, hm.unique h]

end

/-! ## Quantizing -/

section
variable {α : Type} [Channel α] (K : Type) [Field K] [LinearOrder K] [IsStrictOrderedRing K] [Channel.Exact α K]
include K

theorem clampUnit_eq (x : K) : clampUnit (number x : α) = number (max 0 (min x 1)) := by
  unfold clampUnit
  simp only [number_pos, number_lt_one]
  split
  · rename_i hpos
    split
    · rename_i hlt
      rw [min_eq_left hlt.le, max_eq_right hpos.le]
    · rename_i hge
      rw [min_eq_right (not_lt.mp hge), max_eq_right zero_le_one, Channel.Exact.one]
  · rename_i hneg
    rw [max_eq_left ((min_le_left x 1).trans (not_lt.mp hneg)), Channel.Exact.zero]

variable [FloorRing K] [Channel.Floored α K]

theorem quantizeTo_of_nearest {c : α} {x : K} (hx : number x = clampUnit c) {maximum : Nat} {n : Int}
    (h : Nearest (x * maximum) n) : quantizeTo (Channel.ofNat maximum) c = number (n : K) := by
  unfold quantizeTo
  rw [← hx, Channel.Exact.ofNat (K := K), Channel.Exact.mul]
  exact roundHalfEven_of_nearest h

/-- The nearest integer to a share of a maximum is at most the maximum. -/
theorem exists_quantizeTo (maximum : Nat) (c : α) : ∃ x : K, clampUnit c = number x ∧
    ∃ k ≤ maximum, quantizeTo (Channel.ofNat maximum) c = Channel.ofNat k ∧ Nearest (x * maximum) (k : Int) := by
  obtain ⟨x, hunit, hx⟩ := (inUnit_clampUnit K c).exists_number K
  obtain ⟨n, hn, -⟩ := roundHalfEven_nearest (α := α) (x * maximum)
  have hscale : (0 : K) ≤ maximum := Nat.cast_nonneg _
  have hzero : Nearest (0 : K) 0 := by simpa using Nearest.intCast (K := K) 0
  have hmost : Nearest (maximum : K) maximum := by simpa using Nearest.intCast (K := K) maximum
  have hnonneg := hzero.le_of_le hn (mul_nonneg hunit.nonneg hscale)
  have hle := hn.le_of_le hmost (mul_le_of_le_one_left hscale hunit.le_one)
  obtain ⟨k, rfl⟩ := Int.eq_ofNat_of_zero_le hnonneg
  refine ⟨x, hx.symm, k, by exact_mod_cast hle, ?_, hn⟩
  rw [quantizeTo_of_nearest K hx hn, Channel.Exact.ofNat (K := K), Int.cast_natCast]

theorem quantizeTo_mono (maximum : Nat) {v w : K} (h : v ≤ w) :
    quantizeTo (Channel.ofNat maximum) (number v : α) ≤ quantizeTo (Channel.ofNat maximum) (number w) := by
  obtain ⟨n, hn, -⟩ := roundHalfEven_nearest (α := α) (max 0 (min v 1) * maximum)
  obtain ⟨m, hm, -⟩ := roundHalfEven_nearest (α := α) (max 0 (min w 1) * maximum)
  rw [quantizeTo_of_nearest K (clampUnit_eq K v).symm hn, quantizeTo_of_nearest K (clampUnit_eq K w).symm hm,
    Channel.Exact.le]
  have hclamp : max 0 (min v 1) ≤ max 0 (min w 1) := max_le_max le_rfl (min_le_min h le_rfl)
  exact_mod_cast hn.le_of_le hm (mul_le_mul_of_nonneg_right hclamp (Nat.cast_nonneg _))

theorem quantizeTo_share {maximum k : Nat} (hpos : 1 ≤ maximum) (hk : k ≤ maximum) :
    quantizeTo (Channel.ofNat maximum) (Channel.ofNat k / Channel.ofNat maximum : α) = Channel.ofNat k := by
  have hmaximum : (0 : K) < maximum := by exact_mod_cast hpos
  have hshare : (Channel.ofNat k / Channel.ofNat maximum : α) = number ((k : K) / maximum) := by
    rw [Channel.Exact.ofNat (K := K), Channel.Exact.ofNat (K := K), Channel.Exact.div _ _ hmaximum.ne']
  have hunit : InUnit ((k : K) / maximum) :=
    ⟨div_nonneg (Nat.cast_nonneg _) hmaximum.le, (div_le_one hmaximum).mpr (by exact_mod_cast hk)⟩
  have hnearest : Nearest ((k : K) / maximum * maximum) k := by
    rw [div_mul_cancel₀ _ hmaximum.ne']
    simpa using Nearest.intCast (K := K) k
  rw [hshare, quantizeTo_of_nearest K (clampUnit_number hunit).symm hnearest, Channel.Exact.ofNat (K := K),
    Int.cast_natCast]

theorem roundHalfEven_neg (x : K) : roundHalfEven (number (-x) : α) = 0 - roundHalfEven (number x) := by
  obtain ⟨n, hn, hround⟩ := roundHalfEven_nearest (α := α) x
  rw [hround, roundHalfEven_of_nearest hn.neg, ← Channel.Exact.zero (K := K), Channel.Exact.sub,
    zero_sub, Int.cast_neg]

/-- Quantizing answers the integer nearest to a share of the maximum, a tie going to the even one, and never one
beyond the maximum. It is monotone and keeps whole shares; rounding treats both signs alike. -/
theorem quantize_nearest {bits : Nat} (hbits : 1 ≤ bits) :
    (∀ c : α, ∃ x : K, clampUnit c = number x ∧ ∃ k ≤ 2 ^ bits - 1, quantize c bits = Channel.ofNat k ∧
      |x * (2 ^ bits - 1 : Nat) - k| ≤ 1 / 2 ∧ (|x * (2 ^ bits - 1 : Nat) - k| = 1 / 2 → Even k)) ∧
    (∀ v w : K, v ≤ w → quantize (number v : α) bits ≤ quantize (number w) bits) ∧
    (∀ k ≤ 2 ^ bits - 1, quantize (Channel.ofNat k / Channel.ofNat (2 ^ bits - 1) : α) bits = Channel.ofNat k) ∧
    ∀ v : K, roundHalfEven (number (-v) : α) = 0 - roundHalfEven (number v) := by
  have hmaximum : 1 ≤ 2 ^ bits - 1 := Nat.le_sub_one_of_lt (Nat.one_lt_two_pow (Nat.one_le_iff_ne_zero.mp hbits))
  refine ⟨fun c => ?_, fun v w => quantizeTo_mono K _, fun k => quantizeTo_share K hmaximum, roundHalfEven_neg K⟩
  obtain ⟨x, hx, k, hk, hquantize, hnear, heven⟩ := exists_quantizeTo K (2 ^ bits - 1) c
  rw [Int.cast_natCast] at hnear heven
  exact ⟨x, hx, k, hk, hquantize, hnear, fun htie => by exact_mod_cast heven htie⟩

end

theorem quantize_nearest_byte : 1 ≤ 8 ∧
    (∃ x : Rat, clampUnit (Ratio.of (1 / 2)) = .of x ∧ ∃ k ≤ 255, quantize (Ratio.of (1 / 2)) 8 = Channel.ofNat k ∧
      |x * 255 - k| ≤ 1 / 2 ∧ (|x * 255 - k| = 1 / 2 → Even k)) ∧
    ((1 / 4 : Rat) ≤ 1 / 3 ∧ quantize (Ratio.of (1 / 4)) 8 ≤ quantize (Ratio.of (1 / 3)) 8) ∧
    (77 ≤ 255 ∧ quantize (Channel.ofNat 77 / Channel.ofNat 255 : Ratio) 8 = Channel.ofNat 77) ∧
    roundHalfEven (Ratio.of (-(5 / 2))) = 0 - roundHalfEven (Ratio.of (5 / 2)) := by
  have hbits : 1 ≤ 8 := by decide
  have hle : (1 / 4 : Rat) ≤ 1 / 3 := by decide +kernel
  obtain ⟨hnear, hmono, hshare, hneg⟩ := quantize_nearest (α := Ratio) Rat hbits
  exact ⟨hbits, hnear (.of (1 / 2)), ⟨hle, hmono _ _ hle⟩, ⟨by decide, hshare 77 (by decide)⟩, hneg (5 / 2)⟩

/-- Ties to either side. -/
example : [1 / 2, 3 / 2, -(1 / 2), -(3 / 2)].map (fun x => roundHalfEven (Ratio.of x)) =
    [.of 0, .of 2, .of 0, .of (-2)] := by
  decide +kernel

end Strata
