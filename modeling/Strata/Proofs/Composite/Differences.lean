import Strata.Composite.Comparison
import Strata.Proofs.Color.Floats

/-!
# Differences

A comparison takes note of one difference after the other: it counts those above the tolerance and keeps the
greatest of those that are numbers (`Noted`). What is not a number is above nothing, so it is not counted
(`compare_misses_undefined`). Where all differences are numbers, the report shows each of them (`Reveals`,
`compare_reveals`).
-/

namespace Strata

namespace Raster

open Channel (IsNumber IsFinite)

/-! ## Taking note -/

section
variable {α : Type} [Channel α]

/-- A comparison accounts for these differences. -/
structure Noted (tolerance : α) (differences : List α) (c : Comparison α) : Prop where
  count : c.mismatched = differences.countP fun d => decide (tolerance < d)
  number : IsNumber c.maxDifference
  reached : c.maxDifference = 0 ∨ c.maxDifference ∈ differences
  bounds : ∀ d ∈ differences, IsNumber d → d ≤ c.maxDifference

variable {tolerance : α} {differences : List α} {c : Comparison α}

theorem Noted.nil (h : IsNumber (0 : α)) : Noted tolerance [] ⟨0, 0⟩ := ⟨rfl, h, .inl rfl, fun _ hd => nomatch hd⟩

variable [Channel.Comparable α]

theorem Noted.note (h : Noted tolerance differences c) (d : α) :
    Noted tolerance (differences ++ [d]) (note tolerance c d) where
  count := by
    rw [List.countP_append, ← h.count, List.countP_singleton]
    unfold Raster.note
    by_cases hd : tolerance < d
    · simp [hd]
    · simp [hd]
  number := by
    unfold Raster.note
    dsimp only
    split
    · rename_i hlt
      exact (Channel.Comparable.numbers (Channel.Comparable.le_of_lt hlt)).2
    · exact h.number
  reached := by
    unfold Raster.note
    dsimp only
    split
    · exact .inr (List.mem_append_right _ (List.mem_singleton_self d))
    · exact h.reached.imp_right (List.mem_append_left _)
  bounds := by
    intro x hx hnumber
    unfold Raster.note
    dsimp only
    rcases List.mem_append.mp hx with hx | hx
    · have hle := h.bounds x hx hnumber
      split
      · rename_i hlt
        exact Channel.Comparable.trans hle (Channel.Comparable.le_of_lt hlt)
      · exact hle
    · obtain rfl := List.mem_singleton.mp hx
      split
      · exact hnumber
      · rename_i hnot
        exact Channel.Comparable.le_of_not_lt h.number hnumber hnot

theorem Noted.foldl (h : Noted tolerance differences c) (ds : List α) :
    Noted tolerance (differences ++ ds) (ds.foldl (Raster.note tolerance) c) := by
  induction ds generalizing differences c with
  | nil => simpa using h
  | cons d ds ih => simpa using ih (h.note d)

/-- A greatest difference within the tolerance leaves nothing to count. -/
theorem Noted.within_iff (h : Noted tolerance differences c) (htolerance : 0 ≤ tolerance) :
    c.within = true ↔ c.maxDifference ≤ tolerance := by
  have hnumber := (Channel.Comparable.numbers htolerance).2
  unfold Comparison.within
  rw [beq_iff_eq, h.count, List.countP_eq_zero]
  constructor
  · intro hnone
    rcases h.reached with hzero | hmem
    · rwa [hzero]
    · exact Channel.Comparable.le_of_not_lt hnumber h.number fun hlt => hnone _ hmem (decide_eq_true hlt)
  · intro hle d hd hcount
    have hlt : tolerance < d := of_decide_eq_true hcount
    have hd : d ≤ c.maxDifference := h.bounds d hd (Channel.Comparable.numbers (Channel.Comparable.le_of_lt hlt)).2
    exact Channel.Comparable.not_le_of_lt hlt (Channel.Comparable.trans hd hle)

/-- What is not within the tolerance is counted, unless it is not a number. -/
theorem Noted.missed (h : Noted tolerance differences c) (htolerance : IsNumber tolerance) :
    (differences.countP fun d => !decide (d ≤ tolerance)) = c.mismatched + differences.countP Channel.isNaN := by
  rw [h.count]
  clear h
  induction differences with
  | nil => rfl
  | cons d ds ih =>
    -- What is not within the tolerance is above it or is not a number, and never both.
    have hone : (if !decide (d ≤ tolerance) then 1 else 0) =
        (if decide (tolerance < d) then 1 else 0) + if Channel.isNaN d then 1 else 0 := by
      unfold Channel.isNaN
      by_cases hd : d ≤ d
      · by_cases hle : d ≤ tolerance
        · have hnot : ¬tolerance < d := fun hlt => Channel.Comparable.not_le_of_lt hlt hle
          simp [hd, hle, hnot]
        · have hlt : tolerance < d := by
            by_contra hnot
            exact hle (Channel.Comparable.le_of_not_lt htolerance hd hnot)
          simp [hd, hle, hlt]
      · have hle : ¬d ≤ tolerance := fun hle => hd (Channel.Comparable.numbers hle).1
        have hnot : ¬tolerance < d := fun hlt => hd (Channel.Comparable.numbers (Channel.Comparable.le_of_lt hlt)).2
        simp [hd, hle, hnot]
    rw [List.countP_cons, List.countP_cons, List.countP_cons, ih, hone]
    omega

end

/-! ## Differences of channels -/

section
variable {ν α : Type} [Channel α] {a b : Raster ν α}

theorem compare_noted [Measure ν] [Channel.Comparable α] {tolerance : Option α}
    (hsame : (a.width == b.width && a.height == b.height && a.format == b.format) = true)
    (hzero : IsNumber (0 : α)) :
    ∃ c, compare a b tolerance = .ok c ∧ Noted (tolerance.getD 1)
    ((List.range a.texels.size).map (difference a b)) c :=
  ⟨_, if_pos hsame, by simpa using (Noted.nil hzero).foldl ((List.range a.texels.size).map (difference a b))⟩

variable [Channel.Subtractive α]

theorem exists_stepScale (format : PixelFormat) :
    ∃ n, 0 < n ∧ n < 256 ∧ (stepScale format : α) = Channel.ofNat n := by
  cases format with
  | float32 => exact ⟨255, by decide, by decide, rfl⟩
  | srgb8 | unorm8 => exact ⟨1, by decide, by decide, Channel.Subtractive.ofNat_one.symm⟩

theorem difference_comm (hformat : a.format = b.format) (i : Nat) : difference a b i = difference b a i := by
  unfold difference
  rw [hformat, Channel.Subtractive.magnitude_sub_comm]

theorem difference_nonneg {i : Nat} (h : IsNumber (difference a b i)) : 0 ≤ difference a b i := by
  obtain ⟨n, hpos, hlt, hscale⟩ := exists_stepScale (α := α) a.format
  unfold difference at h ⊢
  rw [hscale] at h ⊢
  have hle : (0 : α) ≤ Channel.ofNat n := Channel.Comparable.le_of_lt (Channel.Subtractive.ofNat_pos hpos hlt)
  have hnumber := Channel.Subtractive.number_of_magnitude (Channel.Subtractive.number_of_mul h)
  exact Channel.Subtractive.mul_nonneg (Channel.Subtractive.magnitude_nonneg hnumber) hle h

theorem difference_number {i : Nat} (ha : IsFinite (a.texels.value i)) (hb : IsFinite (b.texels.value i)) :
    IsNumber (difference a b i) := by
  obtain ⟨n, hpos, hlt, hscale⟩ := exists_stepScale (α := α) a.format
  have hmagnitude := Channel.Subtractive.magnitude_nonneg (Channel.Subtractive.sub_number ha hb)
  unfold difference
  rw [hscale]
  exact Channel.Subtractive.mul_number (Channel.Comparable.numbers hmagnitude).2
    (Channel.Subtractive.ofNat_pos hpos hlt)
    (Channel.Subtractive.ofNat_finite hlt)

theorem value_finite {texels : Texels α} (h : texels.format ≠ .float32) (i : Nat) : IsFinite (texels.value i) := by
  cases texels with
  | srgb8 bytes | unorm8 bytes => exact Channel.Subtractive.ofNat_finite (UInt8.toNat_lt _)
  | float32 values => exact absurd rfl h

end

/-! ## What a comparison shows -/

/-- The report shows every difference: it counts those that are not within the tolerance, and none is greater than
its greatest. -/
structure Reveals {ν α : Type} [Channel α] (a b : Raster ν α) (tolerance : α) (c : Comparison α) : Prop where
  within_iff : c.within = true ↔ ∀ i < a.texels.size, difference a b i ≤ tolerance
  counted : c.mismatched = (List.range a.texels.size).countP fun i => !decide (difference a b i ≤ tolerance)
  bounds : ∀ i < a.texels.size, difference a b i ≤ c.maxDifference
  reached : 0 < a.texels.size → ∃ i < a.texels.size, c.maxDifference ≤ difference a b i

section
variable {ν α : Type} [Channel α] [Channel.Subtractive α] {a b : Raster ν α} {tolerance : α} {c : Comparison α}

theorem Noted.reveals (h : Noted tolerance ((List.range a.texels.size).map (difference a b)) c)
    (htolerance : IsNumber tolerance)
    (hnumbers : ∀ i < a.texels.size, IsNumber (difference a b i)) : Reveals a b tolerance c := by
  have hmem {i : Nat} (hi : i < a.texels.size) :
      difference a b i ∈ (List.range a.texels.size).map (difference a b) :=
    List.mem_map_of_mem (List.mem_range.mpr hi)
  have hcounted : c.mismatched = (List.range a.texels.size).countP fun i =>
      !decide (difference a b i ≤ tolerance) := by
    have hnone : ((List.range a.texels.size).map (difference a b)).countP Channel.isNaN = 0 := by
      rw [List.countP_eq_zero]
      intro d hd hnan
      obtain ⟨i, hi, rfl⟩ := List.mem_map.mp hd
      have hnumber : difference a b i ≤ difference a b i := hnumbers i (List.mem_range.mp hi)
      simp [Channel.isNaN, hnumber] at hnan
    have hmissed := h.missed htolerance
    rw [hnone, Nat.add_zero, List.countP_map] at hmissed
    exact hmissed.symm
  refine ⟨?_, hcounted, fun i hi => h.bounds _ (hmem hi) (hnumbers i hi), fun hpos => ?_⟩
  · unfold Comparison.within
    rw [beq_iff_eq, hcounted, List.countP_eq_zero]
    simp
  · rcases h.reached with hzero | hreached
    · exact ⟨0, hpos, hzero ▸ difference_nonneg (hnumbers 0 hpos)⟩
    · obtain ⟨i, hi, heq⟩ := List.mem_map.mp hreached
      exact ⟨i, List.mem_range.mp hi, heq ▸ h.number⟩

end

/-- Two rasters of one shape are compared alike both ways, and the report is within the tolerance as its greatest
difference is. What it does not count of the differences that are not within the tolerance are those that are not
numbers; where there are none, the report shows every difference. Bytes, and floats that are finite, have
differences that are numbers. -/
theorem compare_reveals {α : Type} [Channel α] [Channel.Subtractive α] (a b : Raster Int α) (tolerance : Option α)
    (hwidth : a.width = b.width) (hheight : a.height = b.height) (hformat : a.format = b.format)
    (ha : (a.texels.size : Int) = a.width * a.height * 4) (hb : (b.texels.size : Int) = b.width * b.height * 4)
    (htolerance : 0 ≤ tolerance.getD 1) :
    ∃ c, compare a b tolerance = .ok c ∧ compare b a tolerance = .ok c ∧
      (c.within = true ↔ c.maxDifference ≤ tolerance.getD 1) ∧
      ((List.range a.texels.size).countP fun i => !decide (difference a b i ≤ tolerance.getD 1)) =
        c.mismatched + (List.range a.texels.size).countP (fun i => Channel.isNaN (difference a b i)) ∧
      ((∀ i < a.texels.size, IsNumber (difference a b i)) → Reveals a b (tolerance.getD 1) c) ∧
      ∀ i, a.format ≠ .float32 ∨ IsFinite (a.texels.value i) ∧ IsFinite (b.texels.value i) →
      IsNumber (difference a b i) := by
  obtain ⟨hzero, hnumber⟩ := Channel.Comparable.numbers htolerance
  have hsize : a.texels.size = b.texels.size := by
    rw [hwidth, hheight, ← hb] at ha
    exact_mod_cast ha
  have hsame : (a.width == b.width && a.height == b.height && a.format == b.format) = true := by
    simp [hwidth, hheight, hformat]
  obtain ⟨c, hc, hnoted⟩ := compare_noted hsame hzero
  refine ⟨c, hc, ?_, hnoted.within_iff htolerance, ?_, hnoted.reveals hnumber, ?_⟩
  · have hswap : difference b a = difference a b := funext fun i => difference_comm hformat.symm i
    rw [← hc]
    unfold compare
    simp [hwidth, hheight, hformat, hsize, hswap]
  · have hmissed := hnoted.missed hnumber
    rwa [List.countP_map, List.countP_map] at hmissed
  · rintro i (hbytes | ⟨hfirst, hsecond⟩)
    · have hbytes' : b.format ≠ .float32 := hformat ▸ hbytes
      exact difference_number (value_finite hbytes i) (value_finite hbytes' i)
    · exact difference_number hfirst hsecond

theorem compare_reveals_bytes :
    let a : Raster Int Float := ⟨1, 1, .unorm8 #[10, 20, 30, 40]⟩
    let b : Raster Int Float := ⟨1, 1, .unorm8 #[11, 22, 30, 40]⟩
    (a.width = b.width ∧ a.height = b.height ∧ a.format = b.format) ∧
      ((a.texels.size : Int) = a.width * a.height * 4 ∧ (b.texels.size : Int) = b.width * b.height * 4) ∧
      (0 : Float) ≤ Option.getD none 1 ∧ (∀ i, a.format ≠ .float32 ∨ IsFinite (a.texels.value i) ∧
        IsFinite (b.texels.value i)) ∧
      compare a b none = .ok ⟨2, 1⟩ ∧ compare b a none = .ok ⟨2, 1⟩ ∧ Reveals a b 1 ⟨2, 1⟩ := by
  intro a b
  have htolerance : (0 : Float) ≤ Option.getD none 1 := by decide +kernel
  have hbytes (i : Nat) : a.format ≠ .float32 ∨ IsFinite (a.texels.value i) ∧ IsFinite (b.texels.value i) :=
    .inl (by decide)
  obtain ⟨c, hab, hba, -, -, hreveals, hnumbers⟩ := compare_reveals a b none rfl rfl rfl rfl rfl htolerance
  have hc : compare a b none = .ok ⟨2, 1⟩ := by decide +kernel
  obtain rfl : ⟨2, 1⟩ = c := Except.ok.inj (hc.symm.trans hab)
  exact ⟨⟨rfl, rfl, rfl⟩, ⟨rfl, rfl⟩, htolerance, hbytes, hab, hba, hreveals fun i _ => hnumbers i (hbytes i)⟩

/-- A channel that is not a number is not seen. -/
theorem compare_misses_undefined :
    let a : Raster Int Float := ⟨1, 1, .float32 #[0 / 0, 0, 0, 1]⟩
    let b : Raster Int Float := ⟨1, 1, .float32 #[1 / 2, 0, 0, 1]⟩
    (a.width = b.width ∧ a.height = b.height ∧ a.format = b.format) ∧
      ((a.texels.size : Int) = a.width * a.height * 4 ∧ (b.texels.size : Int) = b.width * b.height * 4) ∧
        (0 : Float) ≤ 1 ∧
      compare a b (some 1) = .ok ⟨0, 0⟩ ∧ Comparison.within (⟨0, 0⟩ : Comparison Float) = true ∧
        ¬difference a b 0 ≤ 1 := by
  refine ⟨⟨rfl, rfl, rfl⟩, ⟨rfl, rfl⟩, by decide +kernel, by decide +kernel, rfl, by decide +kernel⟩

end Raster

end Strata
