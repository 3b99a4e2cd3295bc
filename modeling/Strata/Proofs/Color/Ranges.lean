import Strata.Proofs.Color.Ratios

/-!
# Blending stays in range

Every blend formula is built of weighted means, and so is what a blend makes of two channels: both stay on the unit
interval (`Blend.inUnit_formula`, `Blend.inUnit_composed`). As a blend clamps all that it is given, its channels are
on the unit interval whatever that was, and it divides by positive numbers only (`blend_keeps_range`).
-/

namespace Strata

open Channel.Exact (number)

/-! ## Formulas -/

namespace Blend

variable {K : Type} [Field K] [LinearOrder K] [IsStrictOrderedRing K] {x y b s : K}

theorem inUnit_screen (hb : InUnit b) (hs : InUnit s) : InUnit (b + s - b * s) := by
  have hmean : b + s - b * s = (1 - b) * s + b * 1 := by ring
  rw [hmean]
  exact hb.mix hs .one

theorem inUnit_hard (hb : InUnit b) (hs : InUnit s) : InUnit (hard b s) := by
  have hnonneg := hs.nonneg
  have hle := hs.le_one
  unfold hard
  split
  · exact hb.mul ⟨by linarith, by linarith⟩
  · exact inUnit_screen hb ⟨by linarith, by linarith⟩

theorem inUnit_formula (mode : BlendMode) (hb : InUnit b) (hs : InUnit s) : InUnit (formula mode b s) := by
  cases mode with
  | sourceOver => exact hs
  | multiply => exact hb.mul hs
  | screen => exact inUnit_screen hb hs
  | overlay => exact inUnit_hard hs hb
  | hardLight => exact inUnit_hard hb hs
  | darken => exact ⟨le_min hb.nonneg hs.nonneg, min_le_of_left_le hb.le_one⟩
  | lighten => exact ⟨le_max_of_le_left hb.nonneg, max_le hb.le_one hs.le_one⟩
  | difference =>
    have hb' := hb.nonneg
    have hs' := hs.nonneg
    exact ⟨abs_nonneg _, abs_le.mpr ⟨by linarith [hs.le_one], by linarith [hb.le_one]⟩⟩
  | exclusion =>
    have hmean : formula .exclusion b s = (1 - b) * s + b * (1 - s) := by
      unfold formula
      ring
    rw [hmean]
    exact hb.mix hs hs.compl

/-! ## Alpha -/

theorem inUnit_cover (hx : InUnit x) (hy : InUnit y) : InUnit (cover x y) := by
  have hmean : cover x y = (1 - y) * x + y * 1 := by
    unfold cover
    ring
  rw [hmean]
  exact hy.mix hx .one

theorem cover_eq_zero (hx : InUnit x) (hy : InUnit y) : cover x y = 0 ↔ x = 0 ∧ y = 0 := by
  constructor
  · intro h
    obtain ⟨rfl, hrest⟩ := (add_eq_zero_iff_of_nonneg hy.nonneg (mul_nonneg hx.nonneg hy.compl.nonneg)).mp h
    exact ⟨by simpa using hrest, rfl⟩
  · rintro ⟨rfl, rfl⟩
    simp [cover]

/-! ## Composited channels -/

theorem weighted_le_cover (mode : BlendMode) (hx : InUnit x) (hy : InUnit y) (hb : InUnit b) (hs : InUnit s) :
    0 ≤ weighted mode x y b s ∧ weighted mode x y b s ≤ cover x y := by
  have hmixed := hx.mix hs (inUnit_formula mode hb hs)
  have hback := hx.mul hb
  constructor
  · exact add_nonneg (mul_nonneg hy.nonneg hmixed.nonneg) (mul_nonneg hback.nonneg hy.compl.nonneg)
  · calc weighted mode x y b s ≤ y * 1 + x * (1 - y) :=
          add_le_add (mul_le_mul_of_nonneg_left hmixed.le_one hy.nonneg)
            (mul_le_mul_of_nonneg_right (mul_le_of_le_one_right hx.nonneg hb.le_one) hy.compl.nonneg)
      _ = cover x y := by unfold cover; ring

theorem inUnit_composed (mode : BlendMode) (hx : InUnit x) (hy : InUnit y) (hb : InUnit b) (hs : InUnit s) :
    InUnit (composed mode x y b s) := by
  obtain ⟨hnonneg, hle⟩ := weighted_le_cover mode hx hy hb hs
  have hcover := (inUnit_cover hx hy).nonneg
  exact ⟨div_nonneg hnonneg hcover, div_le_one_of_le₀ hle hcover⟩

end Blend

/-! ## Pixels -/

section
variable {α : Type} [Channel α] [Transfer α]

/-- One channel of a blend, under alphas `x` and `y`. -/
def Pixel.shade (mode : BlendMode) (space : ColorSpace) (x y b s : α) : α :=
  space.toLinear (compositeChannel mode x y (space.fromLinear b) (space.fromLinear s))

theorem Pixel.blend_eq (mode : BlendMode) (space : ColorSpace) (opacity : α) (p q : Pixel α) :
    blend mode space opacity p q =
      ⟨shade mode space (clampUnit p.a) (effectiveAlpha q.a opacity) p.r q.r,
        shade mode space (clampUnit p.a) (effectiveAlpha q.a opacity) p.g q.g,
        shade mode space (clampUnit p.a) (effectiveAlpha q.a opacity) p.b q.b,
        overAlpha (clampUnit p.a) (effectiveAlpha q.a opacity)⟩ := rfl

theorem Pixel.shade_number {K : Type} [Field K] [LinearOrder K] [IsStrictOrderedRing K] [Channel.Exact α K]
    (mode : BlendMode) (space : ColorSpace) {x y u v : K} {b s : α} (hx : InUnit x) (hy : InUnit y)
    (hu : number u = space.fromLinear b) (hv : number v = space.fromLinear s) :
    shade mode space (number x) (number y) b s = space.toLinear (number (Blend.composed mode x y u v)) := by
  unfold shade
  rw [← hu, ← hv, compositeChannel_number mode u v (Blend.inUnit_cover hx hy).nonneg]

end

section
variable {α : Type} [Channel α] (K : Type) [Field K] [LinearOrder K] [IsStrictOrderedRing K] [Channel.Exact α K]
include K

theorem inUnit_channel (mode : BlendMode) {b s : α} (hb : InUnit b) (hs : InUnit s) :
    InUnit (mode.channel b s) := by
  obtain ⟨b, hb', rfl⟩ := hb.exists_number K
  obtain ⟨s, hs', rfl⟩ := hs.exists_number K
  rw [channel_number]
  exact inUnit_number.mpr (Blend.inUnit_formula mode hb' hs')

theorem inUnit_overAlpha {x y : α} (hx : InUnit x) (hy : InUnit y) : InUnit (Pixel.overAlpha x y) := by
  obtain ⟨x, hx', rfl⟩ := hx.exists_number K
  obtain ⟨y, hy', rfl⟩ := hy.exists_number K
  rw [overAlpha_number]
  exact inUnit_number.mpr (Blend.inUnit_cover hx' hy')

theorem overAlpha_eq_zero {x y : α} (hx : InUnit x) (hy : InUnit y) : Pixel.overAlpha x y = 0 ↔ x = 0 ∧ y = 0 := by
  obtain ⟨x, hx', rfl⟩ := hx.exists_number K
  obtain ⟨y, hy', rfl⟩ := hy.exists_number K
  rw [overAlpha_number, number_eq_zero, number_eq_zero, number_eq_zero]
  exact Blend.cover_eq_zero hx' hy'

theorem inUnit_compositeChannel (mode : BlendMode) {x y b s : α} (hx : InUnit x) (hy : InUnit y) (hb : InUnit b)
    (hs : InUnit s) : InUnit (Pixel.compositeChannel mode x y b s) := by
  obtain ⟨x, hx', rfl⟩ := hx.exists_number K
  obtain ⟨y, hy', rfl⟩ := hy.exists_number K
  obtain ⟨b, hb', rfl⟩ := hb.exists_number K
  obtain ⟨s, hs', rfl⟩ := hs.exists_number K
  rw [compositeChannel_number mode b s (Blend.inUnit_cover hx' hy').nonneg]
  exact inUnit_number.mpr (Blend.inUnit_composed mode hx' hy' hb' hs')

end

/-! ## Division -/

/-- The same channels, dividing in another way. -/
@[reducible] def Channel.dividing {α : Type} [Channel α] (divide : α → α → α) : Channel α :=
  { (inferInstance : Channel α) with div := divide }

section
variable {α : Type} [Channel α] {divide : α → α → α} (hdivide : ∀ x y : α, 0 < y → divide x y = x / y)
  (htwo : (0 : α) < Channel.ofNat 2)
include hdivide htwo

theorem hardLight_dividing (b s : α) : @Blend.hardLight α (Channel.dividing divide) b s = Blend.hardLight b s := by
  show (if s ≤ divide 1 (Channel.ofNat 2) then _ else _) = _
  rw [hdivide 1 _ htwo]
  rfl

theorem channel_dividing (mode : BlendMode) (b s : α) :
    @BlendMode.channel α (Channel.dividing divide) mode b s = mode.channel b s := by
  cases mode with
  | overlay => exact hardLight_dividing hdivide htwo s b
  | hardLight => exact hardLight_dividing hdivide htwo b s
  | _ => rfl

theorem compositeChannel_dividing (mode : BlendMode) (x y b s : α) :
    @Pixel.compositeChannel α (Channel.dividing divide) mode x y b s = Pixel.compositeChannel mode x y b s := by
  show (if 0 < Pixel.overAlpha x y then
    divide (y * ((1 - x) * s + x * @BlendMode.channel α (Channel.dividing divide) mode b s) +
    x * b * (1 - y)) (Pixel.overAlpha x y) else 0) = _
  rw [channel_dividing hdivide htwo]
  unfold Pixel.compositeChannel
  dsimp only
  split
  · rename_i hpos
    exact hdivide _ _ hpos
  · rfl

theorem shade_dividing [Transfer α] (mode : BlendMode) (space : ColorSpace) (x y b s : α) :
    @Pixel.shade α (Channel.dividing divide) _ mode space x y b s = Pixel.shade mode space x y b s := by
  have hchannel := compositeChannel_dividing hdivide htwo mode x y (space.fromLinear b) (space.fromLinear s)
  have hlinear := congrArg space.toLinear hchannel
  exact hlinear

theorem blend_dividing [Transfer α] (mode : BlendMode) (space : ColorSpace) (opacity : α)
    (backdrop source : Pixel α) :
    @Pixel.blend α (Channel.dividing divide) _ mode space opacity backdrop source =
      Pixel.blend mode space opacity backdrop source := by
  have hshade (b s : α) := shade_dividing hdivide htwo mode space (clampUnit backdrop.a)
    (Pixel.effectiveAlpha source.a opacity) b s
  exact (Pixel.mk.injEq ..).mpr ⟨hshade backdrop.r source.r, hshade backdrop.g source.g,
    hshade backdrop.b source.b, rfl⟩

end

/-! ## Every channel of a blend -/

section
variable {α : Type} [Channel α] (K : Type) [Field K] [LinearOrder K] [IsStrictOrderedRing K]
  [Channel.Exact α K] [Transfer α] [Transfer.Bounded α]
include K

theorem inUnit_composited (mode : BlendMode) (space : ColorSpace) (a o a' b s : α) :
    InUnit (Pixel.compositeChannel mode (clampUnit a) (Pixel.effectiveAlpha a' o) (space.fromLinear b)
      (space.fromLinear s)) :=
  inUnit_compositeChannel K mode (inUnit_clampUnit K a) (inUnit_effectiveAlpha K a' o)
    (ColorSpace.inUnit_fromLinear K space b) (ColorSpace.inUnit_fromLinear K space s)

theorem inUnit_blend (mode : BlendMode) (space : ColorSpace) (opacity : α) (backdrop source : Pixel α) :
    ∀ c ∈ (Pixel.blend mode space opacity backdrop source).channels, InUnit c := by
  have hshade (x y b s : α) : InUnit (Pixel.shade mode space x y b s) := ColorSpace.inUnit_toLinear K space _
  have halpha := inUnit_overAlpha K (inUnit_clampUnit K backdrop.a) (inUnit_effectiveAlpha K source.a opacity)
  simp [Pixel.blend_eq, Pixel.channels, hshade, halpha]

/-- Blending stays in range, whatever the pixels and the opacity are. Clamping the composited channels changes none
of them. Dividing in another way changes no pixel, as long as quotients by positive numbers are the same: there are
no others. -/
theorem blend_keeps_range (mode : BlendMode) :
    (∀ b s : α, InUnit b → InUnit s → InUnit (mode.channel b s)) ∧
    ∀ (space : ColorSpace) (opacity : α) (backdrop source : Pixel α),
      (∀ c ∈ (Pixel.blend mode space opacity backdrop source).channels, InUnit c) ∧
      ((Pixel.blend mode space opacity backdrop source).a = 0 ↔
        clampUnit backdrop.a = 0 ∧ Pixel.effectiveAlpha source.a opacity = 0) ∧
      (∀ b s : α,
        let composited := Pixel.compositeChannel mode (clampUnit backdrop.a) (Pixel.effectiveAlpha source.a opacity)
          (space.fromLinear b) (space.fromLinear s)
        InUnit composited ∧ clampUnit composited = composited) ∧
      ∀ divide : α → α → α, (∀ x y, 0 < y → divide x y = x / y) →
        @Pixel.blend α (Channel.dividing divide) _ mode space opacity backdrop source =
          Pixel.blend mode space opacity backdrop source := by
  refine ⟨fun b s hb hs => inUnit_channel K mode hb hs, fun space opacity backdrop source =>
    ⟨inUnit_blend K mode space opacity backdrop source, ?_, fun b s => ?_, fun divide hdivide => ?_⟩⟩
  · exact overAlpha_eq_zero K (inUnit_clampUnit K backdrop.a) (inUnit_effectiveAlpha K source.a opacity)
  · have hcomposited := inUnit_composited K mode space backdrop.a opacity source.a b s
    exact ⟨hcomposited, clampUnit_of_inUnit K hcomposited⟩
  · have htwo : (0 : α) < Channel.ofNat 2 := by
      rw [two_number (K := K)]
      exact number_pos.mpr two_pos
    exact blend_dividing hdivide htwo mode space opacity backdrop source

end

theorem blend_keeps_range_overlay :
    let backdrop : Pixel Ratio := ⟨.undefined, .of 2, .of (-1), .of (1 / 2)⟩
    let source : Pixel Ratio := ⟨.of (1 / 4), .undefined, .of 3, .of (1 / 2)⟩
    let mixed : Ratio := BlendMode.overlay.channel (.of (1 / 3)) (.of (2 / 3))
    InUnit mixed ∧
      (∀ c ∈ (Pixel.blend .overlay .srgb (.of 2) backdrop source).channels, InUnit c) ∧
      (∀ x y : Ratio, 0 < y → Ratio.map₂ (· / ·) x y = x / y) ∧
      @Pixel.blend Ratio (Channel.dividing (Ratio.map₂ (· / ·))) _ .overlay .srgb (.of 2) backdrop source =
        Pixel.blend .overlay .srgb (.of 2) backdrop source := by
  intro backdrop source mixed
  have hdivide (x y : Ratio) (h : 0 < y) := Ratio.divide_eq x h
  obtain ⟨hchannel, hblend⟩ := blend_keeps_range (α := Ratio) Rat .overlay
  obtain ⟨hrange, -, -, hsame⟩ := hblend .srgb (.of 2) backdrop source
  exact ⟨hchannel _ _ ⟨by decide +kernel, by decide +kernel⟩ ⟨by decide +kernel, by decide +kernel⟩,
    hrange, hdivide, hsame _ hdivide⟩

end Strata
