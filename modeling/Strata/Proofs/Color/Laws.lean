import Strata.Proofs.Color.Ranges

/-!
# Laws of blending

What a blend does with its operands turned around, with an opacity, and with transparent pixels; and that
source-over is associative. A composited channel times its alpha is a polynomial that treats both sides alike
(`Blend.composed_swap`), and for source-over one that nests (`Blend.composed_assoc`).
-/

namespace Strata

open Channel.Exact (number)

/-! ## Laws of the formulas -/

namespace Blend

section
variable {K : Type} [Field K]

theorem cover_comm (x y : K) : cover x y = cover y x := by
  unfold cover
  ring

theorem cover_assoc (x y z : K) : cover (cover x y) z = cover x (cover y z) := by
  unfold cover
  ring

variable [LinearOrder K]

/-- The mode that does with its operands turned around what a mode does. -/
def swapped? : BlendMode → Option BlendMode
  | .sourceOver => none
  | .overlay => some .hardLight
  | .hardLight => some .overlay
  | mode => some mode

theorem formula_swap {mode mode' : BlendMode} (h : swapped? mode = some mode') (b s : K) :
    formula mode b s = formula mode' s b := by
  cases mode <;> cases h
  case multiply => exact mul_comm b s
  case screen =>
    simp only [formula]
    ring
  case overlay => rfl
  case hardLight => rfl
  case darken => exact min_comm b s
  case lighten => exact max_comm b s
  case difference => exact abs_sub_comm b s
  case exclusion =>
    simp only [formula]
    ring

theorem composed_swap {mode mode' : BlendMode} (h : swapped? mode = some mode') (x y b s : K) :
    composed mode x y b s = composed mode' y x s b := by
  have hweighted : weighted mode x y b s = weighted mode' y x s b := by
    unfold weighted
    rw [formula_swap h]
    ring
  unfold composed
  rw [hweighted, cover_comm]

theorem weighted_sourceOver (x y b s : K) : weighted .sourceOver x y b s = y * s + x * b * (1 - y) := by
  simp only [weighted, formula]
  ring

theorem composed_zero_right (mode : BlendMode) {x : K} (hx : x ≠ 0) (b s : K) : composed mode x 0 b s = b := by
  simp [composed, weighted, cover, hx]

theorem composed_zero_left (mode : BlendMode) {y : K} (hy : y ≠ 0) (b s : K) : composed mode 0 y b s = s := by
  simp [composed, weighted, cover, hy]

theorem composed_zero (mode : BlendMode) (b s : K) : composed mode 0 0 b s = 0 := by
  simp [composed, weighted]

end

section
variable {K : Type} [Field K] [LinearOrder K] [IsStrictOrderedRing K] {x y z : K}

theorem cover_mul_composed (mode : BlendMode) (b s : K) (hx : InUnit x) (hy : InUnit y) :
    cover x y * composed mode x y b s = weighted mode x y b s := by
  by_cases hcover : cover x y = 0
  · obtain ⟨rfl, rfl⟩ := (cover_eq_zero hx hy).mp hcover
    simp [cover, weighted]
  · exact mul_div_cancel₀ _ hcover

theorem composed_assoc (b s c : K) (hx : InUnit x) (hy : InUnit y) (hz : InUnit z) :
    composed .sourceOver (cover x y) z (composed .sourceOver x y b s) c =
      composed .sourceOver x (cover y z) b (composed .sourceOver y z s c) := by
  have hlower := cover_mul_composed .sourceOver b s hx hy
  have hupper := cover_mul_composed .sourceOver s c hy hz
  rw [weighted_sourceOver] at hlower hupper
  have hweighted : weighted .sourceOver (cover x y) z (composed .sourceOver x y b s) c =
      weighted .sourceOver x (cover y z) b (composed .sourceOver y z s c) := by
    rw [weighted_sourceOver, weighted_sourceOver, hlower, hupper]
    unfold cover
    ring
  unfold composed at hweighted ⊢
  rw [hweighted, cover_assoc]

end

end Blend

/-! ## Operands turned around -/

/-- Every channel of the unit interval is encoded by a number. Where all channels are numbers, any curve does so. -/
class Transfer.Numeric (α : Type) [Channel α] [Transfer α] (K : Type) [Field K] [LinearOrder K]
    [IsStrictOrderedRing K] [Channel.Exact α K] : Prop where
  encode (c : α) : InUnit c → ∃ x : K, number x = Transfer.encode c

section
variable {α : Type} [Channel α] [Transfer α] (K : Type) [Field K] [LinearOrder K] [IsStrictOrderedRing K]
  [Channel.Exact α K]

instance [Transfer.Bounded α] : Transfer.Numeric α K where
  encode c h := by
    obtain ⟨x, -, hx⟩ := (Transfer.Bounded.encode c h).exists_number K
    exact ⟨x, hx⟩

theorem ColorSpace.fromLinear_number [Transfer.Numeric α K] (space : ColorSpace) (c : α) :
    ∃ x : K, number x = space.fromLinear c := by
  cases space with
  | srgb => exact Transfer.Numeric.encode _ (inUnit_clampUnit K c)
  | linear =>
    obtain ⟨x, -, hx⟩ := (inUnit_clampUnit K c).exists_number K
    exact ⟨x, hx⟩

include K

theorem shade_swap [Transfer.Numeric α K] {mode mode' : BlendMode} (h : Blend.swapped? mode = some mode')
    (space : ColorSpace) {x y : α} (hx : InUnit x) (hy : InUnit y) (b s : α) :
    Pixel.shade mode space x y b s = Pixel.shade mode' space y x s b := by
  obtain ⟨x, hx', rfl⟩ := hx.exists_number K
  obtain ⟨y, hy', rfl⟩ := hy.exists_number K
  obtain ⟨u, hu⟩ := ColorSpace.fromLinear_number K space b
  obtain ⟨v, hv⟩ := ColorSpace.fromLinear_number K space s
  rw [Pixel.shade_number mode space hx' hy' hu hv, Pixel.shade_number mode' space hy' hx' hv hu,
    Blend.composed_swap h]

omit [Transfer α] in
theorem overAlpha_comm {x y : α} (hx : InUnit x) (hy : InUnit y) : Pixel.overAlpha x y = Pixel.overAlpha y x := by
  obtain ⟨x, -, rfl⟩ := hx.exists_number K
  obtain ⟨y, -, rfl⟩ := hy.exists_number K
  rw [overAlpha_number, overAlpha_number, Blend.cover_comm]

theorem blend_swap [Transfer.Numeric α K] {mode mode' : BlendMode} (h : Blend.swapped? mode = some mode')
    (space : ColorSpace) (p q : Pixel α) : Pixel.blend mode space 1 p q = Pixel.blend mode' space 1 q p := by
  have hp := inUnit_clampUnit K p.a
  have hq := inUnit_clampUnit K q.a
  simp only [Pixel.blend_eq, effectiveAlpha_one K]
  rw [shade_swap K h space hp hq, shade_swap K h space hp hq, shade_swap K h space hp hq, overAlpha_comm K hp hq]

/-- At full opacity six modes treat both pixels alike, and overlay is hard light turned around; an opacity only
scales the alpha of the source. -/
theorem blend_symmetric [Transfer.Numeric α K] (space : ColorSpace) (p q : Pixel α) :
    (∀ mode ∈ [BlendMode.multiply, .screen, .darken, .lighten, .difference, .exclusion],
      Pixel.blend mode space 1 p q = Pixel.blend mode space 1 q p) ∧
    Pixel.blend .overlay space 1 p q = Pixel.blend .hardLight space 1 q p ∧
    ∀ (mode : BlendMode) (opacity : α), Pixel.blend mode space opacity p q =
      Pixel.blend mode space 1 p { q with a := clampUnit q.a * clampUnit opacity } := by
  refine ⟨fun mode hmode => blend_swap K ?_ space p q, blend_swap K rfl space p q, fun mode opacity => ?_⟩
  · simp only [List.mem_cons, List.not_mem_nil, or_false] at hmode
    obtain rfl | rfl | rfl | rfl | rfl | rfl := hmode <;> rfl
  · have halpha : Pixel.effectiveAlpha (clampUnit q.a * clampUnit opacity) 1 = Pixel.effectiveAlpha
        q.a opacity := by
      rw [effectiveAlpha_one K]
      exact clampUnit_effectiveAlpha K q.a opacity
    simp only [Pixel.blend_eq, halpha]

end

theorem blend_symmetric_veiled :
    let p : Pixel Ratio := ⟨.of (1 / 4), .of 2, .undefined, .of (1 / 2)⟩
    let q : Pixel Ratio := ⟨.of (3 / 4), .of (1 / 3), .of (-1), .of (1 / 3)⟩
    Transfer.Numeric Ratio Rat ∧
      Pixel.blend .exclusion .srgb 1 p q = Pixel.blend .exclusion .srgb 1 q p ∧
      Pixel.blend .overlay .srgb 1 p q = Pixel.blend .hardLight .srgb 1 q p ∧
      Pixel.blend .sourceOver .srgb (.of (1 / 2)) p q = Pixel.blend .sourceOver .srgb 1 p
        { q with a := .of (1 / 6) } := by
  intro p q
  obtain ⟨hsame, hswapped, hopacity⟩ := blend_symmetric Rat ColorSpace.srgb p q
  have halpha : clampUnit q.a * clampUnit (.of (1 / 2)) = Ratio.of (1 / 6) := by decide +kernel
  exact ⟨inferInstance, hsame .exclusion (by simp), hswapped, halpha ▸ hopacity .sourceOver (.of (1 / 2))⟩

/-! ## Source-over, and transparent pixels -/

section
variable {α : Type} [Channel α] [Transfer α] [Transfer.Invertible α] (K : Type) [Field K] [LinearOrder K]
  [IsStrictOrderedRing K] [Channel.Exact α K]
include K

omit [Transfer α] [Transfer.Invertible α] in
theorem overAlpha_assoc {x y z : α} (hx : InUnit x) (hy : InUnit y) (hz : InUnit z) :
    Pixel.overAlpha (Pixel.overAlpha x y) z = Pixel.overAlpha x (Pixel.overAlpha y z) := by
  obtain ⟨x, -, rfl⟩ := hx.exists_number K
  obtain ⟨y, -, rfl⟩ := hy.exists_number K
  obtain ⟨z, -, rfl⟩ := hz.exists_number K
  simp only [overAlpha_number, Blend.cover_assoc]

omit [Transfer α] [Transfer.Invertible α] in
theorem compositeChannel_assoc {x y z b s c : α} (hx : InUnit x) (hy : InUnit y) (hz : InUnit z) (hb : InUnit b)
    (hs : InUnit s) (hc : InUnit c) :
    Pixel.compositeChannel .sourceOver (Pixel.overAlpha x y) z (Pixel.compositeChannel .sourceOver x y b s) c =
      Pixel.compositeChannel .sourceOver x (Pixel.overAlpha y z) b
      (Pixel.compositeChannel .sourceOver y z s c) := by
  obtain ⟨x, hx', rfl⟩ := hx.exists_number K
  obtain ⟨y, hy', rfl⟩ := hy.exists_number K
  obtain ⟨z, hz', rfl⟩ := hz.exists_number K
  obtain ⟨b, -, rfl⟩ := hb.exists_number K
  obtain ⟨s, -, rfl⟩ := hs.exists_number K
  obtain ⟨c, -, rfl⟩ := hc.exists_number K
  have hxy := Blend.inUnit_cover hx' hy'
  have hyz := Blend.inUnit_cover hy' hz'
  rw [overAlpha_number, overAlpha_number, compositeChannel_number _ b s hxy.nonneg,
    compositeChannel_number _ s c hyz.nonneg, compositeChannel_number _ _ c (Blend.inUnit_cover hxy hz').nonneg,
    compositeChannel_number _ b _ (Blend.inUnit_cover hx' hyz).nonneg, Blend.composed_assoc b s c hx' hy' hz']

theorem shade_assoc (space : ColorSpace) {x y z : α} (hx : InUnit x) (hy : InUnit y) (hz : InUnit z) (b s c : α) :
    Pixel.shade .sourceOver space (Pixel.overAlpha x y) z (Pixel.shade .sourceOver space x y b s) c =
      Pixel.shade .sourceOver space x (Pixel.overAlpha y z) b (Pixel.shade .sourceOver space y z s c) := by
  have hb := ColorSpace.inUnit_fromLinear K space b
  have hs := ColorSpace.inUnit_fromLinear K space s
  have hc := ColorSpace.inUnit_fromLinear K space c
  unfold Pixel.shade
  rw [ColorSpace.fromLinear_toLinear K space (inUnit_compositeChannel K .sourceOver hx hy hb hs),
    ColorSpace.fromLinear_toLinear K space (inUnit_compositeChannel K .sourceOver hy hz hs hc),
    compositeChannel_assoc K hx hy hz hb hs hc]

theorem blend_sourceOver_assoc (space : ColorSpace) (p q r : Pixel α) :
    Pixel.blend .sourceOver space 1 (Pixel.blend .sourceOver space 1 p q) r =
      Pixel.blend .sourceOver space 1 p (Pixel.blend .sourceOver space 1 q r) := by
  have hp := inUnit_clampUnit K p.a
  have hq := inUnit_clampUnit K q.a
  have hr := inUnit_clampUnit K r.a
  simp only [Pixel.blend_eq, effectiveAlpha_one K, clampUnit_of_inUnit K (inUnit_overAlpha K hp hq),
    clampUnit_of_inUnit K (inUnit_overAlpha K hq hr)]
  rw [shade_assoc K space hp hq hr, shade_assoc K space hp hq hr, shade_assoc K space hp hq hr,
    overAlpha_assoc K hp hq hr]

theorem shade_zero_right (mode : BlendMode) (space : ColorSpace) {x : α} (hx : InUnit x) (hpos : 0 < x) (b s : α) :
    Pixel.shade mode space x 0 b s = clampUnit b := by
  obtain ⟨x, hx', rfl⟩ := hx.exists_number K
  obtain ⟨u, -, hu⟩ := (ColorSpace.inUnit_fromLinear K space b).exists_number K
  obtain ⟨v, -, hv⟩ := (ColorSpace.inUnit_fromLinear K space s).exists_number K
  rw [← Channel.Exact.zero (K := K), Pixel.shade_number mode space hx' .zero hu hv,
    Blend.composed_zero_right mode (ne_of_gt (number_pos.mp hpos)), hu, ColorSpace.toLinear_fromLinear K]

theorem shade_zero_left (mode : BlendMode) (space : ColorSpace) {y : α} (hy : InUnit y) (hpos : 0 < y) (b s : α) :
    Pixel.shade mode space 0 y b s = clampUnit s := by
  obtain ⟨y, hy', rfl⟩ := hy.exists_number K
  obtain ⟨u, -, hu⟩ := (ColorSpace.inUnit_fromLinear K space b).exists_number K
  obtain ⟨v, -, hv⟩ := (ColorSpace.inUnit_fromLinear K space s).exists_number K
  rw [← Channel.Exact.zero (K := K), Pixel.shade_number mode space .zero hy' hu hv,
    Blend.composed_zero_left mode (ne_of_gt (number_pos.mp hpos)), hv, ColorSpace.toLinear_fromLinear K]

theorem shade_zero (mode : BlendMode) (space : ColorSpace) (b s : α) : Pixel.shade mode space 0 0 b s = 0 := by
  obtain ⟨u, -, hu⟩ := (ColorSpace.inUnit_fromLinear K space b).exists_number K
  obtain ⟨v, -, hv⟩ := (ColorSpace.inUnit_fromLinear K space s).exists_number K
  rw [← Channel.Exact.zero (K := K), Pixel.shade_number mode space .zero .zero hu hv, Blend.composed_zero,
    Channel.Exact.zero, ColorSpace.toLinear_zero K]

omit [Transfer α] [Transfer.Invertible α] in
theorem overAlpha_zero {x : α} (hx : InUnit x) : Pixel.overAlpha x 0 = x ∧ Pixel.overAlpha 0 x = x := by
  obtain ⟨x, -, rfl⟩ := hx.exists_number K
  rw [← Channel.Exact.zero (K := K), overAlpha_number, overAlpha_number]
  simp [Blend.cover]

/-- Source-over nests to either side, and transparent pixels are neutral for every mode. Over a transparent backdrop
a blend does what loading does. -/
theorem blend_associates (space : ColorSpace) :
    (∀ p q r : Pixel α, Pixel.blend .sourceOver space 1 (Pixel.blend .sourceOver space 1 p q) r =
      Pixel.blend .sourceOver space 1 p (Pixel.blend .sourceOver space 1 q r)) ∧
    ∀ (mode : BlendMode) (opacity : α) (backdrop source : Pixel α),
      ((∀ c ∈ backdrop.channels, InUnit c) → 0 < backdrop.a → Pixel.effectiveAlpha source.a opacity = 0 →
        Pixel.blend mode space opacity backdrop source = backdrop) ∧
      (clampUnit backdrop.a = 0 → 0 < Pixel.effectiveAlpha source.a opacity →
        Pixel.blend mode space opacity backdrop source = Pixel.load opacity source) ∧
      (clampUnit backdrop.a = 0 → Pixel.effectiveAlpha source.a opacity = 0 →
        Pixel.blend mode space opacity backdrop source = ⟨0, 0, 0, 0⟩) := by
  refine ⟨blend_sourceOver_assoc K space, fun mode opacity backdrop source => ⟨fun hrange hpos hclear => ?_,
    fun hclear hpos => ?_, fun hbelow hclear => ?_⟩⟩
  · obtain ⟨r, g, b, a⟩ := backdrop
    simp only [Pixel.channels, List.forall_mem_cons] at hrange
    obtain ⟨hr, hg, hb, ha, -⟩ := hrange
    simp only [Pixel.blend_eq, hclear, clampUnit_of_inUnit K ha, shade_zero_right K mode space ha hpos,
      clampUnit_of_inUnit K hr, clampUnit_of_inUnit K hg, clampUnit_of_inUnit K hb, overAlpha_zero K ha]
  · have ha := inUnit_effectiveAlpha K source.a opacity
    simp only [Pixel.blend_eq, hclear, shade_zero_left K mode space ha hpos, overAlpha_zero K ha, Pixel.load]
  · simp only [Pixel.blend_eq, hbelow, hclear, shade_zero K, overAlpha_zero K (inUnit_zero K)]

end

theorem blend_associates_tinted :
    let p : Pixel Ratio := ⟨.of (1 / 4), .of 1, .of (1 / 5), .of (1 / 2)⟩
    let q : Pixel Ratio := ⟨.of (3 / 4), .of (1 / 3), .of 0, .of (1 / 3)⟩
    let clear : Pixel Ratio := ⟨.of (1 / 2), .undefined, .of 1, .of 0⟩
    Transfer.Invertible Ratio ∧
      Pixel.blend .sourceOver .srgb 1 (Pixel.blend .sourceOver .srgb 1 p q) p =
        Pixel.blend .sourceOver .srgb 1 p (Pixel.blend .sourceOver .srgb 1 q p) ∧
      ((∀ c ∈ p.channels, InUnit c) ∧ 0 < p.a ∧ Pixel.effectiveAlpha clear.a 1 = 0 ∧
        Pixel.blend .screen .srgb 1 p clear = p) ∧
      (clampUnit clear.a = 0 ∧ 0 < Pixel.effectiveAlpha q.a (.of (1 / 2)) ∧
        Pixel.blend .difference .srgb (.of (1 / 2)) clear q = Pixel.load (.of (1 / 2)) q) ∧
      Pixel.blend .overlay .srgb 1 clear clear = ⟨0, 0, 0, 0⟩ := by
  intro p q clear
  obtain ⟨hassoc, hneutral⟩ := blend_associates (α := Ratio) Rat .srgb
  have hrange : ∀ c ∈ p.channels, InUnit c := by
    simp only [Pixel.channels, List.forall_mem_cons]
    exact ⟨⟨by decide +kernel, by decide +kernel⟩, ⟨by decide +kernel, by decide +kernel⟩,
      ⟨by decide +kernel, by decide +kernel⟩, ⟨by decide +kernel, by decide +kernel⟩, by simp⟩
  have hpos : 0 < p.a := by decide +kernel
  have hclear : Pixel.effectiveAlpha clear.a 1 = 0 := by decide +kernel
  have hbelow : clampUnit clear.a = 0 := by decide +kernel
  have hsource : 0 < Pixel.effectiveAlpha q.a (.of (1 / 2)) := by decide +kernel
  exact ⟨inferInstance, hassoc p q p, ⟨hrange, hpos, hclear, (hneutral .screen 1 p clear).1 hrange hpos hclear⟩,
    ⟨hbelow, hsource, (hneutral .difference _ clear q).2.1 hbelow hsource⟩,
      (hneutral .overlay 1 clear clear).2.2 hbelow hclear⟩

end Strata
