import Strata.Proofs.Composite.Canvases
import Strata.Proofs.Plan.Result

/-!
# Both ways of compositing agree

The fold on the host accepts exactly the stacks whose layers fit, and refuses the others for their formats
(`composite_fits`, `composite_misfit`). Where memory keeps channels as they are, the canvas it leaves is
the image of the stack, so it answers the stack's raster.
-/

namespace Strata

variable {α : Type} [Channel α] [Stored α]

/-- Memory holds every channel as it is. -/
class Stored.Lossless (α : Type) [Stored α] : Prop where
  round_eq (x : α) : Stored.round x = x

omit [Channel α] in
theorem Pixel.stored_eq [Stored.Lossless α] (p : Pixel α) : p.stored = p := by
  unfold Pixel.stored
  simp only [Stored.Lossless.round_eq]

/-! ## Accepting -/

namespace Direct

section
variable {width height : Int} {l : Layer Int α}

omit [Stored α] in
theorem fits_base {base : Layer Int α} (hv : base.Valid) :
    base.Fits base.raster.width base.raster.height true ↔
      (base.region base.raster.width base.raster.height).same (.ofSize base.raster.width base.raster.height) =
        true := by
  refine ⟨fun h => h.whole rfl, fun h => ?_⟩
  obtain ⟨hw, hh⟩ := hv.positive
  have hregion : base.region base.raster.width base.raster.height = .ofSize base.raster.width
      base.raster.height := by
    generalize base.region base.raster.width base.raster.height = r at h
    obtain ⟨x, y, maxX, maxY⟩ := r
    unfold Rectangle.same at h
    simp only [Bool.and_eq_true, beq_iff_eq] at h
    obtain ⟨⟨⟨rfl, rfl⟩, rfl⟩, rfl⟩ := h
    rfl
  refine ⟨fun _ => h, ?_, ?_⟩
  · rw [hregion]
    generalize base.raster.width = w at hw
    generalize base.raster.height = n at hh
    show (if (0 : Int) < 0 ∨ (0 : Int) < 0 then false else
      decide (max 0 (w - 0) ≤ max 0 (w - 0) - (0 - 0)) && decide (max 0 (n - 0) ≤ max 0 (n - 0) - (0 - 0))) = true
    simp
  · rw [hregion]
    show base.raster.width = max 0 (base.raster.width - 0) ∧ base.raster.height = max 0 (base.raster.height - 0)
    omega

omit [Stored α] in
theorem checkBase_fits {base : Layer Int α} (hv : base.Valid) :
    (base.Fits base.raster.width base.raster.height true →
      checkBase base = .ok (.ofSize base.raster.width base.raster.height)) ∧
    (¬ base.Fits base.raster.width base.raster.height true → ∃ failure,
      checkBase base = .error failure ∧ failure.code? = some .incompatibleFormats) := by
  rw [fits_base hv]
  unfold checkBase Layer.region
  cases base.placement with
  | none => exact ⟨fun _ => rfl, fun h => absurd (by simp [Rectangle.same]) h⟩
  | some placement =>
    simp only [Option.map_some, Option.getD_some]
    by_cases hs : placement.normalize.same (.ofSize base.raster.width base.raster.height) = true
    · rw [if_pos hs]
      exact ⟨fun _ => rfl, fun h => absurd hs h⟩
    · rw [if_neg hs]
      exact ⟨fun h => absurd h hs, fun _ => ⟨_, rfl, rfl⟩⟩

omit [Channel α] [Stored α] in
theorem checkPlacement_fits :
    (l.Fits width height false →
      checkPlacement (.ofSize width height) l = .ok (l.region width height)) ∧
    (¬ l.Fits width height false → ∃ failure,
      checkPlacement (.ofSize width height) l = .error failure ∧ failure.code? = some .incompatibleFormats) := by
  have hcheck : checkPlacement (.ofSize width height) l =
      if !(Rectangle.ofSize width height).contains (l.region width height) then
        .error (.of (.layerOutside (Numeral.extent width height) (l.region width height).text))
      else if !(l.raster.width == (l.region width height).width && l.raster.height ==
        (l.region width height).height) then
        .error (.of (.layerSizeMismatch (Numeral.extent l.raster.width l.raster.height)
          (Numeral.extent (l.region width height).width (l.region width height).height)))
      else .ok (l.region width height) := by
    unfold checkPlacement Layer.region
    cases l.placement <;>
      (simp only [bind, Except.bind, pure, Except.pure, throw, throwThe, MonadExceptOf.throw]; rfl)
  rw [hcheck]
  split
  · rename_i hinside
    refine ⟨fun h => ?_, fun _ => ⟨_, rfl, rfl⟩⟩
    rw [h.inside] at hinside
    cases hinside
  · rename_i hinside
    split
    · rename_i hsize
      refine ⟨fun h => ?_, fun _ => ⟨_, rfl, rfl⟩⟩
      simp [h.size] at hsize
    · rename_i hsize
      simp only [Bool.not_eq_true', Bool.not_eq_false, Bool.and_eq_true, beq_iff_eq] at hinside hsize
      exact ⟨fun _ => rfl, fun h => absurd ⟨fun hb => (by cases hb), hinside, hsize⟩ h⟩

omit [Channel α] [Stored α] in
theorem checkPlacements_fits (layers : List (Layer Int α)) :
    (Layer.AllFit width height false layers →
      checkPlacements (.ofSize width height) layers = .ok (layers.map fun l => (l, l.region width height))) ∧
    (¬ Layer.AllFit width height false layers → ∃ failure,
      checkPlacements (.ofSize width height) layers = .error failure ∧
        failure.code? = some .incompatibleFormats) := by
  induction layers with
  | nil => exact ⟨fun _ => rfl, fun h => absurd trivial h⟩
  | cons l layers ih =>
    obtain ⟨hok, hbad⟩ := checkPlacement_fits (l := l)
    rw [checkPlacements]
    refine ⟨fun h => ?_, fun h => ?_⟩
    · rw [hok h.1, ih.1 h.2]
      rfl
    · by_cases hfit : l.Fits width height false
      · obtain ⟨failure, he, hcode⟩ := ih.2 fun hrest => h ⟨hfit, hrest⟩
        rw [hok hfit, he]
        exact ⟨failure, rfl, hcode⟩
      · obtain ⟨failure, he, hcode⟩ := hbad hfit
        rw [he]
        exact ⟨failure, rfl, hcode⟩

end

variable [Transfer α] {base : Layer Int α} {layers : List (Layer Int α)}

theorem composite_misfit (outputFormat : Option PixelFormat) (hv : base.Valid)
    (h : ¬ Layer.AllFit base.raster.width base.raster.height true (base :: layers)) :
    ∃ failure, composite (base :: layers) outputFormat = .error failure ∧
      failure.code? = some .incompatibleFormats := by
  obtain ⟨hok, hbad⟩ := checkBase_fits hv
  unfold composite
  by_cases hfit : base.Fits base.raster.width base.raster.height true
  · obtain ⟨failure, he, hcode⟩ := (checkPlacements_fits layers).2 fun hrest => h ⟨hfit, hrest⟩
    refine ⟨failure, ?_, hcode⟩
    simp only [hok hfit, bind, Except.bind, he]
  · obtain ⟨failure, he, hcode⟩ := hbad hfit
    refine ⟨failure, ?_, hcode⟩
    simp only [he, bind, Except.bind]

/-- The canvas after the fold on the host. -/
def folded (base : Layer Int α) (layers : List (Layer Int α)) : Canvas α :=
  (layers.map fun l => (l, l.region base.raster.width base.raster.height)).foldl (blendLayer base.raster.width)
    (loadBase base)

theorem composite_fits (outputFormat : Option PixelFormat) (hv : base.Valid)
    (h : Layer.AllFit base.raster.width base.raster.height true (base :: layers)) :
    composite (base :: layers) outputFormat = .ok (Raster.encode (folded base layers).channels base.raster.width
      base.raster.height (outputFormat.getD base.raster.format)) := by
  unfold composite
  simp only [(checkBase_fits hv).1 h.1, (checkPlacements_fits layers).1 h.2, bind, Except.bind]
  rfl

/-! ## The canvas -/

/-- A canvas shows an image. -/
def Shows (canvas : Canvas α) (count : Nat) (image : Image α) : Prop := ∀ n < count, canvas[n]? = some (image n)

theorem size_decode {l : Layer Int α} (hv : l.Valid) :
    l.raster.decode.size = 4 * (l.raster.width.toNat * l.raster.height.toNat) := by
  unfold Raster.decode
  rw [Array.size_ofFn, dataLength_eq (Int.le_of_lt hv.positive.1) (Int.le_of_lt hv.positive.2)]

theorem ofRaster_stored {l : Layer Int α} (hv : l.Valid) :
    Shows (Canvas.ofRaster l.raster) (l.raster.width.toNat * l.raster.height.toNat)
      fun n => (l.raster.texels.linear n).stored := by
  have hsize := size_decode hv
  intro n hn
  have hget (i : Nat) (hi : i < 4 * (l.raster.width.toNat * l.raster.height.toNat)) :
      l.raster.decode.getD i 0 =
        Stored.round (Raster.decodeValue l.raster.texels.format i (l.raster.texels.value i)) := by
    have hlt : i < l.raster.decode.size := hsize ▸ hi
    unfold Raster.decode at hlt ⊢
    rw [Array.size_ofFn] at hlt
    rw [Array.getD_eq_getD_getElem?, Array.getElem?_ofFn, dif_pos hlt]
    rfl
  unfold Canvas.ofRaster
  rw [Canvas.getElem?_ofChannels _ (by omega), hget _ (by omega), hget _ (by omega), hget _ (by omega),
    hget _ (by omega)]
  rfl

variable [Stored.Lossless α]

theorem ofRaster_shows {l : Layer Int α} (hv : l.Valid) :
    Shows (Canvas.ofRaster l.raster) (l.raster.width.toNat * l.raster.height.toNat) l.raster.texels.linear := by
  exact fun n hn => (ofRaster_stored hv n hn).trans (congrArg some (Pixel.stored_eq _))

theorem loadBase_shows (hv : base.Valid) :
    Shows (loadBase base) (base.raster.width.toNat * base.raster.height.toNat)
      ((base.shading base.raster.width base.raster.height true).laid fun _ => Canvas.transparent) := by
  intro n hn
  unfold loadBase
  rw [Array.getElem?_map, ofRaster_shows hv n hn, Option.map_some]
  unfold Shading.laid
  rw [Pixel.stored_eq]
  show some (Pixel.load (base.opacity.getD 1) _) = some (Pixel.load (Stored.round (base.opacity.getD 1)) _)
  rw [Stored.Lossless.round_eq]
  rfl

omit [Channel α] [Stored α] [Transfer α] [Stored.Lossless α] in
theorem region_placed {width height : Int} {l : Layer Int α} {bottom : Bool} (h : l.Fits width height bottom)
    (hw : 0 ≤ width) (hh : 0 ≤ height) :
    l.region width height = .placed ((l.region width height).x.toNat : Int) ((l.region width height).y.toNat : Int)
      ((l.region width height).width.toNat : Int) ((l.region width height).height.toNat : Int) := by
  obtain ⟨hx, hy, hrw, hrh, -, -⟩ := h.region
  rw [Int.toNat_of_nonneg hx, Int.toNat_of_nonneg hy, Int.toNat_of_nonneg hrw, Int.toNat_of_nonneg hrh]
  unfold Layer.region
  cases l.placement with
  | none =>
    have hmax {n : Int} (hn : 0 ≤ n) : n = 0 + max 0 (n - 0) := by omega
    exact congrArg₂ (Rectangle.mk 0 0) (hmax hw) (hmax hh)
  | some r =>
    obtain ⟨x, y, maxX, maxY⟩ := r
    have hmax (a b : Int) : a + max 0 (b - a) = a + max 0 (a + max 0 (b - a) - a) := by omega
    exact congrArg₂ (Rectangle.mk x y) (hmax x maxX) (hmax y maxY)

theorem blendLayer_shows {width height : Int} {l : Layer Int α} {canvas : Canvas α} {below : Image α}
    (hw : 0 < width) (hh : 0 < height) (hv : l.Valid) (hfit : l.Fits width height false)
    (hc : Shows canvas (width.toNat * height.toNat) below) :
    Shows (blendLayer width canvas (l, l.region width height)) (width.toNat * height.toNat)
      ((l.shading width height false).laid below) := by
  intro n hn
  obtain ⟨hx, hy, hrw, hrh, hxw, hyh⟩ := hfit.region
  have hblend := @Canvas.getElem?_blend _ _ _ canvas (.ofRaster l.raster) width.toNat
    (l.region width height).x.toNat (l.region width height).y.toNat
    (l.region width height).width.toNat (l.region width height).height.toNat
    l.raster.width.toNat n l.mode l.space (l.opacity.getD 1) (by omega)
  rw [← region_placed hfit (Int.le_of_lt hw) (Int.le_of_lt hh), Int.toNat_of_nonneg (Int.le_of_lt hw),
    Int.toNat_of_nonneg (Int.le_of_lt hv.positive.1), hc n hn] at hblend
  unfold blendLayer
  dsimp only
  rw [hblend]
  unfold Shading.laid
  rw [Pixel.stored_eq]
  show _ = some (if n % width.toNat < (l.region width height).x.toNat ∨
    n / width.toNat < (l.region width height).y.toNat ∨
      (l.region width height).width.toNat ≤ n % width.toNat - (l.region width height).x.toNat ∨
      (l.region width height).height.toNat ≤ n / width.toNat - (l.region width height).y.toNat then below n
    else Pixel.blend l.mode l.space (Stored.round (l.opacity.getD 1)) (below n)
      (l.raster.texels.linear ((n / width.toNat - (l.region width height).y.toNat) *
        (l.region width height).width.toNat +
        (n % width.toNat - (l.region width height).x.toNat))))
  rw [Stored.Lossless.round_eq]
  generalize hsx : (l.region width height).x.toNat = x at *
  generalize hsy : (l.region width height).y.toNat = y at *
  have hsize := hfit.size
  generalize hrow : n / width.toNat = row at *
  generalize hcol : n % width.toNat = col at *
  -- host and kernel ask in different terms whether the layer reaches this position
  by_cases hin : (y ≤ row ∧ row < y + (l.region width height).height.toNat) ∧ x ≤ col ∧
      col < x + (l.region width height).width.toNat
  · rw [if_pos hin, if_neg (by omega), Option.map_some]
    have hplace : (row - y) * l.raster.width.toNat + (col - x) < l.raster.width.toNat * l.raster.height.toNat := by
      rw [hsize.1, hsize.2]
      calc (row - y) * (l.region width height).width.toNat + (col - x)
          < (row - y) * (l.region width height).width.toNat + (l.region width height).width.toNat := by omega
        _ = (row - y + 1) * (l.region width height).width.toNat := by rw [Nat.add_mul, Nat.one_mul]
        _ ≤ (l.region width height).height.toNat * (l.region width height).width.toNat :=
          Nat.mul_le_mul_right _ (by omega)
        _ = _ := Nat.mul_comm ..
    rw [Array.getD_eq_getD_getElem?, ofRaster_shows hv _ hplace, hsize.1]
    rfl
  · rw [if_neg hin, if_pos (by omega)]

theorem folded_shows (hv : ∀ l ∈ base :: layers, l.Valid)
    (hfit : Layer.AllFit base.raster.width base.raster.height true (base :: layers)) :
    Shows (folded base layers) (base.raster.width.toNat * base.raster.height.toNat)
      (Stack.image base.raster.width base.raster.height (base :: layers)) := by
  obtain ⟨hw, hh⟩ := (hv base (List.mem_cons_self ..)).positive
  have hfold : ∀ (rest : List (Layer Int α)) (canvas : Canvas α) (below : Image α), (∀ l ∈ rest, l.Valid) →
      Layer.AllFit base.raster.width base.raster.height false rest →
      Shows canvas (base.raster.width.toNat * base.raster.height.toNat) below →
      Shows ((rest.map fun l => (l, l.region base.raster.width base.raster.height)).foldl
          (blendLayer base.raster.width) canvas)
        (base.raster.width.toNat * base.raster.height.toNat)
        (Shading.fold below (Stack.shadings base.raster.width base.raster.height false rest)) := by
    intro rest
    induction rest with
    | nil => exact fun _ _ _ _ hc => hc
    | cons l rest ih =>
      intro canvas below hv hfit hc
      exact ih _ _ (fun l hl => hv l (List.mem_cons_of_mem _ hl)) hfit.2
        (blendLayer_shows hw hh (hv l (List.mem_cons_self ..)) hfit.1 hc)
  exact hfold layers _ _ (fun l hl => hv l (List.mem_cons_of_mem _ hl)) hfit.2
    (loadBase_shows (hv base (List.mem_cons_self ..)))

theorem composite_raster (outputFormat : Option PixelFormat) (hv : ∀ l ∈ base :: layers, l.Valid)
    (hfit : Layer.AllFit base.raster.width base.raster.height true (base :: layers)) :
    composite (base :: layers) outputFormat = .ok (Stack.raster base (base :: layers) outputFormat) := by
  have hbase := hv base (List.mem_cons_self ..)
  obtain ⟨hw, hh⟩ := hbase.positive
  rw [composite_fits outputFormat hbase hfit]
  unfold Stack.raster Raster.encode
  refine congrArg Except.ok (congrArg (Raster.mk _ _) (Texels.ofFn_congr _ fun i hi => congrArg _ ?_))
  rw [dataLength_eq (Int.le_of_lt hw) (Int.le_of_lt hh)] at hi
  rw [Array.getD_eq_getD_getElem?, Array.getD_eq_getD_getElem?, Canvas.getElem?_channels,
    folded_shows hv hfit (i / 4) (by omega), Array.getElem?_ofFn, dif_pos hi]
  rfl

end Direct

end Strata
