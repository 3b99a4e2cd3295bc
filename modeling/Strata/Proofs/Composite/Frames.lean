import Strata.Proofs.Color.Exact

/-!
# What a layer changes on the canvas

Folding a placed layer reads each of its texels once, in reading order, and writes the cells of its placement, each
once and no others (`blendLayer_frames`). So what the canvas holds at a cell comes from the texels that the layers
put there (`folded_at`), and two stacks of one shape that agree on these agree on that texel of their results
(`composite_framed`).
-/

namespace Strata

variable {α : Type}

/-! ## Cells -/

namespace Rectangle

def Covers (r : Rectangle Int) (x y : Int) : Prop := (r.x ≤ x ∧ x < r.maxX) ∧ r.y ≤ y ∧ y < r.maxY

instance (r : Rectangle Int) (x y : Int) : Decidable (r.Covers x y) := inferInstanceAs (Decidable (_ ∧ _))

variable {r : Rectangle Int} {x y : Int}

theorem mem_cells : (x, y) ∈ r.cells ↔ r.Covers x y := by
  unfold cells Covers
  simp only [List.mem_flatMap, List.mem_map, List.mem_range, Prod.mk.injEq]
  constructor
  · rintro ⟨j, hj, i, hi, rfl, rfl⟩
    have hj : j < (r.maxY - r.y).toNat := hj
    have hi : i < (r.maxX - r.x).toNat := hi
    show (r.x ≤ r.x + (i : Int) ∧ r.x + (i : Int) < r.maxX) ∧ r.y ≤ r.y + (j : Int) ∧ r.y + (j : Int) < r.maxY
    omega
  · rintro ⟨⟨hx, hX⟩, hy, hY⟩
    refine ⟨(y - r.y).toNat, ?_, (x - r.x).toNat, ?_, ?_, ?_⟩
    · show (y - r.y).toNat < (r.maxY - r.y).toNat
      omega
    · show (x - r.x).toNat < (r.maxX - r.x).toNat
      omega
    · show r.x + ((x - r.x).toNat : Int) = x
      omega
    · show r.y + ((y - r.y).toNat : Int) = y
      omega

/-- The places of a rectangle's own cells, row by row, are consecutive. -/
theorem flatMap_rows (width height : Nat) :
    ((List.range height).flatMap fun j => (List.range width).map fun i => j * width + i) =
      List.range (height * width) := by
  induction height with
  | zero => rw [Nat.zero_mul]; rfl
  | succ height ih =>
    rw [List.range_succ, List.flatMap_append, ih, List.flatMap_singleton, Nat.succ_mul, List.range_add]

end Rectangle

namespace Canvas

theorem cellIndex_inj {width x y x' y' : Int} (hx : 0 ≤ x ∧ x < width) (hy : 0 ≤ y) (hx' : 0 ≤ x' ∧ x' < width)
    (hy' : 0 ≤ y') (h : cellIndex width x y = cellIndex width x' y') : x = x' ∧ y = y' := by
  obtain ⟨w, rfl⟩ := Int.eq_ofNat_of_zero_le (Int.le_trans hx.1 (Int.le_of_lt hx.2))
  obtain ⟨a, rfl⟩ := Int.eq_ofNat_of_zero_le hx.1
  obtain ⟨a', rfl⟩ := Int.eq_ofNat_of_zero_le hx'.1
  obtain ⟨b, rfl⟩ := Int.eq_ofNat_of_zero_le hy
  obtain ⟨b', rfl⟩ := Int.eq_ofNat_of_zero_le hy'
  rw [cellIndex_eq, cellIndex_eq] at h
  have ha : a < w := by omega
  have ha' : a' < w := by omega
  have hrow : b = b' := by
    have hdiv := congrArg (· / w) h
    simpa [Nat.mul_add_div (Nat.zero_lt_of_lt ha), Nat.mul_comm _ w, Nat.div_eq_of_lt ha,
      Nat.div_eq_of_lt ha'] using hdiv
  subst hrow
  exact ⟨by omega, rfl⟩

theorem cellIndex_lt {width height x y : Int} (hx : 0 ≤ x ∧ x < width) (hy : 0 ≤ y ∧ y < height) :
    cellIndex width x y < width.toNat * height.toNat := by
  obtain ⟨w, rfl⟩ := Int.eq_ofNat_of_zero_le (Int.le_trans hx.1 (Int.le_of_lt hx.2))
  obtain ⟨h, rfl⟩ := Int.eq_ofNat_of_zero_le (Int.le_trans hy.1 (Int.le_of_lt hy.2))
  obtain ⟨a, rfl⟩ := Int.eq_ofNat_of_zero_le hx.1
  obtain ⟨b, rfl⟩ := Int.eq_ofNat_of_zero_le hy.1
  rw [cellIndex_eq]
  show b * w + a < w * h
  calc b * w + a < b * w + w := by omega
    _ = (b + 1) * w := by rw [Nat.add_mul, Nat.one_mul]
    _ ≤ h * w := Nat.mul_le_mul_right _ (by omega)
    _ = w * h := Nat.mul_comm ..

end Canvas

/-! ## Texels -/

section
variable [Channel α]

theorem Texels.value_of_natural {width height : Int} (t : Texels α) (k : Nat) {x y : Int}
    (hw : 0 ≤ width) (hx : 0 ≤ x)
    (hy : 0 ≤ y) : (Raster.mk width height t).valueAt ((y * width + x) * Measure.ofNat 4 + Measure.ofNat k) =
      t.value (4 * cellIndex width x y + k) := by
  obtain ⟨w, rfl⟩ := Int.eq_ofNat_of_zero_le hw
  obtain ⟨a, rfl⟩ := Int.eq_ofNat_of_zero_le hx
  obtain ⟨b, rfl⟩ := Int.eq_ofNat_of_zero_le hy
  have hplace : ((b : Int) * w + a) * Measure.ofNat 4 + Measure.ofNat k = ((4 * (b * w + a) + k : Nat) : Int) := by
    show ((b : Int) * w + a) * 4 + k = _
    push_cast
    ring
  rw [Canvas.cellIndex_eq, hplace]
  have hnatural : Measure.natural? ((4 * (b * w + a) + k : Nat) : Int) = some (4 * (b * w + a) + k) :=
    (if_pos (Int.natCast_nonneg _)).trans (congrArg some (Int.toNat_natCast _))
  unfold Raster.valueAt
  rw [hnatural]

theorem Raster.texel_eq (r : Raster Int α) {x y : Int} (hw : 0 ≤ r.width) (hx : 0 ≤ x) (hy : 0 ≤ y) :
    r.texel x y = ⟨r.texels.value (4 * cellIndex r.width x y), r.texels.value (4 * cellIndex r.width x y + 1),
      r.texels.value (4 * cellIndex r.width x y + 2), r.texels.value (4 * cellIndex r.width x y + 3)⟩ := by
  have hchannel (k : Nat) : r.valueAt ((y * r.width + x) * Measure.ofNat 4 + Measure.ofNat k) =
      r.texels.value (4 * cellIndex r.width x y + k) := Texels.value_of_natural r.texels k hw hx hy
  show (⟨_, _, _, _⟩ : Pixel α) = _
  rw [Pixel.mk.injEq]
  exact ⟨hchannel 0, hchannel 1, hchannel 2, hchannel 3⟩

variable [Stored α]

/-- What a stored value of a format holds of a channel. -/
def PixelFormat.keep (format : PixelFormat) (v : α) : α :=
  match format with
  | .float32 => Stored.round v
  | .srgb8 | .unorm8 => Channel.ofByte (Channel.toByte v)

theorem Texels.value_ofFn (format : PixelFormat) {n i : Nat} (f : Nat → α) (h : i < n) :
    (Texels.ofFn format n f).value i = format.keep (f i) := by
  cases format <;> simp [Texels.ofFn, Texels.value, PixelFormat.keep, h]

theorem Texels.format_ofFn (format : PixelFormat) (n : Nat) (f : Nat → α) :
    (Texels.ofFn format n f).format = format := by
  cases format <;> rfl

variable [Transfer α]

/-- A stored texel in linear light, as memory holds it. -/
def Pixel.decoded (format : PixelFormat) (p : Pixel α) : Pixel α :=
  Pixel.stored ⟨Raster.decodeValue format 0 p.r, Raster.decodeValue format 1 p.g, Raster.decodeValue format 2 p.b,
    Raster.decodeValue format 3 p.a⟩

/-- The texel that stores a pixel. -/
def Pixel.encoded (format : PixelFormat) (p : Pixel α) : Pixel α :=
  ⟨format.keep (Raster.encodeValue format 0 p.r), format.keep (Raster.encodeValue format 1 p.g),
    format.keep (Raster.encodeValue format 2 p.b), format.keep (Raster.encodeValue format 3 p.a)⟩

omit [Stored α] in
theorem Raster.decodeValue_mod (format : PixelFormat) (n k : Nat) (v : α) :
    decodeValue format (4 * n + k) v = decodeValue format k v := by
  have hmod : (4 * n + k) % 4 = k % 4 := by omega
  unfold decodeValue
  rw [hmod]

omit [Stored α] in
theorem Raster.encodeValue_mod (format : PixelFormat) (n k : Nat) (v : α) :
    encodeValue format (4 * n + k) v = encodeValue format k v := by
  have hmod : (4 * n + k) % 4 = k % 4 := by omega
  unfold encodeValue
  rw [hmod]

theorem Texels.linear_stored (r : Raster Int α) {x y : Int} (hw : 0 ≤ r.width) (hx : 0 ≤ x) (hy : 0 ≤ y) :
    (r.texels.linear (cellIndex r.width x y)).stored = (r.texel x y).decoded r.format := by
  rw [r.texel_eq hw hx hy]
  unfold Texels.linear Pixel.decoded
  dsimp only
  rw [Raster.decodeValue_mod, Raster.decodeValue_mod, Raster.decodeValue_mod, Raster.decodeValue_mod]
  rfl

theorem Raster.texel_encode {canvas : Canvas α} {width height : Int} (format : PixelFormat)
    {p : Pixel α} {x y : Int} (hx : 0 ≤ x ∧ x < width) (hy : 0 ≤ y ∧ y < height)
    (hp : canvas[cellIndex width x y]? = some p) :
    (Raster.encode canvas.channels width height format).texel x y = p.encoded format := by
  have hw : 0 ≤ width := Int.le_of_lt (Int.lt_of_le_of_lt hx.1 hx.2)
  have hh : 0 ≤ height := Int.le_of_lt (Int.lt_of_le_of_lt hy.1 hy.2)
  have hlt := Canvas.cellIndex_lt hx hy
  have hchannel (k : Nat) (hk : k < 4) :
      (Raster.encode canvas.channels width height format).texels.value (4 * cellIndex width x y + k) =
        format.keep (Raster.encodeValue format k (p.channel k)) := by
    have hsize : 4 * cellIndex width x y + k < dataLength width height := by
      rw [dataLength_eq hw hh]
      omega
    have hpixel : (4 * cellIndex width x y + k) / 4 = cellIndex width x y := by omega
    have hplace : (4 * cellIndex width x y + k) % 4 = k := by omega
    unfold Raster.encode
    rw [Texels.value_ofFn format _ hsize, Raster.encodeValue_mod, Array.getD_eq_getD_getElem?,
      Canvas.getElem?_channels, hpixel, hp, hplace]
    rfl
  rw [Raster.texel_eq _ hw hx.1 hy.1]
  show (⟨_, _, _, _⟩ : Pixel α) = p.encoded format
  unfold Pixel.encoded
  rw [Pixel.mk.injEq]
  exact ⟨hchannel 0 (by decide), hchannel 1 (by decide), hchannel 2 (by decide), hchannel 3 (by decide)⟩

/-! ## Placed layers -/

namespace Layer

variable {l : Layer Int α} {width height : Int}

omit [Channel α] [Stored α] [Transfer α] in
theorem Fits.placed {bottom : Bool} (h : l.Fits width height bottom) (hw : 0 ≤ width) (hh : 0 ≤ height) :
    ∃ x y columns rows : Nat, l.region width height = .placed (x : Int) y columns rows ∧ l.raster.width = columns ∧
      l.raster.height = rows ∧ (x : Int) + columns ≤ width ∧ (y : Int) + rows ≤ height := by
  have hregion := Direct.region_placed h hw hh
  obtain ⟨hx, hy, hrw, hrh, hxw, hyh⟩ := h.region
  refine ⟨_, _, _, _, hregion, ?_, ?_, ?_, ?_⟩
  · rw [Int.toNat_of_nonneg hrw, h.size.1]
  · rw [Int.toNat_of_nonneg hrh, h.size.2]
  · rw [Int.toNat_of_nonneg hx, Int.toNat_of_nonneg hrw]
    omega
  · rw [Int.toNat_of_nonneg hy, Int.toNat_of_nonneg hrh]
    omega

/-- The place in a layer of the texel that goes to a cell. -/
def sourceIndex (l : Layer Int α) (width height : Int) (cell : Int × Int) : Nat :=
  cellIndex l.raster.width (cell.1 - (l.region width height).x) (cell.2 - (l.region width height).y)

/-- The pixel that a layer puts to a cell of its placement. -/
def pixelAt (l : Layer Int α) (width height x y : Int) : Pixel α :=
  (l.raster.texel (x - (l.region width height).x) (y - (l.region width height).y)).decoded l.raster.format

/-- What folding a layer does to a canvas of this size. -/
structure Frames (l : Layer Int α) (width height : Int) (canvas canvas' : Canvas α) : Prop where
  size : canvas'.size = canvas.size
  inside : ∀ x y, (x, y) ∈ (l.region width height).cells →
    (0 ≤ x ∧ x < width) ∧ (0 ≤ y ∧ y < height) ∧ cellIndex width x y < canvas.size
  /-- Cells of the placement have places of their own. -/
  once : ((l.region width height).cells.map fun c => cellIndex width c.1 c.2).Nodup
  /-- Every texel is read, in reading order. -/
  reads : (l.region width height).cells.map (l.sourceIndex width height) =
    List.range (Canvas.ofRaster l.raster).size
  written : ∀ x y, (x, y) ∈ (l.region width height).cells → canvas'[cellIndex width x y]? =
    canvas[cellIndex width x y]?.map (Pixel.blend l.mode l.space (l.opacity.getD 1) · (l.pixelAt width height x y))
  kept : ∀ n, n ∉ (l.region width height).cells.map (fun c => cellIndex width c.1 c.2) → canvas'[n]? = canvas[n]?

end Layer

namespace Canvas

omit [Stored α] in
theorem size_blend (canvas source : Canvas α) (width : Int) (placement : Rectangle Int) (sourceWidth : Int)
    (mode : BlendMode) (space : ColorSpace) (opacity : α) :
    (canvas.blend width placement sourceWidth source mode space opacity).size = canvas.size :=
  List.foldlRecOn placement.cells _ (motive := fun c : Canvas α => c.size = canvas.size) rfl fun c hc _ _ => by
    rw [Array.size_modify, hc]

omit [Stored α] [Transfer α] in
theorem size_ofChannels (channels : Array α) : (ofChannels channels).size = channels.size / 4 := Array.size_ofFn

end Canvas

namespace Direct

variable {l base : Layer Int α} {width height : Int} {canvas : Canvas α}

theorem size_ofRaster (hv : l.Valid) :
    (Canvas.ofRaster l.raster).size = l.raster.width.toNat * l.raster.height.toNat := by
  unfold Canvas.ofRaster
  rw [Canvas.size_ofChannels, size_decode hv]
  omega

section
variable {w h x y columns rows : Nat}

omit [Channel α] [Stored α] [Transfer α] in
theorem mem_placed (hregion : l.region w h = .placed (x : Int) y columns rows) {a b : Int}
    (hc : (a, b) ∈ (l.region w h).cells) :
    ∃ i j : Nat, i < columns ∧ j < rows ∧ a = ((x + i : Nat) : Int) ∧ b = ((y + j : Nat) : Int) := by
  rw [hregion, Rectangle.cells_placed] at hc
  simp only [List.mem_flatMap, List.mem_map, List.mem_range, Prod.mk.injEq] at hc
  obtain ⟨j, hj, i, hi, rfl, rfl⟩ := hc
  exact ⟨i, j, hi, hj, rfl, rfl⟩

omit [Channel α] [Stored α] [Transfer α] in
/-- The texels of a layer lie in its cells as they lie in the layer. -/
theorem sourceIndex_placed (hregion : l.region w h = .placed (x : Int) y columns rows)
    (hcolumns : l.raster.width = columns) :
    (l.region w h).cells.map (l.sourceIndex w h) = List.range (rows * columns) := by
  have hcells : (l.region w h).cells = (List.range rows).flatMap fun j => (List.range columns).map fun i =>
      (((x + i : Nat) : Int), ((y + j : Nat) : Int)) := hregion ▸ Rectangle.cells_placed x y columns rows
  rw [hcells, List.map_flatMap, ← Rectangle.flatMap_rows]
  refine List.flatMap_congr fun j _ => ?_
  rw [List.map_map]
  refine List.map_congr_left fun i _ => ?_
  unfold Layer.sourceIndex
  rw [hregion, hcolumns, Function.comp_apply]
  show cellIndex (columns : Int) (((x + i : Nat) : Int) - (x : Int)) (((y + j : Nat) : Int) - (y : Int)) = _
  have hi : ((x + i : Nat) : Int) - (x : Int) = (i : Int) := by omega
  have hj : ((y + j : Nat) : Int) - (y : Int) = (j : Int) := by omega
  rw [hi, hj, Canvas.cellIndex_eq]

theorem pixelAt_placed (hv : l.Valid) (hregion : l.region w h = .placed (x : Int) y columns rows)
    (hcolumns : l.raster.width = columns) (hrows : l.raster.height = rows) {i j : Nat} (hi : i < columns)
    (hj : j < rows) :
    (Canvas.ofRaster l.raster).getD (j * columns + i) Canvas.transparent =
      l.pixelAt w h ((x + i : Nat) : Int) ((y + j : Nat) : Int) := by
  have hplace : cellIndex l.raster.width (i : Int) (j : Int) = j * columns + i := by
    rw [hcolumns, Canvas.cellIndex_eq]
  have hlt : cellIndex l.raster.width (i : Int) (j : Int) < l.raster.width.toNat * l.raster.height.toNat :=
    Canvas.cellIndex_lt (by omega) (by omega)
  rw [Array.getD_eq_getD_getElem?, ← hplace, ofRaster_stored hv _ hlt, Option.getD_some]
  dsimp only
  rw [Texels.linear_stored l.raster (x := i) (y := j) (by omega) (by omega) (by omega)]
  unfold Layer.pixelAt
  rw [hregion]
  show _ = (l.raster.texel (((x + i : Nat) : Int) - (x : Int)) (((y + j : Nat) : Int) - (y : Int))).decoded _
  have hi : ((x + i : Nat) : Int) - (x : Int) = (i : Int) := by omega
  have hj : ((y + j : Nat) : Int) - (y : Int) = (j : Int) := by omega
  rw [hi, hj]

end

theorem blendLayer_frames (hw : 0 ≤ width) (hh : 0 ≤ height) (hv : l.Valid) (hfit : l.Fits width height false)
    (hsize : canvas.size = width.toNat * height.toNat) :
    l.Frames width height canvas (blendLayer width canvas (l, l.region width height)) := by
  obtain ⟨x, y, columns, rows, hregion, hcolumns, hrows, hx, hy⟩ := hfit.placed hw hh
  -- over natural sizes the cells are counted by `omega`
  obtain ⟨w, rfl⟩ := Int.eq_ofNat_of_zero_le hw
  obtain ⟨h, rfl⟩ := Int.eq_ofNat_of_zero_le hh
  have hreads := sourceIndex_placed hregion hcolumns
  have hdistinct : (l.region w h).cells.Nodup := List.Nodup.of_map (l.sourceIndex w h) (hreads ▸ List.nodup_range)
  have hblend (n : Nat) := @Canvas.getElem?_blend _ _ _ canvas (.ofRaster l.raster) w x y columns rows
    columns n l.mode l.space (l.opacity.getD 1) (by omega)
  rw [← hregion, ← hcolumns] at hblend
  refine ⟨Canvas.size_blend .., fun a b hc => ?_, ?_, ?_, fun a b hc => ?_, fun n hn => ?_⟩
  · obtain ⟨i, j, hi, hj, rfl, rfl⟩ := mem_placed hregion hc
    have hx' : 0 ≤ ((x + i : Nat) : Int) ∧ ((x + i : Nat) : Int) < w := by omega
    have hy' : 0 ≤ ((y + j : Nat) : Int) ∧ ((y + j : Nat) : Int) < h := by omega
    exact ⟨hx', hy', hsize ▸ Canvas.cellIndex_lt hx' hy'⟩
  · refine List.Nodup.map_on ?_ hdistinct
    rintro ⟨a, b⟩ hc ⟨a', b'⟩ hc' heq
    obtain ⟨i, j, hi, hj, rfl, rfl⟩ := mem_placed hregion hc
    obtain ⟨i', j', hi', hj', rfl, rfl⟩ := mem_placed hregion hc'
    obtain ⟨ha, hb⟩ := Canvas.cellIndex_inj (by omega) (by omega) (by omega) (by omega) heq
    exact Prod.ext ha hb
  · rw [hreads, size_ofRaster hv, hcolumns, hrows, Int.toNat_natCast, Int.toNat_natCast, Nat.mul_comm]
  · obtain ⟨i, j, hi, hj, rfl, rfl⟩ := mem_placed hregion hc
    obtain ⟨hrow, hcol, hcol'⟩ := (@mem_row w ((y + j) * w + (x + i)) (y + j) (x + i) 1 (by omega)).mp (by omega)
    have hpixel := pixelAt_placed hv hregion hcolumns hrows hi hj
    have hi : ((y + j) * w + (x + i)) % w - x = i := by omega
    have hj : y + j - y = j := by omega
    unfold blendLayer
    dsimp only
    rw [Canvas.cellIndex_eq, hblend, hrow, if_pos (by omega), hi, hj, hpixel]
  · -- a place of no cell of the placement is kept
    unfold blendLayer
    dsimp only
    rw [hblend, if_neg fun hc => hn ?_]
    refine List.mem_map.mpr ⟨(((n % w : Nat) : Int), ((n / w : Nat) : Int)), ?_, ?_⟩
    · rw [Rectangle.mem_cells, hregion]
      show ((x : Int) ≤ _ ∧ _ < (x : Int) + columns) ∧ (y : Int) ≤ _ ∧ _ < (y : Int) + rows
      omega
    · rw [Canvas.cellIndex_eq, Nat.mul_comm]
      exact Nat.div_add_mod n w

end Direct

/-! ## Stacks -/

namespace Layer

variable {l l' : Layer Int α} {width height x y : Int}

/-- What a layer makes of the pixel below. -/
def atop (width height x y : Int) (below : Pixel α) (l : Layer Int α) : Pixel α :=
  if (l.region width height).Covers x y then
    Pixel.blend l.mode l.space (l.opacity.getD 1) below (l.pixelAt width height x y)
  else below

/-- Layers that differ in their texels at most. -/
structure Alike (l l' : Layer Int α) : Prop where
  size : l'.raster.width = l.raster.width ∧ l'.raster.height = l.raster.height
  format : l'.raster.format = l.raster.format
  blending : l'.mode = l.mode ∧ l'.space = l.space ∧ l'.opacity = l.opacity
  placement : l'.placement = l.placement

/-- Layers that are alike and put one texel, if any, to a cell of the canvas. -/
structure AlikeAt (width height x y : Int) (l l' : Layer Int α) : Prop where
  alike : l.Alike l'
  texel : (l.region width height).Covers x y →
    l'.raster.texel (x - (l.region width height).x) (y - (l.region width height).y) =
      l.raster.texel (x - (l.region width height).x) (y - (l.region width height).y)

omit [Stored α] [Transfer α] [Channel α] in
theorem AllFit.of_mem {layers : List (Layer Int α)} (h : AllFit width height false layers) :
    ∀ l ∈ layers, l.Fits width height false := by
  induction layers with
  | nil => exact fun l hl => absurd hl List.not_mem_nil
  | cons l layers ih => exact List.forall_mem_cons.mpr ⟨h.1, ih h.2⟩

theorem AlikeAt.atop_eq (h : l.AlikeAt width height x y l') (below : Pixel α) :
    atop width height x y below l' = atop width height x y below l := by
  have hregion : l'.region width height = l.region width height := by
    unfold region
    rw [h.alike.placement]
  obtain ⟨hmode, hspace, hopacity⟩ := h.alike.blending
  unfold atop pixelAt
  rw [hregion, hmode, hspace, hopacity, h.alike.format]
  split
  · rename_i hcovers
    rw [h.texel hcovers]
  · rfl

theorem foldl_alike {layers layers' : List (Layer Int α)}
    (h : List.Forall₂ (AlikeAt width height x y) layers layers') (below : Pixel α) :
    layers'.foldl (atop width height x y) below = layers.foldl (atop width height x y) below := by
  induction h generalizing below with
  | nil => rfl
  | cons h _ ih =>
    rw [List.foldl_cons, List.foldl_cons, h.atop_eq]
    exact ih _

theorem Frames.getElem?_atop {canvas canvas' : Canvas α} {below : Pixel α}
    (h : l.Frames width height canvas canvas') (hx : 0 ≤ x ∧ x < width) (hy : 0 ≤ y ∧ y < height)
    (hbelow : canvas[cellIndex width x y]? = some below) :
    canvas'[cellIndex width x y]? = some (atop width height x y below l) := by
  unfold atop
  split
  · rename_i hcovers
    rw [h.written x y (Rectangle.mem_cells.mpr hcovers), hbelow]
    rfl
  · rename_i houtside
    rw [h.kept _ fun hmem => houtside ?_, hbelow]
    obtain ⟨⟨a, b⟩, hcell, hplace⟩ := List.mem_map.mp hmem
    obtain ⟨ha, hb, -⟩ := h.inside a b hcell
    obtain ⟨rfl, rfl⟩ := Canvas.cellIndex_inj ha hb.1 hx hy.1 hplace
    exact Rectangle.mem_cells.mp hcell

end Layer

namespace Direct

variable {base : Layer Int α} {rest : List (Layer Int α)} {x y : Int}

theorem size_folded (hv : base.Valid) :
    (folded base rest).size = base.raster.width.toNat * base.raster.height.toNat := by
  have hbase : (loadBase base).size = base.raster.width.toNat * base.raster.height.toNat := by
    unfold loadBase
    rw [Array.size_map, size_ofRaster hv]
  exact List.foldlRecOn _ _
    (motive := fun c : Canvas α => c.size = base.raster.width.toNat * base.raster.height.toNat) hbase
    fun c hc _ _ => by
      unfold blendLayer
      rw [Canvas.size_blend, hc]

theorem folded_concat (base : Layer Int α) (before : List (Layer Int α)) (l : Layer Int α) :
    folded base (before ++ [l]) =
      blendLayer base.raster.width (folded base before) (l, l.region base.raster.width base.raster.height) := by
  unfold folded
  rw [List.map_append, List.foldl_append]
  rfl

/-- Every layer of a stack frames what the layers below it left. -/
theorem folded_frames (hbase : base.Valid) (hv : ∀ l ∈ rest, l.Valid)
    (hfit : Layer.AllFit base.raster.width base.raster.height false rest) {before after : List (Layer Int α)}
    {l : Layer Int α} (hrest : rest = before ++ l :: after) :
    l.Frames base.raster.width base.raster.height (folded base before) (folded base (before ++ [l])) := by
  have hmem : l ∈ rest := by
    rw [hrest]
    exact List.mem_append_right _ (List.mem_cons_self ..)
  rw [folded_concat]
  exact blendLayer_frames (Int.le_of_lt hbase.positive.1) (Int.le_of_lt hbase.positive.2) (hv l hmem)
    (hfit.of_mem l hmem) (size_folded hbase)

theorem folded_at (hbase : base.Valid) (hv : ∀ l ∈ rest, l.Valid)
    (hfit : Layer.AllFit base.raster.width base.raster.height false rest) (hx : 0 ≤ x ∧ x < base.raster.width)
    (hy : 0 ≤ y ∧ y < base.raster.height) :
    (folded base rest)[cellIndex base.raster.width x y]? =
      some (rest.foldl (Layer.atop base.raster.width base.raster.height x y)
        (Pixel.load (base.opacity.getD 1) ((base.raster.texel x y).decoded base.raster.format))) := by
  have hprefix (before after : List (Layer Int α)) (hrest : rest = before ++ after) :
      (folded base before)[cellIndex base.raster.width x y]? =
        some (before.foldl (Layer.atop base.raster.width base.raster.height x y)
          (Pixel.load (base.opacity.getD 1) ((base.raster.texel x y).decoded base.raster.format))) := by
    induction before using List.reverseRecOn generalizing after with
    | nil =>
      show (loadBase base)[_]? = some (Pixel.load _ _)
      unfold loadBase
      rw [Array.getElem?_map, ofRaster_stored hbase _ (Canvas.cellIndex_lt hx hy), Option.map_some]
      dsimp only
      rw [Texels.linear_stored base.raster (by omega) hx.1 hy.1]
    | append_singleton before l ih =>
      have hrest : rest = before ++ l :: after := by simpa using hrest
      rw [(folded_frames hbase hv hfit hrest).getElem?_atop hx hy (ih _ hrest), List.foldl_append]
      rfl
  exact hprefix rest [] (List.append_nil rest).symm

/-- What is accepted is a stack whose layers fit, and is answered by its canvas. -/
theorem compositeDirect_ok [Channel.Ordered α] {stack options : Value α} {out : Raster Int α} :
    compositeDirect stack options = .ok out ↔ ∃ base rest os, parseLayers stack = .ok (base :: rest) ∧
      parseOptions options = .ok os ∧ Layer.AllFit base.raster.width base.raster.height true (base :: rest) ∧
      out = Raster.encode (folded base rest).channels base.raster.width base.raster.height
        (os.outputFormat.getD base.raster.format) := by
  unfold compositeDirect
  constructor
  · intro h
    cases hlayers : parseLayers (ν := Int) stack with
    | error failure =>
      rw [hlayers] at h
      cases h
    | ok layers =>
      cases hoptions : parseOptions options with
      | error failure =>
        rw [hlayers, hoptions] at h
        cases h
      | ok os =>
        rw [hlayers, hoptions] at h
        have h : Direct.composite layers os.outputFormat = .ok out := h
        obtain ⟨hne, hvalid⟩ := parseLayers_valid hlayers
        obtain ⟨base, rest, rfl⟩ := List.exists_cons_of_ne_nil hne
        have hbase := hvalid base (List.mem_cons_self ..)
        by_cases hfit : Layer.AllFit base.raster.width base.raster.height true (base :: rest)
        · rw [composite_fits _ hbase hfit] at h
          cases h
          exact ⟨base, rest, os, rfl, rfl, hfit, rfl⟩
        · obtain ⟨failure, hfailure, -⟩ := composite_misfit os.outputFormat hbase hfit
          rw [hfailure] at h
          cases h
  · rintro ⟨base, rest, os, hlayers, hoptions, hfit, rfl⟩
    rw [hlayers, hoptions]
    exact composite_fits _ ((parseLayers_valid hlayers).2 base (List.mem_cons_self ..)) hfit

theorem composite_folded [Channel.Ordered α] {stack options : Value α} {out : Raster Int α}
    (h : compositeDirect stack options = .ok out) : ∃ base rest, parseLayers stack = .ok (base :: rest) ∧
      base.Valid ∧ (∀ l ∈ rest, l.Valid) ∧ Layer.AllFit base.raster.width base.raster.height false rest ∧
      out = Raster.encode (folded base rest).channels base.raster.width base.raster.height out.format := by
  obtain ⟨base, rest, os, hlayers, -, hfit, rfl⟩ := compositeDirect_ok.mp h
  obtain ⟨hbase, hrest⟩ := List.forall_mem_cons.mp (parseLayers_valid hlayers).2
  refine ⟨base, rest, hlayers, hbase, hrest, hfit.2, ?_⟩
  unfold Raster.format Raster.encode
  rw [Texels.format_ofFn]

/-- In an accepted stack every later layer frames the canvas below it. A texel of the result depends on no other
texel of the layers than those that they put there. -/
theorem composite_framed [Channel.Ordered α] {stack options : Value α} {out : Raster Int α}
    (h : compositeDirect stack options = .ok out) : ∃ base rest, parseLayers stack = .ok (base :: rest) ∧
      (∀ before l after, rest = before ++ l :: after →
        l.Frames base.raster.width base.raster.height (folded base before) (folded base (before ++ [l]))) ∧
      out = Raster.encode (folded base rest).channels base.raster.width base.raster.height out.format ∧
      ∀ stack' options' out' base' rest', compositeDirect stack' options' = .ok out' →
        parseLayers stack' = .ok (base' :: rest') → out'.format = out.format → base.Alike base' →
        ∀ x y, 0 ≤ x ∧ x < base.raster.width → 0 ≤ y ∧ y < base.raster.height →
          base'.raster.texel x y = base.raster.texel x y →
          List.Forall₂ (Layer.AlikeAt base.raster.width base.raster.height x y) rest rest' →
          out'.texel x y = out.texel x y := by
  obtain ⟨base, rest, hparsed, hbase, hv, hfit, hout⟩ := composite_folded h
  refine ⟨base, rest, hparsed, fun before l after hrest => folded_frames hbase hv hfit hrest, hout, ?_⟩
  intro stack' options' out' base' rest' h' hparsed' hformat halike x y hx hy htexel hrest
  obtain ⟨_, _, hsame, hbase', hv', hfit', hout'⟩ := composite_folded h'
  cases hparsed'.symm.trans hsame
  obtain ⟨hwidth, hheight⟩ := halike.size
  have hx' : 0 ≤ x ∧ x < base'.raster.width := hwidth ▸ hx
  have hy' : 0 ≤ y ∧ y < base'.raster.height := hheight ▸ hy
  have hcell := folded_at hbase' hv' hfit' hx' hy'
  rw [hwidth, hheight, htexel, halike.format, halike.blending.2.2, Layer.foldl_alike hrest,
    ← folded_at hbase hv hfit hx hy] at hcell
  rw [hout, hout', hwidth, hheight, hformat, Raster.texel_encode _ hx hy (folded_at hbase hv hfit hx hy),
    Raster.texel_encode _ hx hy (hcell.trans (folded_at hbase hv hfit hx hy))]

end Direct

end

/-! ### Stacks of two columns that differ in the left one -/

namespace Striped

def lower (left : Rat) : Array Rat := #[left, 0, 0, 1, 1 / 2, 1, 0, 1]
def upper (left : Rat) : Array Rat := #[0, left, 0, 1 / 4, 1, 1 / 3, 0, 1 / 2]

def base (left : Rat) : Layer Int Rat := ⟨⟨2, 1, .float32 (lower left)⟩, .multiply, .linear, none, none⟩

/-- A layer of both columns and one of the right column. -/
def rest (left : Rat) : List (Layer Int Rat) :=
  [⟨⟨2, 1, .float32 (upper left)⟩, .multiply, .linear, none, none⟩,
    ⟨⟨1, 1, .float32 #[1 / 2, 1, 1, 1]⟩, .multiply, .linear, none, some ⟨1, 0, 2, 1⟩⟩]

def layer (width : Rat) (data : Array Rat) (placement : Value Rat) : Value Rat :=
  .object [("buffer", .object [("width", .number width), ("height", .number 1), ("format", .string "rgba32float"),
    ("data", .singles data)]), ("mode", .string "multiply"), ("space", .string "linear"), ("placement", placement)]

def stack (left : Rat) : Value Rat :=
  .array [layer 2 (lower left) .undefined, layer 2 (upper left) .undefined,
    layer 1 #[1 / 2, 1, 1, 1]
      (.object [("x", .number 1), ("y", .number 0), ("maxX", .number 2), ("maxY", .number 1)])]

theorem parsed : parseLayers (stack 1) = .ok (base 1 :: rest 1) ∧
    parseLayers (stack (1 / 2)) = .ok (base (1 / 2) :: rest (1 / 2)) := by decide +kernel

theorem alike_base : (base 1).Alike (base (1 / 2)) := ⟨⟨rfl, rfl⟩, rfl, ⟨rfl, rfl, rfl⟩, rfl⟩

theorem alike_rest : List.Forall₂ (Layer.AlikeAt 2 1 1 0) (rest 1) (rest (1 / 2)) :=
  .cons ⟨⟨⟨rfl, rfl⟩, rfl, ⟨rfl, rfl, rfl⟩, rfl⟩, fun _ => by decide +kernel⟩
    (.cons ⟨⟨⟨rfl, rfl⟩, rfl, ⟨rfl, rfl, rfl⟩, rfl⟩, fun _ => rfl⟩ .nil)

end Striped

open Striped in
theorem composite_framed_striped : ∃ out out' : Raster Int Rat, compositeDirect (stack 1) (.object []) = .ok out ∧
    compositeDirect (stack (1 / 2)) (.object []) = .ok out' ∧ out'.format = out.format ∧
    out'.texel 0 0 ≠ out.texel 0 0 ∧ out'.texel 1 0 = out.texel 1 0 := by
  have hdiffer : ∃ out out' : Raster Int Rat, compositeDirect (stack 1) (.object []) = .ok out ∧
      compositeDirect (stack (1 / 2)) (.object []) = .ok out' ∧ out'.format = out.format ∧
      out'.texel 0 0 ≠ out.texel 0 0 :=
    ⟨⟨2, 1, .float32 #[3 / 4, 0, 0, 1, 1 / 4, 2 / 3, 0, 1]⟩, ⟨2, 1, .float32 #[3 / 8, 0, 0, 1, 1 / 4, 2 / 3, 0, 1]⟩,
      by decide +kernel⟩
  obtain ⟨out, out', h, h', hformat, hleft⟩ := hdiffer
  obtain ⟨_, _, hparsed, -, -, hagree⟩ := Direct.composite_framed h
  cases parsed.1.symm.trans hparsed
  exact ⟨out, out', h, h', hformat, hleft, hagree _ _ out' _ _ h' parsed.2 hformat alike_base 1 0 (by decide)
    (by decide) (by decide +kernel) alike_rest⟩

end Strata
