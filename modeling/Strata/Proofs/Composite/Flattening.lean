import Strata.Proofs.Color.Ranges
import Strata.Proofs.Composite.Frames

/-!
# Flattening a stack from below

Loading and blending leave channels of the unit interval, which storing as floats and loading again keep. So a
canvas that was stored and loaded again is the same canvas (`loadBase_flat`), and any number of the lower layers of
a stack may be replaced by their composite (`composite_flattens`).
-/

namespace Strata

variable {α : Type} [Channel α]

/-! ## Channels on the unit interval -/

def Pixel.Ranged (p : Pixel α) : Prop := ∀ c ∈ p.channels, InUnit c

theorem Pixel.ranged_iff {p : Pixel α} : p.Ranged ↔ InUnit p.r ∧ InUnit p.g ∧ InUnit p.b ∧ InUnit p.a := by
  simp [Ranged, channels]

def Canvas.Ranged (canvas : Canvas α) : Prop := ∀ p ∈ canvas, p.Ranged

section
variable (K : Type) [Field K] [LinearOrder K] [IsStrictOrderedRing K] [Channel.Exact α K]
include K

theorem Channel.Exact.ordered : Channel.Ordered α where
  ofNat_zero := by rw [Channel.Exact.ofNat (K := K), Nat.cast_zero, Channel.Exact.zero]
  ofNat_one := by rw [Channel.Exact.ofNat (K := K), Nat.cast_one, Channel.Exact.one]
  zero_le_one := (inUnit_one K).nonneg
  one_le_one := (inUnit_one K).le_one
  integer_pos x n hx hn := by
    rw [(Channel.Exact.integer (K := K) x n).mp hn, number_pos] at hx
    exact_mod_cast hx

theorem ranged_load (opacity : α) (p : Pixel α) : (Pixel.load opacity p).Ranged :=
  Pixel.ranged_iff.mpr ⟨inUnit_clampUnit K _, inUnit_clampUnit K _, inUnit_clampUnit K _,
    inUnit_effectiveAlpha K _ _⟩

theorem load_of_ranged {p : Pixel α} (h : p.Ranged) : Pixel.load 1 p = p := by
  obtain ⟨hr, hg, hb, ha⟩ := Pixel.ranged_iff.mp h
  simp only [Pixel.load, effectiveAlpha_one K, clampUnit_of_inUnit K hr, clampUnit_of_inUnit K hg,
    clampUnit_of_inUnit K hb, clampUnit_of_inUnit K ha]

variable [Transfer α] [Transfer.Bounded α]

theorem Canvas.Ranged.blend {canvas : Canvas α} (h : canvas.Ranged) (width : Int) (placement : Rectangle Int)
    (sourceWidth : Int) (source : Canvas α) (mode : BlendMode) (space : ColorSpace) (opacity : α) :
    (canvas.blend width placement sourceWidth source mode space opacity).Ranged := by
  refine List.foldlRecOn _ _ h fun canvas hc cell _ p hp => ?_
  obtain ⟨n, hn⟩ := Array.mem_iff_getElem?.mp hp
  rw [Array.getElem?_modify] at hn
  split at hn
  · obtain ⟨q, -, rfl⟩ := Option.map_eq_some_iff.mp hn
    exact inUnit_blend K mode space opacity q _
  · exact hc p (Array.mem_iff_getElem?.mpr ⟨n, hn⟩)

variable [Stored α]

theorem ranged_folded (base : Layer Int α) (rest : List (Layer Int α)) : (Direct.folded base rest).Ranged := by
  have hbase : (Direct.loadBase base).Ranged := by
    intro p hp
    obtain ⟨q, -, rfl⟩ := Array.mem_map.mp hp
    exact ranged_load K _ q
  exact List.foldlRecOn _ _ hbase fun canvas hc placed _ => hc.blend K _ _ _ _ _ _ _

end

/-! ## Storing as floats -/

section
variable {canvas : Canvas α} {width height : Int}

omit [Channel α] in
theorem Canvas.size_channels (canvas : Canvas α) : canvas.channels.size = 4 * canvas.size := by
  unfold channels
  rw [← Array.length_toList, Array.toList_flatMap, List.length_flatMap]
  simp [Nat.mul_comm]

theorem Canvas.Ranged.channels (h : canvas.Ranged) : ∀ c ∈ canvas.channels, InUnit c := by
  intro c hc
  obtain ⟨p, hp, hcp⟩ := Array.mem_flatMap.mp hc
  exact h p hp c (by simpa [Pixel.channels] using hcp)

theorem Canvas.ofChannels_channels (canvas : Canvas α) : ofChannels canvas.channels = canvas := by
  have hsize := canvas.size_channels
  refine Array.ext (by simp [ofChannels, hsize]) fun n hn hn' => ?_
  have hpart (k : Nat) (hk : k < 4) : canvas.channels.getD (4 * n + k) 0 = canvas[n].channel k := by
    have hdiv : (4 * n + k) / 4 = n := by omega
    have hmod : (4 * n + k) % 4 = k := by omega
    rw [Array.getD_eq_getD_getElem?, getElem?_channels, hdiv, hmod, Array.getElem?_eq_getElem hn']
    rfl
  have hpixel : (ofChannels canvas.channels)[n]? = some canvas[n] := by
    rw [getElem?_ofChannels _ (by omega)]
    exact congrArg some ((Pixel.mk.injEq ..).mpr
      ⟨hpart 0 (by decide), hpart 1 (by decide), hpart 2 (by decide), hpart 3 (by decide)⟩)
  exact Option.some.inj ((Array.getElem?_eq_getElem hn).symm.trans hpixel)

omit [Channel α] in
theorem dataLength_channels (hsize : canvas.size = width.toNat * height.toNat) (hw : 0 ≤ width) (hh : 0 ≤ height) :
    dataLength width height = canvas.channels.size := by
  rw [dataLength_eq hw hh, canvas.size_channels, hsize]

variable [Stored α] [Stored.Lossless α] (K : Type) [Field K] [LinearOrder K] [IsStrictOrderedRing K]
  [Channel.Exact α K]
include K

theorem ofFn_channels (hcanvas : canvas.Ranged) {n : Nat} (hn : n = canvas.channels.size) :
    Array.ofFn (fun i : Fin n => Stored.round (clampUnit (canvas.channels.getD i 0))) = canvas.channels := by
  subst hn
  refine Array.ext (by simp) fun i hi hi' => ?_
  have hrange := hcanvas.channels _ (Array.getElem_mem hi')
  rw [Array.getElem_ofFn, Stored.Lossless.round_eq, Array.getD_eq_getD_getElem?, Array.getElem?_eq_getElem hi',
    Option.getD_some, clampUnit_of_inUnit K hrange]

variable [Transfer α] (hcanvas : canvas.Ranged) (hsize : canvas.size = width.toNat * height.toNat) (hw : 0 ≤ width)
  (hh : 0 ≤ height)
include hcanvas hsize hw hh

theorem encode_float32 :
    Raster.encode canvas.channels width height .float32 = ⟨width, height, .float32 canvas.channels⟩ :=
  congrArg (fun values => Raster.mk width height (.float32 values))
    (ofFn_channels K hcanvas (dataLength_channels hsize hw hh))

theorem ofRaster_float32 : Canvas.ofRaster (Raster.mk width height (.float32 canvas.channels)) = canvas := by
  have hdecode : (Raster.mk width height (.float32 canvas.channels)).decode = canvas.channels :=
    ofFn_channels K hcanvas (dataLength_channels hsize hw hh)
  unfold Canvas.ofRaster
  rw [hdecode, Canvas.ofChannels_channels]

end

/-! ## A raster as a layer -/

def Texels.given : Texels α → Value α
  | srgb8 bytes | unorm8 bytes => .bytes bytes
  | float32 values => .singles values

def Raster.given (raster : Raster Int α) : Value α :=
  .object [("width", .number (Channel.ofNat raster.width.toNat)),
    ("height", .number (Channel.ofNat raster.height.toNat)),
    ("format", .string raster.format.name), ("data", raster.texels.given)]

/-- A raster as a layer without a placement. -/
def Raster.layer (raster : Raster Int α) (mode : BlendMode) (space : ColorSpace) (opacity : Value α) : Value α :=
  .object [("buffer", raster.given), ("mode", .string mode.name), ("space", .string space.name),
    ("opacity", opacity)]

namespace Value

theorem texels?_given (raster : Raster Int α) : raster.given.texels? = some raster.texels := by
  obtain ⟨width, height, texels⟩ := raster
  cases texels <;> rfl

section
variable (K : Type) [Field K] [LinearOrder K] [IsStrictOrderedRing K] [Channel.Exact α K]
include K

theorem isNaN_ofNat (n : Nat) : Channel.isNaN (Channel.ofNat n : α) = false := by
  simp [Channel.isNaN, Channel.Exact.ofNat (K := K)]

theorem integer?_ofNat (n : Nat) : Channel.integer? (Channel.ofNat n : α) = some (n : Int) := by
  rw [Channel.Exact.integer (K := K), Channel.Exact.ofNat (K := K), Int.cast_natCast]

theorem checkDimension_ofNat {n : Nat} (h : 0 < n) :
    checkDimension (.number (Channel.ofNat n : α)) = .ok (Channel.ofNat n) := by
  have hpos : (0 : α) < Channel.ofNat n := by
    rw [Channel.Exact.ofNat (K := K), number_pos]
    exact_mod_cast h
  simp [checkDimension, checkNumber, isNaN_ofNat K, isIntegral, isPositive, integer?_ofNat K, hpos]

theorem checkCount_ofNat {w h count : Nat} (hcount : count = w * h * 4) :
    checkCount (Channel.ofNat w : α) (Channel.ofNat h) count = [] := by
  have hmatch : (channelCount (w : Int) (h : Int) == (count : Int)) = true := by
    rw [beq_iff_eq, hcount]
    push_cast
    rfl
  simp [checkCount, integer?_ofNat K, hmatch]

theorem measureOf_ofNat (n : Nat) : (measureOf (Channel.ofNat n : α) : Int) = n := by
  simp [measureOf, integerOf, integer?_ofNat K, Measure.ofInt]

theorem checkRaster_given {raster : Raster Int α} (hpos : 0 < raster.width ∧ 0 < raster.height)
    (hcount : (raster.texels.size : Int) = raster.width * raster.height * 4) :
    checkRaster raster.given = .ok raster := by
  obtain ⟨width, height, texels⟩ := raster
  obtain ⟨hw, hh⟩ := hpos
  obtain ⟨w, rfl⟩ := Int.eq_ofNat_of_zero_le (Int.le_of_lt hw)
  obtain ⟨h, rfl⟩ := Int.eq_ofNat_of_zero_le (Int.le_of_lt hh)
  have hcount : (texels.size : Int) = w * h * 4 := hcount
  have hsize : texels.size = w * h * 4 := by exact_mod_cast hcount
  have hwidth : (Raster.mk (w : Int) (h : Int) texels).given.field "width" = .number (Channel.ofNat w) := rfl
  have hheight : (Raster.mk (w : Int) (h : Int) texels).given.field "height" = .number (Channel.ofNat h) := rfl
  unfold checkRaster checkField
  rw [texels?_given, hwidth, hheight]
  simp [isNaN_ofNat K, checkDimension_ofNat K (Int.natCast_pos.mp hw),
    checkDimension_ofNat K (Int.natCast_pos.mp hh),
    Checked.within, Checked.map, Checked.both, Checked.issues, checkCount_ofNat K hsize, measureOf_ofNat K]

theorem checkOpacity_full {opacity : Value α} (h : opacity = .undefined ∨ opacity = .number 1) :
    ∃ o : Option α, opacity.optional checkOpacity = .ok o ∧ o.getD 1 = 1 := by
  obtain rfl | rfl := h
  · exact ⟨none, rfl, rfl⟩
  · have hone := inUnit_one (α := α) K
    have hnan : Channel.isNaN (1 : α) = false := by
      rw [← Channel.Exact.one (K := K)]
      simp [Channel.isNaN]
    refine ⟨some 1, ?_, rfl⟩
    have hordered := Channel.Exact.ordered (α := α) K
    simp [Value.optional, isUndefined, checkOpacity, checkNumber, hnan, isAtLeast, isAtMost,
      Channel.Ordered.ofNat_zero, Channel.Ordered.ofNat_one, hone.nonneg, hone.le_one, Checked.map]

theorem checkLayer_layer (raster : Raster Int α) (hpos : 0 < raster.width ∧ 0 < raster.height)
    (hcount : (raster.texels.size : Int) = raster.width * raster.height * 4) (mode : BlendMode) (space : ColorSpace)
    {opacity : Value α} (h : opacity = .undefined ∨ opacity = .number 1) :
    ∃ o : Option α, checkLayer (raster.layer mode space opacity) = .ok ⟨raster, mode, space, o, none⟩ ∧
    o.getD 1 = 1 := by
  obtain ⟨o, hopacity, hfull⟩ := checkOpacity_full K h
  refine ⟨o, ?_, hfull⟩
  have hmode : checkMode (.string mode.name : Value α) = .ok mode := by
    simp [checkMode, checkName, BlendMode.ofName?_name]
  have hspace : checkSpace (.string space.name : Value α) = .ok space := by
    simp [checkSpace, checkName, ColorSpace.ofName?_name]
  show (((((((checkRaster raster.given).within _).map Layer.mk).both
    ((checkMode (.string mode.name)).within _)).both
    ((checkSpace (.string space.name)).within _)).both ((opacity.optional checkOpacity).within _)).both
    ((optional .undefined checkRectangle).within _)) = _
  rw [checkRaster_given K hpos hcount, hmode, hspace, hopacity]
  rfl

end

end Value

/-! ## Stacks -/

namespace Layer

omit [Channel α] in
theorem allFit_append {width height : Int} {lower upper : List (Layer Int α)} :
    AllFit width height false (lower ++ upper) ↔ AllFit width height false lower ∧
    AllFit width height false upper := by
  induction lower with
  | nil => simp [AllFit]
  | cons l lower ih => simp [AllFit, ih, and_assoc]

end Layer

namespace Direct

variable [Stored α] [Transfer α] {base : Layer Int α} {lower : List (Layer Int α)}

/-- The composite of some layers, as memory holds it. -/
def flat (base : Layer Int α) (lower : List (Layer Int α)) : Raster Int α :=
  ⟨base.raster.width, base.raster.height, .float32 (folded base lower).channels⟩

theorem size_flat (hv : base.Valid) :
    ((flat base lower).texels.size : Int) = (flat base lower).width * (flat base lower).height * 4 := by
  obtain ⟨hw, hh⟩ := hv.positive
  show ((folded base lower).channels.size : Int) = base.raster.width * base.raster.height * 4
  rw [Canvas.size_channels, size_folded hv]
  push_cast
  rw [Int.toNat_of_nonneg (Int.le_of_lt hw), Int.toNat_of_nonneg (Int.le_of_lt hh)]
  ring

variable [Stored.Lossless α] [Transfer.Bounded α] (K : Type) [Field K] [LinearOrder K] [IsStrictOrderedRing K]
  [Channel.Exact α K] (hv : base.Valid)
include K

section
include hv

theorem encode_folded : Raster.encode (folded base lower).channels base.raster.width base.raster.height .float32 =
    flat base lower :=
  encode_float32 K (ranged_folded K base lower) (size_folded hv) (Int.le_of_lt hv.positive.1)
    (Int.le_of_lt hv.positive.2)

theorem loadBase_flat {mode : BlendMode} {space : ColorSpace} {o : Option α} (ho : o.getD 1 = 1) :
    loadBase ⟨flat base lower, mode, space, o, none⟩ = folded base lower := by
  have hranged := ranged_folded K base lower
  have hraster : Canvas.ofRaster (flat base lower) = folded base lower :=
    ofRaster_float32 K hranged (size_folded hv) (Int.le_of_lt hv.positive.1) (Int.le_of_lt hv.positive.2)
  unfold loadBase
  rw [hraster, ho]
  exact (Array.map_congr_left fun p hp => load_of_ranged K (hranged p hp)).trans (Array.map_id' _)

theorem folded_flat {mode : BlendMode} {space : ColorSpace} {o : Option α} (ho : o.getD 1 = 1)
    (upper : List (Layer Int α)) :
    folded ⟨flat base lower, mode, space, o, none⟩ upper = folded base (lower ++ upper) := by
  unfold folded
  rw [loadBase_flat K hv ho, List.map_append, List.foldl_append]
  rfl

end

/-- Of an accepted stack, any number of the lower layers may be replaced by their composite: the results are the
same in every format that is asked for. -/
theorem composite_flattens {before after : List (Value α)} {options floating : Value α} {out : Raster Int α}
    {os : CompositeOptions} (h : compositeDirect (.array (before ++ after)) options = .ok out)
    (hbefore : before ≠ []) (hfloating : parseOptions floating = .ok os)
    (hformat : os.outputFormat = some .float32) :
    ∃ flat : Raster Int α, compositeDirect (.array before) floating = .ok flat ∧ flat.format = .float32 ∧
      ∀ (mode : BlendMode) (space : ColorSpace) (opacity : Value α), opacity = .undefined ∨ opacity = .number 1 →
        ∀ explicit os' format, parseOptions explicit = .ok os' → os'.outputFormat = some format →
          ∃ whole : Raster Int α, compositeDirect (.array (before ++ after)) explicit = .ok whole ∧
            compositeDirect (.array (flat.layer mode space opacity :: after)) explicit = .ok whole := by
  have hordered := Channel.Exact.ordered (α := α) K
  obtain ⟨base, rest, -, hparsed, -, hfit, -⟩ := compositeDirect_ok.mp h
  have hv := (parseLayers_valid hparsed).2 base (List.mem_cons_self ..)
  have hitems := (parseLayers_array.mp hparsed).2
  rw [List.map_append] at hitems
  -- Each value of the array is one layer, so the layers split where the values do.
  obtain ⟨lower, upper, hsplit, hlower, hupper⟩ := List.map_eq_append_iff.mp hitems.symm
  obtain ⟨bottom, lower, rfl⟩ : ∃ bottom lower', lower = bottom :: lower' :=
    List.exists_cons_of_ne_nil fun hnil => hbefore (by simpa [hnil] using hlower.symm)
  obtain ⟨rfl, rfl⟩ := List.cons.inj hsplit
  obtain ⟨hfitLower, hfitUpper⟩ := Layer.allFit_append.mp hfit.2
  have hparsedLower : parseLayers (.array before) = .ok (base :: lower) :=
    parseLayers_array.mpr ⟨hbefore, hlower.symm⟩
  refine ⟨flat base lower, compositeDirect_ok.mpr ⟨base, lower, os, hparsedLower, hfloating,
    ⟨hfit.1, hfitLower⟩, ?_⟩, rfl, ?_⟩
  · rw [hformat]
    exact (encode_folded K hv).symm
  intro mode space opacity hopacity explicit os' format hexplicit hformat'
  obtain ⟨o, hlayer, hfull⟩ := Value.checkLayer_layer K (flat base lower) hv.positive (size_flat hv) mode
      space hopacity
  have hflat : (Layer.mk (flat base lower) mode space o none).Fits base.raster.width base.raster.height true :=
    (fits_base (Value.checkLayer_ok hlayer)).mpr (by simp [Layer.region, Rectangle.same])
  have hparsedFlat : parseLayers (.array ((flat base lower).layer mode space opacity :: after)) =
      .ok (⟨flat base lower, mode, space, o, none⟩ :: upper) :=
    parseLayers_array.mpr ⟨List.cons_ne_nil _ _, by rw [List.map_cons, List.map_cons, hlayer, hupper]⟩
  refine ⟨_, compositeDirect_ok.mpr ⟨base, lower ++ upper, os', hparsed, hexplicit, hfit, rfl⟩,
    compositeDirect_ok.mpr ⟨_, upper, os', hparsedFlat, hexplicit, ⟨hflat, hfitUpper⟩, ?_⟩⟩
  rw [folded_flat K hv hfull, hformat']
  rfl

end Direct

/-! ### A stack of two columns, whose upper layer covers the right one -/

namespace Tinted

def layer (width : Rat) (format : String) (data : Value Ratio) (mode : String) (opacity : Rat)
    (placement : Value Ratio) : Value Ratio :=
  .object [("buffer", .object [("width", .number (.of width)), ("height", .number 1), ("format", .string format),
    ("data", data)]), ("mode", .string mode), ("space", .string "srgb"), ("opacity", .number (.of opacity)),
    ("placement", placement)]

def lower : Value Ratio :=
  layer 2 "rgba8unorm-srgb" (.bytes #[255, 0, 51, 128, 10, 20, 30, 255]) "multiply" (1 / 2) .undefined

def middle : Value Ratio :=
  layer 2 "rgba32float" (.singles #[.of 2, .undefined, .of (1 / 3), .of (1 / 2), .of 0, .of 1, .of (-1), .of 1])
    "overlay" 1 .undefined

def upper : Value Ratio :=
  layer 1 "rgba8unorm" (.bytes #[0, 128, 255, 64]) "difference" (1 / 3)
    (.object [("x", .number 1), ("y", .number 0), ("maxX", .number (.of 2)), ("maxY", .number 1)])

def stored (format : String) : Value Ratio := .object [("outputFormat", .string format)]

end Tinted

open Tinted in
theorem composite_flattens_tinted : ∃ out flat whole : Raster Int Ratio,
    compositeDirect (.array ([lower, middle] ++ [upper])) (.object []) = .ok out ∧
    compositeDirect (.array [lower, middle]) (stored "rgba32float") = .ok flat ∧
    compositeDirect (.array ([lower, middle] ++ [upper])) (stored "rgba8unorm") = .ok whole ∧
    compositeDirect (.array (flat.layer .screen .linear (.number 1) :: [upper])) (stored "rgba8unorm") =
      .ok whole := by
  have haccepted : ∃ out : Raster Int Ratio, compositeDirect (.array ([lower, middle] ++ [upper]))
      (.object []) = .ok out := by
    have hok : (compositeDirect (ν := Int) (.array ([lower, middle] ++ [upper])) (.object [])).isOk = true := by
      decide +kernel
    cases hout : compositeDirect (ν := Int) (.array ([lower, middle] ++ [upper])) (.object []) with
    | ok out => exact ⟨out, rfl⟩
    | error failure =>
      rw [hout] at hok
      cases hok
  obtain ⟨out, h⟩ := haccepted
  obtain ⟨flat, hflat, -, hsame⟩ := Direct.composite_flattens Rat h (by simp)
    (show parseOptions (stored "rgba32float") = .ok ⟨some .float32, none⟩ from rfl) rfl
  obtain ⟨whole, hwhole, hflattened⟩ := hsame .screen .linear (.number 1) (.inr rfl) (stored "rgba8unorm")
    ⟨some .unorm8, none⟩ .unorm8 rfl rfl
  exact ⟨out, flat, whole, h, hflat, hwhole, hflattened⟩

end Strata
