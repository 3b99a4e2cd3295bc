import Strata.Proofs.Color.Rounding
import Strata.Proofs.Composite.Flattening

/-!
# Storage that loses nothing

A byte is a whole share of 255, so quantizing the share that a byte stands for gives the byte back
(`encodeValue_decodeValue`). Encoding clamps, so nothing changes if the channels in between were clamped
(`encodeValue_clampUnit`), as storing them as floats and loading them as a layer do. So a raster of bytes is
restored from its channels, however they were kept (`encode_restores`).
-/

namespace Strata

variable {ν α : Type} [Channel α]

/-- A byte that was taken for a channel is taken back. -/
class Channel.Bytewise (α : Type) [Channel α] : Prop where
  toByte_ofByte (b : UInt8) : Channel.toByte (Channel.ofByte b : α) = b

instance : Channel.Bytewise Ratio where
  toByte_ofByte b := by
    show UInt8.ofNat ((b.toNat : Rat).num.tdiv (b.toNat : Rat).den % 256).toNat = b
    have hmod : (b.toNat : Int) % 256 = b.toNat := Int.emod_eq_of_lt (Int.natCast_nonneg _)
        (by exact_mod_cast b.toNat_lt)
    rw [Rat.num_natCast, Rat.den_natCast, Int.natCast_one, Int.tdiv_one, hmod, Int.toNat_natCast, UInt8.ofNat_toNat]

/-! ## One channel -/

section
variable [Transfer α]

/-- Encoding undoes decoding, for every byte. -/
def PixelFormat.Undoes (α : Type) [Channel α] [Transfer α] (format : PixelFormat) : Prop :=
  ∀ b : UInt8, format.encodeChannel (format.decodeChannel (Channel.ofByte b : α)) = Channel.ofByte b

variable (K : Type) [Field K] [LinearOrder K] [IsStrictOrderedRing K] [Channel.Exact α K]
include K

omit [Transfer α] in
theorem clampUnit_clampUnit (c : α) : clampUnit (clampUnit c) = clampUnit c :=
  clampUnit_of_inUnit K (inUnit_clampUnit K c)

theorem encodeValue_clampUnit (format : PixelFormat) (i : Nat) (c : α) :
    Raster.encodeValue format i (clampUnit c) = Raster.encodeValue format i c := by
  have hspace (space : ColorSpace) : space.fromLinear (clampUnit c) = space.fromLinear c := by
    cases space <;> simp only [ColorSpace.fromLinear, clampUnit_clampUnit K]
  have hquantize : quantize (clampUnit c) 8 = quantize c 8 := by
    unfold quantize quantizeTo
    rw [clampUnit_clampUnit K]
  unfold Raster.encodeValue PixelFormat.encodeChannel
  rw [hspace, hquantize, clampUnit_clampUnit K]

omit [Transfer α] in
theorem inUnit_ofByte (b : UInt8) : InUnit (Channel.ofByte b / Channel.ofNat 255 : α) := by
  have hshare : (Channel.ofByte b / Channel.ofNat 255 : α) = Channel.Exact.number
      ((b.toNat : K) / (255 : Nat)) := by
    unfold Channel.ofByte
    rw [Channel.Exact.ofNat (K := K), Channel.Exact.ofNat (K := K), Channel.Exact.div _ _ (by norm_num)]
  have hle : (b.toNat : K) ≤ (255 : Nat) := by exact_mod_cast Nat.le_of_lt_succ b.toNat_lt
  rw [hshare, inUnit_number]
  exact ⟨by positivity, (div_le_one (by norm_num)).mpr hle⟩

variable [FloorRing K] [Channel.Floored α K]

omit [Transfer α] in
theorem quantize_ofByte (b : UInt8) : quantize (Channel.ofByte b / Channel.ofNat 255 : α) 8 = Channel.ofByte b :=
  quantizeTo_share K (by decide) (Nat.le_of_lt_succ b.toNat_lt)

theorem undoes_unorm8 : PixelFormat.unorm8.Undoes α := by
  intro b
  show quantize (clampUnit (clampUnit (Channel.ofByte b / Channel.ofNat 255 : α))) 8 = Channel.ofByte b
  rw [clampUnit_of_inUnit K (inUnit_ofByte K b), clampUnit_of_inUnit K (inUnit_ofByte K b), quantize_ofByte K]

theorem undoes_of_invertible [Transfer.Invertible α] (format : PixelFormat) : format.Undoes α := by
  intro b
  unfold PixelFormat.encodeChannel PixelFormat.decodeChannel
  rw [ColorSpace.fromLinear_toLinear K _ (inUnit_ofByte K b), quantize_ofByte K]

theorem encodeValue_decodeValue {format : PixelFormat} (hbytes : format ≠ .float32)
    (hundoes : format.Undoes α) (i : Nat)
    (b : UInt8) : Raster.encodeValue format i (Raster.decodeValue format i (Channel.ofByte b : α)) =
      Channel.ofByte b := by
  cases format with
  | float32 => exact absurd rfl hbytes
  | srgb8 | unorm8 =>
    unfold Raster.encodeValue Raster.decodeValue
    dsimp only
    split
    · exact quantize_ofByte K b
    · exact hundoes b

variable [Channel.Bytewise α] [Stored α]

/-- Texels are restored from channels that clamping cannot tell from the decoded ones. -/
theorem ofFn_restores {texels : Texels α} (hbytes : texels.format ≠ .float32) (hundoes : texels.format.Undoes α)
    {channels : Nat → α} (hchannels : ∀ i < texels.size,
      clampUnit (channels i) = clampUnit (Raster.decodeValue texels.format i (texels.value i))) :
    Texels.ofFn texels.format texels.size (fun i => Raster.encodeValue texels.format i (channels i)) = texels := by
  have hbyte (i : Nat) (hi : i < texels.size) {b : UInt8} (hb : texels.value i = Channel.ofByte b) :
      Channel.toByte (Raster.encodeValue texels.format i (channels i)) = b := by
    rw [← encodeValue_clampUnit K, hchannels i hi, encodeValue_clampUnit K, hb,
      encodeValue_decodeValue K hbytes hundoes, Channel.Bytewise.toByte_ofByte]
  cases texels with
  | float32 values => exact absurd rfl hbytes
  | srgb8 bytes =>
    refine congrArg Texels.srgb8 (Array.ext Array.size_ofFn fun i _ hi => ?_)
    rw [Array.getElem_ofFn]
    exact hbyte i hi (congrArg Channel.ofByte (by simp [hi]))
  | unorm8 bytes =>
    refine congrArg Texels.unorm8 (Array.ext Array.size_ofFn fun i _ hi => ?_)
    rw [Array.getElem_ofFn]
    exact hbyte i hi (congrArg Channel.ofByte (by simp [hi]))

end

/-! ## Rasters -/

theorem Texels.size_ofFn [Stored α] (format : PixelFormat) (n : Nat) (f : Nat → α) :
    (Texels.ofFn format n f).size = n := by
  cases format <;> simp [Texels.ofFn, Texels.size]

theorem Canvas.getD_channels_load (K : Type) [Field K] [LinearOrder K] [IsStrictOrderedRing K] [Channel.Exact α K]
    {channels : Array α} (hfours : 4 ∣ channels.size) {i : Nat} (hi : i < channels.size) :
    (Canvas.channels ((ofChannels channels).map (Pixel.load 1))).getD i 0 = clampUnit (channels.getD i 0) := by
  have hpixel : 4 * (i / 4) + 3 < channels.size := by omega
  have hi : 4 * (i / 4) + i % 4 = i := Nat.div_add_mod i 4
  rw [Array.getD_eq_getD_getElem?, getElem?_channels, Array.getElem?_map, getElem?_ofChannels _ hpixel]
  generalize i / 4 = n at hi
  obtain hk | hk | hk | hk : i % 4 = 0 ∨ i % 4 = 1 ∨ i % 4 = 2 ∨ i % 4 = 3 := by omega
  all_goals
    rw [hk] at hi ⊢
    subst hi
  · rfl
  · rfl
  · rfl
  · exact effectiveAlpha_one K _

namespace Raster

variable [Stored α] [Transfer α] [Measure ν] {raster : Raster ν α}

theorem convert?_other {format : PixelFormat} (h : raster.format ≠ format) {n : Nat}
    (hlength : dataLength? raster.width raster.height = some n) :
    raster.convert? format = some (encode raster.decode raster.width raster.height format) := by
  simp [convert?, h, decode?, encode?, hlength]

variable [Stored.Lossless α]

theorem getD_decode {i : Nat} (hi : i < dataLength raster.width raster.height) :
    raster.decode.getD i 0 = decodeValue raster.format i (raster.texels.value i) := by
  unfold decode
  simp [hi, Stored.Lossless.round_eq]

variable (K : Type) [Field K] [LinearOrder K] [IsStrictOrderedRing K] [Channel.Exact α K] [FloorRing K]
  [Channel.Floored α K] [Channel.Bytewise α]
include K

theorem encode_restores (hbytes : raster.format ≠ .float32) (hundoes : raster.format.Undoes α)
    (hlength : dataLength? raster.width raster.height = some raster.texels.size) {channels : Array α}
    (hchannels : ∀ i < raster.texels.size, clampUnit (channels.getD i 0) = clampUnit (raster.decode.getD i 0)) :
    encode channels raster.width raster.height raster.format = raster := by
  have hcount : dataLength raster.width raster.height = raster.texels.size := congrArg (Option.getD · 0) hlength
  refine (Raster.mk.injEq ..).mpr ⟨rfl, rfl, ?_⟩
  rw [hcount]
  refine ofFn_restores K hbytes hundoes fun i hi => ?_
  rw [hchannels i hi, getD_decode (hcount ▸ hi)]
  rfl

theorem convert?_restores (hbytes : raster.format ≠ .float32) (hundoes : raster.format.Undoes α)
    (hlength : dataLength? raster.width raster.height = some raster.texels.size) :
    ((raster.convert? .float32).bind fun floats => floats.convert? raster.format) = some raster := by
  have hcount : dataLength raster.width raster.height = raster.texels.size := congrArg (Option.getD · 0) hlength
  rw [convert?_other hbytes hlength, Option.bind_some]
  generalize hfloats : encode raster.decode raster.width raster.height .float32 = floats
  have hwidth : floats.width = raster.width := hfloats ▸ rfl
  have hheight : floats.height = raster.height := hfloats ▸ rfl
  have hformat : floats.format = .float32 := hfloats ▸ rfl
  rw [convert?_other (hformat ▸ hbytes.symm) (hwidth ▸ hheight ▸ hlength), hwidth, hheight]
  refine congrArg some (encode_restores K hbytes hundoes hlength fun i hi => ?_)
  have hvalue : floats.texels.value i = clampUnit (raster.decode.getD i 0) := by
    rw [← hfloats, encode, hcount, Texels.value_ofFn _ _ hi]
    exact Stored.Lossless.round_eq _
  rw [getD_decode (hwidth ▸ hheight ▸ hcount ▸ hi), hformat, hvalue]
  show clampUnit (clampUnit (clampUnit (raster.decode.getD i 0))) = _
  rw [clampUnit_clampUnit K, clampUnit_clampUnit K]

theorem convert?_settles {format : PixelFormat} (hbytes : format ≠ .float32) (hundoes : format.Undoes α)
    (hlength : raster.format = format → dataLength? raster.width raster.height = some raster.texels.size) :
    ((raster.convert? format).bind fun once => (once.convert? .float32).bind fun floats => floats.convert? format) =
      raster.convert? format := by
  by_cases hformat : raster.format = format
  · subst hformat
    have hsame : raster.convert? raster.format = some raster := if_pos rfl
    rw [hsame]
    exact convert?_restores K hbytes hundoes (hlength rfl)
  · cases hcount : dataLength? raster.width raster.height with
    | none => simp [convert?, hformat, decode?, hcount]
    | some n =>
      rw [convert?_other hformat hcount, Option.bind_some]
      generalize honce : encode raster.decode raster.width raster.height format = once
      have hstored : once.format = format := by
        rw [← honce, Raster.format, encode, Texels.format_ofFn]
      have hsize : once.texels.size = n := by
        rw [← honce, encode, Texels.size_ofFn]
        exact congrArg (Option.getD · 0) hcount
      have hlength' : dataLength? once.width once.height = some once.texels.size := by
        rw [hsize, ← hcount, ← honce]
        rfl
      subst hstored
      exact convert?_restores K hbytes hundoes hlength'

end Raster

/-! ## A single layer -/

theorem dataLength?_of_count {width height : Int} {count : Nat} (h : (count : Int) = width * height * 4) :
    dataLength? width height = some count := by
  show (if 0 ≤ width * height * 4 then some (width * height * 4).toNat else none) = some count
  rw [← h, if_pos (Int.natCast_nonneg _), Int.toNat_natCast]

namespace Direct

variable [Stored α] [Transfer α] [Stored.Lossless α] (K : Type) [Field K] [LinearOrder K] [IsStrictOrderedRing K]
  [Channel.Exact α K] [FloorRing K] [Channel.Floored α K] [Channel.Bytewise α]
include K

theorem compositeDirect_alone {raster : Raster Int α} (hbytes : raster.format ≠ .float32)
    (hundoes : raster.format.Undoes α) (hpos : 0 < raster.width ∧ 0 < raster.height)
    (hcount : (raster.texels.size : Int) = raster.width * raster.height * 4) (mode : BlendMode) (space : ColorSpace)
    {opacity options : Value α} (hopacity : opacity = .undefined ∨ opacity = .number 1) {os : CompositeOptions}
    (hoptions : parseOptions options = .ok os) (hformat : os.outputFormat.getD raster.format = raster.format) :
    compositeDirect (.array [raster.layer mode space opacity]) options = .ok raster := by
  have hordered := Channel.Exact.ordered (α := α) K
  obtain ⟨o, hlayer, hfull⟩ := Value.checkLayer_layer K raster hpos hcount mode space hopacity
  have hv := Value.checkLayer_ok hlayer
  have hparsed : parseLayers (.array [raster.layer mode space opacity]) = .ok [⟨raster, mode, space, o, none⟩] :=
    parseLayers_array.mpr ⟨List.cons_ne_nil _ _, by rw [List.map_singleton, hlayer, List.map_singleton]⟩
  have hfit : (Layer.mk raster mode space o none).Fits raster.width raster.height true :=
    (fits_base hv).mpr (by simp [Layer.region, Rectangle.same])
  refine compositeDirect_ok.mpr ⟨_, [], os, hparsed, hoptions, ⟨hfit, trivial⟩, ?_⟩
  have hlength := dataLength?_of_count hcount
  have hsize : raster.decode.size = raster.texels.size :=
    Array.size_ofFn.trans (congrArg (Option.getD · 0) hlength)
  rw [hformat]
  refine (Raster.encode_restores K hbytes hundoes hlength fun i hi => ?_).symm
  have hchannels : (folded ⟨raster, mode, space, o, none⟩ []).channels.getD i 0 =
      clampUnit (raster.decode.getD i 0) := by
    show (Canvas.channels ((Canvas.ofChannels raster.decode).map (Pixel.load (o.getD 1)))).getD i 0 = _
    rw [hfull]
    exact Canvas.getD_channels_load K (by omega) (hsize ▸ hi)
  rw [hchannels, clampUnit_clampUnit K]

end Direct

/-- Storing bytes loses nothing: a raster of bytes comes back from its linear channels, from its conversion to
floats, and, if it has any pixels, from being composited alone in full. So whatever is converted to bytes stays as
it is from then on. -/
theorem storage_keeps [Stored α] [Transfer α] [Stored.Lossless α] (K : Type) [Field K] [LinearOrder K]
    [IsStrictOrderedRing K] [Channel.Exact α K] [FloorRing K] [Channel.Floored α K] [Channel.Bytewise α]
    {format : PixelFormat} (hbytes : format ≠ .float32) (hcurve : format = .srgb8 → PixelFormat.srgb8.Undoes α) :
    (∀ raster : Raster Int α, raster.format = format → (raster.texels.size : Int) = raster.width *
      raster.height * 4 →
      (raster.decode?.bind fun linear => Raster.encode? linear raster.width raster.height format) = some raster ∧
      ((raster.convert? .float32).bind fun floats => floats.convert? format) = some raster ∧
      (0 < raster.width ∧ 0 < raster.height →
        ∀ (mode : BlendMode) (space : ColorSpace) (opacity options : Value α) os,
        opacity = .undefined ∨ opacity = .number 1 → parseOptions options = .ok os →
        os.outputFormat.getD format = format →
          compositeDirect (.array [raster.layer mode space opacity]) options = .ok raster)) ∧
    ∀ raster : Raster Int α,
      (raster.format = format → (raster.texels.size : Int) = raster.width * raster.height * 4) →
      ((raster.convert? format).bind fun once => (once.convert? .float32).bind fun floats =>
        floats.convert? format) =
        raster.convert? format := by
  have hundoes : format.Undoes α := by
    cases format with
    | srgb8 => exact hcurve rfl
    | unorm8 => exact undoes_unorm8 K
    | float32 => exact absurd rfl hbytes
  refine ⟨fun raster hformat hcount => ?_, fun raster hcount => ?_⟩
  · subst hformat
    have hlength := dataLength?_of_count hcount
    refine ⟨?_, Raster.convert?_restores K hbytes hundoes hlength,
      fun hpos mode space opacity options os hopacity hoptions h =>
      Direct.compositeDirect_alone K hbytes hundoes hpos hcount mode space hopacity hoptions h⟩
    simp [Raster.decode?, Raster.encode?, hlength, Raster.encode_restores K hbytes hundoes hlength]
  · exact Raster.convert?_settles K hbytes hundoes fun hformat => dataLength?_of_count (hcount hformat)

theorem storage_keeps_tinted :
    let raster : Raster Int Ratio := ⟨2, 1, .srgb8 #[255, 128, 7, 255, 10, 20, 30, 0]⟩
    let other : Raster Int Ratio := ⟨1, 1, .float32 #[.of 2, .undefined, .of (1 / 3), .of (1 / 2)]⟩
    (PixelFormat.srgb8 ≠ .float32 ∧ PixelFormat.srgb8.Undoes Ratio) ∧
    ((raster.format = .srgb8 ∧ (raster.texels.size : Int) = raster.width * raster.height * 4) ∧
      (0 < raster.width ∧ 0 < raster.height) ∧ other.format ≠ .srgb8) ∧
    (raster.decode?.bind fun linear => Raster.encode? linear raster.width raster.height .srgb8) = some raster ∧
    ((raster.convert? .float32).bind fun floats => floats.convert? .srgb8) = some raster ∧
    compositeDirect (.array [raster.layer .screen .linear (.number 1)]) (.object []) = .ok raster ∧
    ((other.convert? .srgb8).bind fun once => (once.convert? .float32).bind fun floats => floats.convert? .srgb8) =
      other.convert? .srgb8 := by
  intro raster other
  have hundoes : PixelFormat.srgb8.Undoes Ratio := undoes_of_invertible Rat _
  have hbytes : PixelFormat.srgb8 ≠ .float32 := by decide
  have hother : other.format ≠ .srgb8 := by decide
  obtain ⟨hkept, hsettled⟩ := storage_keeps (α := Ratio) Rat hbytes fun _ => hundoes
  obtain ⟨hencode, hfloats, halone⟩ := hkept raster rfl rfl
  exact ⟨⟨hbytes, hundoes⟩, ⟨⟨rfl, rfl⟩, ⟨by decide, by decide⟩, hother⟩, hencode, hfloats,
    halone ⟨by decide, by decide⟩ .screen .linear (.number 1) (.object []) ⟨none, none⟩ (.inr rfl) rfl rfl,
    hsettled other fun h => absurd h hother⟩

/-- A raster without pixels has all of its channels, but it is no layer. A raster that lacks channels lacks them as
long as it is kept in its format, and gets them by being converted. -/
theorem storage_refuses_empty :
    let empty : Raster Int Ratio := ⟨0, 0, .unorm8 #[]⟩
    let short : Raster Int Ratio := ⟨1, 1, .unorm8 #[]⟩
    ((empty.texels.size : Int) = empty.width * empty.height * 4 ∧
      compositeDirect (.array [empty.layer .sourceOver .linear .undefined]) (.object []) ≠ .ok empty) ∧
    ((short.convert? .unorm8).bind fun once => (once.convert? .float32).bind fun floats =>
      floats.convert? .unorm8) ≠
      short.convert? .unorm8 := by
  decide +kernel

end Strata
