import Strata.Engine.Compositing
import Strata.Proofs.Device.Dispatches

/-!
# What a dispatch finds in its slots

`Texels.linear` is the image that the data of a raster stands for; a program that reads a slot to which
the data was written finds it there (`sourceAt_upload`). The parameter block of a dispatch reads back as
the parameters it was packed from, as long as each fits a word (`ofBlock?_upload`). With this a layer
over a canvas has a shading of its own (`Layer.shading`), and a stack an image (`Stack.image`).
-/

namespace Strata

variable {α : Type}

/-! ## Data of rasters -/

section
variable [Channel α] [Transfer α]

def Texels.linear (t : Texels α) : Image α := fun n =>
  let channel (k : Nat) : α := Raster.decodeValue t.format (4 * n + k) (t.value (4 * n + k))
  ⟨channel 0, channel 1, channel 2, channel 3⟩

omit [Channel α] [Transfer α] in
theorem Texels.size_block (t : Texels α) : t.block.size = t.size * (t.format.bytesPerPixel / 4) := by
  cases t with
  | srgb8 bytes => simp [block, size, format, PixelFormat.bytesPerPixel, Block.ofBytes]
  | unorm8 bytes => simp [block, size, format, PixelFormat.bytesPerPixel, Block.ofBytes]
  | float32 values =>
    simp [block, size, format, PixelFormat.bytesPerPixel, Block.ofChannels, Block.ofWords, Nat.mul_comm]

variable [Stored α]

omit [Channel α] [Transfer α] in
theorem byteAt_upload {block : Block α} {bytes : Array UInt8} (hs : bytes.size ≤ block.size) {n k : Nat}
    (hn : 4 * n + 3 < bytes.size) (hk : k < 4) :
    (block.overwrite (.ofBytes bytes) bytes.size).byteAt (4 * n + k) = bytes.getD (4 * n + k) 0 := by
  rw [Block.byteAt_overwrite (by omega) hs (Nat.le_refl _), Block.byteAt_ofBytes]

omit [Transfer α] in
theorem channelAt_upload {block : Block α} {values : Array α} (hs : 4 * values.size ≤ block.size) {i : Nat}
    (hi : i < values.size) :
    (block.overwrite (.ofChannels values) (4 * values.size)).channelAt i = values.getD i 0 := by
  have hsize : (Block.ofChannels values).size = 4 * values.size := by simp
  rw [Block.channelAt_overwrite (by omega) hs (by omega), Block.channelAt_ofChannels]

theorem sourceAt_upload {block : Block α} {t : Texels α} (hs : t.block.size ≤ block.size) {n : Nat}
    (hn : 4 * n + 3 < t.size) :
    (block.overwrite t.block t.block.size).sourceAt t.format n = t.linear n := by
  have h₃ : (4 * n + 3) % 4 = 3 := by omega
  have h₂ : (4 * n + 2) % 4 ≠ 3 := by omega
  have h₁ : (4 * n + 1) % 4 ≠ 3 := by omega
  have h₀ : (4 * n + 0) % 4 ≠ 3 := by omega
  cases t with
  | srgb8 bytes =>
    have hb (k : Nat) (hk : k < 4) := byteAt_upload (n := n) hs hn hk
    unfold Texels.linear
    simp only [Texels.format, Block.sourceAt, Raster.decodeValue, h₀, h₁, h₂, h₃, if_true, if_false]
    show (Pixel.mk _ _ _ _ : Pixel α) = _
    simp only [Texels.block, Block.ofBytes] at hb ⊢
    rw [hb 0 (by omega), hb 1 (by omega), hb 2 (by omega), hb 3 (by omega)]
    rfl
  | unorm8 bytes =>
    have hb (k : Nat) (hk : k < 4) := byteAt_upload (n := n) hs hn hk
    unfold Texels.linear
    simp only [Texels.format, Block.sourceAt, Raster.decodeValue, h₀, h₁, h₂, h₃, if_true, if_false]
    show (Pixel.mk _ _ _ _ : Pixel α) = _
    simp only [Texels.block, Block.ofBytes] at hb ⊢
    rw [hb 0 (by omega), hb 1 (by omega), hb 2 (by omega), hb 3 (by omega)]
    rfl
  | float32 values =>
    have hsize : (Block.ofChannels values).size = 4 * values.size := by simp
    have hs' : 4 * values.size ≤ block.size := hsize ▸ hs
    have hn' : 4 * n + 3 < values.size := hn
    have hc (i : Nat) (hi : i < values.size) := channelAt_upload hs' hi
    show (Block.overwrite block (.ofChannels values) (Block.ofChannels values).size).sourceAt .float32 n = _
    rw [hsize]
    unfold Block.sourceAt Block.pixelAt
    dsimp only
    rw [hc _ (by omega), hc _ (by omega), hc _ (by omega), hc _ (by omega)]
    rfl

end

/-! ## Parameter blocks -/

namespace DispatchParams

section
variable [Stored α]

/-- What is left of parameters in a block: measures are cut to words. -/
def told {ν : Type} [Measure ν] (p : DispatchParams ν α) (copies : Bool) : PackedParams α :=
  let word (n : ν) : Nat := (Measure.toWord n).toNat
  let opacity := Stored.round p.opacity
  if copies then ⟨word p.width, word p.height, opacity, 0, 0, word p.width, word p.height⟩
  else ⟨word p.width, word p.height, opacity, word p.originX, word p.originY, word p.sourceWidth,
    word p.sourceHeight⟩

/-- Parameters as a program reads them back; a copy takes its source to cover the canvas. -/
def packed (p : DispatchParams Int α) (copies : Bool) : PackedParams α :=
  let opacity := Stored.round p.opacity
  if copies then ⟨p.width.toNat, p.height.toNat, opacity, 0, 0, p.width.toNat, p.height.toNat⟩
  else ⟨p.width.toNat, p.height.toNat, opacity, p.originX.toNat, p.originY.toNat, p.sourceWidth.toNat,
    p.sourceHeight.toNat⟩

end

section
variable {ν : Type} [Measure ν] [Stored α] (p : DispatchParams ν α) (copies : Bool)

@[simp] theorem told_width : (p.told copies).width = (Measure.toWord p.width).toNat := by cases copies <;> rfl

@[simp] theorem told_height : (p.told copies).height = (Measure.toWord p.height).toNat := by cases copies <;> rfl

end

theorem size_pack [Stored α] (p : DispatchParams Int α) : p.pack.size = paramsSize := rfl

/-- A measure that a word holds. -/
def FitsWord (n : Int) : Prop := 0 ≤ n ∧ n < 0x100000000

/-- Every measure of some parameters fits a word. -/
structure Packs (p : DispatchParams Int α) : Prop where
  width : FitsWord p.width
  height : FitsWord p.height
  originX : FitsWord p.originX
  originY : FitsWord p.originY
  sourceWidth : FitsWord p.sourceWidth
  sourceHeight : FitsWord p.sourceHeight

theorem toNat_toWord {n : Int} (h : FitsWord n) : (Measure.toWord n).toNat = n.toNat := by
  obtain ⟨h₀, h₁⟩ := h
  show (UInt32.ofNat (n % 0x100000000).toNat).toNat = n.toNat
  rw [Int.emod_eq_of_lt h₀ h₁, UInt32.toNat_ofNat']
  omega

theorem told_eq_packed [Stored α] {p : DispatchParams Int α} (hp : p.Packs) (copies : Bool) :
    p.told copies = p.packed copies := by
  unfold told packed
  dsimp only
  rw [toNat_toWord hp.width, toNat_toWord hp.height, toNat_toWord hp.originX, toNat_toWord hp.originY,
    toNat_toWord hp.sourceWidth, toNat_toWord hp.sourceHeight]

theorem ofBlock?_told {ν : Type} [Measure ν] [Zero α] [Stored α] (p : DispatchParams ν α) {block : Block α}
    (hs : paramsSize ≤ block.size) (copies : Bool) :
    PackedParams.ofBlock? (block.overwrite p.pack paramsSize) copies = some (p.told copies) := by
  have hw (i : Nat) (hi : i < 8) : (block.overwrite p.pack paramsSize).word i = p.pack.word i :=
    Block.word_overwrite_of_le _ _ (by unfold paramsSize; omega)
  have hsize : ¬ (block.overwrite p.pack paramsSize).size < if copies then 12 else paramsSize := by
    have hle : (if copies then 12 else paramsSize) ≤ paramsSize := by
      cases copies <;> decide
    show ¬ block.size < _
    omega
  unfold PackedParams.ofBlock?
  rw [if_neg hsize]
  simp only [hw 0 (by omega), hw 1 (by omega), hw 2 (by omega), hw 4 (by omega), hw 5 (by omega), hw 6 (by omega),
    hw 7 (by omega)]
  cases copies <;> rfl

theorem ofBlock?_upload [Zero α] [Stored α] {p : DispatchParams Int α} (hp : p.Packs) {block : Block α}
    (hs : paramsSize ≤ block.size) (copies : Bool) :
    PackedParams.ofBlock? (block.overwrite p.pack paramsSize) copies = some (p.packed copies) := by
  rw [ofBlock?_told p hs, told_eq_packed hp]

end DispatchParams

theorem reach_workgroups {n : Int} (h : 0 ≤ n) :
    Dispatch.reach n.toNat (Measure.ceilDiv n (Measure.ofNat workgroupEdge)) = n.toNat := by
  show (min ((n.toNat : Nat) : Int) (-(Int.fdiv (-n) 16) * 16)).toNat = n.toNat
  have hd : Int.fdiv (-n) 16 = (-n) / 16 := Int.fdiv_eq_ediv_of_nonneg _ (by omega)
  rw [hd]
  omega

end Strata
