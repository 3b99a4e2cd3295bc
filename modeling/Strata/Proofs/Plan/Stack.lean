import Strata.Proofs.Layer.Valid
import Strata.Proofs.Memory.Gains
import Strata.Proofs.Plan.Layout
import Strata.Proofs.Plan.Sources

/-!
# The stack of a call

What a list of layers asks of a plan. A layer `Fits` a canvas if it can be folded onto it; the stack of
layers over slots that were allocated for them passes the checks of a draft exactly if every layer fits
(`check_stack`, `check_complete`, `check_misfit`), and its draft is then the layers' own (`Stack.draft`).
-/

namespace Strata

variable {α : Type}

/-! ## Layers over a canvas -/

namespace Layer

def region (width height : Int) (l : Layer Int α) : Rectangle Int :=
  (l.placement.map Rectangle.normalize).getD (.ofSize width height)

def program (l : Layer Int α) (bottom : Bool) : Program :=
  if bottom then .copy l.raster.format else .blend l.mode l.space l.raster.format

def key (l : Layer Int α) (bottom : Bool) : PipelineKey :=
  ⟨if bottom then copyMode else l.mode.name, l.space.name, l.raster.format.name⟩

section
variable [Channel α]

def params (width height : Int) (l : Layer Int α) : DispatchParams Int α :=
  let region := l.region width height
  ⟨width, height, l.opacity.getD 1, region.x, region.y, region.width, region.height⟩

def step (width height : Int) (bottom : Bool) (l : Layer Int α) (source : Handle) : PlanStep Int α :=
  ⟨source, l.key bottom, l.region width height, l.opacity.getD 1⟩

def descriptor {ν : Type} [Measure ν] (destination : Handle) (l : Layer ν α) (source : Handle) :
    BlendDescriptor ν α :=
  ⟨source, destination, l.mode.name, l.space.name, l.opacity.getD 1, l.placement.map Rectangle.normalize⟩

end

def upload {ν : Type} (l : Layer ν α) (source : Handle) : Upload α := ⟨source, l.raster.texels.block⟩

structure Fits (width height : Int) (bottom : Bool) (l : Layer Int α) : Prop where
  whole : bottom = true → (l.region width height).same (.ofSize width height) = true
  inside : (Rectangle.ofSize width height).contains (l.region width height) = true
  size : l.raster.width = (l.region width height).width ∧ l.raster.height = (l.region width height).height

/-- Every layer fits; `bottom` tells whether the list starts with the bottom layer. -/
def AllFit (width height : Int) : (bottom : Bool) → List (Layer Int α) → Prop
  | _, [] => True
  | bottom, l :: rest => l.Fits width height bottom ∧ AllFit width height false rest

/-- A slot was allocated for the raster of a layer. -/
def Stocked {ν : Type} [Measure ν] (arena : Arena ν) (l : Layer ν α) (source : Handle) : Prop :=
  ∃ r, arena.resolve source = .ok r ∧
    r.format = .image .storage l.raster.format l.raster.width l.raster.height ∧
    Measure.wholeWords? (imageBytes l.raster.format l.raster.width l.raster.height) = some r.size

end Layer

/-! ## Keys -/

theorem ColorSpace.ofName?_name (s : ColorSpace) : ColorSpace.ofName? s.name = some s := by
  cases s <;> decide

theorem PixelFormat.ofName?_name (f : PixelFormat) : PixelFormat.ofName? f.name = some f := by
  cases f <;> decide

theorem BlendMode.ofName?_name (m : BlendMode) : BlendMode.ofName? m.name = some m := by
  cases m <;> decide

theorem BlendMode.name_ne_copyMode (m : BlendMode) : m.name ≠ copyMode := by
  cases m <;> decide

/-- The library serves a layer's key if it has the layer's mode; then with the layer's program. -/
theorem Library.resolve_key (library : Library) (l : Layer Int α) (bottom : Bool) :
    library.resolve (l.key bottom) =
      if bottom = true ∨ l.mode ∈ library.modes then
        some ⟨s!"Blend {(l.key bottom).text}", l.program bottom⟩
      else none := by
  unfold Library.resolve Layer.program
  simp only [Layer.key, ColorSpace.ofName?_name, PixelFormat.ofName?_name]
  cases bottom with
  | true => simp
  | false =>
    by_cases h : l.mode ∈ library.modes
    · simp [h, BlendMode.name_ne_copyMode, BlendMode.ofName?_name]
    · simp [h, BlendMode.name_ne_copyMode, BlendMode.ofName?_name]

/-! ## Sizes -/

theorem imageBytes_eq (format : PixelFormat) (width height : Int) :
    imageBytes format width height = width * height * format.bytesPerPixel := by
  have hceil (x : Int) : Measure.ceilDiv (x * 4) 4 * 4 = x * 4 := by
    show -(Int.fdiv (-(x * 4)) 4) * 4 = x * 4
    rw [Int.fdiv_eq_ediv_of_nonneg _ (by omega)]
    omega
  show Measure.ceilDiv (width * height * (format.bytesPerPixel : Int)) 4 * 4 = _
  cases format with
  | srgb8 => exact hceil (width * height)
  | unorm8 => exact hceil (width * height)
  | float32 =>
    have h : width * height * ((PixelFormat.float32.bytesPerPixel : Nat) : Int) = width * height * 4 * 4 := by
      rw [Int.mul_assoc (width * height)]
      rfl
    rw [h]
    exact hceil _

theorem wholeWords_imageBytes (format : PixelFormat) {width height : Int} (hw : 0 < width) (hh : 0 < height) :
    Measure.wholeWords? (imageBytes format width height) =
      some (width.toNat * height.toNat * format.bytesPerPixel) := by
  rw [imageBytes_eq]
  obtain ⟨w, rfl⟩ := Int.eq_ofNat_of_zero_le (Int.le_of_lt hw)
  obtain ⟨h, rfl⟩ := Int.eq_ofNat_of_zero_le (Int.le_of_lt hh)
  have hmul : (w : Int) * (h : Int) * (format.bytesPerPixel : Int) =
      ((w * h * format.bytesPerPixel : Nat) : Int) := by
    push_cast
    rfl
  have hpos : 0 < w * h := Nat.mul_pos (by omega) (by omega)
  rw [hmul]
  show (if 0 < ((w * h * format.bytesPerPixel : Nat) : Int) then
    some ((((w * h * format.bytesPerPixel : Nat) : Int).toNat + 3) / 4 * 4) else none) = _
  have hround : (w * h * format.bytesPerPixel + 3) / 4 * 4 = w * h * format.bytesPerPixel := by
    generalize w * h = n
    cases format <;> (simp only [PixelFormat.bytesPerPixel]; omega)
  have hbytes : 0 < w * h * format.bytesPerPixel := Nat.mul_pos hpos (by cases format <;> decide)
  rw [if_pos (Int.natCast_pos.mpr hbytes), Int.toNat_natCast, Int.toNat_natCast, Int.toNat_natCast, hround]

theorem dataLength_eq {width height : Int} (hw : 0 ≤ width) (hh : 0 ≤ height) :
    dataLength width height = 4 * (width.toNat * height.toNat) := by
  obtain ⟨w, rfl⟩ := Int.eq_ofNat_of_zero_le hw
  obtain ⟨h, rfl⟩ := Int.eq_ofNat_of_zero_le hh
  have hcast : (w : Int) * (h : Int) * 4 = ((4 * (w * h) : Nat) : Int) := by
    push_cast
    omega
  show ((if 0 ≤ (w : Int) * (h : Int) * 4 then some ((w : Int) * (h : Int) * 4).toNat else none).getD 0) = _
  rw [hcast, if_pos (Int.natCast_nonneg _), Int.toNat_natCast]
  rfl

/-! ## One descriptor -/

namespace Draft

variable [Channel α] {arena : Arena Int} {caps : Capabilities Int} {destination source : Handle}
  {width height : Int} {l : Layer Int α} {index : Nat}

omit [Channel α] in
theorem mode_of_index (l : Layer Int α) (index : Nat) :
    (if index = 0 then copyMode else l.mode.name) = (l.key (index == 0)).mode := by
  unfold Layer.key
  by_cases h : index = 0
  · simp [h]
  · simp [h]

/-- A descriptor over an allocated slot passes its checks only if the layer fits. -/
theorem checkStep_ok {step : PlanStep Int α} (hs : l.Stocked arena source)
    (h : checkStep arena caps destination width height index (l.descriptor destination source) = .ok step) :
    step = l.step width height (index == 0) source ∧ l.Fits width height (index == 0) := by
  obtain ⟨r, hr, hf, -⟩ := hs
  unfold checkStep at h
  simp only [Layer.descriptor, ne_eq, not_true_eq_false, if_false, hr, hf, SlotFormat.image, bind,
    Except.bind, pure, Except.pure, throw, throwThe, MonadExceptOf.throw] at h
  split at h
  · cases h
  · split at h
    · cases h
    · rename_i hwhole
      split at h
      · cases h
      · rename_i hinside
        split at h
        · cases h
        · rename_i hsize
          cases h
          simp only [Bool.not_eq_true', Bool.not_eq_false, Bool.and_eq_true, beq_iff_eq,
            not_and] at hwhole hinside hsize
          refine ⟨?_, ⟨fun hb => hwhole (by simpa using hb), hinside, hsize⟩⟩
          unfold Layer.step Layer.region
          rw [mode_of_index]
          rfl

/-- A descriptor over an allocated slot that the device can bind passes its checks if the layer fits. -/
theorem checkStep_complete (hs : l.Stocked arena source)
    (hc : ∀ r, arena.resolve source = .ok r → caps.fits (Measure.ofNat r.size) = true) :
    (l.Fits width height (index == 0) →
      checkStep arena caps destination width height index (l.descriptor destination source) =
        .ok (l.step width height (index == 0) source)) ∧
    (¬ l.Fits width height (index == 0) → ∃ failure,
      checkStep arena caps destination width height index (l.descriptor destination source) = .error failure ∧
        failure.code? = some .incompatibleFormats) := by
  obtain ⟨r, hr, hf, -⟩ := hs
  have hcap := hc r hr
  unfold checkStep
  simp only [Layer.descriptor, ne_eq, not_true_eq_false, if_false, hr, hf, SlotFormat.image, bind,
    Except.bind, pure, Except.pure, throw, throwThe, MonadExceptOf.throw, hcap, Bool.not_true, Bool.false_eq_true]
  split
  · rename_i hwhole
    refine ⟨fun hfit => ?_, fun _ => ⟨_, rfl, rfl⟩⟩
    have := hfit.whole (by simpa using hwhole.1)
    simp [Layer.region] at this
    simp [this] at hwhole
  · rename_i hwhole
    split
    · rename_i hinside
      refine ⟨fun hfit => ?_, fun _ => ⟨_, rfl, rfl⟩⟩
      have := hfit.inside
      simp [Layer.region] at this
      simp [this] at hinside
    · rename_i hinside
      split
      · rename_i hsize
        refine ⟨fun hfit => ?_, fun _ => ⟨_, rfl, rfl⟩⟩
        have := hfit.size
        simp [Layer.region] at this
        simp [this] at hsize
      · rename_i hsize
        simp only [Bool.not_eq_true', Bool.not_eq_false, Bool.and_eq_true, beq_iff_eq,
          not_and] at hwhole hinside hsize
        refine ⟨fun _ => ?_, fun h => absurd ⟨fun hb => hwhole (by simpa using hb), hinside, hsize⟩ h⟩
        unfold Layer.step Layer.region
        rw [mode_of_index]
        rfl

/-! ## The stack -/

def stackSteps (width height : Int) : (bottom : Bool) → List (Layer Int α) → List Handle → List (PlanStep Int α)
  | bottom, l :: rest, source :: sources =>
    l.step width height bottom source :: stackSteps width height false rest sources
  | _, _, _ => []

theorem checkSteps_ok {layers : List (Layer Int α)} {sources : List Handle} {steps : List (PlanStep Int α)}
    (hs : List.Forall₂ (Layer.Stocked arena) layers sources)
    (h : checkSteps arena caps destination width height index
      (List.zipWith (Layer.descriptor destination) layers sources) = .ok steps) :
    steps = stackSteps width height (index == 0) layers sources ∧
    Layer.AllFit width height (index == 0) layers := by
  induction hs generalizing index steps with
  | nil =>
    cases h
    exact ⟨rfl, trivial⟩
  | cons hl _ ih =>
    rw [List.zipWith_cons_cons, checkSteps] at h
    simp only [bind, Except.bind] at h
    split at h
    · cases h
    · rename_i heq
      split at h
      · cases h
      · rename_i heq'
        cases h
        obtain ⟨rfl, hfit⟩ := checkStep_ok hl heq
        obtain ⟨rfl, hfits⟩ := ih heq'
        exact ⟨rfl, hfit, hfits⟩

theorem checkSteps_complete {layers : List (Layer Int α)} {sources : List Handle}
    (hs : List.Forall₂ (Layer.Stocked arena) layers sources)
    (hc : ∀ k ∈ sources, ∀ r, arena.resolve k = .ok r → caps.fits (Measure.ofNat r.size) = true) :
    (Layer.AllFit width height (index == 0) layers →
      checkSteps arena caps destination width height index
          (List.zipWith (Layer.descriptor destination) layers sources) =
        .ok (stackSteps width height (index == 0) layers sources)) ∧
    (¬ Layer.AllFit width height (index == 0) layers → ∃ failure,
      checkSteps arena caps destination width height index
          (List.zipWith (Layer.descriptor destination) layers sources) = .error failure ∧
        failure.code? = some .incompatibleFormats) := by
  induction hs generalizing index with
  | nil => exact ⟨fun _ => rfl, fun h => absurd trivial h⟩
  | @cons l k _ _ hl _ ih =>
    obtain ⟨hok, hbad⟩ := checkStep_complete hl (hc _ (List.mem_cons_self ..))
    obtain ⟨hoks, hbads⟩ := @ih (index + 1) fun k hk => hc k (List.mem_cons_of_mem _ hk)
    rw [List.zipWith_cons_cons, checkSteps]
    refine ⟨fun h => ?_, fun h => ?_⟩
    · rw [hok h.1, hoks h.2]
      rfl
    · by_cases hfit : l.Fits width height (index == 0)
      · obtain ⟨failure, he, hcode⟩ := hbads fun hrest => h ⟨hfit, hrest⟩
        rw [hok hfit, he]
        exact ⟨failure, rfl, hcode⟩
      · obtain ⟨failure, he, hcode⟩ := hbad hfit
        rw [he]
        exact ⟨failure, rfl, hcode⟩

/-- The slot that receives the result of a stack. -/
def Receives (arena : Arena Int) (width height : Int) (destination : Handle) : Prop :=
  ∃ r, arena.resolve destination = .ok r ∧ r.format = .image .readback .float32 width height ∧
    Measure.wholeWords? (workingBytes width height) = some r.size

omit [Channel α] in
theorem checkDestination_ok {slot : SlotRef Int} (hd : Receives arena width height destination)
    (h : checkDestination arena caps destination = .ok slot) :
    slot.format.width = width ∧ slot.format.height = height := by
  obtain ⟨r, hr, hf, -⟩ := hd
  unfold checkDestination at h
  simp only [hr, bind, Except.bind, pure, Except.pure, throw, throwThe, MonadExceptOf.throw] at h
  split at h
  · cases h
  · split at h
    · cases h
    · split at h
      · cases h
      · cases h
        rw [hf]
        exact ⟨rfl, rfl⟩

/-- A draft that passed its checks carries the layers out, and every layer fits. -/
theorem check_stack {library : Library} {base : Layer Int α} {layers : List (Layer Int α)} {sources : List Handle}
    {uploads : List (Upload α)} {draft : Draft Int α} (hd : Receives arena width height destination)
    (hs : List.Forall₂ (Layer.Stocked arena) (base :: layers) sources)
    (h : check arena caps library (List.zipWith (Layer.descriptor destination) (base :: layers) sources) uploads =
      .ok draft) :
    draft = ⟨stackSteps width height true (base :: layers) sources, uploads, destination⟩ ∧
      Layer.AllFit width height true (base :: layers) ∧
      ∀ step ∈ draft.steps, (library.resolve step.key).isSome = true := by
  cases hs with
  | @cons _ source _ sources hl hs =>
    unfold check at h
    simp only [List.zipWith_cons_cons, List.head?_cons, bind, Except.bind] at h
    split at h
    · cases h
    · split at h
      · cases h
      · rename_i slot hslot
        obtain ⟨hw, hh⟩ := checkDestination_ok hd hslot
        split at h
        · cases h
        · rename_i steps hsteps
          rw [hw, hh, ← List.zipWith_cons_cons] at hsteps
          obtain ⟨rfl, hfit⟩ := checkSteps_ok (List.Forall₂.cons hl hs) hsteps
          split at h
          · cases h
          · split at h
            · cases h
            · rename_i hlib
              cases h
              refine ⟨rfl, hfit, fun step hstep => ?_⟩
              have := forM_eq_ok.mp hlib step hstep
              split at this
              · cases this
              · rename_i hsome
                cases hr : library.resolve step.key with
                | none => exact absurd (by rw [hr]; rfl) hsome
                | some a => rfl

/-- What a device has to be capable of to composite layers over the canvas of the bottom one. -/
structure Affords (caps : Capabilities Int) (width height : Int) (layers : List (Layer Int α)) : Prop where
  canvas : checkCanvas caps width height = .ok ()
  sources : ∀ l ∈ layers, caps.fits (imageBytes l.raster.format l.raster.width l.raster.height) = true

omit [Channel α] in
theorem checkDestination_complete {layers : List (Layer Int α)} (hw : 0 < width) (hh : 0 < height)
    (hd : Receives arena width height destination) (hc : Affords caps width height layers) :
    ∃ slot, checkDestination arena caps destination = .ok slot ∧ slot.format.width = width ∧
      slot.format.height = height := by
  obtain ⟨r, hr, hf, hs⟩ := hd
  have hbytes : workingBytes width height = (r.size : Int) := by
    have hsize := wholeWords_imageBytes .float32 hw hh
    rw [show imageBytes .float32 width height = workingBytes width height from rfl, hs] at hsize
    unfold workingBytes
    rw [imageBytes_eq, Option.some.inj hsize]
    push_cast
    rw [Int.toNat_of_nonneg (Int.le_of_lt hw), Int.toNat_of_nonneg (Int.le_of_lt hh)]
  have hroom : ¬ (Measure.ofNat r.size : Int) < workingBytes r.format.width r.format.height := by
    rw [hf]
    show ¬ (r.size : Int) < workingBytes width height
    omega
  refine ⟨r, ?_, by rw [hf]; rfl, by rw [hf]; rfl⟩
  unfold checkDestination
  simp only [hr, bind, Except.bind, pure, Except.pure, throw, throwThe, MonadExceptOf.throw, if_neg hroom]
  rw [hf]
  simp only [SlotFormat.image, ne_eq, not_true_eq_false, if_false, hc.canvas]

theorem size_upload (hv : l.Valid) : l.raster.texels.block.size =
    l.raster.width.toNat * l.raster.height.toNat * l.raster.format.bytesPerPixel := by
  obtain ⟨hw, hh⟩ := hv.positive
  have hcount := hv.count
  obtain ⟨w, hw'⟩ := Int.eq_ofNat_of_zero_le (Int.le_of_lt hw)
  obtain ⟨h, hh'⟩ := Int.eq_ofNat_of_zero_le (Int.le_of_lt hh)
  rw [hw', hh'] at hcount
  have hchannels : l.raster.texels.size = w * h * 4 := by
    have : ((l.raster.texels.size : Nat) : Int) = ((w * h * 4 : Nat) : Int) := by
      rw [hcount]
      push_cast
      rfl
    exact Int.ofNat.inj this
  rw [Texels.size_block, hchannels, hw', hh', Nat.mul_assoc]
  show w * h * (4 * (l.raster.format.bytesPerPixel / 4)) = w * h * l.raster.format.bytesPerPixel
  congr 1
  cases l.raster.format <;> rfl

theorem checkUpload_complete (hv : l.Valid) (hs : l.Stocked arena source) :
    checkUpload arena (l.upload source) = .ok () := by
  obtain ⟨r, hr, -, hsize⟩ := hs
  obtain ⟨hw, hh⟩ := hv.positive
  have hblock := size_upload hv
  rw [wholeWords_imageBytes _ hw hh] at hsize
  have hslot := (Option.some.inj hsize).symm
  have haligned : l.raster.texels.block.size % copyAlignment = 0 := by
    rw [hblock]
    unfold copyAlignment
    cases l.raster.format <;> (simp only [PixelFormat.bytesPerPixel]; omega)
  unfold checkUpload
  simp only [Layer.upload, hr, bind, Except.bind, pure, Except.pure, throw, throwThe, MonadExceptOf.throw,
    hblock, hslot, Nat.lt_irrefl, if_false]
  rw [hblock] at haligned
  rw [if_neg (not_not_intro haligned)]

/-- A library serves the blends of some layers; copies it always serves. -/
def Serves (library : Library) (layers : List (Layer Int α)) : Prop := ∀ l ∈ layers, l.mode ∈ library.modes

theorem resolve_stackSteps {library : Library} {bottom : Bool} {layers : List (Layer Int α)} {sources : List Handle}
    (hl : Serves library layers) {step : PlanStep Int α}
    (h : step ∈ stackSteps width height bottom layers sources) : (library.resolve step.key).isSome = true := by
  induction layers generalizing bottom sources with
  | nil => exact absurd h List.not_mem_nil
  | cons l layers ih =>
    cases sources with
    | nil => exact absurd h List.not_mem_nil
    | cons source sources =>
      rcases List.mem_cons.mp h with rfl | h
      · show (library.resolve (l.key bottom)).isSome = true
        rw [Library.resolve_key, if_pos (.inr (hl l (List.mem_cons_self ..)))]
        rfl
      · exact ih (fun l hl' => hl l (List.mem_cons_of_mem _ hl')) h

section
variable {layers : List (Layer Int α)} {sources : List Handle}

theorem fits_source (hs : l.Stocked arena source) (hv : l.Valid)
    (hc : caps.fits (imageBytes l.raster.format l.raster.width l.raster.height) = true) {r : SlotRef Int}
    (hr : arena.resolve source = .ok r) : caps.fits (Measure.ofNat r.size) = true := by
  obtain ⟨r', hr', -, hsize⟩ := hs
  obtain rfl : r = r' := Except.ok.inj (hr.symm.trans hr')
  obtain ⟨hw, hh⟩ := hv.positive
  rw [wholeWords_imageBytes _ hw hh] at hsize
  rw [imageBytes_eq] at hc
  show caps.fits (r.size : Int) = true
  rw [← Option.some.inj hsize]
  push_cast
  rw [Int.toNat_of_nonneg (Int.le_of_lt hw), Int.toNat_of_nonneg (Int.le_of_lt hh)]
  exact hc

theorem fits_sources (hs : List.Forall₂ (Layer.Stocked arena) layers sources) (hv : ∀ l ∈ layers, l.Valid)
    (hc : ∀ l ∈ layers, caps.fits (imageBytes l.raster.format l.raster.width l.raster.height) = true) :
    ∀ k ∈ sources, ∀ r, arena.resolve k = .ok r → caps.fits (Measure.ofNat r.size) = true := by
  induction hs with
  | nil => exact fun k hk => absurd hk List.not_mem_nil
  | @cons l k _ _ hl _ ih =>
    obtain ⟨hvalid, hv⟩ := List.forall_mem_cons.mp hv
    obtain ⟨hfits, hc⟩ := List.forall_mem_cons.mp hc
    exact List.forall_mem_cons.mpr ⟨fun r hr => fits_source hl hvalid hfits hr, ih hv hc⟩

theorem checkUploads_complete (hs : List.Forall₂ (Layer.Stocked arena) layers sources)
    (hv : ∀ l ∈ layers, l.Valid) :
    ∀ u ∈ List.zipWith Layer.upload layers sources, checkUpload arena u = .ok () := by
  induction hs with
  | nil => exact fun u hu => absurd hu List.not_mem_nil
  | @cons l k _ _ hl _ ih =>
    obtain ⟨hvalid, hv⟩ := List.forall_mem_cons.mp hv
    exact List.forall_mem_cons.mpr ⟨checkUpload_complete hvalid hl, ih hv⟩

theorem checkKeys_complete {library : Library} (hl : Serves library layers) (bottom : Bool) :
    ((stackSteps width height bottom layers sources).forM fun step =>
      if (library.resolve step.key).isNone then throw (.of (.unsupportedKey step.key.text)) else pure ()) =
      (.ok () : Except Failure Unit) := by
  refine forM_eq_ok.mpr fun step hstep => ?_
  obtain ⟨a, ha⟩ := Option.isSome_iff_exists.mp (resolve_stackSteps hl hstep)
  rw [ha]
  rfl

end

/-- The stack of valid layers that the device can take passes its checks if every layer fits, and is
refused for its formats if one does not. -/
theorem check_complete {library : Library} {base : Layer Int α} {layers : List (Layer Int α)}
    {sources : List Handle} (ho : arena.checkOpen = .ok ())
    (hd : Receives arena base.raster.width base.raster.height destination)
    (hs : List.Forall₂ (Layer.Stocked arena) (base :: layers) sources) (hv : ∀ l ∈ base :: layers, l.Valid)
    (hc : Affords caps base.raster.width base.raster.height (base :: layers))
    (hl : Serves library (base :: layers)) :
    let checked := check arena caps library
      (List.zipWith (Layer.descriptor destination) (base :: layers) sources)
      (List.zipWith Layer.upload (base :: layers) sources)
    (Layer.AllFit base.raster.width base.raster.height true (base :: layers) → ∃ draft, checked = .ok draft) ∧
    (¬ Layer.AllFit base.raster.width base.raster.height true (base :: layers) → ∃ failure,
      checked = .error failure ∧ failure.code? = some .incompatibleFormats) := by
  obtain ⟨hw, hh⟩ := (hv base (List.mem_cons_self ..)).positive
  obtain ⟨slot, hslot, hsw, hsh⟩ := checkDestination_complete hw hh hd hc
  obtain ⟨hok, hbad⟩ := checkSteps_complete hs (fits_sources hs hv hc.sources)
  have huploads := forM_eq_ok.mpr (checkUploads_complete hs hv)
  cases hs with
  | @cons _ source _ sources hb hs =>
    dsimp only
    unfold check
    simp only [List.zipWith_cons_cons, List.head?_cons, ho, bind, Except.bind]
    rw [show checkDestination arena caps (base.descriptor destination source).destination = .ok slot from hslot]
    simp only [List.zipWith_cons_cons] at hok hbad huploads
    dsimp only
    rw [hsw, hsh, huploads]
    refine ⟨fun hfit => ?_, fun hfit => ?_⟩
    · rw [show checkSteps arena caps (base.descriptor destination source).destination base.raster.width
        base.raster.height 0 _ = _ from hok hfit]
      dsimp only
      rw [show ((0 : Nat) == 0) = true from rfl, checkKeys_complete hl]
      exact ⟨_, rfl⟩
    · obtain ⟨failure, he, hcode⟩ := hbad hfit
      rw [show checkSteps arena caps (base.descriptor destination source).destination base.raster.width
        base.raster.height 0 _ = _ from he]
      exact ⟨failure, rfl, hcode⟩

end Draft

/-! ## Stacks of calls -/

namespace Engine

theorem allocateSources_gains {ν : Type} [Measure ν] {pool : Pool ν α} (hp : pool.Sound)
    (layers : List (Layer ν α)) :
    ∃ grants, pool.Gains (allocateSources pool layers).2.2 grants ∧
      (allocateSources pool layers).2.1 = grants.map (·.handle) ∧
        ((allocateSources pool layers).1 = .ok () →
          List.Forall₂ (Layer.Stocked (allocateSources pool layers).2.2.arena) layers
            (allocateSources pool layers).2.1) := by
  induction layers generalizing pool with
  | nil => exact ⟨[], .refl hp, rfl, fun _ => .nil⟩
  | cons l layers ih =>
    obtain ⟨herr, hok⟩ := Pool.allocate_spec hp
      (.image .storage l.raster.format l.raster.width l.raster.height)
      (imageBytes l.raster.format l.raster.width l.raster.height)
    unfold allocateSources
    dsimp only
    generalize pool.allocate _ _ = r at herr hok
    obtain ⟨r, pool₁⟩ := r
    cases r with
    | error failure => exact ⟨[], .of_quiet (herr failure rfl), rfl, fun h => by cases h⟩
    | ok handle =>
      obtain ⟨bytes, hbytes, halloc⟩ := hok handle rfl
      have hfirst := Pool.Gains.of_allocated halloc
      obtain ⟨grants, hgains, hhandles, hstocked⟩ := ih hfirst.sound
      dsimp only
      generalize allocateSources pool₁ layers = r at hgains hhandles hstocked
      obtain ⟨r, handles, pool₂⟩ := r
      dsimp only at hgains hhandles hstocked ⊢
      have hall := hfirst.trans hgains
      refine ⟨_, hall, congrArg (List.cons handle) hhandles, fun h => .cons ?_ (hstocked h)⟩
      obtain ⟨b, hb⟩ := hall.resolves ⟨handle, _, bytes⟩ (List.mem_cons_self ..)
      exact ⟨_, hb, rfl, hbytes⟩

theorem uploadsOf_eq {ν : Type} (layers : List (Layer ν α)) (sources : List Handle) :
    uploadsOf layers sources = List.zipWith Layer.upload layers sources := by
  unfold uploadsOf
  induction layers generalizing sources with
  | nil => rfl
  | cons l layers ih =>
    cases sources with
    | nil => rfl
    | cons source sources => exact congrArg (List.cons _) (ih sources)

variable [Channel α]

theorem stackOf_ok {ν : Type} [Measure ν] {destination : Handle} {layers : List (Layer ν α)} {sources : List Handle}
    {stack : List (BlendDescriptor ν α)} (h : stackOf destination layers sources = .ok stack) :
    stack = List.zipWith (Layer.descriptor destination) layers sources := by
  unfold stackOf at h
  induction layers generalizing sources stack with
  | nil =>
    cases h
    rfl
  | cons l layers ih =>
    cases sources with
    | nil =>
      cases h
      rfl
    | cons source sources =>
      rw [List.zip_cons_cons, List.mapM_cons] at h
      simp only [bind, Except.bind] at h
      split at h
      · cases h
      · rename_i d hd
        split at h
        · cases h
        · rename_i rest hrest
          cases h
          rw [ih hrest]
          unfold BlendDescriptor.make at hd
          dsimp only at hd
          split at hd
          · cases hd
            rfl
          · cases hd

theorem stackOf_complete {destination : Handle} {layers : List (Layer Int α)} (sources : List Handle)
    (hv : ∀ l ∈ layers, l.Valid) :
    stackOf destination layers sources = .ok (List.zipWith (Layer.descriptor destination) layers sources) := by
  induction layers generalizing sources with
  | nil => rfl
  | cons l layers ih =>
    cases sources with
    | nil => rfl
    | cons source sources =>
      have hrest := ih sources fun l hl => hv l (List.mem_cons_of_mem _ hl)
      unfold stackOf at hrest ⊢
      have hd : BlendDescriptor.make source destination l.mode.name l.space.name l.opacity l.placement =
          .ok (l.descriptor destination source) := by
        unfold BlendDescriptor.make
        dsimp only
        rw [if_pos (hv l (List.mem_cons_self ..)).opacity]
        rfl
      rw [List.zip_cons_cons, List.mapM_cons]
      dsimp only
      rw [hd, hrest]
      rfl

end Engine

end Strata
