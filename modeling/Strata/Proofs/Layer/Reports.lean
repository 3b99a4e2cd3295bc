import Strata.Proofs.Layer.Grammar

/-!
# Reports on layers

A refused value is reported on in whole: the issues of an array are those of its elements, each under its index,
those of an object are those of its fields, each under its name. A raster is one of two shapes, and a report on it
says what its numbers lack if its format fits its data, and else nothing but that it is invalid (`rasterIssues`).
Fields that are not known change nothing (`checkLayers_known`).
-/

namespace Strata

variable {ν α β : Type}

namespace Value

section
variable [Channel α]

/-! ## What a report lists -/

/-- The issues of an object, those of each field in turn. -/
def objectIssues (rules : List (String × (Value α → List Issue))) (v : Value α) : List Issue :=
  if v.kind = .object then rules.flatMap fun rule => (rule.2 (v.field rule.1)).map (·.within (.field rule.1))
  else [⟨[], v.mismatch .object⟩]

/-- The issues of a union, from those of its members. The first member that has none is taken, else the first that
only numbers fail, and what is left is asked of the value besides; a union without such a member reports none of
their issues. -/
def unionIssues (members : List (List Issue)) (rest : List Issue) : List Issue :=
  match members.find? List.isEmpty <|> members.find? (·.all (·.problem.keepsShape)) with
  | some issues => issues ++ rest
  | none => [⟨[], .invalid⟩]

def optionalIssues (rule : Value α → List Issue) (v : Value α) : List Issue := if v.isUndefined then [] else rule v

/-- What is not as it is expected to be. A union does not report it, so it need not be told what it is. -/
def expectedIssues (holds : Value α → Bool) (v : Value α) : List Issue := if holds v then [] else [⟨[], .invalid⟩]

def isNameOf (formats : List PixelFormat) : Value α → Bool
  | string s => formats.any (·.name == s)
  | _ => false

/-- The issues of an object as a raster of some formats, whose data is of one kind. -/
def shapeIssues (formats : List PixelFormat) (isData : Value α → Bool) (v : Value α) : List Issue :=
  v.objectIssues [("width", fun w => w.checkDimension.issues), ("height", fun h => h.checkDimension.issues),
    ("format", expectedIssues (isNameOf formats)), ("data", expectedIssues isData)]

def dataCount : Value α → Nat
  | bytes data => data.size
  | singles data => data.size
  | _ => 0

/-- The report on a count of channels that the size does not ask for. -/
def countIssues (v : Value α) : List Issue :=
  match v.field "width", v.field "height" with
  | number width, number height => checkCount width height (v.field "data").dataCount
  | _, _ => []

def rasterIssues (v : Value α) : List Issue :=
  unionIssues [v.shapeIssues [.srgb8, .unorm8] (·.byteData?.isSome), v.shapeIssues [.float32] (·.floatData?.isSome)]
    v.countIssues

def coordinateIssues (v : Value α) : List Issue := (v.checkNumber [isIntegral, isAtLeast 0]).issues

def rectangleIssues (v : Value α) : List Issue :=
  v.objectIssues [("x", coordinateIssues), ("y", coordinateIssues), ("maxX", coordinateIssues),
    ("maxY", coordinateIssues)]

def layerIssues (v : Value α) : List Issue :=
  v.objectIssues [("buffer", rasterIssues), ("mode", fun w => w.checkMode.issues),
    ("space", fun w => w.checkSpace.issues),
    ("opacity", optionalIssues fun w => w.checkOpacity.issues), ("placement", optionalIssues rectangleIssues)]

/-- Each layer's issues under its index. -/
def layersIssues (v : Value α) : List Issue :=
  match v with
  | array [] => [⟨[], .noLayers⟩]
  | array items => items.zipIdx.flatMap fun item => item.1.layerIssues.map (·.within (.index item.2))
  | _ => [⟨[], v.mismatch .array⟩]

end

variable [Measure ν] [Channel α]

/-! ## Unions -/

theorem isEmpty_of_unkept {issues : List Issue} (h : issues.all (·.problem.keepsShape) = false) :
    issues.isEmpty = false := by
  cases issues with
  | nil => cases h
  | cons issue issues => rfl

/-- Only one member can be taken. -/
theorem unionIssues_right {first second : List Issue} (rest : List Issue)
    (h : first.all (·.problem.keepsShape) = false) :
    unionIssues [first, second] rest = if second.all (·.problem.keepsShape) then second ++ rest else
    [⟨[], .invalid⟩] := by
  unfold unionIssues
  cases hkept : second.all (·.problem.keepsShape) with
  | false => simp [List.find?, isEmpty_of_unkept h, isEmpty_of_unkept hkept, h, hkept]
  | true => cases hnone : second.isEmpty <;> simp [List.find?, isEmpty_of_unkept h, hnone, h, hkept]

theorem unionIssues_left {first second : List Issue} (rest : List Issue)
    (h : second.all (·.problem.keepsShape) = false) :
    unionIssues [first, second] rest = if first.all (·.problem.keepsShape) then first ++ rest else
    [⟨[], .invalid⟩] := by
  unfold unionIssues
  cases hkept : first.all (·.problem.keepsShape) with
  | false => simp [List.find?, isEmpty_of_unkept h, isEmpty_of_unkept hkept, h, hkept]
  | true => cases hnone : first.isEmpty <;> simp [List.find?, isEmpty_of_unkept h, hnone, hkept]

theorem mismatch_keepsShape (v : Value α) (expected : ValueKind) : (v.mismatch expected).keepsShape = false := by
  unfold mismatch
  split <;> rfl

theorem shapeIssues_fit {formats : List PixelFormat} {isData : Value α → Bool} {v : Value α}
    (hobject : v.kind = .object) (hformat : isNameOf formats (v.field "format") = true)
    (hdata : isData (v.field "data") = true) : v.shapeIssues formats isData = v.sizeIssues := by
  simp [shapeIssues, objectIssues, hobject, expectedIssues, hformat, hdata, sizeIssues, checkField]

theorem shapeIssues_unfit {formats : List PixelFormat} {isData : Value α → Bool} {v : Value α}
    (h : ¬(isNameOf formats (v.field "format") = true ∧ isData (v.field "data") = true)) :
    (v.shapeIssues formats isData).all (·.problem.keepsShape) = false := by
  unfold shapeIssues objectIssues
  split
  · rw [Decidable.not_and_iff_or_not] at h
    rcases h with h | h
    · simp [expectedIssues, h, Issue.within, Problem.keepsShape]
    · simp [expectedIssues, h, Issue.within, Problem.keepsShape]
  · simp [mismatch_keepsShape]

theorem checkNumber_kept {v : Value α} {tests : List ((α → Bool) × Problem)}
    (h : ∀ t ∈ tests, t.2.keepsShape = true) :
    (v.checkNumber tests).issues.all (·.problem.keepsShape) = true ↔ ∃ x, v.IsNumeral x := by
  unfold checkNumber
  split
  · rename_i x
    by_cases hnan : Channel.isNaN x = true
    · rw [if_pos hnan]
      simp [mismatch_keepsShape, IsNumeral, hnan]
    · rw [if_neg hnan]
      have hkept : ∃ y, (number x).IsNumeral y := ⟨x, rfl, by simpa using hnan⟩
      rw [iff_true_right hkept]
      split
      · rfl
      · simp only [Checked.issues, List.all_eq_true]
        intro issue hissue
        obtain ⟨t, ht, heq⟩ := List.mem_filterMap.mp hissue
        split at heq
        · cases heq
        · cases heq
          exact h t ht
  · rename_i hnot
    have hnone : ¬∃ x, v.IsNumeral x := by
      rintro ⟨x, hx, -⟩
      exact hnot x hx
    simp [mismatch_keepsShape, hnone]

theorem sizeIssues_kept {v : Value α} : v.sizeIssues.all (·.problem.keepsShape) = true ↔
    (∃ x, (v.field "width").IsNumeral x) ∧ ∃ y, (v.field "height").IsNumeral y := by
  have hdimension (name : String) : (v.checkField name checkDimension).issues.all (·.problem.keepsShape) = true ↔
      ∃ x, (v.field name).IsNumeral x := by
    have hkept : ∀ t ∈ ([isIntegral, isPositive] : List ((α → Bool) × Problem)), t.2.keepsShape = true := by
      simp [isIntegral, isPositive, Problem.keepsShape]
    rw [← checkNumber_kept hkept]
    simp [checkField, checkDimension, Issue.within]
  rw [sizeIssues, List.all_append, Bool.and_eq_true, hdimension, hdimension]

omit [Channel α] in
theorem isNameOf_iff {formats : List PixelFormat} {v : Value α} :
    isNameOf formats v = true ↔ ∃ f ∈ formats, v = .string f.name := by
  cases v with
  | string s =>
    simp only [isNameOf, List.any_eq_true, beq_iff_eq, string.injEq]
    exact exists_congr fun f => and_congr_right fun _ => eq_comm
  | _ => simp [isNameOf]

omit [Channel α] in
theorem byteData?_iff {v : Value α} {data : Array UInt8} : v.byteData? = some data ↔ v = .bytes data := by
  cases v <;> simp [byteData?]

omit [Channel α] in
theorem floatData?_iff {v : Value α} {data : Array α} : v.floatData? = some data ↔ v = .singles data := by
  cases v <;> simp [floatData?]

omit [Channel α] in
theorem fits_bytes {v : Value α} :
    (isNameOf [.srgb8, .unorm8] (v.field "format") = true ∧ (v.field "data").byteData?.isSome = true) ↔
    ∃ texels, v.texels? = some texels ∧ texels.format ≠ .float32 := by
  simp only [texels?_iff, isNameOf_iff, Option.isSome_iff_exists, byteData?_iff]
  constructor
  · rintro ⟨⟨f, hf, hname⟩, data, hdata⟩
    rcases List.mem_pair.mp hf with rfl | rfl
    · exact ⟨.srgb8 data, ⟨hname, hdata⟩, by simp [Texels.format]⟩
    · exact ⟨.unorm8 data, ⟨hname, hdata⟩, by simp [Texels.format]⟩
  · rintro ⟨texels, ⟨hname, hdata⟩, hbytes⟩
    cases texels with
    | srgb8 data => exact ⟨⟨.srgb8, by simp, hname⟩, data, hdata⟩
    | unorm8 data => exact ⟨⟨.unorm8, by simp, hname⟩, data, hdata⟩
    | float32 data => exact absurd rfl hbytes

omit [Channel α] in
theorem fits_floats {v : Value α} :
    (isNameOf [.float32] (v.field "format") = true ∧ (v.field "data").floatData?.isSome = true) ↔
    ∃ texels, v.texels? = some texels ∧ texels.format = .float32 := by
  simp only [texels?_iff, isNameOf_iff, Option.isSome_iff_exists, floatData?_iff, List.mem_singleton]
  constructor
  · rintro ⟨⟨f, rfl, hname⟩, data, hdata⟩
    exact ⟨.float32 data, ⟨hname, hdata⟩, rfl⟩
  · rintro ⟨texels, ⟨hname, hdata⟩, hfloat⟩
    cases texels with
    | float32 data => exact ⟨⟨.float32, rfl, hname⟩, data, hdata⟩
    | srgb8 data | unorm8 data => cases hfloat

/-- Without texels, no shape fits. -/
theorem rasterIssues_none {v : Value α} (h : v.texels? = none) : v.rasterIssues = [⟨[], .invalid⟩] := by
  rw [rasterIssues, unionIssues_right, shapeIssues_unfit]
  · rfl
  · rw [fits_floats]
    simp [h]
  · refine shapeIssues_unfit ?_
    rw [fits_bytes]
    simp [h]

/-- With texels, one shape fits. -/
theorem rasterIssues_some {v : Value α} {texels : Texels α} (h : v.texels? = some texels) :
    v.rasterIssues = if v.sizeIssues.all (·.problem.keepsShape) then v.sizeIssues ++ v.countIssues else
    [⟨[], .invalid⟩] := by
  have hobject : v.kind = .object := by
    by_contra hkind
    have hformat := (texels?_iff.mp h).1
    rw [field_of_kind hkind] at hformat
    cases hformat
  unfold rasterIssues
  by_cases hfloat : texels.format = .float32
  · obtain ⟨hformat, hdata⟩ := fits_floats.mpr ⟨texels, h, hfloat⟩
    rw [unionIssues_right, shapeIssues_fit hobject hformat hdata]
    refine shapeIssues_unfit fun hfits => ?_
    obtain ⟨texels', h', hbytes⟩ := fits_bytes.mp hfits
    cases h.symm.trans h'
    exact hbytes hfloat
  · obtain ⟨hformat, hdata⟩ := fits_bytes.mpr ⟨texels, h, hfloat⟩
    rw [unionIssues_left, shapeIssues_fit hobject hformat hdata]
    refine shapeIssues_unfit fun hfits => ?_
    obtain ⟨texels', h', hfloat'⟩ := fits_floats.mp hfits
    cases h.symm.trans h'
    exact hfloat hfloat'

omit [Channel α] in
theorem size_eq_dataCount {v : Value α} {texels : Texels α} (h : v.IsData texels) : texels.size = v.dataCount := by
  cases texels <;> exact h ▸ rfl

/-- A raster is checked as a union of its shapes. -/
theorem checkRaster_issues (v : Value α) : (v.checkRaster : Checked (Raster ν α)).issues = v.rasterIssues := by
  cases h : v.texels? with
  | none => simp [rasterIssues_none h, checkRaster, h]
  | some texels =>
    rw [rasterIssues_some h]
    by_cases hkept : v.sizeIssues.all (·.problem.keepsShape) = true
    · obtain ⟨⟨x, hx, hxnumber⟩, ⟨y, hy, hynumber⟩⟩ := sizeIssues_kept.mp hkept
      have hcount : v.countIssues = checkCount x y texels.size := by
        rw [size_eq_dataCount (texels?_iff.mp h).2, countIssues, hx, hy]
      have hsizes : (((v.checkField "width" checkDimension).map Prod.mk).both
          (v.checkField "height" checkDimension)).issues =
          v.sizeIssues := by simp [sizeIssues]
      rw [if_pos hkept, hcount, ← hsizes, checkRaster, h, hx, hy]
      simp only [hxnumber, hynumber, Bool.or_self, Bool.false_eq_true, if_false]
      split
      · rename_i hnone
        exact hnone.symm
      · rfl
    · rw [if_neg hkept]
      unfold checkRaster
      split
      · rename_i _ x y _ hx hy
        rw [if_pos]
        · rfl
        · by_contra hnumbers
          rw [Bool.or_eq_true, not_or, Bool.not_eq_true, Bool.not_eq_true] at hnumbers
          exact hkept (sizeIssues_kept.mpr ⟨⟨x, hx, hnumbers.1⟩, ⟨y, hy, hnumbers.2⟩⟩)
      · rfl

/-! ## Issues of checks -/

omit [Channel α] in
theorem optional_issues (v : Value α) (check : Value α → Checked β) :
    (v.optional check).issues = optionalIssues (fun w => (check w).issues) v := by
  unfold optional optionalIssues
  split
  · rfl
  · exact Checked.issues_map _ _

theorem checkRectangle_issues (v : Value α) :
    (v.checkRectangle : Checked (Rectangle ν)).issues = v.rectangleIssues := by
  unfold checkRectangle checkObject rectangleIssues objectIssues
  cases v.kind <;> simp [checkField, checkCoordinate, coordinateIssues]

theorem checkLayer_issues (v : Value α) : (v.checkLayer : Checked (Layer ν α)).issues = v.layerIssues := by
  unfold checkLayer checkObject layerIssues objectIssues
  cases v.kind <;> simp [checkField, optional_issues, checkRaster_issues, checkRectangle_issues]

theorem checkLayers_issues (v : Value α) :
    (v.checkLayers : Checked (List (Layer ν α))).issues = v.layersIssues := by
  cases v with
  | array items =>
    cases items with
    | nil => rfl
    | cons item items =>
      simp only [checkLayers, layersIssues, Checked.issues_all, List.zipIdx_map, List.flatMap_map, Prod.map,
        checkLayer_issues, id]
  | _ => rfl

/-! ## Unknown fields -/

/-- The fields that are known, each with its own unknown fields dropped. -/
def known (shape : List (String × (Value α → Value α))) : Value α → Value α
  | object fields => object (shape.filterMap fun entry => (fields.lookup entry.1).map fun w => (entry.1, entry.2 w))
  | v => v

def knownRaster : Value α → Value α := known [("width", id), ("height", id), ("format", id), ("data", id)]

def knownRectangle : Value α → Value α := known [("x", id), ("y", id), ("maxX", id), ("maxY", id)]

def knownLayer : Value α → Value α :=
  known [("buffer", knownRaster), ("mode", id), ("space", id), ("opacity", id), ("placement", knownRectangle)]

def knownLayers : Value α → Value α
  | array items => array (items.map knownLayer)
  | v => v

omit [Channel α] in
theorem lookup_known (shape : List (String × (Value α → Value α))) (fields : List (String × Value α))
    (name : String) :
    (shape.filterMap fun entry => (fields.lookup entry.1).map fun w => (entry.1, entry.2 w)).lookup name =
      (shape.lookup name).bind fun drop => (fields.lookup name).map drop := by
  induction shape with
  | nil => rfl
  | cons entry shape ih =>
    obtain ⟨key, drop⟩ := entry
    by_cases hname : name = key
    · subst hname
      cases hfield : fields.lookup name with
      | none => simp [hfield, ih]
      | some w => simp [hfield]
    · have hne : (name == key) = false := beq_eq_false_iff_ne.mpr hname
      cases hfield : fields.lookup key with
      | none => simp [hfield, ih, List.lookup_cons, hne]
      | some w => simp [hfield, ih, List.lookup_cons, hne]

theorem kind_known (shape : List (String × (Value α → Value α))) (v : Value α) : (v.known shape).kind = v.kind := by
  cases v <;> rfl

omit [Channel α] in
theorem field_known {shape : List (String × (Value α → Value α))} {name : String} {drop : Value α → Value α}
    (h : shape.lookup name = some drop) (hundefined : drop .undefined = .undefined) (v : Value α) :
    (v.known shape).field name = drop (v.field name) := by
  cases v with
  | object fields =>
    show (List.lookup name _).getD .undefined = drop ((List.lookup name fields).getD .undefined)
    rw [lookup_known, h]
    cases List.lookup name fields with
    | none => exact hundefined.symm
    | some w => rfl
  | _ => exact hundefined.symm

omit [Channel α] in
theorem field_known_id {shape : List (String × (Value α → Value α))} {name : String}
    (h : shape.lookup name = some id) (v : Value α) : (v.known shape).field name = v.field name :=
  field_known h rfl v

omit [Channel α] in
theorem known_known {shape : List (String × (Value α → Value α))}
    (hshape : ∀ entry ∈ shape, shape.lookup entry.1 = some entry.2)
    (hdrop : ∀ entry ∈ shape, ∀ w, entry.2 (entry.2 w) = entry.2 w)
    (v : Value α) : (v.known shape).known shape = v.known shape := by
  cases v with
  | object fields =>
    refine congrArg object (List.filterMap_congr fun entry hentry => ?_)
    rw [lookup_known, hshape entry hentry]
    simp [hdrop entry hentry, Option.map_map, Function.comp_def]
  | _ => rfl

theorem checkRaster_known (v : Value α) : (v.knownRaster.checkRaster : Checked (Raster ν α)) = v.checkRaster := by
  have hwidth : v.knownRaster.field "width" = v.field "width" := field_known_id rfl v
  have hheight : v.knownRaster.field "height" = v.field "height" := field_known_id rfl v
  have hformat : v.knownRaster.field "format" = v.field "format" := field_known_id rfl v
  have hdata : v.knownRaster.field "data" = v.field "data" := field_known_id rfl v
  simp only [checkRaster, texels?, checkField, hwidth, hheight, hformat, hdata]

theorem checkRectangle_known (v : Value α) :
    (v.knownRectangle.checkRectangle : Checked (Rectangle ν)) = v.checkRectangle := by
  have hkind : v.knownRectangle.kind = v.kind := kind_known _ v
  have hx : v.knownRectangle.field "x" = v.field "x" := field_known_id rfl v
  have hy : v.knownRectangle.field "y" = v.field "y" := field_known_id rfl v
  have hmaxX : v.knownRectangle.field "maxX" = v.field "maxX" := field_known_id rfl v
  have hmaxY : v.knownRectangle.field "maxY" = v.field "maxY" := field_known_id rfl v
  simp only [checkRectangle, checkObject, mismatch, checkField, hkind, hx, hy, hmaxX, hmaxY]

theorem checkLayer_known (v : Value α) : (v.knownLayer.checkLayer : Checked (Layer ν α)) = v.checkLayer := by
  have hkind : v.knownLayer.kind = v.kind := kind_known _ v
  have hbuffer : v.knownLayer.field "buffer" = (v.field "buffer").knownRaster := field_known rfl rfl v
  have hmode : v.knownLayer.field "mode" = v.field "mode" := field_known_id rfl v
  have hspace : v.knownLayer.field "space" = v.field "space" := field_known_id rfl v
  have hopacity : v.knownLayer.field "opacity" = v.field "opacity" := field_known_id rfl v
  have hplacement : v.knownLayer.field "placement" = (v.field "placement").knownRectangle := field_known rfl rfl v
  have hundefined (w : Value α) : w.knownRectangle.isUndefined = w.isUndefined := by cases w <;> rfl
  simp only [checkLayer, checkObject, mismatch, checkField, optional, hkind, hbuffer, hmode, hspace, hopacity,
    hplacement, hundefined, checkRaster_known, checkRectangle_known]

theorem checkLayers_known (v : Value α) :
    (v.knownLayers.checkLayers : Checked (List (Layer ν α))) = v.checkLayers := by
  cases v with
  | array items =>
    cases items with
    | nil => rfl
    | cons item items =>
      simp only [knownLayers, checkLayers, List.map_cons, List.map_map, Function.comp_def, checkLayer_known]
  | _ => rfl

omit [Channel α] in
theorem knownLayers_knownLayers (v : Value α) : v.knownLayers.knownLayers = v.knownLayers := by
  have hraster (w : Value α) : w.knownRaster.knownRaster = w.knownRaster :=
    known_known (by simp [List.lookup_cons]) (by simp) w
  have hrectangle (w : Value α) : w.knownRectangle.knownRectangle = w.knownRectangle :=
    known_known (by simp [List.lookup_cons]) (by simp) w
  have hlayer (w : Value α) : w.knownLayer.knownLayer = w.knownLayer :=
    known_known (by simp [List.lookup_cons]) (by simp [hraster, hrectangle]) w
  cases v with
  | array items => simp [knownLayers, hlayer]
  | _ => rfl

end Value

/-- Layers are read from what the grammar of layers says, and from nothing else: the fields that it does not know
may as well be dropped. What it does not say is refused with a report of all issues, those of each layer under its
index, those of each field under its name. -/
theorem parseLayers_grammar [Measure ν] [Channel α] (v : Value α) :
    (∀ layers : List (Layer ν α), parseLayers v = .ok layers ↔ v.IsLayers layers) ∧
    ((parseLayers v.knownLayers : Except Failure (List (Layer ν α))) = parseLayers v ∧
      v.knownLayers.knownLayers = v.knownLayers) ∧
    (∀ failure, (parseLayers v : Except Failure (List (Layer ν α))) = .error failure ↔
      v.layersIssues ≠ [] ∧ failure = .engine (.malformed "layers" v.layersIssues) (some .malformed)) ∧
    (Complaint.malformed "layers" v.layersIssues).code = .validation ∧
    ∀ item : Value α, item.layerIssues = [] ↔ ∃ layer : Layer ν α, item.IsLayer layer := by
  have hdecides := v.checkLayers_decides (ν := ν)
  have hissues := v.checkLayers_issues (ν := ν)
  have hknown := congrArg (Checked.orMalformed "layers") (v.checkLayers_known (ν := ν))
  refine ⟨fun layers => ?_, ⟨hknown, v.knownLayers_knownLayers⟩, fun failure => ?_, rfl, fun item => ?_⟩
  · rw [← hdecides.ok_iff]
    exact ⟨Checked.orMalformed_ok, congrArg (Checked.orMalformed "layers")⟩
  · rw [← hissues]
    unfold parseLayers
    cases hc : (v.checkLayers : Checked (List (Layer ν α))) with
    | ok layers => simp [Checked.orMalformed, Checked.issues]
    | failed issues =>
      have hne : issues ≠ [] := fun hnil => hdecides.ne_failed_nil (hnil ▸ hc)
      simp [Checked.orMalformed, Checked.issues, hne, eq_comm]
  · rw [← item.checkLayer_issues (ν := ν)]
    exact item.checkLayer_decides.issues_iff

/-- Two texels' width for the data of one. -/
example : (parseLayers (.array [.object [("buffer", .object [("width", .number 2), ("height", .number 1),
      ("format", .string "rgba8unorm"), ("data", .bytes #[255, 0, 0, 255])]), ("mode", .string "source-over"),
      ("space", .string "srgb")]]) :
      Except Failure (List (Layer Int Float))) =
    .error (.engine (.malformed "layers" [⟨[.index 0, .field "buffer", .field "data"], .wrongCount "8" 4⟩])
      (some .malformed)) := by
  decide +kernel

end Strata
