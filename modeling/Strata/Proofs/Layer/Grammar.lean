import Strata.Proofs.Layer.Valid
import Strata.Proofs.Pipeline.Programs

/-!
# The grammar of layers

What a value must be to be read as a layer, field by field (`Value.IsLayer`). Every check decides a part of this
grammar (`Checked.Decides`): it answers what the value reads as, and has an issue where it reads as nothing. Checks
are composed of smaller ones, and so are the proofs that they decide.
-/

namespace Strata

variable {ν α β γ : Type}

/-! ## Checks that decide -/

namespace Checked

@[simp] theorem issues_within (c : Checked β) (step : PathStep) :
    (c.within step).issues = c.issues.map (·.within step) := by
  cases c <;> rfl

@[simp] theorem issues_map (c : Checked β) (f : β → γ) : (c.map f).issues = c.issues := by
  cases c <;> rfl

@[simp] theorem issues_both (f : Checked (β → γ)) (x : Checked β) : (f.both x).issues = f.issues ++ x.issues := by
  cases f <;> cases x <;> rfl

@[simp] theorem issues_problem (p : Problem) : (problem p : Checked β).issues = [⟨[], p⟩] := rfl

theorem issues_all (i : Nat) (cs : List (Checked β)) :
    (all i cs).issues = (cs.zipIdx i).flatMap fun entry => entry.1.issues.map (·.within (.index entry.2)) := by
  induction cs generalizing i with
  | nil => rfl
  | cons c cs ih => simp [all, ih]

/-- The check answers what is read, and has an issue where nothing is. -/
structure Decides (c : Checked β) (reads : β → Prop) : Prop where
  ok_iff (x : β) : c = .ok x ↔ reads x
  ne_failed_nil : c ≠ .failed []

namespace Decides

variable {c : Checked β} {reads reads' : β → Prop}

theorem issues_iff (h : c.Decides reads) : c.issues = [] ↔ ∃ x, reads x := by
  simp only [← h.ok_iff]
  cases c with
  | ok x => simp [issues]
  | failed issues =>
    have hne : issues ≠ [] := fun hnil => h.ne_failed_nil (hnil ▸ rfl)
    simp [Checked.issues, hne]

theorem problem {p : Problem} (h : ∀ x, ¬reads x) : (problem p : Checked β).Decides reads where
  ok_iff x := by simp [Checked.problem, h x]
  ne_failed_nil := nofun

theorem ok {x : β} (h : ∀ y, reads y ↔ x = y) : (ok x).Decides reads where
  ok_iff y := by simp [h y]
  ne_failed_nil := nofun

theorem congr (h : c.Decides reads) (hiff : ∀ x, reads x ↔ reads' x) : c.Decides reads' where
  ok_iff x := (h.ok_iff x).trans (hiff x)
  ne_failed_nil := h.ne_failed_nil

theorem within (h : c.Decides reads) (step : PathStep) : (c.within step).Decides reads where
  ok_iff x := within_ok.trans (h.ok_iff x)
  ne_failed_nil := by
    cases c with
    | ok x => nofun
    | failed issues =>
      intro hnil
      have hissues : issues = [] := by simpa [Checked.within] using hnil
      exact h.ne_failed_nil (hissues ▸ rfl)

theorem map (h : c.Decides reads) (f : β → γ) : (c.map f).Decides fun y => ∃ x, reads x ∧ f x = y where
  ok_iff y := by simp only [map_ok, h.ok_iff]
  ne_failed_nil := by
    cases c with
    | ok x => nofun
    | failed issues => exact fun hnil => h.ne_failed_nil (congrArg failed (failed.inj hnil))

theorem both {f : Checked (β → γ)} {x : Checked β} {readsFun : (β → γ) → Prop} (hf : f.Decides readsFun)
    (hx : x.Decides reads) : (f.both x).Decides fun z => ∃ g y, readsFun g ∧ reads y ∧ g y = z where
  ok_iff z := by simp only [both_ok, hf.ok_iff, hx.ok_iff]
  ne_failed_nil := by
    intro hnil
    have hissues := congrArg Checked.issues hnil
    rw [issues_both] at hissues
    obtain ⟨hfnil, hxnil⟩ := List.append_eq_nil_iff.mp hissues
    obtain ⟨g, hg⟩ := hf.issues_iff.mp hfnil
    obtain ⟨y, hy⟩ := hx.issues_iff.mp hxnil
    rw [(hf.ok_iff g).mpr hg, (hx.ok_iff y).mpr hy] at hnil
    cases hnil

theorem all {check : γ → Checked β} {reads : γ → β → Prop} {vs : List γ} (h : ∀ v ∈ vs, (check v).Decides (reads v))
    (i : Nat) : (all i (vs.map check)).Decides (List.Forall₂ reads vs) := by
  induction vs generalizing i with
  | nil => exact .ok fun xs => by simp [eq_comm]
  | cons v vs ih =>
    obtain ⟨hv, hvs⟩ := List.forall_mem_cons.mp h
    refine (((hv.within _).map _).both (ih hvs (i + 1))).congr fun xs => ?_
    rw [List.forall₂_cons_left_iff]
    constructor
    · rintro ⟨-, rest, ⟨x, hx, rfl⟩, hrest, rfl⟩
      exact ⟨x, rest, hx, hrest, rfl⟩
    · rintro ⟨x, rest, hx, hrest, rfl⟩
      exact ⟨_, rest, ⟨x, hx, rfl⟩, hrest, rfl⟩

end Decides

end Checked

namespace Value

variable [Measure ν] [Channel α]

/-! ## What a value reads as -/

/-- A number that is one. -/
def IsNumeral (v : Value α) (x : α) : Prop := v = .number x ∧ Channel.isNaN x = false

def IsDimension (v : Value α) (n : Int) : Prop := ∃ x, v.IsNumeral x ∧ 0 < x ∧ Channel.integer? x = some n

def IsCoordinate (v : Value α) (c : ν) : Prop :=
  ∃ x n, v.IsNumeral x ∧ Channel.ofNat 0 ≤ x ∧ Channel.integer? x = some n ∧ c = Measure.ofInt n

def IsOpacity (v : Value α) (x : α) : Prop := v.IsNumeral x ∧ Channel.ofNat 0 ≤ x ∧ x ≤ Channel.ofNat 1

def IsOptional (reads : Value α → β → Prop) (v : Value α) : Option β → Prop
  | none => v = .undefined
  | some x => reads v x

/-- Bytes for a byte format, floats for the float format. -/
def IsData (v : Value α) : Texels α → Prop
  | .srgb8 data | .unorm8 data => v = .bytes data
  | .float32 data => v = .singles data

structure IsRectangle (v : Value α) (r : Rectangle ν) : Prop where
  object : v.kind = .object
  x : (v.field "x").IsCoordinate r.x
  y : (v.field "y").IsCoordinate r.y
  maxX : (v.field "maxX").IsCoordinate r.maxX
  maxY : (v.field "maxY").IsCoordinate r.maxY

structure IsRaster (v : Value α) (raster : Raster ν α) : Prop where
  format : v.field "format" = .string raster.format.name
  data : (v.field "data").IsData raster.texels
  size : ∃ width height, (v.field "width").IsDimension width ∧ (v.field "height").IsDimension height ∧
    raster.width = Measure.ofInt width ∧ raster.height = Measure.ofInt height ∧
      (raster.texels.size : Int) = width * height * 4

structure IsLayer (v : Value α) (layer : Layer ν α) : Prop where
  object : v.kind = .object
  buffer : (v.field "buffer").IsRaster layer.raster
  mode : v.field "mode" = .string layer.mode.name
  space : v.field "space" = .string layer.space.name
  opacity : (v.field "opacity").IsOptional IsOpacity layer.opacity
  placement : (v.field "placement").IsOptional IsRectangle layer.placement

def IsLayers (v : Value α) (layers : List (Layer ν α)) : Prop :=
  ∃ items, v = .array items ∧ items ≠ [] ∧ List.Forall₂ IsLayer items layers

/-! ## Checks of values -/

theorem checkNumber_decides (v : Value α) (tests : List ((α → Bool) × Problem)) :
    (v.checkNumber tests).Decides fun x => v.IsNumeral x ∧ ∀ t ∈ tests, t.1 x = true := by
  unfold checkNumber
  split
  · rename_i y
    by_cases hnan : Channel.isNaN y = true
    · rw [if_pos hnan]
      refine .problem fun x ⟨⟨hx, hnumber⟩, _⟩ => ?_
      cases hx
      exact absurd hnan (by simp [hnumber])
    · rw [if_neg hnan]
      have hnone : (tests.filterMap fun t => if t.1 y then none else some (⟨[], t.2⟩ : Issue)) = [] ↔
          ∀ t ∈ tests, t.1 y = true := by
        simp [List.filterMap_eq_nil_iff]
      split
      · rename_i hissues
        refine .ok fun x => ⟨fun h => (number.inj h.1.1), ?_⟩
        rintro rfl
        exact ⟨⟨rfl, by simpa using hnan⟩, hnone.mp hissues⟩
      · rename_i hne
        refine ⟨fun x => ⟨nofun, fun ⟨⟨hx, _⟩, htests⟩ => ?_⟩, fun hnil => hne (Checked.failed.inj hnil)⟩
        cases hx
        exact absurd (hnone.mpr htests) hne
  · rename_i hnot
    exact .problem fun x ⟨⟨hx, _⟩, _⟩ => hnot x hx

omit [Channel α] in
theorem checkField_decides {v : Value α} {name : String} {check : Value α → Checked β} {reads : Value α → β → Prop}
    (h : (check (v.field name)).Decides (reads (v.field name))) :
    (v.checkField name check).Decides (reads (v.field name)) :=
  h.within _

theorem checkObject_decides {v : Value α} {check : Value α → Checked β} {reads : β → Prop}
    (h : (check v).Decides reads) : (v.checkObject check).Decides fun x => v.kind = .object ∧ reads x := by
  unfold checkObject
  split
  · rename_i hkind
    exact h.congr fun x => by simp [hkind]
  · rename_i hkind
    exact .problem fun x hx => hkind hx.1

omit [Channel α] in
theorem optional_decides {v : Value α} {check : Value α → Checked β} {reads : Value α → β → Prop}
    (h : (check v).Decides (reads v)) (hundefined : ∀ x, ¬reads .undefined x) :
    (v.optional check).Decides (v.IsOptional reads) := by
  unfold optional
  cases v with
  | undefined =>
    refine .ok fun o => ?_
    cases o with
    | none => simp [IsOptional]
    | some x => simp [IsOptional, hundefined]
  | _ =>
    refine (h.map some).congr fun o => ?_
    cases o <;> simp [IsOptional]

theorem checkName_decides {v : Value α} {choices : List String} {ofName? : String → Option β} {name : β → String}
    (h : ∀ s b, ofName? s = some b ↔ s = name b) :
    (v.checkName choices ofName?).Decides fun b => v = .string (name b) := by
  unfold checkName
  split
  · rename_i s
    cases hs : ofName? s with
    | some choice =>
      refine .ok fun b => ?_
      rw [string.injEq, ← h, hs, Option.some.injEq]
    | none =>
      refine .problem fun b hb => ?_
      rw [(h s b).mpr (string.inj hb)] at hs
      cases hs
  · exact .problem nofun
  · rename_i hnot _
    exact .problem fun b hb => hnot _ hb

theorem checkMode_decides (v : Value α) : v.checkMode.Decides fun mode => v = .string mode.name :=
  checkName_decides fun _ mode => ⟨BlendMode.name_of_ofName?, fun h => h ▸ BlendMode.ofName?_name mode⟩

theorem checkSpace_decides (v : Value α) : v.checkSpace.Decides fun space => v = .string space.name :=
  checkName_decides fun _ space => ⟨ColorSpace.name_of_ofName?, fun h => h ▸ ColorSpace.ofName?_name space⟩

theorem checkOpacity_decides (v : Value α) : v.checkOpacity.Decides v.IsOpacity :=
  (checkNumber_decides v _).congr fun x => by simp [IsOpacity, isAtLeast, isAtMost]

theorem measureOf_iff {x : α} {c : ν} : (Channel.integer? x).isSome = true ∧ measureOf x = c ↔
    ∃ n, Channel.integer? x = some n ∧ c = Measure.ofInt n := by
  unfold measureOf integerOf
  cases Channel.integer? x <;> simp [eq_comm]

theorem checkCoordinate_decides (v : Value α) : (v.checkCoordinate : Checked ν).Decides v.IsCoordinate := by
  refine ((checkNumber_decides v _).map measureOf).congr fun c => ?_
  simp only [isIntegral, isAtLeast, List.forall_mem_cons, IsCoordinate]
  constructor
  · rintro ⟨x, ⟨hx, hint, hleast, -⟩, hc⟩
    obtain ⟨n, hn, hcn⟩ := measureOf_iff.mp ⟨hint, hc⟩
    exact ⟨x, n, hx, of_decide_eq_true hleast, hn, hcn⟩
  · rintro ⟨x, n, hx, hleast, hn, hc⟩
    obtain ⟨hint, hmeasure⟩ := measureOf_iff.mpr ⟨n, hn, hc⟩
    exact ⟨x, ⟨hx, hint, decide_eq_true hleast, nofun⟩, hmeasure⟩

theorem checkRectangle_decides (v : Value α) :
    (v.checkRectangle : Checked (Rectangle ν)).Decides v.IsRectangle := by
  have hcorner (name : String) :
      (v.checkField name (checkCoordinate (ν := ν))).Decides (v.field name).IsCoordinate :=
    checkField_decides (checkCoordinate_decides _)
  refine (checkObject_decides (((((hcorner "x").map Rectangle.mk).both (hcorner "y")).both (hcorner "maxX")).both
    (hcorner "maxY"))).congr fun r => ?_
  constructor
  · rintro ⟨hobject, -, maxY, ⟨-, maxX, ⟨-, y, ⟨x, hx, rfl⟩, hy, rfl⟩, hmaxX, rfl⟩, hmaxY, rfl⟩
    exact ⟨hobject, hx, hy, hmaxX, hmaxY⟩
  · rintro ⟨hobject, hx, hy, hmaxX, hmaxY⟩
    exact ⟨hobject, _, _, ⟨_, _, ⟨_, _, ⟨_, hx, rfl⟩, hy, rfl⟩, hmaxX, rfl⟩, hmaxY, rfl⟩

/-! ### Rasters -/

theorem field_of_kind {v : Value α} (h : v.kind ≠ .object) (name : String) : v.field name = .undefined := by
  cases v with
  | object fields => exact absurd rfl h
  | _ => rfl

theorem checkDimension_decides (v : Value α) :
    v.checkDimension.Decides fun x => ∃ n, v.IsNumeral x ∧ 0 < x ∧ Channel.integer? x = some n :=
  (checkNumber_decides v _).congr fun x => by
    simp only [isIntegral, isPositive, List.forall_mem_cons, Option.isSome_iff_exists, decide_eq_true_iff]
    constructor
    · rintro ⟨hx, ⟨n, hn⟩, hpos, -⟩
      exact ⟨n, hx, hpos, hn⟩
    · rintro ⟨n, hx, hpos, hn⟩
      exact ⟨hx, ⟨n, hn⟩, hpos, nofun⟩

theorem IsDimension.of_number {v : Value α} {x : α} {n : Int} (h : v.IsDimension n) (hv : v = .number x) :
    Channel.isNaN x = false ∧ Channel.integer? x = some n := by
  obtain ⟨x', ⟨hx', hnumber⟩, -, hint⟩ := h
  cases hv.symm.trans hx'
  exact ⟨hnumber, hint⟩

omit [Channel α] in
/-- A raster has texels as a format and data that fit. -/
theorem texels?_iff {v : Value α} {texels : Texels α} :
    v.texels? = some texels ↔ v.field "format" = .string texels.format.name ∧ (v.field "data").IsData texels := by
  have hname (s : String) (f : PixelFormat) : PixelFormat.ofName? s = some f ↔ s = f.name :=
    ⟨PixelFormat.name_of_ofName?, fun h => h ▸ PixelFormat.ofName?_name f⟩
  unfold texels?
  generalize v.field "format" = format
  generalize v.field "data" = data
  cases format with
  | string s =>
    simp only [name?, string.injEq, ← hname]
    cases hs : PixelFormat.ofName? s with
    | none => simp [byteFormat?, floatFormat?, hs]
    | some f =>
      cases f <;> cases data <;> cases texels <;>
        simp [byteFormat?, floatFormat?, hs, byteData?, floatData?, IsData, Texels.format, eq_comm]
  | _ => simp [name?]

theorem checkCount_iff {x y : α} {w h : Int} {count : Nat} (hw : Channel.integer? x = some w)
    (hh : Channel.integer? y = some h) : checkCount x y count = [] ↔ (count : Int) = w * h * 4 := by
  unfold checkCount
  simp only [hw, hh]
  split
  · rename_i heq
    exact ⟨fun _ => (beq_iff_eq.mp heq).symm, fun _ => rfl⟩
  · rename_i hne
    exact ⟨nofun, fun heq => absurd (beq_iff_eq.mpr heq.symm) hne⟩

/-- What the size of a raster lacks. -/
def sizeIssues (v : Value α) : List Issue :=
  (v.checkField "width" checkDimension).issues ++ (v.checkField "height" checkDimension).issues

theorem sizeIssues_iff {v : Value α} : v.sizeIssues = [] ↔
    (∃ w, (v.field "width").IsDimension w) ∧ ∃ h, (v.field "height").IsDimension h := by
  have hdimension (name : String) : (v.checkField name checkDimension).issues = [] ↔ ∃ n,
      (v.field name).IsDimension n :=
    ((checkDimension_decides _).within _).issues_iff.trans exists_comm
  rw [sizeIssues, List.append_eq_nil_iff, hdimension, hdimension]

theorem checkRaster_decides (v : Value α) : (v.checkRaster : Checked (Raster ν α)).Decides v.IsRaster := by
  unfold checkRaster
  split
  · rename_i texels x y htexels hx hy
    have hissues : (((v.checkField "width" checkDimension).map Prod.mk).both
        (v.checkField "height" checkDimension)).issues =
        v.sizeIssues := by simp [sizeIssues]
    have hreads (raster : Raster ν α) : v.IsRaster raster ↔ (v.sizeIssues = [] ∧ checkCount x y texels.size = []) ∧
        (⟨measureOf x, measureOf y, texels⟩ : Raster ν α) = raster := by
      rw [sizeIssues_iff]
      constructor
      · intro hraster
        obtain ⟨w, h, hw, hh, hwidth, hheight, hcount⟩ := hraster.size
        obtain rfl : texels = raster.texels :=
          Option.some.inj (htexels.symm.trans (texels?_iff.mpr ⟨hraster.format, hraster.data⟩))
        have hwint := (hw.of_number hx).2
        have hhint := (hh.of_number hy).2
        rw [(measureOf_iff.mpr ⟨w, hwint, hwidth⟩).2, (measureOf_iff.mpr ⟨h, hhint, hheight⟩).2]
        exact ⟨⟨⟨⟨w, hw⟩, ⟨h, hh⟩⟩, (checkCount_iff hwint hhint).mpr hcount⟩, rfl⟩
      · rintro ⟨⟨⟨⟨w, hw⟩, ⟨h, hh⟩⟩, hcount⟩, rfl⟩
        have hwint := (hw.of_number hx).2
        have hhint := (hh.of_number hy).2
        obtain ⟨hformat, hdata⟩ := texels?_iff.mp htexels
        refine ⟨hformat, hdata, w, h, hw, hh, ?_, ?_, (checkCount_iff hwint hhint).mp hcount⟩
        · exact congrArg Measure.ofInt (by simp [integerOf, hwint])
        · exact congrArg Measure.ofInt (by simp [integerOf, hhint])
    split
    · rename_i hnan
      refine .problem fun raster hraster => ?_
      obtain ⟨w, h, hw, hh, -⟩ := hraster.size
      simp [(hw.of_number hx).1, (hh.of_number hy).1] at hnan
    · dsimp only
      rw [hissues]
      split
      · rename_i hnone
        exact .ok fun raster => by rw [hreads, ← List.append_eq_nil_iff, and_iff_right hnone]
      · rename_i hne
        refine ⟨fun raster => ⟨nofun, fun hraster => ?_⟩, fun hnil => hne (Checked.failed.inj hnil)⟩
        exact absurd (List.append_eq_nil_iff.mpr ((hreads raster).mp hraster).1) hne
  · rename_i hnot
    refine .problem fun raster hraster => ?_
    obtain ⟨w, h, ⟨x, hx, -⟩, ⟨y, hy, -⟩, -⟩ := hraster.size
    exact hnot _ x y (texels?_iff.mpr ⟨hraster.format, hraster.data⟩) hx.1 hy.1

/-! ### Layers -/

theorem checkLayer_decides (v : Value α) : (v.checkLayer : Checked (Layer ν α)).Decides v.IsLayer := by
  have hbuffer : (v.checkField "buffer" checkRaster).Decides ((v.field "buffer").IsRaster (ν := ν)) :=
    checkField_decides (checkRaster_decides _)
  have hmode : (v.checkField "mode" checkMode).Decides _ := (checkMode_decides _).within _
  have hspace : (v.checkField "space" checkSpace).Decides _ := (checkSpace_decides _).within _
  have hopacity : (v.checkField "opacity" (optional · checkOpacity)).Decides
      ((v.field "opacity").IsOptional IsOpacity) :=
    checkField_decides (optional_decides (checkOpacity_decides _) fun _ hx => nomatch hx.1.1)
  have hplacement : (v.checkField "placement" (optional · checkRectangle)).Decides
      ((v.field "placement").IsOptional (IsRectangle (ν := ν))) :=
    checkField_decides (optional_decides (checkRectangle_decides _) fun _ hr => nomatch hr.object)
  have hfields := ((((hbuffer.map Layer.mk).both hmode).both hspace).both hopacity).both hplacement
  refine (checkObject_decides hfields).congr fun layer => ?_
  constructor
  · rintro ⟨hobject, -, _, ⟨-, _, ⟨-, _, ⟨-, _, ⟨_, hr, rfl⟩, hm, rfl⟩, hs, rfl⟩, ho, rfl⟩, hp, rfl⟩
    exact ⟨hobject, hr, hm, hs, ho, hp⟩
  · rintro ⟨hobject, hr, hm, hs, ho, hp⟩
    exact ⟨hobject, _, _, ⟨_, _, ⟨_, _, ⟨_, _, ⟨_, hr, rfl⟩, hm, rfl⟩, hs, rfl⟩, ho, rfl⟩, hp, rfl⟩

theorem checkLayers_decides (v : Value α) : (v.checkLayers : Checked (List (Layer ν α))).Decides v.IsLayers := by
  unfold checkLayers
  split
  · exact .problem fun layers ⟨items, hitems, hne, _⟩ => hne (array.inj hitems).symm
  · rename_i items hne
    refine (Checked.Decides.all (fun item _ => checkLayer_decides item) 0).congr fun layers => ?_
    constructor
    · exact fun hlayers => ⟨items, rfl, hne, hlayers⟩
    · rintro ⟨items', hitems, -, hlayers⟩
      cases hitems
      exact hlayers
  · rename_i _ hnot
    exact .problem fun layers ⟨items, hitems, _, _⟩ => hnot items hitems

end Value

end Strata
