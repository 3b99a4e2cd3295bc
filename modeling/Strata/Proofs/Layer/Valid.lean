import Strata.Layer.Basic

/-!
# What parsing makes sure of

A layer that the parser lets through is `Valid`: it has a size above zero, as many channels as the size
asks for, and an opacity of the unit interval. Of arithmetic only the laws of `Channel.Ordered` are used.
-/

namespace Strata

variable {α : Type}

/-- What checking needs to know about numbers. -/
class Channel.Ordered (α : Type) [Channel α] : Prop where
  ofNat_zero : (Channel.ofNat 0 : α) = 0
  ofNat_one : (Channel.ofNat 1 : α) = 1
  zero_le_one : (0 : α) ≤ 1
  one_le_one : (1 : α) ≤ 1
  integer_pos (x : α) (n : Int) : 0 < x → Channel.integer? x = some n → 0 < n

namespace Layer

structure Valid [Channel α] (l : Layer Int α) : Prop where
  positive : 0 < l.raster.width ∧ 0 < l.raster.height
  count : (l.raster.texels.size : Int) = l.raster.width * l.raster.height * 4
  opacity : 0 ≤ l.opacity.getD 1 ∧ l.opacity.getD 1 ≤ 1

end Layer

/-! ## Checks that pass -/

namespace Checked

variable {β γ : Type}

theorem within_ok {step : PathStep} {c : Checked β} {v : β} : c.within step = .ok v ↔ c = .ok v := by
  cases c <;> simp [within]

theorem map_ok {f : β → γ} {c : Checked β} {v : γ} : c.map f = .ok v ↔ ∃ x, c = .ok x ∧ f x = v := by
  cases c <;> simp [map]

theorem both_ok {f : Checked (β → γ)} {x : Checked β} {v : γ} :
    f.both x = .ok v ↔ ∃ g y, f = .ok g ∧ x = .ok y ∧ g y = v := by
  cases f with
  | ok g => cases x <;> simp [both]
  | failed issues => cases x <;> simp [both]

theorem all_ok {i : Nat} {cs : List (Checked β)} {vs : List β} : all i cs = .ok vs ↔ cs = vs.map .ok := by
  induction cs generalizing i vs with
  | nil => cases vs <;> simp [all]
  | cons c cs ih =>
    simp only [all, both_ok, map_ok, within_ok, ih]
    constructor
    · rintro ⟨g, rest, ⟨v, rfl, rfl⟩, rfl, rfl⟩
      rfl
    · intro h
      obtain ⟨v, rest, rfl, hv, hrest⟩ := List.map_eq_cons_iff.mp h.symm
      exact ⟨_, rest, ⟨v, hv.symm, rfl⟩, hrest.symm, rfl⟩

theorem issues_eq_nil {c : Checked β} (h : c.issues = []) : (∃ v, c = .ok v) ∨ c = .failed [] := by
  cases c with
  | ok v => exact .inl ⟨v, rfl⟩
  | failed issues =>
    cases h
    exact .inr rfl

end Checked

namespace Value

variable [Channel α]

theorem checkNumber_ok {v : Value α} {tests : List ((α → Bool) × Problem)} {x : α}
    (h : v.checkNumber tests = .ok x) : v = .number x ∧ ∀ t ∈ tests, t.1 x = true := by
  unfold checkNumber at h
  split at h
  · rename_i y
    split at h
    · cases h
    · split at h
      · rename_i hissues
        cases h
        refine ⟨rfl, fun t ht => ?_⟩
        have hnone := List.filterMap_eq_nil_iff.mp hissues t ht
        by_cases hc : t.1 x = true
        · exact hc
        · simp [hc] at hnone
      · cases h
  · cases h

omit [Channel α] in
theorem checkField_ok {β : Type} {v : Value α} {name : String} {check : Value α → Checked β} {x : β} :
    v.checkField name check = .ok x ↔ check (v.field name) = .ok x := Checked.within_ok

theorem checkObject_ok {β : Type} {v : Value α} {check : Value α → Checked β} {x : β}
    (h : v.checkObject check = .ok x) : check v = .ok x := by
  unfold checkObject at h
  split at h
  · exact h
  · cases h

theorem checkNumber_ne (v : Value α) (tests : List ((α → Bool) × Problem)) : v.checkNumber tests ≠ .failed [] := by
  intro h
  unfold checkNumber at h
  split at h
  · split at h
    · cases h
    · split at h
      · cases h
      · rename_i hne
        exact hne (Checked.failed.inj h)
  · cases h

theorem checkDimension_ok {v : Value α} {name : String} (h : (v.checkField name checkDimension).issues = []) {x : α}
    (hx : v.field name = .number x) : 0 < x ∧ ∃ n, Channel.integer? x = some n := by
  have hok : ∃ y, checkDimension (v.field name) = .ok y := by
    rcases Checked.issues_eq_nil h with ⟨y, hy⟩ | hf
    · exact ⟨y, checkField_ok.mp hy⟩
    · unfold checkField at hf
      cases hc : checkDimension (v.field name) with
      | ok y => exact ⟨y, rfl⟩
      | failed issues =>
        rw [hc] at hf
        cases issues with
        | nil => exact absurd hc (checkNumber_ne _ _)
        | cons i rest => cases hf
  obtain ⟨y, hy⟩ := hok
  obtain ⟨hv, htests⟩ := checkNumber_ok hy
  rw [hx] at hv
  cases hv
  have hint := htests isIntegral (List.mem_cons_self ..)
  have hpos := htests isPositive (List.mem_cons_of_mem _ (List.mem_cons_self ..))
  exact ⟨of_decide_eq_true hpos, Option.isSome_iff_exists.mp hint⟩

variable [Channel.Ordered α]

theorem checkRaster_ok {v : Value α} {r : Raster Int α} (h : checkRaster v = .ok r) :
    (0 < r.width ∧ 0 < r.height) ∧ (r.texels.size : Int) = r.width * r.height * 4 := by
  unfold checkRaster at h
  split at h
  · rename_i texels width height ht hw hh
    split at h
    · cases h
    · dsimp only at h
      split at h
      · rename_i hissues
        cases h
        obtain ⟨hsize, hcount⟩ := List.append_eq_nil_iff.mp hissues
        have hdims : (v.checkField "width" checkDimension).issues = [] ∧
            (v.checkField "height" checkDimension).issues = [] := by
          revert hsize
          cases v.checkField "width" checkDimension <;> cases v.checkField "height" checkDimension <;>
            simp [Checked.map, Checked.both, Checked.issues]
        obtain ⟨hwpos, w, hwint⟩ := checkDimension_ok hdims.1 hw
        obtain ⟨hhpos, n, hhint⟩ := checkDimension_ok hdims.2 hh
        have hmeasure {x : α} {n : Int} (hx : Channel.integer? x = some n) : (measureOf x : Int) = n := by
          show (Channel.integer? x).getD 0 = n
          rw [hx]
          rfl
        rw [hmeasure hwint, hmeasure hhint]
        refine ⟨⟨Channel.Ordered.integer_pos _ _ hwpos hwint, Channel.Ordered.integer_pos _ _ hhpos hhint⟩, ?_⟩
        unfold checkCount at hcount
        simp only [hwint, hhint] at hcount
        split at hcount
        · rename_i heq
          exact (beq_iff_eq.mp heq).symm
        · cases hcount
      · cases h
  · cases h

theorem checkOpacity_ok {v : Value α} {o : Option α} (h : v.optional checkOpacity = .ok o) :
    0 ≤ o.getD 1 ∧ o.getD 1 ≤ 1 := by
  unfold optional at h
  split at h
  · cases h
    exact ⟨Channel.Ordered.zero_le_one, Channel.Ordered.one_le_one⟩
  · obtain ⟨x, hx, rfl⟩ := Checked.map_ok.mp h
    obtain ⟨-, htests⟩ := checkNumber_ok hx
    have hleast := of_decide_eq_true (htests (isAtLeast 0) (List.mem_cons_self ..))
    have hmost := of_decide_eq_true (htests (isAtMost 1) (List.mem_cons_of_mem _ (List.mem_cons_self ..)))
    rw [Channel.Ordered.ofNat_zero] at hleast
    rw [Channel.Ordered.ofNat_one] at hmost
    exact ⟨hleast, hmost⟩

theorem checkLayer_ok {v : Value α} {l : Layer Int α} (h : checkLayer v = .ok l) : l.Valid := by
  obtain ⟨_, placement, h₁, -, rfl⟩ := Checked.both_ok.mp (checkObject_ok h)
  obtain ⟨_, opacity, h₂, ho, rfl⟩ := Checked.both_ok.mp h₁
  obtain ⟨_, space, h₃, -, rfl⟩ := Checked.both_ok.mp h₂
  obtain ⟨_, mode, h₄, -, rfl⟩ := Checked.both_ok.mp h₃
  obtain ⟨raster, hr, rfl⟩ := Checked.map_ok.mp h₄
  obtain ⟨hpos, hcount⟩ := checkRaster_ok (checkField_ok.mp hr)
  exact ⟨hpos, hcount, checkOpacity_ok (checkField_ok.mp ho)⟩

end Value

theorem Checked.orMalformed_ok {β : Type} {what : String} {c : Checked β} {v : β} (h : c.orMalformed what = .ok v) :
    c = .ok v := by
  cases c with
  | ok value =>
    cases h
    rfl
  | failed issues => cases h

theorem parseLayers_array {ν : Type} [Measure ν] [Channel α] {items : List (Value α)} {layers : List (Layer ν α)} :
    parseLayers (.array items) = .ok layers ↔ items ≠ [] ∧ items.map Value.checkLayer = layers.map .ok := by
  cases items with
  | nil => simp [parseLayers, Value.checkLayers, Checked.problem, Checked.orMalformed]
  | cons item items =>
    rw [← Checked.all_ok (i := 0)]
    exact ⟨fun h => ⟨List.cons_ne_nil _ _, Checked.orMalformed_ok h⟩, fun h =>
      congrArg (Checked.orMalformed "layers") h.2⟩

theorem parseLayers_ok {ν : Type} [Measure ν] [Channel α] {v : Value α} {layers : List (Layer ν α)}
    (h : parseLayers v = .ok layers) : layers ≠ [] ∧ ∀ l ∈ layers, ∃ item, Value.checkLayer item = .ok l := by
  cases v with
  | array items =>
    obtain ⟨hne, hitems⟩ := parseLayers_array.mp h
    refine ⟨fun hnil => hne (by simpa [hnil] using hitems), fun l hl => ?_⟩
    have hmem : Checked.ok l ∈ items.map Value.checkLayer := hitems ▸ List.mem_map_of_mem hl
    obtain ⟨item, -, hitem⟩ := List.mem_map.mp hmem
    exact ⟨item, hitem⟩
  | _ => cases h

/-- Layers that were parsed are valid, and there is one at least. -/
theorem parseLayers_valid [Channel α] [Channel.Ordered α] {v : Value α} {layers : List (Layer Int α)}
    (h : parseLayers v = .ok layers) : layers ≠ [] ∧ ∀ l ∈ layers, l.Valid := by
  obtain ⟨hne, hchecked⟩ := parseLayers_ok h
  refine ⟨hne, fun l hl => ?_⟩
  obtain ⟨item, hitem⟩ := hchecked l hl
  exact Value.checkLayer_ok hitem

end Strata
