import Strata.Proofs.Composite.Frames
import Strata.Proofs.Number.Whole

/-!
# Containment of rectangles

A least corner and a size say everything about a rectangle: which cells it covers (`covers_iff`) and what it
contains (`contains_iff`). Normalizing keeps them, so it changes no answer, and containment orders the rectangles
that it leaves. Where cells are covered at all, to contain is to cover. Binary64 rounds distances that no safe
integer is, but keeps their sign. So rectangles of floats answer as the integer ones that they denote as long as
their sizes are safe integers (`Safe.contains`), however far they lie apart; where a size is not, they need not
(`contains_rounds`). The laws of both are `contains_exact`.
-/

namespace Strata.Rectangle

variable {a b c outer inner r : Rectangle Int} {x y : Int}

/-! ## Normalizing -/

theorem width_eq (r : Rectangle Int) : r.width = max 0 (r.maxX - r.x) := rfl

theorem height_eq (r : Rectangle Int) : r.height = max 0 (r.maxY - r.y) := rfl

theorem width_normalize (r : Rectangle Int) : r.normalize.width = r.width := by
  show max 0 (r.x + max 0 (r.maxX - r.x) - r.x) = max 0 (r.maxX - r.x)
  omega

theorem height_normalize (r : Rectangle Int) : r.normalize.height = r.height := by
  show max 0 (r.y + max 0 (r.maxY - r.y) - r.y) = max 0 (r.maxY - r.y)
  omega

/-- Least corner and size are all that normalizing looks at. -/
theorem normalize_congr (hx : a.x = b.x) (hy : a.y = b.y) (hw : a.width = b.width) (hh : a.height = b.height) :
    a.normalize = b.normalize := by
  unfold normalize
  rw [hx, hy, hw, hh]

theorem normalize_normalize (r : Rectangle Int) : r.normalize.normalize = r.normalize :=
  normalize_congr rfl rfl r.width_normalize r.height_normalize

theorem same_iff : a.same b = true ↔ a = b := by
  obtain ⟨x, y, maxX, maxY⟩ := a
  obtain ⟨x', y', maxX', maxY'⟩ := b
  simp [same, and_assoc]

/-! ## Cells -/

theorem covers_iff : r.Covers x y ↔ (r.x ≤ x ∧ x < r.x + r.width) ∧ r.y ≤ y ∧ y < r.y + r.height := by
  have hw := r.width_eq
  have hh := r.height_eq
  unfold Covers
  omega

theorem covers_normalize : r.normalize.Covers x y ↔ r.Covers x y := by
  rw [covers_iff, covers_iff, width_normalize, height_normalize]
  rfl

/-! ## Containment -/

theorem contains_eq_true {ν : Type} [Measure ν] {outer inner : Rectangle ν} : outer.contains inner = true ↔
    ¬(inner.x < outer.x ∨ inner.y < outer.y) ∧ inner.width ≤ outer.width - (inner.x - outer.x) ∧
      inner.height ≤ outer.height - (inner.y - outer.y) := by
  unfold contains
  split
  · rename_i hbefore
    exact iff_of_false nofun fun h => h.1 hbefore
  · rename_i hbefore
    rw [Bool.and_eq_true, decide_eq_true_eq, decide_eq_true_eq]
    exact (and_iff_right hbefore).symm

/-- No edge of a contained rectangle lies further out. -/
theorem contains_iff : outer.contains inner = true ↔
    (outer.x ≤ inner.x ∧ inner.x + inner.width ≤ outer.x + outer.width) ∧
      outer.y ≤ inner.y ∧ inner.y + inner.height ≤ outer.y + outer.height := by
  rw [contains_eq_true]
  omega

theorem contains_normalize_left (outer inner : Rectangle Int) :
    outer.normalize.contains inner = outer.contains inner := by
  rw [Bool.eq_iff_iff, contains_iff, contains_iff, width_normalize, height_normalize]
  rfl

theorem contains_normalize_right (outer inner : Rectangle Int) :
    outer.contains inner.normalize = outer.contains inner := by
  rw [Bool.eq_iff_iff, contains_iff, contains_iff, width_normalize, height_normalize]
  rfl

theorem contains_refl (r : Rectangle Int) : r.contains r = true :=
  contains_iff.mpr ⟨⟨le_rfl, le_rfl⟩, le_rfl, le_rfl⟩

theorem contains_trans (hab : a.contains b = true) (hbc : b.contains c = true) : a.contains c = true := by
  obtain ⟨⟨hx, hX⟩, hy, hY⟩ := contains_iff.mp hab
  obtain ⟨⟨hx', hX'⟩, hy', hY'⟩ := contains_iff.mp hbc
  exact contains_iff.mpr ⟨⟨hx.trans hx', hX'.trans hX⟩, hy.trans hy', hY'.trans hY⟩

/-- Rectangles that contain each other differ in how they are reversed, if at all. -/
theorem normalize_eq_of_contains (hab : a.contains b = true) (hba : b.contains a = true) :
    a.normalize = b.normalize := by
  obtain ⟨⟨hx, hX⟩, hy, hY⟩ := contains_iff.mp hab
  obtain ⟨⟨hx', hX'⟩, hy', hY'⟩ := contains_iff.mp hba
  exact normalize_congr (le_antisymm hx hx') (le_antisymm hy hy') (by omega) (by omega)

theorem Covers.of_contains (h : outer.contains inner = true) (hin : inner.Covers x y) : outer.Covers x y := by
  obtain ⟨⟨hx, hX⟩, hy, hY⟩ := contains_iff.mp h
  rw [covers_iff] at hin ⊢
  omega

/-- The cells in two opposite corners are enough. -/
theorem contains_of_covers (hin : inner.Covers x y) (h : ∀ x y, inner.Covers x y → outer.Covers x y) :
    outer.contains inner = true := by
  have hleast := h inner.x inner.y (by unfold Covers at hin ⊢; omega)
  have hgreatest := h (inner.maxX - 1) (inner.maxY - 1) (by unfold Covers at hin ⊢; omega)
  rw [covers_iff] at hin hleast hgreatest
  have hw := inner.width_eq
  have hh := inner.height_eq
  exact contains_iff.mpr (by omega)

/-! ## Binary64 -/

/-- The coordinates of a rectangle are those of an integer one. -/
structure Denotes (r : Rectangle Float) (n : Rectangle Int) : Prop where
  x : Float.Denotes r.x n.x
  y : Float.Denotes r.y n.y
  maxX : Float.Denotes r.maxX n.maxX
  maxY : Float.Denotes r.maxY n.maxY

instance (r : Rectangle Float) (n : Rectangle Int) : Decidable (r.Denotes n) :=
  decidable_of_iff
    (Float.Denotes r.x n.x ∧ Float.Denotes r.y n.y ∧ Float.Denotes r.maxX n.maxX ∧ Float.Denotes r.maxY n.maxY)
    ⟨fun ⟨hx, hy, hX, hY⟩ => ⟨hx, hy, hX, hY⟩, fun h => ⟨h.x, h.y, h.maxX, h.maxY⟩⟩

namespace Denotes

variable {p q : Rectangle Float}

theorem same (hp : p.Denotes a) (hq : q.Denotes b) : p.same q = a.same b := by
  rw [Bool.eq_iff_iff]
  unfold Rectangle.same
  simp only [Bool.and_eq_true, beq_iff_eq]
  rw [hp.x.beq_iff hq.x, hp.y.beq_iff hq.y, hp.maxX.beq_iff hq.maxX, hp.maxY.beq_iff hq.maxY]

end Denotes

/-- Coordinates and size are safe integers: below `2 ^ 53` none is skipped. A reversed rectangle has no size,
however far its corners are apart. -/
structure Safe (r : Rectangle Float) (n : Rectangle Int) : Prop extends r.Denotes n where
  shortX : n.width < 2 ^ 53
  shortY : n.height < 2 ^ 53

instance (r : Rectangle Float) (n : Rectangle Int) : Decidable (r.Safe n) :=
  decidable_of_iff (r.Denotes n ∧ n.width < 2 ^ 53 ∧ n.height < 2 ^ 53)
    ⟨fun ⟨h, hx, hy⟩ => ⟨h, hx, hy⟩, fun h => ⟨h.toDenotes, h.shortX, h.shortY⟩⟩

/-- A span of safe length is measured exactly, and a reversed one has no length. -/
theorem denotes_span {x y : Float} {m n : Int} (hx : Float.Denotes x m) (hy : Float.Denotes y n)
    (h : max 0 (n - m) < 2 ^ 53) : Float.Denotes (Measure.greater 0 (y - x)) (max 0 (n - m)) := by
  rcases lt_or_ge n m with hlt | hge
  · rw [max_eq_left (by omega)]
    exact (hy.sub_negative hx hlt).greater_zero
  · exact Float.Denotes.zero.greater (hy.sub hx (by omega))

/-- What an offset leaves of a length compares as in the integers, also where the offset itself is rounded. -/
theorem le_rest_iff {v w x y : Float} {k l m n : Int} (hv : Float.Denotes v k) (hw : Float.Denotes w l)
    (hx : Float.Denotes x m) (hy : Float.Denotes y n) (hk : 0 ≤ k) (hl : 0 ≤ l) (hbefore : m ≤ n) :
    v ≤ w - (y - x) ↔ k ≤ l - (n - m) := by
  have hlt := hw.2
  rcases lt_or_ge (n - m) (2 ^ 53) with hnear | hfar
  · exact hv.le_iff (hw.sub (hy.sub hx (by omega)) (by omega))
  · exact iff_of_false ((hw.sub_sub_negative hy hx hfar).not_le hv hk) (by omega)

namespace Safe

variable {p q : Rectangle Float}

theorem width (h : p.Safe a) : Float.Denotes p.width a.width := denotes_span h.x h.maxX h.shortX

theorem height (h : p.Safe a) : Float.Denotes p.height a.height := denotes_span h.y h.maxY h.shortY

theorem normalize (h : p.Safe a) : p.normalize.Safe a.normalize := by
  have hx := h.x.2
  have hy := h.y.2
  have hX := h.maxX.2
  have hY := h.maxY.2
  have hw := a.width_eq
  have hh := a.height_eq
  -- The greatest corner stays where it is or moves to the least one, so it keeps within the range.
  have hplaced : p.normalize.Denotes a.normalize :=
    ⟨h.x, h.y, h.x.add h.width (by omega), h.y.add h.height (by omega)⟩
  exact ⟨hplaced, a.width_normalize ▸ h.shortX, a.height_normalize ▸ h.shortY⟩

theorem contains (hp : p.Safe a) (hq : q.Safe b) : p.contains q = a.contains b := by
  have hw := a.width_eq
  have hh := a.height_eq
  have hw' := b.width_eq
  have hh' := b.height_eq
  rw [Bool.eq_iff_iff, contains_eq_true, contains_eq_true, hq.x.lt_iff hp.x, hq.y.lt_iff hp.y]
  refine and_congr_right fun hbefore => ?_
  exact and_congr (le_rest_iff hq.width hp.width hp.x hq.x (by omega) (by omega) (by omega))
    (le_rest_iff hq.height hp.height hp.y hq.y (by omega) (by omega) (by omega))

end Safe

/-! ## Exactness -/

section
variable {ν : Type} [Measure ν]

/-- Rectangles answer as those of integers do, where `Is` says which one each of them is. -/
structure Agrees (Is : Rectangle ν → Rectangle Int → Prop) : Prop where
  contains {p q a b} : Is p a → Is q b → p.contains q = a.contains b
  same {p q a b} : Is p a → Is q b → p.same q = a.same b
  width {p q a b} : Is p a → Is q b → (p.width == q.width) = (a.width == b.width)
  height {p q a b} : Is p a → Is q b → (p.height == q.height) = (a.height == b.height)
  normalize {p a} : Is p a → Is p.normalize a.normalize

/-- To contain is to cover, and normalizing changes no answer. Containment orders rectangles, up to how they are
reversed. -/
structure Lawful (Is : Rectangle ν → Rectangle Int → Prop) : Prop where
  covers {p q a b} : Is p a → Is q b → p.contains q = true → ∀ x y, b.Covers x y → a.Covers x y
  contains {p q a b} : Is p a → Is q b → (∃ x y, b.Covers x y) → (∀ x y, b.Covers x y → a.Covers x y) →
    p.contains q = true
  normalize_left {p q a b} : Is p a → Is q b → p.normalize.contains q = p.contains q
  normalize_right {p q a b} : Is p a → Is q b → p.contains q.normalize = p.contains q
  size {p a} : Is p a → (p.normalize.width == p.width) = true ∧ (p.normalize.height == p.height) = true
  cells {p a} : Is p a → ∃ n, Is p.normalize n ∧ ∀ x y, n.Covers x y ↔ a.Covers x y
  idempotent {p a} : Is p a → p.normalize.normalize.same p.normalize = true
  refl {p a} : Is p a → p.contains p = true
  trans {p q r a b c} : Is p a → Is q b → Is r c → p.contains q = true → q.contains r = true → p.contains r = true
  antisymm {p q a b} : Is p a → Is q b → p.contains q = true → q.contains p = true →
    p.normalize.same q.normalize = true

/-- The laws are those of integers, wherever the answers are. -/
theorem Agrees.lawful {Is : Rectangle ν → Rectangle Int → Prop} (h : Agrees Is) : Lawful Is where
  covers hp hq hin x y := .of_contains ((h.contains hp hq).symm.trans hin)
  contains hp hq := fun ⟨_, _, hin⟩ hall => (h.contains hp hq).trans (contains_of_covers hin hall)
  normalize_left hp hq := by rw [h.contains (h.normalize hp) hq, h.contains hp hq, contains_normalize_left]
  normalize_right hp hq := by rw [h.contains hp (h.normalize hq), h.contains hp hq, contains_normalize_right]
  size {p a} hp := by
    rw [h.width (h.normalize hp) hp, h.height (h.normalize hp) hp, width_normalize, height_normalize]
    exact ⟨beq_self_eq_true _, beq_self_eq_true _⟩
  cells hp := ⟨_, h.normalize hp, fun _ _ => covers_normalize⟩
  idempotent hp := by
    rw [h.same (h.normalize (h.normalize hp)) (h.normalize hp), normalize_normalize]
    exact same_iff.mpr rfl
  refl hp := (h.contains hp hp).trans (contains_refl _)
  trans hp hq hr hpq hqr := by
    rw [h.contains hp hq] at hpq
    rw [h.contains hq hr] at hqr
    exact (h.contains hp hr).trans (contains_trans hpq hqr)
  antisymm hp hq hpq hqp := by
    rw [h.contains hp hq] at hpq
    rw [h.contains hq hp] at hqp
    exact (h.same (h.normalize hp) (h.normalize hq)).trans (same_iff.mpr (normalize_eq_of_contains hpq hqp))

end

theorem agrees_eq : Agrees fun p a : Rectangle Int => p = a where
  contains hp hq := by rw [hp, hq]
  same hp hq := by rw [hp, hq]
  width hp hq := by rw [hp, hq]
  height hp hq := by rw [hp, hq]
  normalize hp := by rw [hp]

theorem agrees_safe : Agrees Safe where
  contains := Safe.contains
  same hp hq := hp.same hq.toDenotes
  width hp hq := by rw [Bool.eq_iff_iff, hp.width.beq_iff hq.width, beq_iff_eq]
  height hp hq := by rw [Bool.eq_iff_iff, hp.height.beq_iff hq.height, beq_iff_eq]
  normalize := Safe.normalize

/-- Containment is that of cells: over all integers, and over binary64 where coordinates and size are safe integers.
There the answers are those of the integers. -/
theorem contains_exact : Lawful (fun p a : Rectangle Int => p = a) ∧ Lawful Safe ∧ Agrees Safe :=
  ⟨agrees_eq.lawful, agrees_safe.lawful, agrees_safe⟩

theorem contains_exact_reversed :
    let canvas : Rectangle Float := ⟨0, 0, 4, 3⟩
    let layer : Rectangle Float := ⟨1, 1, 4, 2⟩
    let row : Rectangle Float := ⟨0, 1, 4, 2⟩
    let reversed : Rectangle Float := ⟨9007199254740991, 5, -9007199254740991, 7⟩
    let empty : Rectangle Float := ⟨9007199254740991, 5, 9007199254740991, 7⟩
    let covering : Rectangle Int := ⟨0, 0, 4, 3⟩
    let covered : Rectangle Int := ⟨1, 1, 4, 2⟩
    (canvas.Safe covering ∧ layer.Safe covered ∧ (∀ x y, covered.Covers x y → covering.Covers x y) ∧
      canvas.contains layer = true) ∧
    (canvas.contains row = true ∧ row.contains layer = true ∧ canvas.contains layer = true) ∧
    (reversed.Safe ⟨9007199254740991, 5, -9007199254740991, 7⟩ ∧ reversed.contains empty = true ∧
      empty.contains reversed = true ∧ reversed.normalize.same empty.normalize = true) ∧
    (covering.contains covered = true ∧ covering.normalize.contains covered = true) := by
  intro canvas layer row reversed empty covering covered
  obtain ⟨hints, hfloats, -⟩ := contains_exact
  have hcanvas : canvas.Safe covering := by decide +kernel
  have hlayer : layer.Safe covered := by decide +kernel
  have hrow : row.Safe ⟨0, 1, 4, 2⟩ := by decide +kernel
  have hreversed : reversed.Safe ⟨9007199254740991, 5, -9007199254740991, 7⟩ := by decide +kernel
  have hempty : empty.Safe ⟨9007199254740991, 5, 9007199254740991, 7⟩ := by decide +kernel
  have hall : ∀ x y, covered.Covers x y → covering.Covers x y := by
    rintro x y ⟨⟨hx, hX⟩, hy, hY⟩
    have hx : 1 ≤ x := hx
    have hX : x < 4 := hX
    have hy : 1 ≤ y := hy
    have hY : y < 2 := hY
    show (0 ≤ x ∧ x < 4) ∧ 0 ≤ y ∧ y < 3
    omega
  have hcanvasRow : canvas.contains row = true := by decide +kernel
  have hrowLayer : row.contains layer = true := by decide +kernel
  have hreversedEmpty : reversed.contains empty = true := by decide +kernel
  have hemptyReversed : empty.contains reversed = true := by decide +kernel
  have hinside : covering.contains covered = true := by decide
  exact ⟨⟨hcanvas, hlayer, hall, hfloats.contains hcanvas hlayer ⟨1, 1, by decide⟩ hall⟩,
    ⟨hcanvasRow, hrowLayer, hfloats.trans hcanvas hrow hlayer hcanvasRow hrowLayer⟩,
    ⟨hreversed, hreversedEmpty, hemptyReversed, hfloats.antisymm hreversed hempty hreversedEmpty hemptyReversed⟩,
    hinside, (hints.normalize_left rfl rfl).trans hinside⟩

/-- At a size beyond the safe integers the remaining space is rounded, and one more column seems to fit. -/
theorem contains_rounds :
    let outer : Rectangle Float := ⟨-9007199254740991, 0, 9007199254740989, 1⟩
    let inner : Rectangle Float := ⟨-9007199254740991, 0, 9007199254740990, 1⟩
    let wide : Rectangle Int := ⟨-9007199254740991, 0, 9007199254740989, 1⟩
    let wider : Rectangle Int := ⟨-9007199254740991, 0, 9007199254740990, 1⟩
    (outer.Denotes wide ∧ inner.Denotes wider) ∧ outer.contains inner = true ∧
      (wider.Covers 9007199254740989 0 ∧ ¬wide.Covers 9007199254740989 0) ∧ ¬Lawful Denotes := by
  intro outer inner wide wider
  have houter : outer.Denotes wide := by decide +kernel
  have hinner : inner.Denotes wider := by decide +kernel
  have hcontains : outer.contains inner = true := by decide +kernel
  have hcell : wider.Covers 9007199254740989 0 := by decide
  have hnone : ¬wide.Covers 9007199254740989 0 := by decide
  exact ⟨⟨houter, hinner⟩, hcontains, ⟨hcell, hnone⟩, fun h => hnone (h.covers houter hinner hcontains _ _ hcell)⟩

/-- An empty rectangle still has a place: it has no cell that could lie outside, and is not contained. -/
example : (⟨0, 0, 4, 3⟩ : Rectangle Int).contains ⟨5, 5, 2, 7⟩ = false := by
  decide

end Strata.Rectangle
