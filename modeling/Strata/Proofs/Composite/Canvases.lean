import Strata.Composite.Direct
import Strata.Proofs.Memory.Blocks

/-!
# Canvases

What the fold on the host does pixel by pixel: blending a placed source changes the cells of its
placement, each once, and no others (`getElem?_blend`); a canvas made of channels, and the channels of a
canvas, lie four to a pixel.
-/

namespace Strata

variable {α : Type}

/-! ## Rows -/

theorem mem_row {columns n row first count : Nat} (h : first + count ≤ columns) :
    row * columns + first ≤ n ∧ n < row * columns + first + count ↔
      n / columns = row ∧ first ≤ n % columns ∧ n % columns < first + count := by
  have hn : n / columns * columns + n % columns = n := by
    rw [Nat.mul_comm]
    exact Nat.div_add_mod n columns
  constructor
  · rintro ⟨hle, hlt⟩
    have hcolumns : 0 < columns := by omega
    have hrow : n / columns = row := by
      refine Nat.div_eq_of_lt_le ?_ ?_
      · exact Nat.le_trans (Nat.le_add_right _ _) hle
      · rw [Nat.add_mul, Nat.one_mul]
        omega
    rw [hrow] at hn
    exact ⟨hrow, by omega, by omega⟩
  · rintro ⟨rfl, hle, hlt⟩
    omega

/-- Change some consecutive entries, each by a function of its place among them. -/
theorem getElem?_modifyRow {β : Type} (a : Array β) (start count n : Nat) (f : Nat → β → β) :
    ((List.range count).foldl (fun a i => a.modify (start + i) (f i)) a)[n]? =
      if start ≤ n ∧ n < start + count then a[n]?.map (f (n - start)) else a[n]? := by
  induction count with
  | zero => rw [if_neg (by omega)]; rfl
  | succ count ih =>
    rw [List.range_succ, List.foldl_append, List.foldl_cons, List.foldl_nil, Array.getElem?_modify, ih]
    by_cases hn : start + count = n
    · rw [if_pos hn, if_neg (by omega), if_pos (by omega)]
      have hi : n - start = count := by omega
      rw [hi]
    · rw [if_neg hn]
      by_cases hin : start ≤ n ∧ n < start + count
      · rw [if_pos hin, if_pos (by omega)]
      · rw [if_neg hin, if_neg (by omega)]

/-- Change the entries of a rectangle in rows of `columns`. -/
theorem getElem?_modifyRows {β : Type} (a : Array β) {columns x width : Nat} (y height n : Nat)
    (f : Nat → Nat → β → β) (h : x + width ≤ columns) :
    ((List.range height).foldl (fun a j => (List.range width).foldl (fun a i =>
        a.modify ((y + j) * columns + x + i) (f j i)) a) a)[n]? =
      if (y ≤ n / columns ∧ n / columns < y + height) ∧ x ≤ n % columns ∧ n % columns < x + width then
        a[n]?.map (f (n / columns - y) (n % columns - x))
      else a[n]? := by
  induction height with
  | zero => rw [if_neg (by omega)]; rfl
  | succ height ih =>
    rw [List.range_succ, List.foldl_append, List.foldl_cons, List.foldl_nil, getElem?_modifyRow, ih]
    by_cases hrow : (y + height) * columns + x ≤ n ∧ n < (y + height) * columns + x + width
    · rw [if_pos hrow]
      have hplace := (mem_row h).mp hrow
      rw [if_neg (by omega), if_pos (by omega)]
      have hj : n / columns - y = height := by omega
      have hi : n - ((y + height) * columns + x) = n % columns - x := by
        have hn : n / columns * columns + n % columns = n := by
          rw [Nat.mul_comm]
          exact Nat.div_add_mod n columns
        rw [hplace.1] at hn
        omega
      rw [hj, hi]
    · rw [if_neg hrow]
      have hplace := fun hc => hrow ((mem_row h).mpr hc)
      by_cases hin : (y ≤ n / columns ∧ n / columns < y + height) ∧ x ≤ n % columns ∧ n % columns < x + width
      · rw [if_pos hin, if_pos (by omega)]
      · rw [if_neg hin, if_neg fun hc => ?_]
        by_cases hlast : n / columns = y + height
        · exact hplace ⟨hlast, hc.2⟩
        · exact hin ⟨by omega, hc.2⟩

theorem Rectangle.cells_placed (x y width height : Nat) : (Rectangle.placed (x : Int) y width height).cells =
    (List.range height).flatMap fun (j : Nat) => (List.range width).map fun (i : Nat) =>
      (((x + i : Nat) : Int), ((y + j : Nat) : Int)) := by
  unfold Rectangle.cells Rectangle.placed
  have hcount (a b : Nat) : Measure.toCount ((a : Int) + (b : Int) - (a : Int)) = b := by
    show ((a : Int) + (b : Int) - (a : Int)).toNat = b
    omega
  simp only [hcount]
  rfl

theorem Texels.ofFn_congr [Channel α] [Stored α] {n : Nat} {f g : Nat → α} (format : PixelFormat)
    (h : ∀ i < n, f i = g i) : Texels.ofFn format n f = Texels.ofFn format n g := by
  have hfun : (fun i : Fin n => f i) = fun i : Fin n => g i := funext fun i => h i i.isLt
  unfold ofFn
  cases format with
  | srgb8 => exact congrArg (fun f : Fin n → α => srgb8 (Array.ofFn fun i => Channel.toByte (f i))) hfun
  | unorm8 => exact congrArg (fun f : Fin n → α => unorm8 (Array.ofFn fun i => Channel.toByte (f i))) hfun
  | float32 => exact congrArg (fun f : Fin n → α => float32 (Array.ofFn fun i => Stored.round (f i))) hfun

/-! ## Blending -/

namespace Canvas

theorem cellIndex_eq (columns x y : Nat) : cellIndex (columns : Int) (x : Int) (y : Int) = y * columns + x := by
  have hcast : (y : Int) * (columns : Int) + (x : Int) = ((y * columns + x : Nat) : Int) := by push_cast; rfl
  show ((if 0 ≤ (y : Int) * (columns : Int) + (x : Int) then
    some ((y : Int) * (columns : Int) + (x : Int)).toNat else none).getD 0) = _
  rw [hcast, if_pos (Int.natCast_nonneg _), Int.toNat_natCast]
  rfl

variable [Channel α] [Transfer α]

theorem getElem?_blend (canvas source : Canvas α) {columns x y width height : Nat} (sourceWidth n : Nat)
    (mode : BlendMode) (space : ColorSpace) (opacity : α) (h : x + width ≤ columns) :
    (canvas.blend (columns : Int) (.placed x y width height) (sourceWidth : Int) source mode space opacity)[n]? =
      if (y ≤ n / columns ∧ n / columns < y + height) ∧ x ≤ n % columns ∧ n % columns < x + width then
        canvas[n]?.map (Pixel.blend mode space opacity ·
          (source.getD ((n / columns - y) * sourceWidth + (n % columns - x)) transparent))
      else canvas[n]? := by
  unfold blend
  rw [Rectangle.cells_placed, List.foldl_flatMap]
  have hstep : (fun (canvas : Canvas α) (j : Nat) =>
      ((List.range width).map fun (i : Nat) => (((x + i : Nat) : Int), ((y + j : Nat) : Int))).foldl
        (fun canvas cell =>
          canvas.modify (cellIndex (columns : Int) cell.1 cell.2) (Pixel.blend mode space opacity · (source.getD
            (cellIndex (sourceWidth : Int) (cell.1 - (x : Int)) (cell.2 - (y : Int))) transparent))) canvas) =
      fun canvas j => (List.range width).foldl (fun canvas i =>
        canvas.modify ((y + j) * columns + x + i) (Pixel.blend mode space opacity ·
          (source.getD (j * sourceWidth + i) transparent))) canvas := by
    funext canvas j
    rw [List.foldl_map]
    congr 1
    funext canvas i
    have hx : ((x + i : Nat) : Int) - (x : Int) = (i : Int) := by omega
    have hy : ((y + j : Nat) : Int) - (y : Int) = (j : Int) := by omega
    rw [hx, hy, cellIndex_eq, cellIndex_eq, Nat.add_assoc]
  exact (congrFun (congrFun (congrArg (fun f c (n : Nat) => (List.foldl f c (List.range height))[n]?) hstep)
    canvas) n).trans
    (getElem?_modifyRows canvas y height n (fun j i => (Pixel.blend mode space opacity ·
      (source.getD (j * sourceWidth + i) transparent))) h)

/-! ## Channels -/

omit [Transfer α] in
theorem getElem?_ofChannels (channels : Array α) {n : Nat} (h : 4 * n + 3 < channels.size) :
    (ofChannels channels)[n]? = some ⟨channels.getD (4 * n) 0, channels.getD (4 * n + 1) 0,
      channels.getD (4 * n + 2) 0, channels.getD (4 * n + 3) 0⟩ := by
  unfold ofChannels
  rw [Array.getElem?_ofFn, dif_pos (by omega)]
  rfl

omit [Channel α] [Transfer α] in
theorem getElem?_fours (pixels : List (Pixel α)) (i : Nat) :
    (pixels.flatMap fun p => [p.r, p.g, p.b, p.a])[i]? = pixels[i / 4]?.map (·.channel (i % 4)) := by
  induction pixels generalizing i with
  | nil => rfl
  | cons p pixels ih =>
    rw [List.flatMap_cons]
    by_cases hi : i < 4
    · have hcases : i = 0 ∨ i = 1 ∨ i = 2 ∨ i = 3 := by omega
      rcases hcases with rfl | rfl | rfl | rfl <;> rfl
    · obtain ⟨j, rfl⟩ := Nat.exists_eq_add_of_le' (Nat.not_lt.mp hi)
      have hdiv : (j + 4) / 4 = j / 4 + 1 := by omega
      have hmod : (j + 4) % 4 = j % 4 := by omega
      rw [List.getElem?_append_right (by simp), hdiv, List.getElem?_cons_succ, hmod]
      exact ih j

omit [Channel α] [Transfer α] in
theorem getElem?_channels (canvas : Canvas α) (i : Nat) :
    canvas.channels[i]? = canvas[i / 4]?.map (·.channel (i % 4)) := by
  unfold channels
  rw [← Array.getElem?_toList, Array.toList_flatMap]
  exact (getElem?_fours canvas.toList i).trans (congrArg _ Array.getElem?_toList)

end Canvas

end Strata
