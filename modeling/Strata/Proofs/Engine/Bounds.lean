import Strata.Proofs.Engine.Answers
import Strata.Proofs.Plan.Bindings
import Strata.Proofs.Plan.Checks
import Strata.Proofs.Plan.Stack

/-!
# What a dispatch reaches

`Program.place?` is the texel of its source that a program reads at a canvas position. Results and backdrops are
allocated for the canvas, so every position of it is inside them. A source is held to the size that it declares, not
to the bytes that it has, so what is read of it is inside only if it holds the image it declares (`Bounded`).
-/

namespace Strata

variable {α : Type}

/-! ## Positions -/

/-- The texel of its source that a program reads at a canvas position. -/
def Program.place? (program : Program) (q : PackedParams α) (x y : Nat) : Option Nat :=
  match program with
  | .copy _ => some (y * q.width + x)
  | .blend .. =>
    if x < q.originX ∨ y < q.originY ∨ q.sourceWidth ≤ x - q.originX ∨ q.sourceHeight ≤ y - q.originY then none
    else some ((y - q.originY) * q.sourceWidth + (x - q.originX))

theorem Dispatch.texel_reads {ν : Type} [Channel α] [Stored α] [Transfer α] (d : Dispatch ν) (q : PackedParams α)
    (heap : Heap α) (x y : Nat) :
    d.texel q heap x y = match d.program, d.program.place? q x y with
      | .copy format, some n => Pixel.load q.opacity ((heap.block d.buffers.source).sourceAt format n)
      | .blend mode space format, some n =>
        Pixel.blend mode space q.opacity ((heap.block d.buffers.backdrop).pixelAt (y * q.width + x))
          ((heap.block d.buffers.source).sourceAt format n)
      | _, none => (heap.block d.buffers.backdrop).pixelAt (y * q.width + x) := by
  unfold texel Program.place?
  cases d.program with
  | copy format => rfl
  | blend mode space format =>
    dsimp only
    split
    · rfl
    · rfl

theorem index_lt {x y columns width height : Nat} (hx : x < width) (hy : y < height) (hc : columns ≤ width) :
    y * columns + x < width * height :=
  calc y * columns + x < y * width + width := Nat.add_lt_add_of_le_of_lt (Nat.mul_le_mul_left y hc) hx
    _ = width * (y + 1) := by rw [Nat.mul_comm, Nat.mul_succ]
    _ ≤ width * height := Nat.mul_le_mul_left width hy

theorem Program.place?_lt {program : Program} {q : PackedParams α} {x y n : Nat} (hp : program.bindings = .blend)
    (h : program.place? q x y = some n) : n < q.sourceWidth * q.sourceHeight := by
  cases program with
  | copy format => cases hp
  | blend mode space format =>
    unfold place? at h
    dsimp only at h
    split at h
    · cases h
    · rename_i hinside
      cases h
      simp only [not_or, Nat.not_le] at hinside
      exact index_lt hinside.2.2.1 hinside.2.2.2 (Nat.le_refl _)

theorem toWord_le {n : Int} (h : 0 ≤ n) : (Measure.toWord n).toNat ≤ n.toNat := by
  show (UInt32.ofNat (n % 0x100000000).toNat).toNat ≤ n.toNat
  rw [UInt32.toNat_ofNat']
  omega

theorem Rectangle.width_nonneg (r : Rectangle Int) : 0 ≤ r.width := Int.le_max_left ..

theorem Rectangle.height_nonneg (r : Rectangle Int) : 0 ≤ r.height := Int.le_max_left ..

/-- No dispatch goes beyond the edge of its canvas. -/
theorem Dispatch.reach_le (n : Int) :
    reach (Measure.toWord n).toNat (Measure.ceilDiv n (Measure.ofNat workgroupEdge)) ≤ n.toNat := by
  show (min (((Measure.toWord n).toNat : Nat) : Int) (-(Int.fdiv (-n) 16) * 16)).toNat ≤ n.toNat
  rw [Int.fdiv_eq_ediv_of_nonneg _ (by omega)]
  by_cases h : 0 ≤ n
  · have hle := toWord_le h
    omega
  · omega

/-! ## Slots -/

/-- A texel lies inside a slot. -/
def SlotRef.Holds {ν : Type} (r : SlotRef ν) (format : PixelFormat) (n : Nat) : Prop :=
  (n + 1) * format.bytesPerPixel ≤ r.size

/-- A slot has the bytes of the image that it declares. -/
def SlotRef.Full (r : SlotRef Int) (format : PixelFormat) : Prop :=
  imageBytes format r.format.width r.format.height ≤ r.size

theorem SlotRef.holds_of_image {r : SlotRef Int} {format : PixelFormat} {width height : Int}
    (h : imageBytes format width height ≤ r.size) (hw : 0 ≤ width) (hh : 0 ≤ height) {n : Nat}
    (hn : n < width.toNat * height.toNat) : r.Holds format n := by
  have hmul : width * height * (format.bytesPerPixel : Int) =
      ((width.toNat * height.toNat * format.bytesPerPixel : Nat) : Int) := by
    push_cast
    rw [Int.toNat_of_nonneg hw, Int.toNat_of_nonneg hh]
  rw [imageBytes_eq, hmul] at h
  exact Nat.le_trans (Nat.mul_le_mul_right _ hn) (Int.ofNat_le.mp h)

theorem PipelineKey.Names.format {key : PipelineKey} {program : Program} (h : key.Names program) :
    key.format = program.format.name := by
  cases program with
  | copy format => exact h.2
  | blend mode space format => exact h.2.2

theorem le_of_wholeWords {n : Int} {bytes : Nat} (h : Measure.wholeWords? n = some bytes) : n ≤ bytes := by
  change (if 0 < n then some ((n.toNat + 3) / 4 * 4) else none) = some bytes at h
  split at h
  · cases h
    omega
  · cases h

namespace Draft

variable [Stored α]

/-- A parameter block is filled once, for the step of its dispatch. -/
theorem Drawn.told {ν : Type} [Measure ν] {draft : Draft ν α} {pipelines : List Pipeline} {width height : ν}
    {results blocks : List Handle} {last : Handle} {plan : Plan ν α}
    (h : draft.Drawn pipelines width height results blocks last plan)
    (hfresh : ∀ k ∈ blocks, k ∉ draft.uploads.map (·.handle)) {i : Nat} {step : PlanStep ν α} {k : Handle}
    (hs : draft.steps[i]? = some step) (hk : blocks[i]? = some k) (data : Block α) :
    .upload k data ∈ plan.stages ↔ data = (Emission.params width height step).pack := by
  rw [h.upload, List.mem_append]
  have hzip : (draft.steps.zip blocks)[i]? = some (step, k) := List.getElem?_zip_eq_some.mpr ⟨hs, hk⟩
  constructor
  · rintro (hu | hu)
    · exact absurd (List.mem_map_of_mem hu) (hfresh k (List.mem_of_getElem? hk))
    · obtain ⟨⟨step', k'⟩, hmem, heq⟩ := List.mem_map.mp hu
      cases heq
      obtain ⟨j, hj⟩ := List.getElem?_of_mem hmem
      obtain ⟨hs', hk'⟩ := List.getElem?_zip_eq_some.mp hj
      obtain ⟨hlt, hi⟩ := List.getElem?_eq_some_iff.mp hk
      obtain ⟨hlt', hj⟩ := List.getElem?_eq_some_iff.mp hk'
      obtain rfl : i = j := (List.Nodup.getElem_inj_iff h.nodup).mp (hi.trans hj.symm)
      rw [hs] at hs'
      cases hs'
      rfl
  · rintro rfl
    exact .inr (List.mem_map.mpr ⟨_, List.mem_of_getElem? hzip, rfl⟩)

variable [Channel α]

/-- What a dispatch reaches, over a canvas, is inside the slots that it is bound to. -/
structure Bounded (arena : Arena Int) (width height : Int) (p : Pipeline) (b : Bindings) (q : PackedParams α) :
    Prop where
  result : ∃ r, arena.resolve b.result = .ok r ∧
    ∀ x < width.toNat, ∀ y < height.toNat, r.Holds .float32 (y * q.width + x)
  backdrop : p.bindings = .blend → ∃ k r, b.backdrop = some k ∧ arena.resolve k = .ok r ∧
    ∀ x < width.toNat, ∀ y < height.toNat, r.Holds .float32 (y * q.width + x)
  source : ∃ r, arena.resolve b.source = .ok r ∧ r.format.pixels = some p.artifact.program.format.name ∧
    (r.Full p.artifact.program.format → p.bindings = .blend ∨ b.backdrop = none →
      ∀ x < width.toNat, ∀ y < height.toNat, ∀ n, p.artifact.program.place? q x y = some n →
        r.Holds p.artifact.program.format n)

omit [Channel α] in
/-- What is read of a source is inside it, if it holds the image that it declares. -/
theorem Checked.source_holds {arena : Arena Int} {capabilities : Capabilities Int} {destination : Handle}
    {width height : Int} {index : Nat} {d : BlendDescriptor Int α} {step : PlanStep Int α} {r : SlotRef Int}
    {format : String} (h : Checked arena capabilities destination width height index d step r format)
    {program : Program} (hfull : r.Full program.format) (hb : program.bindings = .blend ∨ index = 0) {x y n : Nat}
    (hx : x < width.toNat) (hy : y < height.toNat)
    (hn : program.place? ((Emission.params width height step).told (program.bindings == .copy)) x y = some n) :
    r.Holds program.format n := by
  have hsize := h.size
  rw [Bool.and_eq_true] at hsize
  obtain ⟨hwidth, hheight⟩ : r.format.width = step.placement.width ∧ r.format.height = step.placement.height :=
    ⟨of_decide_eq_true hsize.1, of_decide_eq_true hsize.2⟩
  have hw : 0 ≤ r.format.width := hwidth ▸ step.placement.width_nonneg
  have hh : 0 ≤ r.format.height := hheight ▸ step.placement.height_nonneg
  refine SlotRef.holds_of_image hfull hw hh ?_
  cases program with
  | blend mode space format =>
    refine Nat.lt_of_lt_of_le (Program.place?_lt rfl hn) (Nat.mul_le_mul ?_ ?_)
    · rw [hwidth]
      exact toWord_le step.placement.width_nonneg
    · rw [hheight]
      exact toWord_le step.placement.height_nonneg
  | copy format =>
    -- a copy reads by the canvas, which the bottom layer covers in full
    obtain rfl : index = 0 := hb.resolve_left nofun
    have hwhole := h.whole rfl
    unfold Rectangle.same at hwhole
    simp only [Bool.and_eq_true] at hwhole
    obtain ⟨⟨⟨hx₀, hy₀⟩, hx₁⟩, hy₁⟩ := hwhole
    have hx₀ : step.placement.x = 0 := of_decide_eq_true hx₀
    have hy₀ : step.placement.y = 0 := of_decide_eq_true hy₀
    have hx₁ : step.placement.maxX = width := of_decide_eq_true hx₁
    have hy₁ : step.placement.maxY = height := of_decide_eq_true hy₁
    have hwidth' : r.format.width.toNat = width.toNat := by
      rw [hwidth]
      show (max 0 (step.placement.maxX - step.placement.x)).toNat = _
      omega
    have hheight' : r.format.height.toNat = height.toNat := by
      rw [hheight]
      show (max 0 (step.placement.maxY - step.placement.y)).toNat = _
      omega
    obtain rfl : _ = n := Option.some.inj hn
    rw [hwidth', hheight']
    have hpos : 0 ≤ width := by omega
    exact index_lt hx hy (toWord_le hpos)

/-- What the program of a dispatch reads in its parameter block, once the uploads are done. -/
structure Tells {ν : Type} (plan : Plan ν α) (p : Pipeline) (b : Bindings) (q : PackedParams α) : Prop where
  filled : ∃ data, .upload b.params data ∈ plan.stages
  reads : ∀ data, .upload b.params data ∈ plan.stages → ∀ block : Block α, data.size ≤ block.size →
    PackedParams.ofBlock? (block.overwrite data data.size) (p.bindings == .copy) = some q

omit [Channel α] in
/-- A result of a plan has every position of the canvas, numbered by the width that a dispatch is told. -/
theorem Provided.holds {width height : Int} {results blocks : List Handle} {plan : Plan Int α}
    {pool pool' : Pool Int α} (h : Provided width height results blocks plan pool pool') {k : Handle}
    (hk : k ∈ results) (step : PlanStep Int α) (copies : Bool) :
    ∃ r, pool'.arena.resolve k = .ok r ∧ ∀ x < width.toNat, ∀ y < height.toNat,
      r.Holds .float32 (y * ((Emission.params width height step).told copies).width + x) := by
  obtain ⟨r, hr, hbytes, -⟩ := h.results k hk
  refine ⟨r, hr, fun x hx y hy => ?_⟩
  have hw : 0 ≤ width := by omega
  have hh : 0 ≤ height := by omega
  refine SlotRef.holds_of_image (le_of_wholeWords hbytes) hw hh (index_lt hx hy ?_)
  rw [DispatchParams.told_width]
  exact toWord_le hw

omit [Channel α] in
/-- What the caller uploads goes to slots that were there before the plan, so to none of its blocks. -/
theorem Passed.blocks_fresh {arena : Arena Int} {capabilities : Capabilities Int}
    {stack : List (BlendDescriptor Int α)} {uploads : List (Upload α)} {draft : Draft Int α}
    {base : BlendDescriptor Int α} {r : SlotRef Int} {pipelines : List Pipeline} {width height : Int}
    {results blocks : List Handle} {last : Handle} {plan : Plan Int α} {pool pool' : Pool Int α}
    (h : Passed arena capabilities stack uploads draft base r) (hl : arena.Later pool.arena)
    (hdrawn : draft.Drawn pipelines width height results blocks last plan)
    (hprovided : Provided width height results blocks plan pool pool') :
    ∀ k ∈ blocks, k ∉ draft.uploads.map (·.handle) := by
  obtain ⟨grants, hgains, howned⟩ := hprovided.gains
  intro k hk hu
  obtain ⟨u, hmem, rfl⟩ := List.mem_map.mp hu
  obtain ⟨s, hs, -⟩ := h.uploads u (h.carried ▸ hmem)
  obtain ⟨g, hg, heq⟩ := List.mem_map.mp (howned ▸ hdrawn.owned _ (.inr hk))
  refine hgains.fresh g hg ?_
  rw [heq]
  exact (Arena.issued_of_contains (Arena.contains_of_resolve hs)).later hl

section
variable {arena : Arena Int} {capabilities : Capabilities Int} {library : Library}
  {stack : List (BlendDescriptor Int α)} {uploads : List (Upload α)} {draft : Draft Int α}
    {pipelines : List Pipeline}
  {pool pool' : Pool Int α} {plan : Plan Int α}
    (hcheck : check arena capabilities library stack uploads = .ok draft)
  (hs : pool.Sound) (hl : arena.Later pool.arena) (h : draft.emit pipelines pool = (.ok plan, pool'))
include hcheck hs hl h

/-- The canvas that a plan is laid out over is the one that its stack was checked against. -/
theorem emit_over : ∃ base r, Passed arena capabilities stack uploads draft base r ∧
    pool'.arena.resolve draft.destination = .ok r ∧ ∃ results blocks last,
      draft.Drawn pipelines r.format.width r.format.height results blocks last plan ∧
        Provided r.format.width r.format.height results blocks plan pool pool' := by
  obtain ⟨base, r, hpassed⟩ := check_passed hcheck
  obtain ⟨target, htarget, results, blocks, last, hdrawn, hprovided⟩ := emit_drawn hs h
  obtain ⟨grants, hgains, -⟩ := hprovided.gains
  have hchecked := Arena.resolve_later hl hpassed.destination (hpassed.target ▸ Arena.contains_of_resolve htarget)
  rw [← hpassed.target, htarget] at hchecked
  obtain rfl : target = r := Except.ok.inj hchecked
  exact ⟨base, target, hpassed, hgains.resolve htarget, results, blocks, last, hdrawn, hprovided⟩

theorem emit_canvas : ∀ d ∈ stack, ∃ r, arena.resolve d.destination = .ok r ∧ plan.width = r.format.width ∧
    plan.height = r.format.height := by
  obtain ⟨base, r, hpassed, -, results, blocks, last, hdrawn, -⟩ := emit_over hcheck hs hl h
  intro d hd
  obtain ⟨i, hi⟩ := List.getElem?_of_mem hd
  obtain ⟨hlt, -⟩ := List.getElem?_eq_some_iff.mp hi
  have hlt' : i < draft.steps.length := hpassed.steps.1 ▸ hlt
  obtain ⟨s, format, hchecked⟩ := hpassed.steps.2 i d _ hi (List.getElem?_eq_getElem hlt')
  rw [hchecked.destination]
  exact ⟨r, hpassed.destination, hdrawn.size⟩

theorem emit_bounded (hp : draft.Supplied pipelines) {label : String} {p : Pipeline} {b : Bindings} {gx gy : Int}
    (hm : .dispatch label p b gx gy ∈ plan.stages) :
    ∃ q : PackedParams α, Tells plan p b q ∧ Bounded pool'.arena plan.width plan.height p b q ∧
      Dispatch.reach q.width gx ≤ plan.width.toNat ∧ Dispatch.reach q.height gy ≤ plan.height.toNat := by
  obtain ⟨base', r', hreads⟩ := check_reads hcheck
  obtain ⟨base, target, hpassed, -, results, blocks, last, hdrawn, hprovided⟩ := emit_over hcheck hs hl h
  obtain ⟨grants, hgains, -⟩ := hprovided.gains
  obtain ⟨i, step, hstep, hpipe, hr, hk, hsource, hbackdrop, hgrid⟩ := hdrawn.dispatch hm
  obtain ⟨d, source, format, hd, hchecked⟩ := hpassed.step hstep
  rw [hdrawn.size.1, hdrawn.size.2]
  have htold := hdrawn.told (hpassed.blocks_fresh hl hdrawn hprovided) hstep hk
  obtain ⟨source', format', a, hsource', hpixels, hserved, hprogram⟩ := hreads.own hp hd hpipe
  rw [hchecked.resolves] at hsource'
  obtain rfl : source = source' := Except.ok.inj hsource'
  have hformat : format' = p.artifact.program.format.name := by
    rw [hprogram]
    exact PipelineKey.Names.format (Library.names_of_resolve hserved)
  have hlast (hi : i ≠ 0) : ∃ k, results[i - 1]? = some k := by
    have hlt := (List.getElem?_eq_some_iff.mp hr).1
    exact ⟨_, List.getElem?_eq_getElem (by omega)⟩
  refine ⟨(Emission.params target.format.width target.format.height step).told (p.bindings == .copy),
    { filled := ⟨_, (htold _).mpr rfl⟩, reads := fun data hdata block hblock => ?_ },
    { result := hprovided.holds (List.mem_of_getElem? hr) step _
      backdrop := fun hblend => ?_
      source := ⟨source, ?_, ?_, fun hfull hkind x hx y hy n hn => ?_⟩ }, ?_, ?_⟩
  · obtain rfl := (htold data).mp hdata
    exact DispatchParams.ofBlock?_told _ hblock _
  · have hi : i ≠ 0 := by
      rintro rfl
      rw [(hreads.own hp hd hpipe).copies] at hblend
      cases hblend
    obtain ⟨k, hk⟩ := hlast hi
    rw [if_neg hi, hk] at hbackdrop
    obtain ⟨s, hs, hholds⟩ := hprovided.holds (List.mem_of_getElem? hk) step (p.bindings == .copy)
    exact ⟨k, s, hbackdrop, hs, hholds⟩
  · have hlive := emit_sources h step (List.mem_of_getElem? hstep)
    rw [hsource]
    refine hgains.resolve (Arena.resolve_later hl ?_ hlive)
    rw [hchecked.step]
    exact hchecked.resolves
  · rw [hpixels, hformat]
  · refine hchecked.source_holds hfull (hkind.imp_right fun hnone => ?_) hx hy hn
    by_contra hi
    obtain ⟨k, hk⟩ := hlast hi
    rw [if_neg hi, hk] at hbackdrop
    rw [hbackdrop] at hnone
    cases hnone
  · rw [DispatchParams.told_width, (Prod.mk.inj hgrid).1]
    exact Dispatch.reach_le _
  · rw [DispatchParams.told_height, (Prod.mk.inj hgrid).2]
    exact Dispatch.reach_le _

/-- Each upload fits its slot: when the stack was checked, and once the plan is made if the slot is still there. -/
theorem emit_uploads {k : Handle} {data : Block α} (hm : .upload k data ∈ plan.stages) :
    (⟨k, data⟩ ∈ uploads → ∃ r, arena.resolve k = .ok r ∧ data.size ≤ r.size) ∧
      ∀ r, pool'.arena.resolve k = .ok r → data.size ≤ r.size := by
  obtain ⟨base, target, hpassed, -, results, blocks, last, hdrawn, hprovided⟩ := emit_over hcheck hs hl h
  obtain ⟨grants, hgains, -⟩ := hprovided.gains
  have hcaller (hu : ⟨k, data⟩ ∈ uploads) := hpassed.uploads _ hu
  refine ⟨hcaller, fun r hr => ?_⟩
  rcases List.mem_append.mp (hdrawn.upload.mp hm) with hu | hu
  · obtain ⟨r', hr', hle⟩ := hcaller (hpassed.carried ▸ hu)
    rw [Arena.resolve_later (hl.trans hgains.later) hr' (Arena.contains_of_resolve hr)] at hr
    cases hr
    exact hle
  · obtain ⟨⟨step, block⟩, hx, heq⟩ := List.mem_map.mp hu
    cases heq
    obtain ⟨r', hr', hbytes⟩ := hprovided.blocks k (List.of_mem_zip hx).2
    rw [hr'] at hr
    cases hr
    exact Int.ofNat_le.mp (le_of_wholeWords hbytes)

theorem emit_downloads {s : Handle} {d : Readback} {bytes : Int} (hm : .download s d bytes ∈ plan.stages) :
    ∃ r r' : SlotRef Int, pool'.arena.resolve s = .ok r ∧ pool'.arena.resolve d = .ok r' ∧ bytes ≤ r.size ∧
    bytes ≤ r'.size := by
  obtain ⟨base, target, hpassed, htarget, results, blocks, last, hdrawn, hprovided⟩ := emit_over hcheck hs hl h
  obtain ⟨rfl, rfl, rfl⟩ := hdrawn.download hm
  obtain ⟨r, hr, hbytes, -⟩ := hprovided.results _ (List.mem_of_getLast? hdrawn.last)
  exact ⟨r, target, hr, htarget, le_of_wholeWords hbytes, Int.not_lt.mp hpassed.room⟩

end

end Draft

namespace Engine

variable [Channel α] [Stored α] [Transfer α]

/-- What a plan that a call answers reaches, as it is made. At every position of the canvas, results and backdrops
are inside their slots, and what is read of a source is inside its slot if the slot has the bytes of the image that
it declares. Uploads fit their slots, and the download fits both of its. -/
theorem plans_bounded {start : Engine Int α} (hstart : start.Opened) (moves moves' : List (Move Int α))
    (stack : List (BlendDescriptor Int α)) (uploads : List (Upload α)) (m : Move Int α) (id : PlanId) :
    let e := start.run moves
    let before := (e.move (.call (.makePlan stack uploads))).run moves'
    let after := before.move m
    before.MakesPlan m e.jobs.size id → ∃ rec : PlanRecord Int α, after.plans[id]? = some rec ∧
      (∀ d ∈ stack, ∃ r, e.pool.arena.resolve d.destination = .ok r ∧ rec.plan.width = r.format.width ∧
        rec.plan.height = r.format.height) ∧
      (∀ label p b gx gy, .dispatch label p b gx gy ∈ rec.plan.stages → ∃ q : PackedParams α,
        Draft.Tells rec.plan p b q ∧ Draft.Bounded after.pool.arena rec.plan.width rec.plan.height p b q ∧
          Dispatch.reach q.width gx ≤ rec.plan.width.toNat ∧ Dispatch.reach q.height gy ≤ rec.plan.height.toNat) ∧
      (∀ k data, .upload k data ∈ rec.plan.stages →
        (⟨k, data⟩ ∈ uploads → ∃ r, e.pool.arena.resolve k = .ok r ∧ data.size ≤ r.size) ∧
          ∀ r, after.pool.arena.resolve k = .ok r → data.size ≤ r.size) ∧
      ∀ s d (bytes : Int), .download s d bytes ∈ rec.plan.stages → ∃ r r' : SlotRef Int,
        after.pool.arena.resolve s = .ok r ∧
        after.pool.arena.resolve d = .ok r' ∧ bytes ≤ r.size ∧ bytes ≤ r'.size := by
  intro e before after hmakes
  obtain ⟨draft, pipelines, rec, hcheck, hsupplied, hsound, hlater, hemit, hrec⟩ :=
    makePlan_answered hstart moves moves' stack uploads m id hmakes
  exact ⟨rec, hrec, Draft.emit_canvas hcheck hsound hlater hemit,
    fun label p b gx gy hm => Draft.emit_bounded hcheck hsound hlater hemit hsupplied hm,
    fun k data hm => Draft.emit_uploads hcheck hsound hlater hemit hm,
    fun s d bytes hm => Draft.emit_downloads hcheck hsound hlater hemit hm⟩

/-! ### Two blends, and a source that is too short -/

namespace Thrice

def waiting : Engine Int Bool :=
  ((start.run moves).move (.call (.makePlan stack uploads))).run (List.replicate 7 .fire)

/-- Whether a stage is a dispatch that blends. -/
def blends : Stage Int Bool → Bool
  | .dispatch _ p _ _ _ => p.bindings == .blend
  | _ => false

theorem waiting_spec : waiting.settled.isEmpty = true ∧ (waiting.move .fire).answersPlan 0 0 = true ∧
    ((waiting.move .fire).plans[0]?.map fun rec => rec.plan.stages.any blends) = some true ∧
    waiting.pool.arena.slots.all (fun s => s.backing.all fun b =>
      b.usage != .storage || (start.run moves).capabilities.fits b.capacity) = true := by decide +kernel

theorem waiting_makes : waiting.MakesPlan .fire 0 0 :=
  makesPlan_of_first waiting_spec.1 waiting_spec.2.1

theorem waiting_blends {rec : PlanRecord Int Bool} (hrec : (waiting.move .fire).plans[0]? = some rec) :
    ∃ label p b gx gy, .dispatch label p b gx gy ∈ rec.plan.stages ∧ p.bindings = .blend := by
  have hblends := waiting_spec.2.2.1
  rw [hrec] at hblends
  obtain ⟨stage, hstage, hblend⟩ := List.any_eq_true.mp (Option.some.inj hblends)
  cases stage with
  | dispatch label p b gx gy => exact ⟨label, p, b, gx, gy, hstage, eq_of_beq hblend⟩
  | allocate | upload | barrier | download => cases hblend

end Thrice

open Thrice in
theorem plans_bounded_thrice : start.Opened ∧ waiting.MakesPlan .fire 0 0 ∧ ∃ rec : PlanRecord Int Bool,
    (waiting.move .fire).plans[0]? = some rec ∧ ∃ label p b gx gy r k s,
      .dispatch label p b gx gy ∈ rec.plan.stages ∧ (waiting.move .fire).pool.arena.resolve b.result = .ok r ∧
      r.Holds .float32 0 ∧ b.backdrop = some k ∧ (waiting.move .fire).pool.arena.resolve k = .ok s ∧
      s.Holds .float32 0 := by
  have hstart : start.Opened := ⟨{ limits := .standard }, {}, .object [], rfl⟩
  obtain ⟨rec, hrec, hcanvas, hdispatches, -⟩ :=
    plans_bounded hstart moves (List.replicate 7 .fire) stack uploads .fire 0 waiting_makes
  obtain ⟨label, p, b, gx, gy, hstage, hblend⟩ := waiting_blends hrec
  obtain ⟨r, hr, hwidth, hheight⟩ := hcanvas _ (List.mem_cons_self ..)
  rw [format_destination hr] at hwidth hheight
  obtain ⟨q, -, hbounded, -⟩ := hdispatches label p b gx gy hstage
  obtain ⟨k, s, hk, hs, hholds⟩ := hbounded.backdrop hblend
  obtain ⟨r', hr', hholds'⟩ := hbounded.result
  rw [hwidth, hheight] at hholds hholds'
  have hfirst := hholds 0 (by decide) 0 (by decide)
  have hfirst' := hholds' 0 (by decide) 0 (by decide)
  rw [Nat.zero_mul, Nat.zero_add] at hfirst hfirst'
  exact ⟨hstart, waiting_makes, rec, hrec, label, p, b, gx, gy, r', k, s, hstage, hr', hfirst', hk, hs, hfirst⟩

namespace Short

open Thrice (source destination start)

/-- The source declares two by two texels, and has the bytes of one. -/
def moves : List (Move Int Bool) :=
  [.call (.allocate (.image .storage .unorm8 2 2) 4), .call (.allocate (.image .readback .float32 2 2) 64)]

def stack : List (BlendDescriptor Int Bool) := [⟨source, destination, "source-over", "srgb", true, none⟩]

def before : Engine Int Bool := ((start.run moves).move (.call (.makePlan stack []))).run (List.replicate 3 .fire)

def overruns (arena : Arena Int) (rec : PlanRecord Int Bool) : Stage Int Bool → Stage Int Bool → Bool
  | .dispatch _ p b _ _, .upload k data => k == b.params &&
    match PackedParams.ofBlock? ((Block.zero data.size).overwrite data data.size) (p.bindings == .copy),
    arena.resolve b.source with
    | some q, .ok r => match p.artifact.program.place? q (rec.plan.width.toNat - 1) (rec.plan.height.toNat - 1) with
      | some n => decide (r.size < (n + 1) * p.artifact.program.format.bytesPerPixel)
      | none => false
    | _, _ => false
  | _, _ => false

end Short

open Short in
/-- A plan is made whose program reads beyond the source. -/
theorem short_source_overrun : before.MakesPlan .fire 0 0 ∧ ∃ rec : PlanRecord Int Bool,
    (before.move .fire).plans[0]? = some rec ∧ ∃ label p b gx gy data q n r,
      .dispatch label p b gx gy ∈ rec.plan.stages ∧ .upload b.params data ∈ rec.plan.stages ∧
      PackedParams.ofBlock? ((Block.zero data.size).overwrite data data.size) (p.bindings == .copy) = some q ∧
      (before.move .fire).pool.arena.resolve b.source = .ok r ∧
      p.artifact.program.place? q (rec.plan.width.toNat - 1) (rec.plan.height.toNat - 1) = some n ∧
      ¬r.Holds p.artifact.program.format n := by
  obtain ⟨hnone, hanswers, hover⟩ : before.settled.isEmpty = true ∧ (before.move .fire).answersPlan 0 0 = true ∧
      ((before.move .fire).plans[0]?.map fun rec => rec.plan.stages.any fun s => rec.plan.stages.any
        (overruns (before.move .fire).pool.arena rec s)) = some true := by decide +kernel
  have hmakes : before.MakesPlan .fire 0 0 := makesPlan_of_first hnone hanswers
  obtain ⟨rec, hrec, hany⟩ := Option.map_eq_some_iff.mp hover
  obtain ⟨s, hs, hany⟩ := List.any_eq_true.mp hany
  obtain ⟨t, ht, hover⟩ := List.any_eq_true.mp hany
  unfold overruns at hover
  split at hover
  · rename_i label p b gx gy k data
    rw [Bool.and_eq_true] at hover
    obtain ⟨hk, hover⟩ := hover
    obtain rfl := eq_of_beq hk
    split at hover
    · rename_i q r hq hr
      split at hover
      · rename_i n hn
        exact ⟨hmakes, rec, hrec, label, p, b, gx, gy, data, q, n, r, hs, ht, hq, hr, hn,
          Nat.not_le.mpr (of_decide_eq_true hover)⟩
      · cases hover
    · cases hover
  · cases hover

end Engine

end Strata
