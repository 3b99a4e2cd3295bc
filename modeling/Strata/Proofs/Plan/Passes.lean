import Strata.Proofs.Plan.Stack

/-!
# From stages to passes

The stages of a plan over a stack, encoded against an arena that holds all its slots: the uploads put
their data into the heap, the dispatches become a chain of passes (`Stack.passes`), and the download
becomes a copy. `Effect` is turned around stage by stage, with whatever follows as a continuation, so
`effect_iff` both takes the effect of a plan apart and puts it together.
-/

namespace Strata

variable {α : Type}

open Engine.Encoder (Effect)

/-! ## Buffers of handles -/

def Arena.bufferOf {ν : Type} (arena : Arena ν) (h : Handle) : BufferId :=
  ((arena.resolve h).toOption.map (·.buffer)).getD 0

theorem Arena.bufferOf_eq {ν : Type} {arena : Arena ν} {h : Handle} {r : SlotRef ν} (hr : arena.resolve h = .ok r) :
    arena.bufferOf h = r.buffer := by
  unfold bufferOf
  rw [hr]
  rfl

theorem Pool.Sound.bufferOf_ne {ν : Type} {p : Pool ν α} (hp : p.Sound) {h k : Handle}
    (hh : p.arena.contains h = true) (hk : p.arena.contains k = true) (hne : h ≠ k) :
    p.arena.bufferOf h ≠ p.arena.bufferOf k := by
  obtain ⟨r, hr⟩ := hp.resolve_of_contains hh
  obtain ⟨s, hs⟩ := hp.resolve_of_contains hk
  rw [Arena.bufferOf_eq hr, Arena.bufferOf_eq hs]
  exact fun he => hne (hp.same_handle hr hs he)

/-! ## Uploads -/

section
variable [Stored α]

def Heap.upload (heap : Heap α) (buf : Handle → BufferId) (uploads : List (Upload α)) : Heap α :=
  uploads.foldl (fun heap u => heap.modifyBlock (buf u.handle) fun b => b.overwrite u.data u.data.size) heap

namespace Heap

variable {buf : Handle → BufferId}

theorem upload_writes (heap : Heap α) (uploads : List (Upload α)) :
    heap.Writes (heap.upload buf uploads) (uploads.map fun u => buf u.handle) := by
  induction uploads generalizing heap with
  | nil => exact .refl _ _
  | cons u us ih =>
    have hu : heap.Writes (heap.modifyBlock (buf u.handle) fun b => b.overwrite u.data u.data.size)
        ((u :: us).map fun u => buf u.handle) :=
      (writes_modifyBlock heap (buf u.handle) (·.overwrite u.data u.data.size) (Block.size_overwrite ..)).mono
        (by simp)
    exact hu.trans ((ih _).mono (by simp))

theorem block_upload {heap : Heap α} {uploads : List (Upload α)} (hn : (uploads.map fun u => buf u.handle).Nodup)
    {u : Upload α} (hu : u ∈ uploads) (hlt : buf u.handle < heap.size) :
    (heap.upload buf uploads).block (buf u.handle) = (heap.block (buf u.handle)).overwrite u.data u.data.size := by
  induction uploads generalizing heap with
  | nil => exact absurd hu List.not_mem_nil
  | cons v vs ih =>
    rw [List.map_cons, List.nodup_cons] at hn
    have hw := writes_modifyBlock heap (buf v.handle) (·.overwrite v.data v.data.size) (Block.size_overwrite ..)
    show ((heap.modifyBlock (buf v.handle) fun b => b.overwrite v.data v.data.size).upload buf vs).block _ = _
    rcases List.mem_cons.mp hu with rfl | hu
    · rw [(upload_writes _ vs).kept _ hn.1, block_modifyBlock, if_pos ⟨rfl, hlt⟩]
    · have hne : buf v.handle ≠ buf u.handle := fun he => hn.1 (he ▸ List.mem_map_of_mem hu)
      rw [ih hn.2 hu (hw.lt_size.mpr hlt), block_modifyBlock_of_ne _ hne]

end Heap

variable {arena : Arena Int} {plan : PlanId}

theorem effect_uploads {heap heap' : Heap α} {uploads : List (Upload α)} {rest : List (Stage Int α)}
    {cs : List (Command Int)} {ds : List (Download Int)} (hl : ∀ u ∈ uploads, ∃ r, arena.resolve u.handle = .ok r) :
    Effect arena plan heap (uploads.map (fun u => .upload u.handle u.data) ++ rest) heap' cs ds ↔
      (∀ u ∈ uploads, u.data.size ≤ (heap.block (arena.bufferOf u.handle)).size) ∧
        Effect arena plan (heap.upload arena.bufferOf uploads) rest heap' cs ds := by
  induction uploads generalizing heap with
  | nil => exact ⟨fun h => ⟨fun u hu => absurd hu List.not_mem_nil, h⟩, fun h => h.2⟩
  | cons u us ih =>
    obtain ⟨r, hr⟩ := hl u (List.mem_cons_self ..)
    have hbuf := Arena.bufferOf_eq hr
    have hw := Heap.writes_modifyBlock heap (arena.bufferOf u.handle) (·.overwrite u.data u.data.size)
      (Block.size_overwrite ..)
    have hrest := @ih (heap.modifyBlock (arena.bufferOf u.handle) fun b => b.overwrite u.data u.data.size)
      fun v hv => hl v (List.mem_cons_of_mem _ hv)
    rw [List.forall_mem_cons]
    rw [forall₂_congr fun v _ => by rw [hw.size_block]] at hrest
    constructor
    · intro h
      cases h with
      | upload hr' hs he =>
        rw [hr] at hr'
        cases hr'
        rw [← hbuf] at he hs
        obtain ⟨hss, he⟩ := hrest.mp he
        exact ⟨⟨hs, hss⟩, he⟩
    · rintro ⟨⟨hs, hss⟩, he⟩
      have he' := hrest.mpr ⟨hss, he⟩
      rw [hbuf] at he' hs
      exact .upload hr hs he'

theorem effect_download {heap heap' : Heap α} {source : Handle} {destination : Readback} {bytes : Int}
    {cs : List (Command Int)} {ds : List (Download Int)} (hs : ∃ r, arena.resolve source = .ok r)
    (hd : ∃ r, arena.resolve destination = .ok r) :
    Effect arena plan heap [.download source destination bytes] heap' cs ds ↔
      heap' = heap ∧ cs = [.copy (arena.bufferOf source) (arena.bufferOf destination) bytes] ∧
        ds = [⟨arena.bufferOf destination, bytes, destination.target.within plan⟩] := by
  obtain ⟨s, hs⟩ := hs
  obtain ⟨d, hd⟩ := hd
  rw [Arena.bufferOf_eq hs, Arena.bufferOf_eq hd]
  constructor
  · intro h
    cases h with
    | download hd' hs' he =>
      rw [hd] at hd'
      rw [hs] at hs'
      cases hd'
      cases hs'
      cases he
      exact ⟨rfl, rfl, rfl⟩
  · rintro ⟨rfl, rfl, rfl⟩
    exact .download hd hs (.done _)

end

/-! ## Dispatches -/

section
variable [Channel α] [Stored α] [Transfer α]

def Layer.shading (width height : Int) (bottom : Bool) (l : Layer Int α) : Shading α :=
  ⟨l.program bottom, (l.params width height).packed bottom, l.raster.texels.linear⟩

namespace Stack

def shadings (width height : Int) : (bottom : Bool) → List (Layer Int α) → List (Shading α)
  | _, [] => []
  | bottom, l :: rest => l.shading width height bottom :: shadings width height false rest

def programs : (bottom : Bool) → List (Layer Int α) → List Program
  | _, [] => []
  | bottom, l :: rest => l.program bottom :: programs false rest

/-- A layer with all that its dispatch needs. -/
structure Part (α : Type) where
  layer : Layer Int α
  source : Handle
  pipeline : Pipeline
  result : Handle
  block : Handle

variable (arena : Arena Int) (width height : Int)

def Part.pass (bottom : Bool) (backdrop : BufferId) (p : Part α) : Pass Int α where
  dispatch :=
    { program := p.pipeline.artifact.program
      buffers :=
        { backdrop := if bottom then arena.bufferOf p.source else backdrop
          source := arena.bufferOf p.source
          result := arena.bufferOf p.result
          params := arena.bufferOf p.block }
      workgroupsX := Measure.ceilDiv width (Measure.ofNat workgroupEdge)
      workgroupsY := Measure.ceilDiv height (Measure.ofNat workgroupEdge) }
  shading := p.layer.shading width height bottom

/-- The passes of a stack; each reads the result of the one before. -/
def passes : (bottom : Bool) → (backdrop : BufferId) → List (Part α) → List (Pass Int α)
  | _, _, [] => []
  | bottom, backdrop, p :: rest =>
    p.pass arena width height bottom backdrop :: passes false (arena.bufferOf p.result) rest

structure Part.Live (p : Part α) : Prop where
  source : ∃ r, arena.resolve p.source = .ok r
  result : ∃ r, arena.resolve p.result = .ok r
  block : ∃ r, arena.resolve p.block = .ok r

variable {arena width height}

omit [Channel α] [Stored α] [Transfer α] in
theorem bind_part {p : Part α} {bottom : Bool} {backdrop : Option Handle} (label : String) (hl : p.Live arena)
    (hp : p.pipeline.artifact.program = p.layer.program bottom)
    (hb : bottom = false → ∃ k r, backdrop = some k ∧ arena.resolve k = .ok r) :
    Engine.Encoder.bind arena label p.pipeline ⟨backdrop, p.source, p.result, p.block⟩ =
      .ok ⟨if bottom then arena.bufferOf p.source else ((backdrop.map arena.bufferOf).getD 0),
        arena.bufferOf p.source,
        arena.bufferOf p.result, arena.bufferOf p.block⟩ := by
  obtain ⟨s, hs⟩ := hl.source
  obtain ⟨r, hr⟩ := hl.result
  obtain ⟨b, hblock⟩ := hl.block
  unfold Engine.Encoder.bind Pipeline.bindings
  rw [hp, hs, hr, hblock, Arena.bufferOf_eq hs, Arena.bufferOf_eq hr, Arena.bufferOf_eq hblock]
  cases bottom with
  | true => rfl
  | false =>
    obtain ⟨k, x, rfl, hk⟩ := hb rfl
    show (do
      let backdrop ← arena.resolve k
      Except.ok (⟨backdrop.buffer, _, _, _⟩ : DispatchBuffers)) = _
    rw [hk, Option.map_some, Arena.bufferOf_eq hk]
    rfl

theorem effect_dispatches {plan : PlanId} {heap heap' : Heap α} {parts : List (Part α)} {bottom : Bool}
    {backdrop : Option Handle} {index : Nat} {rest : List (Stage Int α)} {cs : List (Command Int)}
    {ds : List (Download Int)} (hl : ∀ p ∈ parts, p.Live arena)
    (hp : parts.map (·.pipeline.artifact.program) = programs bottom (parts.map (·.layer)))
    (hb : bottom = false → ∃ k r, backdrop = some k ∧ arena.resolve k = .ok r) :
    Effect arena plan heap (Draft.Emission.dispatchStages width height index backdrop
        (Draft.stackSteps width height bottom (parts.map (·.layer)) (parts.map (·.source)))
        (parts.map (·.pipeline)) (parts.map (·.result)) (parts.map (·.block)) ++ rest) heap' cs ds ↔
      ∃ cs', cs = (passes arena width height bottom ((backdrop.map arena.bufferOf).getD 0) parts).map
      Pass.command ++ cs' ∧
        Effect arena plan heap rest heap' cs' ds := by
  induction parts generalizing bottom backdrop index cs with
  | nil => exact ⟨fun h => ⟨cs, rfl, h⟩, fun ⟨cs', hcs, h⟩ => by rw [hcs]; exact h⟩
  | cons p parts ih =>
    obtain ⟨hprogram, hprograms⟩ := List.cons.inj hp
    have hlive := hl p (List.mem_cons_self ..)
    obtain ⟨r, hr⟩ := hlive.result
    have hrest := fun cs => @ih false (some p.result) (index + 1) cs
      (fun q hq => hl q (List.mem_cons_of_mem _ hq)) hprograms fun _ => ⟨p.result, r, rfl, hr⟩
    have hbind (label : String) := bind_part label hlive hprogram hb
    constructor
    · intro h
      cases h with
      | dispatch hb' he =>
        have hsame := (hbind _).symm.trans hb'
        cases hsame
        obtain ⟨cs', hcs, hrun⟩ := (hrest _).mp he
        exact ⟨cs', congrArg (List.cons _) hcs, hrun⟩
    · rintro ⟨cs', rfl, he⟩
      exact .dispatch (hbind _) ((hrest _).mpr ⟨cs', rfl, he⟩)

/-! ## Readiness -/

theorem passes_shadings (bottom : Bool) (backdrop : BufferId) (parts : List (Part α)) :
    (passes arena width height bottom backdrop parts).map (·.shading) =
      shadings width height bottom (parts.map (·.layer)) := by
  induction parts generalizing bottom backdrop with
  | nil => rfl
  | cons p parts ih => exact congrArg (List.cons _) (ih _ _)

theorem passes_results (bottom : Bool) (backdrop : BufferId) (parts : List (Part α)) :
    results (passes arena width height bottom backdrop parts) = parts.map fun p => arena.bufferOf p.result := by
  induction parts generalizing bottom backdrop with
  | nil => rfl
  | cons p parts ih => exact congrArg (List.cons _) (ih _ _)

theorem passes_linked (backdrop : BufferId) (parts : List (Part α)) :
    Linked backdrop (passes arena width height false backdrop parts) := by
  induction parts generalizing backdrop with
  | nil => trivial
  | cons p parts ih => exact ⟨rfl, ih _⟩

theorem mem_passes {bottom : Bool} {backdrop : BufferId} {parts : List (Part α)} {pass : Pass Int α}
    (h : pass ∈ passes arena width height bottom backdrop parts) :
    ∃ p ∈ parts, pass.dispatch.buffers.source = arena.bufferOf p.source ∧
      pass.dispatch.buffers.params = arena.bufferOf p.block := by
  induction parts generalizing bottom backdrop with
  | nil => exact absurd h List.not_mem_nil
  | cons p parts ih =>
    rcases List.mem_cons.mp h with rfl | h
    · exact ⟨p, List.mem_cons_self .., rfl, rfl⟩
    · obtain ⟨q, hq, hrest⟩ := ih h
      exact ⟨q, List.mem_cons_of_mem _ hq, hrest⟩

/-- The buffers of a part hold what its dispatch is to find. -/
structure Part.Furnished (arena : Arena Int) (heap : Heap α) (width height : Int) (p : Part α) : Prop where
  source : ∃ old : Block α, p.layer.raster.texels.block.size ≤ old.size ∧
    heap.block (arena.bufferOf p.source) =
      old.overwrite p.layer.raster.texels.block p.layer.raster.texels.block.size
  block : ∃ old : Block α, paramsSize ≤ old.size ∧
    heap.block (arena.bufferOf p.block) = old.overwrite (p.layer.params width height).pack paramsSize

end Stack

namespace Layer

variable {width height : Int} {l : Layer Int α} {bottom : Bool}

omit [Channel α] [Stored α] [Transfer α] in
theorem Fits.region (h : l.Fits width height bottom) :
    let r := l.region width height
    0 ≤ r.x ∧ 0 ≤ r.y ∧ 0 ≤ r.width ∧ 0 ≤ r.height ∧ r.x + r.width ≤ max width 0 ∧
      r.y + r.height ≤ max height 0 := by
  have hin := h.inside
  dsimp only
  generalize l.region width height = r at hin
  obtain ⟨x, y, maxX, maxY⟩ := r
  unfold Rectangle.contains at hin
  split at hin
  · cases hin
  · rename_i hcorner
    simp only [Bool.and_eq_true, decide_eq_true_eq] at hin
    have hx : ¬ (x < 0 ∨ y < 0) := hcorner
    have hw : max 0 (maxX - x) ≤ max 0 (width - 0) - (x - 0) := hin.1
    have hh : max 0 (maxY - y) ≤ max 0 (height - 0) - (y - 0) := hin.2
    show 0 ≤ x ∧ 0 ≤ y ∧ 0 ≤ max 0 (maxX - x) ∧ 0 ≤ max 0 (maxY - y) ∧ x + max 0 (maxX - x) ≤ max width 0 ∧
      y + max 0 (maxY - y) ≤ max height 0
    omega

omit [Stored α] [Transfer α] in
theorem Fits.packs (h : l.Fits width height bottom) (hw : DispatchParams.FitsWord width)
    (hh : DispatchParams.FitsWord height) : (l.params width height).Packs := by
  obtain ⟨hx, hy, hrw, hrh, hxw, hyh⟩ := h.region
  obtain ⟨hw₀, hw₁⟩ := hw
  obtain ⟨hh₀, hh₁⟩ := hh
  exact ⟨⟨hw₀, hw₁⟩, ⟨hh₀, hh₁⟩, ⟨hx, by show (l.region width height).x < _; omega⟩,
    ⟨hy, by show (l.region width height).y < _; omega⟩, ⟨hrw, by show (l.region width height).width < _; omega⟩,
    ⟨hrh, by show (l.region width height).height < _; omega⟩⟩

omit [Channel α] [Stored α] [Transfer α] in
theorem Fits.whole_size (h : l.Fits width height true) (hw : 0 ≤ width) (hh : 0 ≤ height) :
    l.raster.width = width ∧ l.raster.height = height := by
  have hsame := h.whole rfl
  rw [h.size.1, h.size.2]
  generalize l.region width height = r at hsame
  obtain ⟨x, y, maxX, maxY⟩ := r
  unfold Rectangle.same Rectangle.ofSize at hsame
  simp only [Bool.and_eq_true, beq_iff_eq] at hsame
  obtain ⟨⟨⟨hx, hy⟩, hX⟩, hY⟩ := hsame
  have hx' : x = 0 := hx
  have hy' : y = 0 := hy
  show max 0 (maxX - x) = width ∧ max 0 (maxY - y) = height
  omega

omit [Stored α] in
/-- A dispatch looks at the pixels of its source, and at no others. -/
theorem reach_shading [Stored α] (h : l.Fits width height bottom) (hw : 0 ≤ width) (hh : 0 ≤ height) :
    (l.shading width height bottom).reach = l.raster.width.toNat * l.raster.height.toNat := by
  cases bottom with
  | true =>
    obtain ⟨hrw, hrh⟩ := h.whole_size hw hh
    rw [hrw, hrh]
    rfl
  | false =>
    rw [h.size.1, h.size.2]
    rfl

omit [Stored α] [Transfer α] in
theorem Valid.channels (hv : l.Valid) :
    l.raster.texels.size = 4 * (l.raster.width.toNat * l.raster.height.toNat) := by
  have hcount := hv.count
  obtain ⟨hw, hh⟩ := hv.positive
  obtain ⟨w, hw'⟩ := Int.eq_ofNat_of_zero_le (Int.le_of_lt hw)
  obtain ⟨h, hh'⟩ := Int.eq_ofNat_of_zero_le (Int.le_of_lt hh)
  rw [hw', hh'] at hcount ⊢
  show l.raster.texels.size = 4 * (w * h)
  have hcast : ((l.raster.texels.size : Nat) : Int) = ((4 * (w * h) : Nat) : Int) := by
    rw [hcount]
    push_cast
    exact Int.mul_comm _ _
  exact Int.ofNat.inj hcast

omit [Stored α] [Transfer α] in
/-- The edges of an image whose data is an array fit a word. -/
theorem Valid.fitsWord (hv : l.Valid) (ha : l.raster.texels.size ≤ longestArray) :
    DispatchParams.FitsWord l.raster.width ∧ DispatchParams.FitsWord l.raster.height := by
  obtain ⟨hw, hh⟩ := hv.positive
  rw [hv.channels] at ha
  have hbound : 4 * (l.raster.width.toNat * l.raster.height.toNat) ≤ 4294967296 := ha
  have hw₁ : l.raster.width.toNat ≤ l.raster.width.toNat * l.raster.height.toNat :=
    Nat.le_mul_of_pos_right _ (by omega)
  have hh₁ : l.raster.height.toNat ≤ l.raster.width.toNat * l.raster.height.toNat :=
    Nat.le_mul_of_pos_left _ (by omega)
  exact ⟨⟨Int.le_of_lt hw, by omega⟩, ⟨Int.le_of_lt hh, by omega⟩⟩

end Layer

namespace Stack

variable {arena : Arena Int} {width height : Int}

theorem Part.Furnished.ready {p : Part α} {bottom : Bool} {backdrop : BufferId} {heap : Heap α}
    (hf : p.Furnished arena heap width height) (hfit : p.layer.Fits width height bottom) (hv : p.layer.Valid)
    (hw : DispatchParams.FitsWord width) (hh : DispatchParams.FitsWord height)
    (hp : p.pipeline.artifact.program = p.layer.program bottom)
    (hs : arena.bufferOf p.source ≠ arena.bufferOf p.result) (hb : arena.bufferOf p.block ≠ arena.bufferOf p.result)
    (hback : bottom = false → backdrop ≠ arena.bufferOf p.result) :
    (p.pass arena width height bottom backdrop).Ready heap (width.toNat * height.toNat) := by
  obtain ⟨old, hold, hsource⟩ := hf.source
  obtain ⟨old', hold', hblock⟩ := hf.block
  have hcopy : (p.pipeline.artifact.program.bindings == .copy) = bottom := by
    rw [hp]
    cases bottom <;> rfl
  have hformat : p.pipeline.artifact.program.format = p.layer.raster.texels.format := by
    rw [hp]
    cases bottom <;> rfl
  refine ⟨⟨hs, ?_, hb⟩, ?_, hp, ?_, ?_, fun i hi => ?_⟩
  · show (if bottom then arena.bufferOf p.source else backdrop) ≠ _
    cases bottom with
    | true => exact hs
    | false => exact hback rfl
  · show PackedParams.ofBlock? (heap.block (arena.bufferOf p.block))
      (p.pipeline.artifact.program.bindings == .copy) = _
    rw [hcopy, hblock]
    exact DispatchParams.ofBlock?_upload (hfit.packs hw hh) hold' bottom
  · cases bottom <;> exact ⟨reach_workgroups hw.1, reach_workgroups hh.1⟩
  · cases bottom <;> rfl
  · show (heap.block (arena.bufferOf p.source)).sourceAt p.pipeline.artifact.program.format i = _
    rw [hsource, hformat]
    refine sourceAt_upload hold ?_
    have hi' : i < p.layer.raster.width.toNat * p.layer.raster.height.toNat := by
      rw [← Layer.reach_shading hfit hw.1 hh.1]
      exact hi
    rw [hv.channels]
    omega

/-- Every pass of a stack finds what its layer needs. -/
theorem passes_ready {parts : List (Part α)} {bottom : Bool} {backdrop : BufferId} {heap : Heap α}
    (hf : ∀ p ∈ parts, p.Furnished arena heap width height) (hv : ∀ p ∈ parts, p.layer.Valid)
    (hfit : Layer.AllFit width height bottom (parts.map (·.layer)))
    (hw : DispatchParams.FitsWord width) (hh : DispatchParams.FitsWord height)
    (hp : parts.map (·.pipeline.artifact.program) = programs bottom (parts.map (·.layer)))
    (hs : ∀ p ∈ parts, arena.bufferOf p.source ≠ arena.bufferOf p.result ∧
      arena.bufferOf p.block ≠ arena.bufferOf p.result)
    (hb : bottom = false → ∀ p ∈ parts.head?, backdrop ≠ arena.bufferOf p.result)
    (hc : (parts.map fun p => arena.bufferOf p.result).IsChain (· ≠ ·)) :
    ∀ pass ∈ passes arena width height bottom backdrop parts, pass.Ready heap (width.toNat * height.toNat) := by
  induction parts generalizing bottom backdrop with
  | nil => exact fun pass h => absurd h List.not_mem_nil
  | cons p parts ih =>
    obtain ⟨hprogram, hprograms⟩ := List.cons.inj hp
    intro pass hpass
    rcases List.mem_cons.mp hpass with rfl | hpass
    · have hmem : p ∈ p :: parts := List.mem_cons_self ..
      exact (hf p hmem).ready hfit.1 (hv p hmem) hw hh hprogram (hs p hmem).1 (hs p hmem).2
        fun hbot => hb hbot p rfl
    · refine ih (fun q hq => hf q (List.mem_cons_of_mem _ hq)) (fun q hq => hv q (List.mem_cons_of_mem _ hq)) hfit.2
        hprograms (fun q hq => hs q (List.mem_cons_of_mem _ hq)) (fun _ q hq => ?_) hc.of_cons pass hpass
      cases parts with
      | nil => cases hq
      | cons r parts =>
        cases hq
        exact (List.isChain_cons_cons.mp hc).1

end Stack

end

end Strata
