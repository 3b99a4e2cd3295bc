import Strata.Device.Basic
import Strata.Proofs.Memory.Blocks

/-!
# What dispatches compute

An image is a function from positions in reading order to pixels. A `Shading` is what one dispatch does
to the image below it, free of buffers: `run_dispatch` says that a dispatch which comes to its end leaves
its shading's image in its result buffer, `run_passes` that a chain of dispatches, each reading the
result of the one before, leaves the fold of its shadings. Whatever they come to, dispatches change no
other buffer (`Heap.Writes`).
-/

namespace Strata

variable {ν α : Type}

/-! ## Heaps -/

namespace Heap

/-- All of a buffer but its contents. -/
def shape (heap : Heap α) (id : BufferId) : Option (String × Option Nat × Nat × Bool) :=
  heap[id]?.map fun b => (b.label, b.usage, b.block.size, b.destroyed)

theorem block_modifyBlock (heap : Heap α) (id j : BufferId) (f : Block α → Block α) :
    (heap.modifyBlock id f).block j = if id = j ∧ j < heap.size then f (heap.block j) else heap.block j := by
  unfold block modifyBlock
  rw [Array.getElem?_modify]
  by_cases hj : j < heap.size
  · by_cases hi : id = j
    · simp [hi, hj]
    · simp [hi]
  · simp [hj]

theorem block_modifyBlock_of_ne (heap : Heap α) {id j : BufferId} (h : id ≠ j) (f : Block α → Block α) :
    (heap.modifyBlock id f).block j = heap.block j := by
  rw [block_modifyBlock, if_neg fun hc => h hc.1]

theorem block_of_size_le (heap : Heap α) {id : BufferId} (h : heap.size ≤ id) : heap.block id = Block.zero 0 := by
  unfold block
  rw [Array.getElem?_eq_none h]
  rfl

/-- The heaps have the same buffers, and differ in the contents of some at most. -/
structure Writes (heap heap' : Heap α) (ids : List BufferId) : Prop where
  shape : ∀ id, heap'.shape id = heap.shape id
  kept : ∀ id ∉ ids, heap'.block id = heap.block id

theorem Writes.refl (heap : Heap α) (ids : List BufferId) : heap.Writes heap ids :=
  ⟨fun _ => rfl, fun _ _ => rfl⟩

theorem Writes.trans {h h' h'' : Heap α} {ids : List BufferId} (a : h.Writes h' ids) (b : h'.Writes h'' ids) :
    h.Writes h'' ids :=
  ⟨fun id => (b.shape id).trans (a.shape id), fun id hid => (b.kept id hid).trans (a.kept id hid)⟩

theorem Writes.mono {h h' : Heap α} {ids ids' : List BufferId} (a : h.Writes h' ids) (hs : ids ⊆ ids') :
    h.Writes h' ids' :=
  ⟨a.shape, fun id hid => a.kept id fun h => hid (hs h)⟩

theorem shape_eq_none {heap : Heap α} {id : BufferId} : heap.shape id = none ↔ heap.size ≤ id := by
  unfold Heap.shape
  rw [Option.map_eq_none_iff, Array.getElem?_eq_none_iff]

theorem size_block_of_shape {heap heap' : Heap α} {id : BufferId} (h : heap'.shape id = heap.shape id) :
    (heap'.block id).size = (heap.block id).size := by
  unfold Heap.shape at h
  unfold block
  cases hx : heap[id]? with
  | none => rw [hx, Option.map_none, Option.map_eq_none_iff] at h; rw [h]
  | some b =>
    rw [hx, Option.map_some, Option.map_eq_some_iff] at h
    obtain ⟨b', hb', he⟩ := h
    rw [hb']
    simp only [Prod.mk.injEq] at he
    exact he.2.2.1

theorem Writes.size_block {h h' : Heap α} {ids : List BufferId} (a : h.Writes h' ids) (id : BufferId) :
    (h'.block id).size = (h.block id).size := size_block_of_shape (a.shape id)

theorem Writes.lt_size {h h' : Heap α} {ids : List BufferId} (a : h.Writes h' ids) {id : BufferId} :
    id < h'.size ↔ id < h.size := by
  have hs := a.shape id
  rw [← Nat.not_le, ← Nat.not_le, ← shape_eq_none, ← shape_eq_none, hs]

theorem writes_modifyBlock (heap : Heap α) (id : BufferId) (f : Block α → Block α)
    (hf : (f (heap.block id)).size = (heap.block id).size) : heap.Writes (heap.modifyBlock id f) [id] := by
  refine ⟨fun j => ?_, fun j hj => ?_⟩
  · unfold Heap.shape modifyBlock
    rw [Array.getElem?_modify]
    split
    · rename_i hij
      subst hij
      unfold block at hf
      cases hx : heap[id]? with
      | none => rfl
      | some b =>
        rw [hx] at hf
        simp only [Option.map_some, Option.getD_some] at hf
        simp [hf]
    · rfl
  · rw [List.mem_singleton] at hj
    exact block_modifyBlock_of_ne heap (Ne.symm hj) f

end Heap

/-! ## Shadings -/

/-- Pixels of an image by their position in reading order. -/
abbrev Image (α : Type) := Nat → Pixel α

section
variable [Channel α] [Stored α] [Transfer α]

/-- What a dispatch does with the image below it. -/
structure Shading (α : Type) where
  program : Program
  params : PackedParams α
  /-- The source in linear light, in rows of its own width. -/
  source : Image α

namespace Shading

def texel (s : Shading α) (below : Image α) (n : Nat) : Pixel α :=
  let x := n % s.params.width
  let y := n / s.params.width
  match s.program with
  | .copy _ => Pixel.load s.params.opacity (s.source n)
  | .blend mode space _ =>
    if x < s.params.originX ∨ y < s.params.originY ∨ s.params.sourceWidth ≤ x - s.params.originX ∨
        s.params.sourceHeight ≤ y - s.params.originY then
      below n
    else
      Pixel.blend mode space s.params.opacity (below n)
        (s.source ((y - s.params.originY) * s.params.sourceWidth + (x - s.params.originX)))

/-- The image that a dispatch leaves in memory. -/
def laid (s : Shading α) (below : Image α) : Image α := fun n => (s.texel below n).stored

def fold (below : Image α) (shadings : List (Shading α)) : Image α :=
  shadings.foldl (fun image s => s.laid image) below

/-- Texels of the source that are looked at. -/
def reach (s : Shading α) : Nat :=
  match s.program with
  | .copy _ => s.params.width * s.params.height
  | .blend .. => s.params.sourceWidth * s.params.sourceHeight

omit [Stored α] in
theorem texel_congr {s s' : Shading α} (hp : s.program = s'.program) (hq : s.params = s'.params)
    (hs : ∀ i < s.reach, s.source i = s'.source i) {below below' : Image α} {n : Nat}
    (hn : n < s.params.width * s.params.height) (hb : below n = below' n) :
    s.texel below n = s'.texel below' n := by
  unfold texel reach at *
  rw [← hp, ← hq]
  cases h : s.program with
  | copy format =>
    rw [h] at hs
    rw [hs n hn]
  | blend mode space format =>
    rw [h] at hs
    dsimp only at hs ⊢
    split
    · exact hb
    · rename_i hin
      simp only [not_or, Nat.not_lt, Nat.not_le] at hin
      obtain ⟨-, -, hx, hy⟩ := hin
      rw [hb, hs]
      calc (n / s.params.width - s.params.originY) * s.params.sourceWidth + (n % s.params.width - s.params.originX)
          < (n / s.params.width - s.params.originY) * s.params.sourceWidth + s.params.sourceWidth := by omega
        _ = (n / s.params.width - s.params.originY + 1) * s.params.sourceWidth := by rw [Nat.add_mul, Nat.one_mul]
        _ ≤ s.params.sourceHeight * s.params.sourceWidth := Nat.mul_le_mul_right _ hy
        _ = s.params.sourceWidth * s.params.sourceHeight := Nat.mul_comm ..

end Shading

/-- The shading of a dispatch on a heap. -/
def Dispatch.shading (d : Dispatch ν) (p : PackedParams α) (heap : Heap α) : Shading α :=
  ⟨d.program, p, (heap.block d.buffers.source).sourceAt d.program.format⟩

theorem Dispatch.texel_eq (d : Dispatch ν) (p : PackedParams α) (heap : Heap α) (n : Nat) :
    d.texel p heap (n % p.width) (n / p.width) =
      (d.shading p heap).texel (heap.block d.buffers.backdrop).pixelAt n := by
  have hn : n / p.width * p.width + n % p.width = n := by
    rw [Nat.mul_comm]; exact Nat.div_add_mod n p.width
  unfold Dispatch.texel Shading.texel Dispatch.shading
  simp only [hn]
  cases d.program <;> rfl

/-! ## One dispatch -/

/-- The first positions of a working image. -/
def Block.Holds (block : Block α) (count : Nat) (image : Image α) : Prop :=
  ∀ n < count, block.pixelAt n = image n

namespace Dispatch

variable {d : Dispatch ν} {p : PackedParams α}

def Apart (d : Dispatch ν) : Prop :=
  d.buffers.source ≠ d.buffers.result ∧ d.buffers.backdrop ≠ d.buffers.result ∧ d.buffers.params ≠ d.buffers.result

theorem sweep_writes (columns count n : Nat) (heap : Heap α) :
    heap.Writes (d.sweep p columns count n heap).2 [d.buffers.result] := by
  induction count generalizing n heap with
  | zero => exact .refl _ _
  | succ count ih =>
    unfold sweep
    dsimp only
    split
    · refine Heap.Writes.trans ?_ (ih _ _)
      exact Heap.writes_modifyBlock _ _ _ (Block.size_setPixel _ _ _)
    · exact .refl _ _

theorem sweep_spec (ha : d.Apart) (count n : Nat) (heap : Heap α)
    (h : (d.sweep p p.width count n heap).1 = true) :
    (∀ m, n ≤ m → m < n + count → (heap.block d.buffers.result).covers (4 * m + 3) = true) ∧
    ∀ m, ((d.sweep p p.width count n heap).2.block d.buffers.result).pixelAt m =
      if n ≤ m ∧ m < n + count then (d.shading p heap).laid (heap.block d.buffers.backdrop).pixelAt m
      else (heap.block d.buffers.result).pixelAt m := by
  induction count generalizing n heap with
  | zero => exact ⟨fun m h₁ h₂ => absurd h₂ (by omega), fun m => by rw [if_neg (by omega)]; rfl⟩
  | succ count ih =>
    have hn : n / p.width * p.width + n % p.width = n := by
      rw [Nat.mul_comm]; exact Nat.div_add_mod n p.width
    unfold sweep at h ⊢
    simp only [hn, texel_eq] at h ⊢
    by_cases hc : (heap.block d.buffers.result).covers (4 * n + 3) = true
    · rw [if_pos hc] at h ⊢
      generalize hx : (d.shading p heap).texel (heap.block d.buffers.backdrop).pixelAt n = x at h ⊢
      have hlt : d.buffers.result < heap.size := by
        refine Nat.lt_of_not_le fun hle => ?_
        rw [Heap.block_of_size_le heap hle] at hc
        simp [Block.covers, Block.zero] at hc
      -- writing a position changes the result only, so what later positions are computed from is as before
      have hres : (heap.modifyBlock d.buffers.result (·.setPixel n x)).block d.buffers.result =
          (heap.block d.buffers.result).setPixel n x := by
        rw [Heap.block_modifyBlock, if_pos ⟨rfl, hlt⟩]
      have hback : (heap.modifyBlock d.buffers.result (·.setPixel n x)).block d.buffers.backdrop =
          heap.block d.buffers.backdrop := Heap.block_modifyBlock_of_ne _ ha.2.1.symm _
      have hshade : d.shading p (heap.modifyBlock d.buffers.result (·.setPixel n x)) = d.shading p heap := by
        unfold shading
        rw [Heap.block_modifyBlock_of_ne _ ha.1.symm]
      obtain ⟨hcov, hpix⟩ := ih (n + 1) _ h
      refine ⟨fun m h₁ h₂ => ?_, fun m => ?_⟩
      · by_cases hm : m = n
        · rw [hm]; exact hc
        · have := hcov m (by omega) (by omega)
          rw [hres] at this
          simpa [Block.covers] using this
      · rw [hpix, hres, hback, hshade]
        by_cases hm : m = n
        · subst hm
          rw [if_neg (by omega), if_pos (by omega), Block.pixelAt_setPixel_self _ hc, ← hx]
          rfl
        · rw [Block.pixelAt_setPixel_of_ne _ hm]
          exact ite_congr (propext (by omega)) (fun _ => rfl) fun _ => rfl
    · rw [if_neg hc] at h
      cases h

theorem sweep_complete (columns count n : Nat) (heap : Heap α)
    (hc : ∀ m, m / columns * p.width + m % columns = m)
    (h : ∀ m < n + count, (heap.block d.buffers.result).covers (4 * m + 3) = true) :
    (d.sweep p columns count n heap).1 = true := by
  induction count generalizing n heap with
  | zero => rfl
  | succ count ih =>
    unfold sweep
    dsimp only
    rw [hc n, if_pos (h n (by omega))]
    refine ih (n + 1) _ fun m hm => ?_
    have hs := (Heap.writes_modifyBlock heap d.buffers.result
      (·.setPixel n (d.texel p heap (n % columns) (n / columns))) (Block.size_setPixel _ _ _)).size_block
        d.buffers.result
    have hm' := h m (by omega)
    unfold Block.covers at hm' ⊢
    rw [hs]
    exact hm'

variable [Measure ν]

/-- The workgroups of a dispatch cover the canvas it is told. -/
def Covers (d : Dispatch ν) (p : PackedParams α) : Prop :=
  reach p.width d.workgroupsX = p.width ∧ reach p.height d.workgroupsY = p.height

theorem run_writes (d : Dispatch ν) (heap : Heap α) : heap.Writes (d.run heap).2 [d.buffers.result] := by
  unfold run
  split
  · exact .refl _ _
  · exact sweep_writes ..

/-- A dispatch that comes to its end leaves its shading of the backdrop in its result buffer. -/
theorem run_dispatch {heap : Heap α} (ha : d.Apart)
    (hp : PackedParams.ofBlock? (heap.block d.buffers.params) (d.program.bindings == .copy) = some p)
    (hc : d.Covers p) (h : (d.run heap).1 = true) :
    ((d.run heap).2.block d.buffers.result).Holds (p.width * p.height)
      ((d.shading p heap).laid (heap.block d.buffers.backdrop).pixelAt) := by
  unfold run at h ⊢
  rw [hp] at h ⊢
  dsimp only at h ⊢
  rw [hc.1, hc.2] at h ⊢
  obtain ⟨-, hpix⟩ := sweep_spec ha _ _ heap h
  intro n hn
  rw [hpix, if_pos ⟨Nat.zero_le n, by rw [Nat.zero_add, Nat.mul_comm]; exact hn⟩]

theorem run_complete {heap : Heap α}
    (hp : PackedParams.ofBlock? (heap.block d.buffers.params) (d.program.bindings == .copy) = some p)
    (hc : d.Covers p) (hs : 16 * (p.width * p.height) ≤ (heap.block d.buffers.result).size) :
    (d.run heap).1 = true := by
  unfold run
  rw [hp]
  dsimp only
  rw [hc.1, hc.2]
  refine sweep_complete _ _ _ _ (fun m => ?_) fun m hm => ?_
  · rw [Nat.mul_comm]; exact Nat.div_add_mod m p.width
  · rw [Nat.zero_add, Nat.mul_comm] at hm
    refine decide_eq_true ?_
    omega

end Dispatch

/-! ## Chains of dispatches -/

/-- A dispatch with what it is meant to do. -/
structure Pass (ν α : Type) where
  dispatch : Dispatch ν
  shading : Shading α

variable [Measure ν]

/-- A dispatch finds its parameters and its source on a heap, over a canvas of `count` pixels. -/
structure Pass.Ready (pass : Pass ν α) (heap : Heap α) (count : Nat) : Prop where
  apart : pass.dispatch.Apart
  params : PackedParams.ofBlock? (heap.block pass.dispatch.buffers.params)
    (pass.dispatch.program.bindings == .copy) = some pass.shading.params
  program : pass.dispatch.program = pass.shading.program
  covers : pass.dispatch.Covers pass.shading.params
  canvas : pass.shading.params.width * pass.shading.params.height = count
  source : ∀ i < pass.shading.reach, (heap.block pass.dispatch.buffers.source).sourceAt
    pass.dispatch.program.format i =
    pass.shading.source i

/-- Every dispatch reads its backdrop from the result of the one before. -/
def Linked : BufferId → List (Pass ν α) → Prop
  | _, [] => True
  | backdrop, pass :: rest => pass.dispatch.buffers.backdrop = backdrop ∧ Linked pass.dispatch.buffers.result rest

def results (passes : List (Pass ν α)) : List BufferId := passes.map (·.dispatch.buffers.result)

def Pass.command (pass : Pass ν α) : Command ν := .dispatch pass.dispatch

theorem Pass.Ready.writes {pass : Pass ν α} {heap heap' : Heap α} {count : Nat} {ids : List BufferId}
    (h : pass.Ready heap count) (hw : heap.Writes heap' ids) (hs : pass.dispatch.buffers.source ∉ ids)
    (hp : pass.dispatch.buffers.params ∉ ids) : pass.Ready heap' count where
  apart := h.apart
  params := by rw [hw.kept _ hp]; exact h.params
  program := h.program
  covers := h.covers
  canvas := h.canvas
  source := by rw [hw.kept _ hs]; exact h.source

theorem Pass.run_holds {pass : Pass ν α} {heap : Heap α} {count : Nat} {below : Image α}
    (hr : pass.Ready heap count) (hb : (heap.block pass.dispatch.buffers.backdrop).Holds count below)
    (h : (pass.dispatch.run heap).1 = true) :
    ((pass.dispatch.run heap).2.block pass.dispatch.buffers.result).Holds count (pass.shading.laid below) := by
  have hrun := Dispatch.run_dispatch hr.apart hr.params hr.covers h
  rw [hr.canvas] at hrun
  intro n hn
  rw [hrun n hn]
  have hsource : ∀ i < (pass.dispatch.shading pass.shading.params heap).reach,
      (pass.dispatch.shading pass.shading.params heap).source i = pass.shading.source i := by
    intro i hi
    refine hr.source i ?_
    unfold Shading.reach Dispatch.shading at hi
    unfold Shading.reach
    rw [← hr.program]
    exact hi
  have hcanvas : n < pass.shading.params.width * pass.shading.params.height := by
    rw [hr.canvas]
    exact hn
  have hprogram : (pass.dispatch.shading pass.shading.params heap).program = pass.shading.program := hr.program
  have htexel := Shading.texel_congr hprogram rfl hsource hcanvas (hb n hn)
  exact congrArg Pixel.stored htexel

/-- The buffers that dispatches write are read by the next one only, as its backdrop. -/
def Separate (passes : List (Pass ν α)) : Prop :=
  ∀ pass ∈ passes, pass.dispatch.buffers.source ∉ results passes ∧ pass.dispatch.buffers.params ∉ results passes

theorem runCommands_cons (heap : Heap α) (c : Command ν) (cs : List (Command ν)) :
    Device.runCommands heap (c :: cs) =
      if (Device.runCommand heap c).1 then Device.runCommands (Device.runCommand heap c).2 cs
      else (false, (Device.runCommand heap c).2) := by
  rw [Device.runCommands]
  generalize Device.runCommand heap c = r
  obtain ⟨ok, heap'⟩ := r
  cases ok <;> rfl

theorem runCommand_command (heap : Heap α) (pass : Pass ν α) :
    Device.runCommand heap pass.command = pass.dispatch.run heap := rfl

theorem runCommands_writes (heap : Heap α) (passes : List (Pass ν α)) :
    heap.Writes (Device.runCommands heap (passes.map Pass.command)).2 (results passes) := by
  induction passes generalizing heap with
  | nil => exact .refl _ _
  | cons pass rest ih =>
    have hw : heap.Writes (pass.dispatch.run heap).2 (results (pass :: rest)) :=
      (Dispatch.run_writes pass.dispatch heap).mono (by simp [results])
    have hrest : (pass.dispatch.run heap).2.Writes
        (Device.runCommands (pass.dispatch.run heap).2 (rest.map Pass.command)).2 (results (pass :: rest)) :=
      (ih (pass.dispatch.run heap).2).mono (by simp [results])
    rw [List.map_cons, runCommands_cons, runCommand_command]
    split
    · exact hw.trans hrest
    · exact hw

/-- A chain of dispatches that comes to its end leaves the fold of its shadings in its last result. -/
theorem run_passes {passes : List (Pass ν α)} {heap : Heap α} {count : Nat} {backdrop : BufferId} {below : Image α}
    (hr : ∀ pass ∈ passes, pass.Ready heap count) (hl : Linked backdrop passes) (hs : Separate passes)
    (hb : (heap.block backdrop).Holds count below)
    (h : (Device.runCommands heap (passes.map Pass.command)).1 = true) :
    ((Device.runCommands heap (passes.map Pass.command)).2.block
      ((results passes).getLast?.getD backdrop)).Holds count
      (Shading.fold below (passes.map (·.shading))) := by
  induction passes generalizing heap backdrop below with
  | nil => exact hb
  | cons pass rest ih =>
    obtain ⟨rfl, hl⟩ := hl
    have hw := Dispatch.run_writes pass.dispatch heap
    have hpass := hr pass (List.mem_cons_self ..)
    rw [List.map_cons, runCommands_cons, runCommand_command] at h ⊢
    generalize hrun : pass.dispatch.run heap = r at h hw ⊢
    obtain ⟨ok, heap'⟩ := r
    cases ok with
    | false => cases h
    | true =>
      have hholds := Pass.run_holds hpass hb (by rw [hrun])
      rw [hrun] at hholds
      have hsep : Separate rest := fun q hq => by
        obtain ⟨h₁, h₂⟩ := hs q (List.mem_cons_of_mem _ hq)
        exact ⟨fun h => h₁ (List.mem_cons_of_mem _ h), fun h => h₂ (List.mem_cons_of_mem _ h)⟩
      have hready : ∀ q ∈ rest, q.Ready heap' count := fun q hq => by
        obtain ⟨h₁, h₂⟩ := hs q (List.mem_cons_of_mem _ hq)
        refine (hr q (List.mem_cons_of_mem _ hq)).writes hw (fun h => h₁ ?_) fun h => h₂ ?_
        · rw [List.mem_singleton.mp h]; exact List.mem_cons_self ..
        · rw [List.mem_singleton.mp h]; exact List.mem_cons_self ..
      have hlast : (results (pass :: rest)).getLast?.getD pass.dispatch.buffers.backdrop =
          (results rest).getLast?.getD pass.dispatch.buffers.result := by
        unfold results
        rw [List.map_cons]
        cases rest with
        | nil => rfl
        | cons q rest => simp [List.getLast?_cons]
      rw [hlast]
      exact ih hready hl hsep hholds h

theorem run_passes_complete {passes : List (Pass ν α)} {heap : Heap α} {count : Nat}
    (hr : ∀ pass ∈ passes, pass.Ready heap count) (hs : Separate passes)
    (hsize : ∀ id ∈ results passes, 16 * count ≤ (heap.block id).size) :
    (Device.runCommands heap (passes.map Pass.command)).1 = true := by
  induction passes generalizing heap with
  | nil => rfl
  | cons pass rest ih =>
    have hw := Dispatch.run_writes pass.dispatch heap
    have hpass := hr pass (List.mem_cons_self ..)
    have hok : (pass.dispatch.run heap).1 = true := by
      refine Dispatch.run_complete hpass.params hpass.covers ?_
      rw [hpass.canvas]
      exact hsize _ (List.mem_cons_self ..)
    rw [List.map_cons, runCommands_cons, runCommand_command]
    generalize pass.dispatch.run heap = r at hok hw ⊢
    obtain ⟨ok, heap'⟩ := r
    cases hok
    refine ih (fun q hq => ?_) (fun q hq => ?_) fun id hid => ?_
    · obtain ⟨h₁, h₂⟩ := hs q (List.mem_cons_of_mem _ hq)
      refine (hr q (List.mem_cons_of_mem _ hq)).writes hw (fun h => h₁ ?_) fun h => h₂ ?_
      · rw [List.mem_singleton.mp h]; exact List.mem_cons_self ..
      · rw [List.mem_singleton.mp h]; exact List.mem_cons_self ..
    · obtain ⟨h₁, h₂⟩ := hs q (List.mem_cons_of_mem _ hq)
      exact ⟨fun h => h₁ (List.mem_cons_of_mem _ h), fun h => h₂ (List.mem_cons_of_mem _ h)⟩
    · rw [hw.size_block]
      exact hsize id (List.mem_cons_of_mem _ hid)

end

end Strata
