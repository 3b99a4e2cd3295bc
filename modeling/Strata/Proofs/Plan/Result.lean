import Mathlib.Data.List.Chain
import Mathlib.Data.List.Nodup
import Strata.Proofs.Plan.Passes

/-!
# What running a plan leaves

`Stack.Carries` says that a plan carries a stack of layers out with slots of its own. If such a plan runs
to its end, its one download is the destination's buffer, and that buffer shows the image of the stack
(`run_shows`); a plan that has room in its slots does run to its end (`run_finishes`). Buffers of live
handles that are not the plan's stay as they are (`run_frame`).
-/

namespace Strata

variable {α : Type}

open Engine.Encoder (Effect works touched)

/-! ## Images of stacks -/

/-- The first channels of a block are those of an image. -/
def Block.Shows [Channel α] [Stored α] (block : Block α) (count : Nat) (image : Image α) : Prop :=
  ∀ i < 4 * count, block.channelAt i = (image (i / 4)).channel (i % 4)

theorem Block.Holds.shows [Channel α] [Stored α] {block : Block α} {count : Nat} {image : Image α}
    (h : block.Holds count image) : block.Shows count image := by
  intro i hi
  have hp := h (i / 4) (by omega)
  have hk : i % 4 = 0 ∨ i % 4 = 1 ∨ i % 4 = 2 ∨ i % 4 = 3 := by omega
  rw [← hp]
  rcases hk with hk | hk | hk | hk
  · rw [hk]
    exact congrArg block.channelAt (by omega : i = 4 * (i / 4))
  · rw [hk]
    exact congrArg block.channelAt (by omega : i = 4 * (i / 4) + 1)
  · rw [hk]
    exact congrArg block.channelAt (by omega : i = 4 * (i / 4) + 2)
  · rw [hk]
    exact congrArg block.channelAt (by omega : i = 4 * (i / 4) + 3)

namespace Stack

section
variable [Channel α] [Stored α] [Transfer α]

def image (width height : Int) (layers : List (Layer Int α)) : Image α :=
  Shading.fold (fun _ => Canvas.transparent) (shadings width height true layers)

def raster (base : Layer Int α) (layers : List (Layer Int α)) (outputFormat : Option PixelFormat) : Raster Int α :=
  let (width, height) := (base.raster.width, base.raster.height)
  let pixels := image width height layers
  Raster.encode (Array.ofFn (n := 4 * (width.toNat * height.toNat)) fun i => (pixels (i / 4)).channel (i % 4))
    width height (outputFormat.getD base.raster.format)

theorem fold_shadings {width height : Int} {layers : List (Layer Int α)} (hn : layers ≠ []) (below : Image α) :
    Shading.fold below (shadings width height true layers) = image width height layers := by
  cases layers with
  | nil => exact absurd rfl hn
  | cons l rest => rfl

end

/-- A plan carries a stack out: the slots of its parts, in the order of the layers. -/
structure Carries [Channel α] [Stored α] (width height : Int) (layers : List (Layer Int α)) (held : List Handle)
    (destination : Handle) (parts : List (Part α)) (last : Handle) (plan : Plan Int α) : Prop where
  stack : parts.map (·.layer) = layers
  slots : held = parts.map (·.source) ++ [destination]
  served : parts.map (·.pipeline.artifact.program) = programs true layers
  drawn : Draft.Drawn
    ⟨Draft.stackSteps width height true layers (parts.map (·.source)),
      List.zipWith Layer.upload layers (parts.map (·.source)), destination⟩
    (parts.map (·.pipeline)) width height (parts.map (·.result)) (parts.map (·.block)) last plan
  fit : Layer.AllFit width height true layers
  nodup : (held ++ plan.owned).Nodup

/-- Layers as a parser makes sure of them, their data held in arrays. -/
structure Sane [Channel α] (layers : List (Layer Int α)) : Prop where
  valid : ∀ l ∈ layers, l.Valid
  arrays : ∀ l ∈ layers, l.raster.texels.size ≤ longestArray

variable [Channel α] [Stored α] {width height : Int} {layers : List (Layer Int α)} {held : List Handle}
  {destination last : Handle} {parts : List (Part α)} {plan : Plan Int α}

namespace Carries

def uploads (width height : Int) (parts : List (Part α)) : List (Upload α) :=
  parts.map (fun p => p.layer.upload p.source) ++
    parts.map (fun p => ⟨p.block, (p.layer.params width height).pack⟩)

omit [Channel α] [Stored α] in
theorem zipWith_upload (parts : List (Part α)) :
    List.zipWith Layer.upload (parts.map (·.layer)) (parts.map (·.source)) =
      parts.map fun p => p.layer.upload p.source := by
  induction parts with
  | nil => rfl
  | cons p parts ih => exact congrArg (List.cons _) ih

theorem blockUploads_eq (bottom : Bool) (parts : List (Part α)) :
    Draft.Emission.blockUploads width height
        (Draft.stackSteps width height bottom (parts.map (·.layer)) (parts.map (·.source))) (parts.map (·.block)) =
      parts.map fun p => ⟨p.block, (p.layer.params width height).pack⟩ := by
  induction parts generalizing bottom with
  | nil => rfl
  | cons p parts ih => exact congrArg (List.cons _) (ih false)

theorem works_eq (h : Carries width height layers held destination parts last plan) :
    works plan.stages = (uploads width height parts).map (fun u => .upload u.handle u.data) ++
      Draft.Emission.dispatchStages width height 0 none
        (Draft.stackSteps width height true (parts.map (·.layer)) (parts.map (·.source)))
        (parts.map (·.pipeline)) (parts.map (·.result)) (parts.map (·.block)) ++
      [.download last destination (workingBytes width height)] := by
  rw [h.drawn.stages, ← h.stack, zipWith_upload, blockUploads_eq]
  rfl

theorem mem_held (h : Carries width height layers held destination parts last plan) {p : Part α} (hp : p ∈ parts) :
    p.source ∈ held := by
  rw [h.slots]
  exact List.mem_append_left _ (List.mem_map_of_mem hp)

theorem mem_owned (h : Carries width height layers held destination parts last plan) {p : Part α} (hp : p ∈ parts) :
    p.result ∈ plan.owned ∧ p.block ∈ plan.owned :=
  ⟨h.drawn.owned _ (.inl (List.mem_map_of_mem hp)), h.drawn.owned _ (.inr (List.mem_map_of_mem hp))⟩

theorem last_mem (h : Carries width height layers held destination parts last plan) : last ∈ plan.owned :=
  h.drawn.owned _ (.inl (List.mem_of_getLast? h.drawn.last))

theorem destination_mem (h : Carries width height layers held destination parts last plan) :
    destination ∈ held := by
  rw [h.slots]
  exact List.mem_append_right _ (List.mem_singleton_self _)

/-! ## Against a pool that holds the slots -/

variable [Transfer α] {pool : Pool Int α} {heap heap' : Heap α} {id : PlanId} {cs : List (Command Int)}
  {ds : List (Download Int)}

def commands (arena : Arena Int) (width height : Int) (parts : List (Part α)) (last destination : Handle) :
    List (Command Int) :=
  (passes arena width height true 0 parts).map Pass.command ++
    [.copy (arena.bufferOf last) (arena.bufferOf destination) (workingBytes width height)]

section
variable (h : Carries width height layers held destination parts last plan) (hp : pool.Sound)
  (hl : ∀ k, k ∈ held ∨ k ∈ plan.owned → pool.arena.contains k = true)
include h hp hl

theorem effect_iff : Effect pool.arena id heap (works plan.stages) heap' cs ds ↔
    (∀ u ∈ uploads width height parts, u.data.size ≤ (heap.block (pool.arena.bufferOf u.handle)).size) ∧
      heap' = heap.upload pool.arena.bufferOf (uploads width height parts) ∧
      cs = commands pool.arena width height parts last destination ∧
      ds = [⟨pool.arena.bufferOf destination, workingBytes width height, .output id⟩] := by
  have hup : ∀ u ∈ uploads width height parts, ∃ r, pool.arena.resolve u.handle = .ok r := by
    intro u hu
    rcases List.mem_append.mp hu with hu | hu
    · obtain ⟨p, hp', rfl⟩ := List.mem_map.mp hu
      exact hp.resolve_of_contains (hl _ (.inl (h.mem_held hp')))
    · obtain ⟨p, hp', rfl⟩ := List.mem_map.mp hu
      exact hp.resolve_of_contains (hl _ (.inr (h.mem_owned hp').2))
  have hparts : ∀ p ∈ parts, p.Live pool.arena := fun p hp' =>
    ⟨hp.resolve_of_contains (hl _ (.inl (h.mem_held hp'))),
      hp.resolve_of_contains (hl _ (.inr (h.mem_owned hp').1)),
      hp.resolve_of_contains (hl _ (.inr (h.mem_owned hp').2))⟩
  have hserved : parts.map (·.pipeline.artifact.program) = programs true (parts.map (·.layer)) := by
    rw [h.stack]
    exact h.served
  rw [h.works_eq, List.append_assoc, effect_uploads hup,
    effect_dispatches hparts hserved fun hb => by cases hb]
  refine and_congr_right fun _ => ?_
  constructor
  · rintro ⟨cs', rfl, he⟩
    obtain ⟨rfl, rfl, rfl⟩ := (effect_download (hp.resolve_of_contains (hl _ (.inr h.last_mem)))
      (hp.resolve_of_contains (hl _ (.inl h.destination_mem)))).mp he
    exact ⟨rfl, rfl, rfl⟩
  · rintro ⟨rfl, rfl, rfl⟩
    exact ⟨_, rfl, (effect_download (hp.resolve_of_contains (hl _ (.inr h.last_mem)))
      (hp.resolve_of_contains (hl _ (.inl h.destination_mem)))).mpr ⟨rfl, rfl, rfl⟩⟩

omit [Transfer α] in
theorem uploads_apart : ((uploads width height parts).map fun u => pool.arena.bufferOf u.handle).Nodup := by
  have hmap : (uploads width height parts).map (fun u => pool.arena.bufferOf u.handle) =
      (parts.map (·.source) ++ parts.map (·.block)).map pool.arena.bufferOf := by
    unfold uploads
    simp only [List.map_append, List.map_map]
    rfl
  have hnodup := h.nodup
  rw [h.slots, List.nodup_append, List.nodup_append] at hnodup
  have hmem (k : Handle) (hk : k ∈ parts.map (·.source) ++ parts.map (·.block)) : k ∈ held ∨ k ∈ plan.owned := by
    rcases List.mem_append.mp hk with hk | hk
    · left
      rw [h.slots]
      exact List.mem_append_left _ hk
    · exact .inr (h.drawn.owned k (.inr hk))
  have hkeys : (parts.map (·.source) ++ parts.map (·.block)).Nodup := by
    refine List.nodup_append.mpr ⟨hnodup.1.1, h.drawn.nodup, fun x hx y hy => ?_⟩
    exact hnodup.2.2 x (List.mem_append_left _ hx) y (h.drawn.owned y (.inr hy))
  rw [hmap]
  refine List.Nodup.map_on (fun x hx y hy he => ?_) hkeys
  by_contra hne
  exact hp.bufferOf_ne (hl x (hmem x hx)) (hl y (hmem y hy)) hne he

omit [Transfer α] in
theorem furnished (hb : heap = pool.device.buffers)
    (hs : ∀ u ∈ uploads width height parts, u.data.size ≤ (heap.block (pool.arena.bufferOf u.handle)).size) :
    ∀ p ∈ parts, p.Furnished pool.arena (heap.upload pool.arena.bufferOf (uploads width height parts))
    width height := by
  intro p hp'
  have hlt {k : Handle} (hk : k ∈ held ∨ k ∈ plan.owned) : pool.arena.bufferOf k < heap.size := by
    obtain ⟨r, hr⟩ := hp.resolve_of_contains (hl k hk)
    rw [Arena.bufferOf_eq hr, hb]
    exact (hp.size_le hr).1
  have happart := h.uploads_apart hp hl
  have hsource : p.layer.upload p.source ∈ uploads width height parts :=
    List.mem_append_left _ (List.mem_map_of_mem (f := fun p : Part α => p.layer.upload p.source) hp')
  have hblock : (⟨p.block, (p.layer.params width height).pack⟩ : Upload α) ∈ uploads width height parts :=
    List.mem_append_right _ (List.mem_map_of_mem
      (f := fun p : Part α => (⟨p.block, (p.layer.params width height).pack⟩ : Upload α)) hp')
  have hroom := hs _ hblock
  have hfound := Heap.block_upload happart hblock (hlt (.inr (h.mem_owned hp').2))
  have hroom' := hs _ hsource
  have hfound' := Heap.block_upload happart hsource (hlt (.inl (h.mem_held hp')))
  dsimp only at hroom hfound
  rw [DispatchParams.size_pack] at hroom hfound
  constructor
  · exact ⟨_, hroom', hfound'⟩
  · exact ⟨_, hroom, hfound⟩

/-- The passes of the plan find what they need, and none writes where another reads its source or its
parameters. -/
theorem prepared (hv : ∀ l ∈ layers, l.Valid) (hw : DispatchParams.FitsWord width)
    (hh : DispatchParams.FitsWord height) (hb : heap = pool.device.buffers)
    (hs : ∀ u ∈ uploads width height parts, u.data.size ≤ (heap.block (pool.arena.bufferOf u.handle)).size) :
    (∀ pass ∈ passes pool.arena width height true 0 parts,
      pass.Ready (heap.upload pool.arena.bufferOf (uploads width height parts)) (width.toNat * height.toNat)) ∧
    Separate (passes pool.arena width height true 0 parts) := by
  -- slots of different parts differ, and so do their buffers
  have hsource {p q : Part α} (hp' : p ∈ parts) (hq : q ∈ parts) :
      pool.arena.bufferOf p.source ≠ pool.arena.bufferOf q.result := by
    refine hp.bufferOf_ne (hl _ (.inl (h.mem_held hp'))) (hl _ (.inr (h.mem_owned hq).1)) fun he => ?_
    exact (List.nodup_append.mp h.nodup).2.2 _ (h.mem_held hp') _ (h.mem_owned hq).1 he
  have hblock {p q : Part α} (hp' : p ∈ parts) (hq : q ∈ parts) :
      pool.arena.bufferOf p.block ≠ pool.arena.bufferOf q.result := by
    refine hp.bufferOf_ne (hl _ (.inr (h.mem_owned hp').2)) (hl _ (.inr (h.mem_owned hq).1)) fun he => ?_
    exact h.drawn.apart _ (List.mem_map_of_mem (f := (·.result)) hq) (he ▸ List.mem_map_of_mem (f := (·.block)) hp')
  have hserved : parts.map (·.pipeline.artifact.program) = programs true (parts.map (·.layer)) := by
    rw [h.stack]
    exact h.served
  have hfit : Layer.AllFit width height true (parts.map (·.layer)) := by
    rw [h.stack]
    exact h.fit
  have hchain : (parts.map fun p => pool.arena.bufferOf p.result).IsChain (· ≠ ·) := by
    have hmap : (parts.map fun p => pool.arena.bufferOf p.result) =
        (parts.map (·.result)).map pool.arena.bufferOf := by
      rw [List.map_map]
      rfl
    rw [hmap, List.isChain_map]
    refine h.drawn.chain.imp_of_mem_imp fun a b ha hb' hne => ?_
    exact hp.bufferOf_ne (hl a (.inr (h.drawn.owned a (.inl ha)))) (hl b (.inr (h.drawn.owned b (.inl hb')))) hne
  refine ⟨passes_ready (h.furnished hp hl hb hs) (fun p hp' => hv _ ?_) hfit hw hh hserved
    (fun p hp' => ⟨hsource hp' hp', hblock hp' hp'⟩) (fun hb => by cases hb) hchain, fun pass hpass => ?_⟩
  · rw [← h.stack]
    exact List.mem_map_of_mem hp'
  · obtain ⟨p, hp', hs', hb'⟩ := mem_passes hpass
    rw [passes_results, hs', hb']
    refine ⟨fun hmem => ?_, fun hmem => ?_⟩
    · obtain ⟨q, hq, he⟩ := List.mem_map.mp hmem
      exact hsource hp' hq he.symm
    · obtain ⟨q, hq, he⟩ := List.mem_map.mp hmem
      exact hblock hp' hq he.symm

omit hp hl in
theorem results_last : (results (passes pool.arena width height true 0 parts)).getLast? =
    some (pool.arena.bufferOf last) := by
  have hlast := h.drawn.last
  rw [List.getLast?_map] at hlast
  obtain ⟨p, hp', rfl⟩ := Option.map_eq_some_iff.mp hlast
  rw [passes_results, List.getLast?_map, hp']
  rfl

omit hp hl in
theorem passes_holds (hok : (Device.runCommands heap
      ((passes pool.arena width height true 0 parts).map Pass.command)).1 = true)
    (hr : ∀ pass ∈ passes pool.arena width height true 0 parts, pass.Ready heap (width.toNat * height.toNat))
    (hs : Separate (passes pool.arena width height true 0 parts)) :
    ((Device.runCommands heap ((passes pool.arena width height true 0 parts).map Pass.command)).2.block
      (pool.arena.bufferOf last)).Holds (width.toNat * height.toNat) (image width height layers) := by
  cases hparts : parts with
  | nil =>
    have hlast := h.drawn.last
    rw [hparts] at hlast
    cases hlast
  | cons p rest =>
    have hlink : Linked (pool.arena.bufferOf p.source) (passes pool.arena width height true 0 parts) := by
      rw [hparts]
      exact ⟨rfl, passes_linked _ _⟩
    have hrun := run_passes hr hlink hs (fun _ _ => rfl) hok
    have hn : layers ≠ [] := by
      rw [← h.stack, hparts]
      exact List.cons_ne_nil _ _
    rw [h.results_last, passes_shadings, h.stack, fold_shadings hn, hparts] at hrun
    exact hrun

end

/-! ## The run -/

omit [Channel α] [Stored α] [Transfer α] in
theorem toLength_workingBytes (hw : 0 ≤ width) (hh : 0 ≤ height) :
    Measure.toLength? (workingBytes width height) = some (4 * (4 * (width.toNat * height.toNat))) := by
  obtain ⟨w, rfl⟩ := Int.eq_ofNat_of_zero_le hw
  obtain ⟨h, rfl⟩ := Int.eq_ofNat_of_zero_le hh
  unfold workingBytes
  rw [imageBytes_eq]
  have hcast : (w : Int) * (h : Int) * (PixelFormat.float32.bytesPerPixel : Int) =
      ((4 * (4 * (w * h)) : Nat) : Int) := by
    simp only [PixelFormat.bytesPerPixel]
    push_cast
    omega
  rw [hcast]
  show (if 0 ≤ ((4 * (4 * (w * h)) : Nat) : Int) then some ((4 * (4 * (w * h)) : Nat) : Int).toNat else none) = _
  rw [if_pos (Int.natCast_nonneg _), Int.toNat_natCast]
  rfl

theorem copy_shows {source target : BufferId} {count : Nat} {image : Image α} {bytes : Int}
    (hb : Measure.toLength? bytes = some (4 * (4 * count))) (hi : (heap.block source).Holds count image)
    (hlt : target < heap.size) (hok : (Device.runCommands heap [.copy source target bytes]).1 = true) :
    ((Device.runCommands heap [.copy source target bytes]).2.block target).Shows count image := by
  have hrun : Device.runCommand heap (.copy source target bytes) =
      if (heap.block source).size < 4 * (4 * count) ∨ (heap.block target).size < 4 * (4 * count) then (false, heap)
      else (true, heap.modifyBlock target fun b => b.overwrite (heap.block source) (4 * (4 * count))) := by
    dsimp only [Device.runCommand]
    rw [hb]
  unfold Device.runCommands at hok ⊢
  rw [hrun] at hok ⊢
  by_cases hs : (heap.block source).size < 4 * (4 * count) ∨ (heap.block target).size < 4 * (4 * count)
  · rw [if_pos hs] at hok
    cases hok
  · rw [if_neg hs]
    rw [not_or, Nat.not_lt, Nat.not_lt] at hs
    intro i hi'
    show ((heap.modifyBlock target _).block target).channelAt i = _
    rw [Heap.block_modifyBlock, if_pos ⟨rfl, hlt⟩, Block.channelAt_overwrite (by omega) hs.2 hs.1]
    exact hi.shows i hi'

section
variable (h : Carries width height layers held destination parts last plan) (hp : pool.Sound)
  (hl : ∀ k, k ∈ held ∨ k ∈ plan.owned → pool.arena.contains k = true) (hv : ∀ l ∈ layers, l.Valid)
  (hw : DispatchParams.FitsWord width) (hh : DispatchParams.FitsWord height) {device device' : Device Int α}
  (hd : device.buffers = pool.device.buffers)
include h hp hl hv hw hh hd

/-- A plan that runs to its end downloads the destination, which shows the image of the stack. -/
theorem run_shows (hrun : Engine.Encoder.run pool.arena id device plan.stages = (.ok ds, device')) :
    ds = [⟨pool.arena.bufferOf destination, workingBytes width height, .output id⟩] ∧
      (device'.buffers.block (pool.arena.bufferOf destination)).Shows (width.toNat * height.toNat)
        (image width height layers) := by
  obtain ⟨heap, cs, he, hok, hbuf⟩ := Engine.Encoder.run_effect hrun
  obtain ⟨hs, rfl, rfl, rfl⟩ := (h.effect_iff hp hl).mp he
  refine ⟨rfl, ?_⟩
  obtain ⟨hready, hsep⟩ := h.prepared hp hl hv hw hh hd hs
  obtain ⟨r, hr⟩ := hp.resolve_of_contains (hl _ (.inl h.destination_mem))
  rw [hbuf]
  unfold commands at hok ⊢
  rw [runCommands_append] at hok ⊢
  have hwrites := @Heap.upload_writes _ _ pool.arena.bufferOf device.buffers (uploads width height parts)
  have hwrites' := runCommands_writes (device.buffers.upload pool.arena.bufferOf (uploads width height parts))
    (passes pool.arena width height true 0 parts)
  by_cases hpass : (Device.runCommands (device.buffers.upload pool.arena.bufferOf (uploads width height parts))
      ((passes pool.arena width height true 0 parts).map Pass.command)).1 = true
  · rw [if_pos hpass] at hok ⊢
    refine copy_shows (toLength_workingBytes hw.1 hh.1) (h.passes_holds hpass hready hsep) ?_ hok
    rw [hwrites'.lt_size, hwrites.lt_size, hd, Arena.bufferOf_eq hr]
    exact (hp.size_le hr).1
  · rw [if_neg hpass] at hok
    exact absurd hok hpass

end

/-- A plan whose slots have room for what is put into them runs to its end, unless a call is made to fail. -/
theorem run_finishes (h : Carries width height layers held destination parts last plan) (hp : pool.Sound)
    (hl : ∀ k, k ∈ held ∨ k ∈ plan.owned → pool.arena.contains k = true) (hv : ∀ l ∈ layers, l.Valid)
    (hw : DispatchParams.FitsWord width) (hh : DispatchParams.FitsWord height) {device : Device Int α}
    (hd : device.buffers = pool.device.buffers) (hf : device.faults = [])
    (hup : ∀ u ∈ uploads width height parts,
      u.data.size ≤ (device.buffers.block (pool.arena.bufferOf u.handle)).size)
    (hresults : ∀ p ∈ parts, 16 * (width.toNat * height.toNat) ≤
      (device.buffers.block (pool.arena.bufferOf p.result)).size)
    (hdest : 16 * (width.toNat * height.toNat) ≤ (device.buffers.block (pool.arena.bufferOf destination)).size) :
    ∃ device', Engine.Encoder.run pool.arena id device plan.stages =
      (.ok [⟨pool.arena.bufferOf destination, workingBytes width height, .output id⟩], device') := by
  have he := (@effect_iff _ _ _ _ _ _ _ _ _ _ _ _ _ _ _ id _ _ h hp hl).mpr ⟨hup, rfl, rfl, rfl⟩
  obtain ⟨hready, hsep⟩ := h.prepared hp hl hv hw hh hd hup
  have hwrites := @Heap.upload_writes _ _ pool.arena.bufferOf device.buffers (uploads width height parts)
  generalize device.buffers.upload pool.arena.bufferOf (uploads width height parts) = heap at he hready hwrites
  have hwrites' := runCommands_writes heap (passes pool.arena width height true 0 parts)
  have hpass : (Device.runCommands heap
      ((passes pool.arena width height true 0 parts).map Pass.command)).1 = true := by
    refine run_passes_complete hready hsep fun b hb => ?_
    rw [passes_results] at hb
    obtain ⟨p, hp', rfl⟩ := List.mem_map.mp hb
    rw [hwrites.size_block]
    exact hresults p hp'
  refine Engine.Encoder.run_complete hf he ?_
  unfold commands
  rw [runCommands_append, if_pos hpass]
  obtain ⟨p, hp', hlast⟩ : ∃ p ∈ parts, p.result = last := by
    obtain ⟨p, hp', he⟩ := List.mem_map.mp (List.mem_of_getLast? h.drawn.last)
    exact ⟨p, hp', he⟩
  have hsource := hresults p hp'
  rw [hlast, ← hwrites.size_block, ← hwrites'.size_block] at hsource
  rw [← hwrites.size_block, ← hwrites'.size_block] at hdest
  unfold Device.runCommands
  dsimp only [Device.runCommand]
  rw [toLength_workingBytes hw.1 hh.1]
  dsimp only
  rw [if_neg (by omega)]
  rfl

/-! ## The frame -/

omit [Channel α] [Stored α] [Transfer α] in
theorem handles_works (stages : List (Stage Int α)) :
    (works stages).flatMap Stage.handles = stages.flatMap Stage.handles := by
  induction stages with
  | nil => rfl
  | cons s stages ih =>
    unfold works at ih ⊢
    cases s with
    | allocate k purpose => exact ih
    | barrier => exact ih
    | upload k data => exact congrArg (Stage.handles (.upload k data : Stage Int α) ++ ·) ih
    | dispatch label pipeline b x y => exact congrArg (b.handles ++ ·) ih
    | download source destination bytes => exact congrArg ([source, destination] ++ ·) ih

omit [Stored α] [Transfer α] in
theorem dispatchStages_handles {index : Nat} {bottom : Bool} {backdrop : Option Handle} {parts : List (Part α)}
    {s : Stage Int α} {k : Handle}
    (hs : s ∈ Draft.Emission.dispatchStages width height index backdrop
      (Draft.stackSteps width height bottom (parts.map (·.layer)) (parts.map (·.source)))
      (parts.map (·.pipeline)) (parts.map (·.result)) (parts.map (·.block))) (hk : k ∈ s.handles) :
    k ∈ backdrop.toList ∨ ∃ p ∈ parts, k = p.source ∨ k = p.result ∨ k = p.block := by
  induction parts generalizing index bottom backdrop with
  | nil => exact absurd hs List.not_mem_nil
  | cons p parts ih =>
    rcases List.mem_cons.mp hs with rfl | hs
    · rcases List.mem_append.mp hk with hk | hk
      · exact .inl hk
      · exact .inr ⟨p, List.mem_cons_self .., by simpa [Layer.step] using hk⟩
    · rcases ih hs with hk | ⟨q, hq, hk⟩
      · refine .inr ⟨p, List.mem_cons_self .., .inr (.inl ?_)⟩
        simpa using hk
      · exact .inr ⟨q, List.mem_cons_of_mem _ hq, hk⟩

omit [Transfer α] in
/-- The stages refer to slots of the call and of the plan only. -/
theorem handles_mem (h : Carries width height layers held destination parts last plan) {k : Handle}
    (hk : k ∈ plan.stages.flatMap Stage.handles) : k ∈ held ∨ k ∈ plan.owned := by
  rw [← handles_works, h.works_eq] at hk
  obtain ⟨s, hs, hk⟩ := List.mem_flatMap.mp hk
  rcases List.mem_append.mp hs with hs | hs
  · rcases List.mem_append.mp hs with hs | hs
    · obtain ⟨u, hu, rfl⟩ := List.mem_map.mp hs
      have hku : k = u.handle := List.mem_singleton.mp hk
      rcases List.mem_append.mp hu with hu | hu
      · obtain ⟨p, hp, rfl⟩ := List.mem_map.mp hu
        exact .inl (hku ▸ h.mem_held hp)
      · obtain ⟨p, hp, rfl⟩ := List.mem_map.mp hu
        exact .inr (hku ▸ (h.mem_owned hp).2)
    · rcases dispatchStages_handles hs hk with hk | ⟨p, hp, rfl | rfl | rfl⟩
      · exact absurd hk List.not_mem_nil
      · exact .inl (h.mem_held hp)
      · exact .inr (h.mem_owned hp).1
      · exact .inr (h.mem_owned hp).2
  · rw [List.mem_singleton.mp hs] at hk
    rcases List.mem_cons.mp hk with rfl | hk
    · exact .inr h.last_mem
    · rw [List.mem_singleton.mp hk]
      exact .inl h.destination_mem

/-- Encoding and running a plan, to its end or not, leaves the buffers of all other live handles alone. -/
theorem run_frame (h : Carries width height layers held destination parts last plan) (hp : pool.Sound)
    (hl : ∀ k, k ∈ held ∨ k ∈ plan.owned → pool.arena.contains k = true) (device : Device Int α) {k : Handle}
    (hk : pool.arena.contains k = true) (hn : k ∉ held ∧ k ∉ plan.owned) :
    (Engine.Encoder.run pool.arena id device plan.stages).2.buffers.block (pool.arena.bufferOf k) =
      device.buffers.block (pool.arena.bufferOf k) := by
  refine (Engine.Encoder.run_writes device plan.stages).2.kept _ fun hmem => ?_
  obtain ⟨j, hj, hb⟩ := List.mem_filterMap.mp hmem
  have hown := h.handles_mem hj
  obtain ⟨r, hr⟩ := hp.resolve_of_contains (hl j hown)
  rw [hr] at hb
  have hsame : pool.arena.bufferOf j = pool.arena.bufferOf k := by
    rw [Arena.bufferOf_eq hr]
    exact Option.some.inj hb
  refine hp.bufferOf_ne (hl j hown) hk (fun he => ?_) hsame
  subst he
  exact hown.elim hn.1 hn.2

end Carries

/-! ## Room -/

/-- The slots of a stack are as large as they were asked to be. -/
structure Housed (arena : Arena Int) (width height : Int) (parts : List (Part α)) (destination : Handle) :
    Prop where
  sources : ∀ p ∈ parts, p.layer.Stocked arena p.source
  results : ∀ p ∈ parts, ∃ r, arena.resolve p.result = .ok r ∧
    Measure.wholeWords? (workingBytes width height) = some r.size
  blocks : ∀ p ∈ parts, ∃ r, arena.resolve p.block = .ok r ∧ r.size = paramsSize
  destination : Draft.Receives arena width height destination

omit [Channel α] [Stored α] in
theorem Housed.later {arena arena' : Arena Int} (h : Housed arena width height parts destination)
    (hl : arena.Later arena') (hc : ∀ k, arena.contains k = true → arena'.contains k = true) :
    Housed arena' width height parts destination := by
  have hresolve {k : Handle} {r : SlotRef Int} (hr : arena.resolve k = .ok r) : arena'.resolve k = .ok r :=
    Arena.resolve_later hl hr (hc k (Arena.contains_of_resolve hr))
  refine ⟨fun p hp => ?_, fun p hp => ?_, fun p hp => ?_, ?_⟩
  · obtain ⟨r, hr, h⟩ := h.sources p hp
    exact ⟨r, hresolve hr, h⟩
  · obtain ⟨r, hr, h⟩ := h.results p hp
    exact ⟨r, hresolve hr, h⟩
  · obtain ⟨r, hr, h⟩ := h.blocks p hp
    exact ⟨r, hresolve hr, h⟩
  · obtain ⟨r, hr, h⟩ := h.destination
    exact ⟨r, hresolve hr, h⟩

/-- A plan over such slots runs to its end on a device without faults. -/
theorem Housed.finishes [Transfer α] {pool : Pool Int α} {id : PlanId}
    (hh : Housed pool.arena width height parts destination)
    (h : Carries width height layers held destination parts last plan) (hp : pool.Sound)
    (hl : ∀ k, k ∈ held ∨ k ∈ plan.owned → pool.arena.contains k = true) (hv : ∀ l ∈ layers, l.Valid)
    (hwidth : DispatchParams.FitsWord width) (hheight : DispatchParams.FitsWord height) (hw : 0 < width)
    (hh' : 0 < height) {device : Device Int α} (hd : device.buffers = pool.device.buffers)
    (hf : device.faults = []) :
    ∃ device', Engine.Encoder.run pool.arena id device plan.stages =
      (.ok [⟨pool.arena.bufferOf destination, workingBytes width height, .output id⟩], device') := by
  have hroom {k : Handle} {r : SlotRef Int} (hr : pool.arena.resolve k = .ok r) :
      r.size ≤ (device.buffers.block (pool.arena.bufferOf k)).size := by
    rw [Arena.bufferOf_eq hr, hd]
    exact (hp.size_le hr).2
  have hworking {r : SlotRef Int} (hs : Measure.wholeWords? (workingBytes width height) = some r.size) :
      r.size = 16 * (width.toNat * height.toNat) := by
    have := wholeWords_imageBytes .float32 hw hh'
    rw [show imageBytes .float32 width height = workingBytes width height from rfl, hs] at this
    rw [Option.some.inj this, Nat.mul_comm]
    rfl
  -- there is room for uploads, for results and for the download
  refine h.run_finishes hp hl hv hwidth hheight hd hf ?_ ?_ ?_
  · intro u hu
    rcases List.mem_append.mp hu with hu | hu
    · obtain ⟨p, hp', rfl⟩ := List.mem_map.mp hu
      have hvalid : p.layer.Valid := by
        apply hv
        rw [← h.stack]
        exact List.mem_map_of_mem hp'
      obtain ⟨r, hr, -, hs⟩ := hh.sources p hp'
      rw [wholeWords_imageBytes _ hvalid.positive.1 hvalid.positive.2, ← Draft.size_upload hvalid] at hs
      show p.layer.raster.texels.block.size ≤ _
      rw [Option.some.inj hs]
      exact hroom hr
    · obtain ⟨p, hp', rfl⟩ := List.mem_map.mp hu
      obtain ⟨r, hr, hs⟩ := hh.blocks p hp'
      show (p.layer.params width height).pack.size ≤ _
      rw [DispatchParams.size_pack, ← hs]
      exact hroom hr
  · intro p hp'
    obtain ⟨r, hr, hs⟩ := hh.results p hp'
    rw [← hworking hs]
    exact hroom hr
  · obtain ⟨r, hr, -, hs⟩ := hh.destination
    rw [← hworking hs]
    exact hroom hr

end Stack

end Strata
