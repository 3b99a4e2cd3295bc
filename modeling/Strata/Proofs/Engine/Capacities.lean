import Strata.Proofs.Engine.Bounds
import Strata.Proofs.Memory.Classes

/-!
# What fits the device's limits

A plan checks what its slots were asked to be, and a submission binds their buffers, which may be larger: a buffer
that was made for a large slot is used again for a small one. So what is bound fits the limits as long as no buffer
for images that the arena holds is beyond them (`plans_fit`).
-/

namespace Strata

variable {ν α : Type}

/-! ## Every buffer has its class -/

namespace Engine

/-- Buffers are given to slots of their own usage only. -/
def Classed (e : Engine ν α) : Prop := e.pool.arena.Classed fun _ _ => True

section
variable [Measure ν] {spared : List DeviceCall} {e e' : Engine ν α}

theorem acquireAll_classed {G : SlotUsage → Nat → Prop} {pool : Pool ν α} (h : pool.arena.Classed G)
    (taken handles : List Handle) : (acquireAll pool taken handles).2.arena.Classed G := by
  induction handles generalizing pool taken with
  | nil => exact h
  | cons k rest ih =>
    have hone := Pool.acquire_classed h k
    unfold acquireAll
    generalize pool.acquire k = r at hone
    obtain ⟨r, pool'⟩ := r
    cases r with
    | error failure =>
      show ((Attempt.each Pool.relinquish pool' taken.reverse).endWith
        (.error failure : Except Failure Unit)).2.arena.Classed G
      rw [Attempt.endWith_snd]
      exact Attempt.each_keeps (P := fun p : Pool ν α => p.arena.Classed G)
        (fun _ hp k _ => Pool.relinquish_classed hp k) hone
    | ok ref => exact ih hone _

theorem Chore.classed (h : e.Able spared) (hc : e.Classed) (hd : e.Chore e') : e'.Classed := by
  cases hd with
  | note | schedule | settle | addJob | setJob | addPlan | makeArray | device | compile | cache => exact hc
  | pool pool hu =>
    suffices hall : pool.Sound ∧ pool.arena.Classed fun _ _ => True from hall.2
    induction hu with
    | refl => exact ⟨h.pool.sound, hc⟩
    | tail _ hu ih =>
      obtain ⟨r, -, rfl⟩ := hu
      exact ⟨(r.perform_spec ih.1).sound, Pool.Request.perform_classed ih.1 ih.2 fun _ _ _ _ _ => trivial⟩

theorem Opened.classed [Channel α] (h : e.Opened) : e.Classed := by
  obtain ⟨device, o, config, rfl⟩ := h.eq
  exact fun i => .bare (congrArg Slot.backing (Arena.slotAt_of_size_le _ (Nat.zero_le i)))

variable [Channel α] [Stored α] [Transfer α] {R : Pool.Request ν → Prop}

theorem Deed.classed (h : e.Able spared) (hc : e.Classed) (hd : Deed R e e') : e'.Classed := by
  cases hd with
  | act ha =>
    cases ha with
    | chore hd => exact hd.classed h hc
    | submit plan =>
      have hacquire (handles : List Handle) := acquireAll_classed hc [] handles
      rcases e.submit_cases plan with heq | ⟨rec, failure, pool, -, hpool, heq⟩ |
        ⟨rec, pool, device, turns, completion, -, -, hpool, -, heq⟩
      all_goals rw [heq]
      · exact hc
      all_goals
        have hall := hacquire (rec.plan.stages.flatMap Stage.handles)
        rw [hpool] at hall
        exact hall
    | finish token =>
      show (e.finish token).2.Classed
      unfold finish
      split
      · exact hc
      · rename_i handles _
        exact Attempt.each_keeps (P := fun p : Pool ν α => p.arena.Classed fun _ _ => True)
          (fun _ hp k _ => Pool.relinquish_classed hp k) hc
    | request r hr => exact Pool.Request.perform_classed h.pool.sound hc fun _ _ _ _ _ => trivial
    | deliver | fill | addWait | await | tell | collect | discard | forget => exact hc
  | phase | closeCache | destroyDevice => exact hc

theorem Deeds.classed (hR : ∀ r, R r → r.Spares spared) (h : e.Able spared) (hc : e.Classed) (hd : Deeds R e e') :
    e'.Classed := by
  induction hd with
  | refl => exact hc
  | tail hd hlast ih => exact hlast.classed (Deeds.able hR h hd) ih

theorem run_classed (h : e.Able []) (hc : e.Classed) (moves : List (Move ν α)) : (e.run moves).Classed := by
  induction moves generalizing e with
  | nil => exact hc
  | cons m moves ih =>
    obtain ⟨turns, -, hdeeds⟩ := move_deeds (R := fun _ => True) h.sorted m (fun _ => trivial)
      (fun _ _ _ _ => trivial) fun _ _ _ => trivial
    have hspares (r : Pool.Request ν) (_ : True) : r.Spares [] := r.spares_nil
    have hable : ({ e with turns } : Engine ν α).Able [] := ⟨h.pool, h.sorted⟩
    exact ih (hdeeds.able hspares hable) (hdeeds.classed hspares hable hc)

end

end Engine

/-! ## Buffers of plans -/

theorem Pool.Sound.made {p : Pool ν α} (hs : p.Sound) {G : SlotUsage → Nat → Prop}
    (h : p.arena.Classed G) {k : Handle} {r : SlotRef ν}
    (hr : p.arena.resolve k = .ok r) : G r.format.usage (p.device.buffers.block r.buffer).size := by
  obtain ⟨i, hi⟩ := Arena.resolve_eq_ok.mp hr
  obtain ⟨rfl, c, b, hc, hb, rfl⟩ := Arena.locate_eq_ok.mp hi
  obtain ⟨x, hx, hsize⟩ := hs.buffer i b hb
  have hblock : (p.device.buffers.block b.buffer).size = b.capacity := by
    unfold Heap.block
    rw [hx]
    exact hsize
  rw [hblock, ← (h i).live c b hc hb]
  exact (h i).made b hb

theorem wholeWords_working {width height : Int} {bytes : Nat}
    (h : Measure.wholeWords? (workingBytes width height) = some bytes) :
    (bytes : Int) = workingBytes width height := by
  have heq : workingBytes width height = width * height * 16 := imageBytes_eq .float32 width height
  rw [heq] at h ⊢
  change (if 0 < width * height * 16 then some (((width * height * 16).toNat + 3) / 4 * 4) else none) =
    some bytes at h
  split at h
  · cases h
    omega
  · cases h

namespace Draft

/-- The slots of images that a dispatch is bound to. -/
def images (b : Bindings) : List Handle := b.source :: b.result :: b.backdrop.toList

variable [Channel α] [Stored α] {arena : Arena Int} {capabilities : Capabilities Int} {library : Library}
  {stack : List (BlendDescriptor Int α)} {uploads : List (Upload α)} {draft : Draft Int α}
    {pipelines : List Pipeline}
  {pool pool' : Pool Int α} {plan : Plan Int α}

/-- No buffer for images is beyond the limits. -/
def Within (capabilities : Capabilities Int) (usage : SlotUsage) (bytes : Nat) : Prop :=
  usage = .storage → capabilities.fits (bytes : Int) = true

theorem emit_classed (hc : pool.arena.Classed (Within capabilities)) (hs : pool.Sound)
    (h : draft.emit pipelines pool = (.ok plan, pool'))
    (hfits : capabilities.fits (workingBytes plan.width plan.height) = true) :
    pool'.Sound ∧ pool'.arena.Classed (Within capabilities) := by
  obtain ⟨canvas, e, -, hlaid, rfl⟩ := emit_ok h
  obtain ⟨results, e₁, blocks, e₂, last, -, -, -, -, rfl⟩ := Emission.layOut_ok hlaid
  have hkept : (Emission.layOut draft pipelines canvas.width canvas.height ⟨pool, [], []⟩).2.pool.Sound ∧
      (Emission.layOut draft pipelines canvas.width canvas.height ⟨pool, [], []⟩).2.pool.arena.Classed
        (Within capabilities) := by
    refine Emission.layOut_keeps (P := fun p : Pool Int α => p.Sound ∧ p.arena.Classed (Within capabilities))
      (fun p purpose hp =>
        ⟨Pool.allocate_sound hp.1 _ _, Pool.allocate_classed hp.1 hp.2 fun bytes hbytes husage => ?_⟩)
      draft pipelines ⟨hs, hc⟩
    cases purpose with
    | intermediate =>
      rw [wholeWords_working hbytes]
      exact hfits
    | params => cases husage
  rw [hlaid] at hkept
  exact hkept

/-- The slots of images that a dispatch of a plan is bound to fit the limits, as they were asked for. -/
theorem emit_images (hcheck : check arena capabilities library stack uploads = .ok draft) (hs : pool.Sound)
    (hl : arena.Later pool.arena) (h : draft.emit pipelines pool = (.ok plan, pool')) {label : String}
    {p : Pipeline} {b : Bindings} {x y : Int} (hm : .dispatch label p b x y ∈ plan.stages) {k : Handle}
    (hk : k ∈ images b) :
    ∃ r, pool'.arena.resolve k = .ok r ∧ r.format.usage = .storage ∧ capabilities.fits (r.size : Int) = true := by
  obtain ⟨base, target, hpassed, -, results, blocks, last, hdrawn, hprovided⟩ := emit_over hcheck hs hl h
  obtain ⟨grants, hgains, -⟩ := hprovided.gains
  obtain ⟨i, step, hstep, -, hr, -, hsource, -, -⟩ := hdrawn.dispatch hm
  have hresult {k : Handle} (hk : k ∈ results) :
      ∃ r, pool'.arena.resolve k = .ok r ∧ r.format.usage = .storage ∧ capabilities.fits (r.size : Int) = true := by
    obtain ⟨r, hr, hbytes, hformat⟩ := hprovided.results k hk
    refine ⟨r, hr, by rw [hformat]; rfl, ?_⟩
    rw [wholeWords_working hbytes]
    exact hpassed.fits
  rcases List.mem_cons.mp hk with rfl | hk
  · obtain ⟨d, r, format, -, hchecked⟩ := hpassed.step hstep
    have hlive := emit_sources h step (List.mem_of_getElem? hstep)
    rw [hsource]
    refine ⟨r, hgains.resolve (Arena.resolve_later hl ?_ hlive), hchecked.usage, hchecked.fits⟩
    rw [hchecked.step]
    exact hchecked.resolves
  · rcases List.mem_cons.mp hk with rfl | hk
    · exact hresult (List.mem_of_getElem? hr)
    · exact hresult (hdrawn.backdrop hm (Option.mem_toList.mp hk)).1

end Draft

/-! ## What is bound -/

namespace Engine

variable [Channel α] [Stored α] [Transfer α]

/-- What a plan that a call answers binds, as it is made: the slots of its images fit the limits, as they were asked
for. So do their buffers, if all buffers for images that the arena held before do. -/
theorem plans_fit {start : Engine Int α} (hstart : start.Opened) (moves moves' : List (Move Int α))
    (stack : List (BlendDescriptor Int α)) (uploads : List (Upload α)) (m : Move Int α) (id : PlanId) :
    let e := start.run moves
    let before := (e.move (.call (.makePlan stack uploads))).run moves'
    let after := before.move m
    before.MakesPlan m e.jobs.size id → ∃ rec : PlanRecord Int α, after.plans[id]? = some rec ∧
      ∀ label p b gx gy, .dispatch label p b gx gy ∈ rec.plan.stages → ∀ k ∈ Draft.images b, ∃ r : SlotRef Int,
        after.pool.arena.resolve k = .ok r ∧ e.capabilities.fits r.size = true ∧
        r.size ≤ (after.pool.device.buffers.block r.buffer).size ∧
        ((∀ i backing, (before.pool.arena.slotAt i).backing = some backing → backing.usage = .storage →
            e.capabilities.fits backing.capacity = true) →
          e.capabilities.fits (after.pool.device.buffers.block r.buffer).size = true) := by
  intro e before after hmakes
  obtain ⟨draft, pipelines, rec, hcheck, hsupplied, hsound, hlater, hemit, hrec⟩ :=
    makePlan_answered hstart moves moves' stack uploads m id hmakes
  refine ⟨rec, hrec, fun label p b gx gy hm k hk => ?_⟩
  obtain ⟨r, hr, husage, hfits⟩ := Draft.emit_images hcheck hsound hlater hemit hm hk
  obtain ⟨base, target, hpassed, -, _, _, _, hdrawn, hprovided⟩ := Draft.emit_over hcheck hsound hlater hemit
  obtain ⟨grants, hgains, -⟩ := hprovided.gains
  refine ⟨r, hr, hfits, (hgains.sound.size_le hr).2, fun hall => ?_⟩
  have hclassed : before.Classed := by
    have hable : start.Able [] := hstart.able fun _ _ => List.not_mem_nil
    have hrun : before = start.run (moves ++ .call (.makePlan stack uploads) :: moves') := by
      show ((start.run moves).move _).run moves' = _
      rw [run_append]
      rfl
    rw [hrun]
    exact run_classed hable hstart.classed _
  have hcanvas : e.capabilities.fits (workingBytes rec.plan.width rec.plan.height) = true := by
    rw [hdrawn.size.1, hdrawn.size.2]
    exact hpassed.fits
  have hwithin : before.pool.arena.Classed (Draft.Within e.capabilities) := fun i =>
    ⟨fun b hb husage => hall i b hb husage, (hclassed i).live⟩
  obtain ⟨hsound', hclassed'⟩ := Draft.emit_classed hwithin hsound hemit hcanvas
  exact hsound'.made hclassed' hr husage

/-! ### Buffers that are used again -/

theorem backing_of_all {a : Arena ν} {f : Backing → Bool} (h : a.slots.all (fun s => s.backing.all f) = true)
    {i : Nat} {b : Backing} (hb : (a.slotAt i).backing = some b) : f b = true := by
  by_cases hi : i < a.slots.size
  · have hslot : a.slotAt i = a.slots[i] := by
      unfold Arena.slotAt
      rw [Array.getD_eq_getD_getElem?, Array.getElem?_eq_getElem hi]
      rfl
    have hall := Array.all_eq_true.mp h i hi
    rw [← hslot, hb] at hall
    exact hall
  · rw [Arena.slotAt_of_size_le a (Nat.not_lt.mp hi)] at hb
    cases hb

open Thrice in
theorem plans_fit_thrice : start.Opened ∧ waiting.MakesPlan .fire 0 0 ∧ ∃ rec : PlanRecord Int Bool,
    (waiting.move .fire).plans[0]? = some rec ∧ ∃ label p b gx gy, .dispatch label p b gx gy ∈ rec.plan.stages ∧
      ∀ k ∈ Draft.images b, ∃ r : SlotRef Int, (waiting.move .fire).pool.arena.resolve k = .ok r ∧
        (start.run moves).capabilities.fits ((waiting.move .fire).pool.device.buffers.block r.buffer).size =
          true := by
  have hstart : start.Opened := ⟨{ limits := .standard }, {}, .object [], rfl⟩
  obtain ⟨rec, hrec, hdispatches⟩ := plans_fit hstart moves (List.replicate 7 .fire) stack uploads .fire
      0 waiting_makes
  obtain ⟨label, p, b, gx, gy, hstage, -⟩ := waiting_blends hrec
  refine ⟨hstart, waiting_makes, rec, hrec, label, p, b, gx, gy, hstage, fun k hk => ?_⟩
  obtain ⟨r, hr, -, -, hfits⟩ := hdispatches label p b gx gy hstage k hk
  refine ⟨r, hr, hfits fun i backing hb husage => ?_⟩
  have hone := backing_of_all waiting_spec.2.2.2 hb
  rw [husage] at hone
  exact hone

namespace Reused

open Thrice (destination)

/-- It binds sixty-four bytes at most. -/
def device : Device Int Bool :=
  { limits := { (DeviceLimits.standard : DeviceLimits Int) with maxStorageBinding := 64 } }

def start : Engine Int Bool :=
  { bare device {} with
    pool := ⟨{ options := ({} : EngineOptions Int).arena "Session" }, device⟩
    config := Config.standard.update {}
    supervised := true }

def large : Handle := ⟨.number 0, .number 0⟩

/-- The source is in the slot, and the buffer, that was the large one's. -/
def source : Handle := ⟨.number 0, .number 1⟩

def moves : List (Move Int Bool) :=
  [.call (.allocate (.image .storage .unorm8 8 4) 128), .call (.release large),
    .call (.allocate (.image .storage .unorm8 1 1) 4), .call (.allocate (.image .readback .float32 1 1) 16)]

def stack : List (BlendDescriptor Int Bool) := [⟨source, destination, "source-over", "srgb", true, none⟩]

def before : Engine Int Bool := ((start.run moves).move (.call (.makePlan stack []))).run (List.replicate 3 .fire)

/-- Whether a dispatch binds a source in a buffer beyond the limits. -/
def exceeds (e : Engine Int Bool) : Stage Int Bool → Bool
  | .dispatch _ _ b _ _ => match e.pool.arena.resolve b.source with
    | .ok r => decide (e.capabilities.limits.maxStorageBinding < (e.pool.device.buffers.block r.buffer).size)
    | .error _ => false
  | _ => false

end Reused

open Reused in
/-- A plan is made that binds a buffer larger than the device binds. -/
theorem reused_buffer_too_large : Reused.start.Opened ∧ before.MakesPlan .fire 0 0 ∧ ∃ rec : PlanRecord Int Bool,
    (before.move .fire).plans[0]? = some rec ∧ ∃ label p b gx gy r, .dispatch label p b gx gy ∈ rec.plan.stages ∧
      (before.move .fire).pool.arena.resolve b.source = .ok r ∧
      (before.move .fire).capabilities.limits.maxStorageBinding <
        ((before.move .fire).pool.device.buffers.block r.buffer).size := by
  have hstart : Reused.start.Opened := ⟨device, {}, .object [], rfl⟩
  obtain ⟨hnone, hanswers, hexceeds⟩ : before.settled.isEmpty = true ∧ (before.move .fire).answersPlan 0 0 = true ∧
      ((before.move .fire).plans[0]?.map fun rec => rec.plan.stages.any (exceeds (before.move .fire))) =
        some true := by
    decide +kernel
  have hmakes : before.MakesPlan .fire 0 0 := makesPlan_of_first hnone hanswers
  obtain ⟨rec, hrec, hany⟩ := Option.map_eq_some_iff.mp hexceeds
  obtain ⟨stage, hstage, hexceed⟩ := List.any_eq_true.mp hany
  cases stage with
  | dispatch label p b gx gy =>
    unfold exceeds at hexceed
    dsimp only at hexceed
    split at hexceed
    · rename_i r hr
      exact ⟨hstart, hmakes, rec, hrec, label, p, b, gx, gy, r, hstage, hr, of_decide_eq_true hexceed⟩
    · cases hexceed
  | allocate | upload | barrier | download => cases hexceed

end Engine

end Strata
