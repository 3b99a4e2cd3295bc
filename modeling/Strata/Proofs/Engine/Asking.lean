import Strata.Proofs.Engine.Moves
import Strata.Proofs.Pipeline.Programs

/-!
# Asking for pipelines

Whoever asks for pipelines starts builds and is told of those that are there. All else of the engine is left
aside.
-/

namespace Strata

variable {ν α : Type}

/-- Only builds and turns differ. -/
def Engine.Aside (e e' : Engine ν α) : Prop :=
  ∃ cache device turns gated, e' = { e with
      cache
      pool := { e.pool with device }
      turns := e.turns ++ turns
      gated := e.gated ++ gated } ∧
    e.cache.library = cache.library ∧ e.pool.device.Steady device ∧ device.buffers = e.pool.device.buffers ∧
      device.maxAllocation = e.pool.device.maxAllocation

namespace Engine.Aside

variable {e e' e'' : Engine ν α}

theorem refl (e : Engine ν α) : e.Aside e :=
  ⟨e.cache, e.pool.device, [], [], by simp, rfl, .refl _, rfl, rfl⟩

theorem trans (h : e.Aside e') (h' : e'.Aside e'') : e.Aside e'' := by
  obtain ⟨cache, device, turns, gated, rfl, hl, hd, hb, hm⟩ := h
  obtain ⟨cache', device', turns', gated', rfl, hl', hd', hb', hm'⟩ := h'
  exact ⟨cache', device', turns ++ turns', gated ++ gated', by simp, hl.trans hl', hd.trans hd', hb'.trans hb,
    hm'.trans hm⟩

theorem schedule (e : Engine ν α) (delay : Nat) (t : Turn ν α) : e.Aside (e.schedule delay t) :=
  ⟨e.cache, e.pool.device, [(delay, t)], [], by simp [Engine.schedule], rfl, .refl _, rfl, rfl⟩

theorem startBuild (e : Engine ν α) (serial : Nat) (key : PipelineKey) : e.Aside (e.startBuild serial key) := by
  have hc := e.cache.compile_compiles e.pool.device key
  unfold Engine.startBuild
  generalize e.cache.compile e.pool.device key = r at hc
  obtain ⟨compilation, cache, device⟩ := r
  have hset : e.Aside { e with cache, pool := { e.pool with device } } :=
    ⟨cache, device, [], [], by simp, hc.library.symm, hc.device, hc.buffers, hc.limit⟩
  cases compilation with
  | failed failure => exact hset.trans (schedule _ _ _)
  | refused failure => exact hset.trans (schedule _ _ _)
  | compiling gate =>
    cases gate with
    | none => exact hset.trans (schedule _ _ _)
    | some gate =>
      exact ⟨cache, device, [], [(gate, serial, key)], by simp, hc.library.symm, hc.device, hc.buffers, hc.limit⟩

theorem library_request (c : Cache PipelineWaiter) (key : PipelineKey) (w : PipelineWaiter) :
    (c.request key w).2.library = c.library := by
  unfold Cache.request
  split
  · rfl
  · split <;> rfl

theorem requestPipeline (e : Engine ν α) (key : PipelineKey) (w : PipelineWaiter) :
    e.Aside (e.requestPipeline key w).2 := by
  have hl := library_request e.cache key w
  unfold Engine.requestPipeline
  generalize e.cache.request key w = r at hl
  obtain ⟨reply, cache⟩ := r
  have hset : e.Aside { e with cache } := ⟨cache, e.pool.device, [], [], by simp, hl.symm, .refl _, rfl, rfl⟩
  cases reply with
  | refused failure => exact hset
  | ready pipeline => exact hset
  | joined => exact hset
  | started serial => exact hset.trans (startBuild _ _ _)

theorem requestSteps (e : Engine ν α) (job : JobId) (i : Nat) (steps : List (PlanStep ν α)) :
    e.Aside (e.requestSteps job i steps).2 := by
  induction steps generalizing e i with
  | nil => exact refl e
  | cons step rest ih => exact (requestPipeline e step.key (.step job i)).trans (ih _ _)

theorem arriveNow (e : Engine ν α) (job : JobId) (i : Nat) (replies : List (Option (Except Failure Pipeline))) :
    e.Aside (e.arriveNow job i replies) := by
  induction replies generalizing e i with
  | nil => exact refl e
  | cons reply rest ih =>
    cases reply with
    | none => exact ih e (i + 1)
    | some result => exact (schedule e 1 _).trans (ih _ _)

theorem beginPlanning [Measure ν] (e : Engine ν α) (job : JobId) (stack : List (BlendDescriptor ν α))
    (uploads : List (Upload α)) : e.Aside (e.beginPlanning job stack uploads).2 := by
  unfold Engine.beginPlanning
  split
  · exact refl e
  · exact (requestSteps e job 0 _).trans (arriveNow _ job 0 _)

theorem jobs (h : e.Aside e') : e'.jobs = e.jobs := by
  obtain ⟨cache, device, turns, gated, rfl, -⟩ := h
  rfl

end Engine.Aside

end Strata
