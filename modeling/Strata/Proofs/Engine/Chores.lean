import Mathlib.Logic.Relation
import Strata.Proofs.Engine.Asking
import Strata.Proofs.Plan.Layout

/-!
# Chores

`Chore` lists the acts of an engine that leave every submission alone. All that building, planning and
compositing come to, besides submitting a plan and waiting for it, is a sequence of chores.
-/

namespace Strata

open Relation

variable {ν α : Type}

/-! ## The pool and the device -/

namespace Pool

variable [Measure ν]

/-- Requests that the engine makes on its own, besides those for a submission. -/
def Request.isRoutine : Request ν → Bool
  | allocate .. | release _ | trim => true
  | _ => false

/-- A pool goes on by routine requests. -/
def Uses : Pool ν α → Pool ν α → Prop :=
  ReflTransGen fun p p' => ∃ r : Request ν, r.isRoutine ∧ p' = (r.perform p).2

variable {p : Pool ν α}

theorem Uses.allocate (p : Pool ν α) (format : SlotFormat ν) (size : ν) : p.Uses (p.allocate format size).2 :=
  .single ⟨.allocate format size, rfl, rfl⟩

theorem Uses.trim (p : Pool ν α) : p.Uses p.trim.2 :=
  .single ⟨.trim, rfl, (Attempt.endWith_snd ..).symm⟩

theorem Uses.release (p : Pool ν α) (h : Handle) : p.Uses (p.release h).2 :=
  .single ⟨.release h, rfl, (Attempt.endWith_snd ..).symm⟩

theorem Uses.releaseLive (p : Pool ν α) (handles : List Handle) : p.Uses (p.releaseLive handles).2 := by
  refine Attempt.each_keeps (P := fun p' => p.Uses p') (fun p' hp' h _ => ?_) .refl
  unfold releaseIfLive
  split
  · exact hp'.trans (Uses.release p' h)
  · exact hp'

end Pool

/-- Nothing but a device's scopes, switches and scripted faults differ, and no fault is new. -/
structure Device.Idles (d d' : Device ν α) : Prop where
  buffers : d'.buffers = d.buffers
  modules : d'.modules = d.modules
  builds : d'.builds = d.builds
  submitted : d'.submitted = d.submitted
  faults : d'.faults ⊆ d.faults

namespace Device.Idles

theorem refl (d : Device ν α) : d.Idles d := ⟨rfl, rfl, rfl, rfl, List.Subset.refl _⟩

theorem trans {d d' d'' : Device ν α} (h : d.Idles d') (h' : d'.Idles d'') : d.Idles d'' :=
  ⟨h'.buffers.trans h.buffers, h'.modules.trans h.modules, h'.builds.trans h.builds, h'.submitted.trans h.submitted,
    List.Subset.trans h'.faults h.faults⟩

theorem takeFault (d : Device ν α) (call : DeviceCall) : d.Idles (d.takeFault call).2 := by
  obtain ⟨faults, hf, hs⟩ := d.takeFault_snd call
  rw [hf]
  exact ⟨rfl, rfl, rfl, rfl, hs⟩

theorem call (d : Device ν α) (which : DeviceCall) {f : Device ν α → Device ν α}
    (hf : ∀ d : Device ν α, d.Idles (f d)) : d.Idles (d.call which f).2 := by
  rcases d.call_snd which f with heq | heq <;> rw [heq]
  · exact Idles.takeFault d which
  · exact hf d

theorem pushScopes (d : Device ν α) : d.Idles (Engine.pushScopes d).2 := by
  have hpush (d : Device ν α) (filter : ScopeFilter) : d.Idles (d.pushScope filter).2 :=
    call d .pushScope fun _ => ⟨rfl, rfl, rfl, rfl, List.Subset.refl _⟩
  have hfirst := hpush d .outOfMemory
  unfold Engine.pushScopes
  generalize d.pushScope .outOfMemory = r at hfirst
  obtain ⟨r, d'⟩ := r
  cases r with
  | error raised => exact hfirst
  | ok u => exact hfirst.trans (hpush d' .validation)

theorem popScope (d : Device ν α) : d.Idles d.popScope.2 := by
  have htake := Idles.takeFault d .popScope
  unfold Device.popScope
  generalize d.takeFault .popScope = r at htake
  obtain ⟨fault, d'⟩ := r
  cases fault with
  | some raised => exact htake
  | none =>
    dsimp only
    split
    · exact htake
    · exact htake.trans ⟨rfl, rfl, rfl, rfl, List.Subset.refl _⟩

end Device.Idles

/-- Nor do its scopes. -/
structure Device.Rests (d d' : Device ν α) : Prop extends d.Idles d' where
  scopes : d'.scopes = d.scopes

namespace Device.Rests

theorem refl (d : Device ν α) : d.Rests d := ⟨.refl d, rfl⟩

theorem takeFault (d : Device ν α) (call : DeviceCall) : d.Rests (d.takeFault call).2 := by
  obtain ⟨faults, hf, hs⟩ := d.takeFault_snd call
  rw [hf]
  exact ⟨⟨rfl, rfl, rfl, rfl, hs⟩, rfl⟩

theorem call (d : Device ν α) (which : DeviceCall) {f : Device ν α → Device ν α}
    (hf : ∀ d : Device ν α, d.Rests (f d)) :
    d.Rests (d.call which f).2 := by
  rcases d.call_snd which f with heq | heq <;> rw [heq]
  · exact Rests.takeFault d which
  · exact hf d

theorem mapBuffer (d : Device ν α) (id : BufferId) : d.Rests (d.mapBuffer id).2 := by
  have htake := Rests.takeFault d .mapBuffer
  unfold Device.mapBuffer
  generalize d.takeFault .mapBuffer = r at htake
  obtain ⟨fault, d'⟩ := r
  cases fault with
  | some raised => exact htake
  | none =>
    dsimp only
    split
    · split <;> exact htake
    · exact htake

end Device.Rests

/-- No buffer, module or pipeline is made, and nothing is written or submitted. Buffers may be destroyed. -/
structure Device.Fades (d d' : Device ν α) : Prop where
  size : d'.buffers.size = d.buffers.size
  block : ∀ id, d'.buffers.block id = d.buffers.block id
  destroyed : ∀ (id : BufferId) (x : Buffer α), d.buffers[id]? = some x →
    ∃ x' : Buffer α, d'.buffers[id]? = some x' ∧ (x.destroyed = true → x'.destroyed = true)
  modules : d'.modules = d.modules
  builds : d'.builds = d.builds
  submitted : d'.submitted = d.submitted

namespace Device.Fades

theorem trans {d d' d'' : Device ν α} (h : d.Fades d') (h' : d'.Fades d'') : d.Fades d'' where
  size := h'.size.trans h.size
  block id := (h'.block id).trans (h.block id)
  destroyed id x hx := by
    obtain ⟨x', hx', hd⟩ := h.destroyed id x hx
    obtain ⟨x'', hx'', hd'⟩ := h'.destroyed id x' hx'
    exact ⟨x'', hx'', hd' ∘ hd⟩
  modules := h'.modules.trans h.modules
  builds := h'.builds.trans h.builds
  submitted := h'.submitted.trans h.submitted

theorem refl (d : Device ν α) : d.Fades d := ⟨rfl, fun _ => rfl, fun _ x hx => ⟨x, hx, id⟩, rfl, rfl, rfl⟩

theorem of_rests {d d' : Device ν α} (h : d.Rests d') : d.Fades d' where
  size := by rw [h.buffers]
  block id := by rw [h.buffers]
  destroyed id x hx := ⟨x, h.buffers ▸ hx, fun h => h⟩
  modules := h.modules
  builds := h.builds
  submitted := h.submitted

theorem call (d : Device ν α) (which : DeviceCall) {f : Device ν α → Device ν α}
    (hf : ∀ d : Device ν α, d.Fades (f d)) : d.Fades (d.call which f).2 := by
  rcases d.call_snd which f with heq | heq <;> rw [heq]
  · exact of_rests (Rests.takeFault d which)
  · exact hf d

theorem destroyBuffer (d : Device ν α) (id : BufferId) : d.Fades (d.destroyBuffer id).2 := by
  refine call d .destroyBuffer fun d => ?_
  have hext := d.buffers.extends_modify id (fun buffer => { buffer with destroyed := true }) fun _ => rfl
  refine ⟨Array.size_modify, fun i => ?_, fun i x hx => ?_, rfl, rfl, rfl⟩
  · rcases Nat.lt_or_ge i d.buffers.size with hi | hi
    · exact hext.2 i hi
    · unfold Heap.block
      rw [Array.getElem?_eq_none hi, Array.getElem?_eq_none (by simpa using hi)]
  · rw [Array.getElem?_modify]
    split
    · exact ⟨_, by rw [hx]; rfl, fun _ => rfl⟩
    · exact ⟨x, hx, fun h => h⟩

theorem destroy (d : Device ν α) : d.Fades d.destroy.2 := by
  have hfirst : d.Fades (d.call .destroyDevice fun d => { d with destroyed := true }).2 :=
    of_rests (Rests.call d .destroyDevice fun _ => ⟨⟨rfl, rfl, rfl, rfl, List.Subset.refl _⟩, rfl⟩)
  refine Attempt.andThen_keeps (P := fun d' : Device ν α => d.Fades d') hfirst fun _ _ => ?_
  exact Attempt.each_keeps (P := fun d' : Device ν α => d.Fades d')
    (fun d' h id _ => h.trans (destroyBuffer d' id)) hfirst

theorem toExtends {d d' : Device ν α} (h : d.Fades d') : d.buffers.Extends d'.buffers :=
  ⟨Nat.le_of_eq h.size.symm, fun id _ => h.block id⟩

end Device.Fades

theorem Device.destroy_steady (d : Device ν α) : d.Steady d.destroy.2 := by
  have hcall (d : Device ν α) (which : DeviceCall) {f : Device ν α → Device ν α}
      (hf : ∀ d : Device ν α, d.Steady (f d)) : d.Steady (d.call which f).2 := by
    rcases d.call_snd which f with heq | heq <;> rw [heq]
    · exact (d.takeFault_steady which).1
    · exact hf d
  have hfirst := hcall d .destroyDevice (f := fun d => { d with destroyed := true }) fun _ =>
    ⟨List.Subset.refl _, rfl, rfl, rfl, rfl, rfl⟩
  refine Attempt.andThen_keeps (P := fun d' : Device ν α => d.Steady d') hfirst fun _ _ => ?_
  exact Attempt.each_keeps (P := fun d' : Device ν α => d.Steady d')
    (fun d' h id _ => h.trans (hcall d' .destroyBuffer fun d => .setBuffers d _)) hfirst

/-! ## Chores -/

def Job.isWait : Job ν α → Bool
  | wait => true
  | _ => false

/-- The submission that a turn carries on or tells the outcome of. -/
def Turn.token? : Turn ν α → Option SubmissionId
  | scopesClosed s | workDone s _ => some s.token
  | mapped token .. | rejected token _ | finished token _ | reported token _ | collected _ token _ => some token
  | _ => none

/-- A call waits for a pipeline in the cache. -/
def Cache.Owes (c : Cache PipelineWaiter) (j : JobId) : Prop := ∃ b ∈ c.inFlight, .lookup j ∈ b.waiters

namespace Engine

/-- There is such a call, and it does more than to wait for a submission. -/
def Busy (e : Engine ν α) (j : JobId) : Prop := ∃ job, e.jobs[j]? = some job ∧ job.isWait = false

/-- No call that waits for a submission waits for a pipeline. -/
def Sorted (e : Engine ν α) : Prop := ∀ j, e.cache.Owes j → e.Busy j

section
variable [Measure ν]

inductive Chore : Engine ν α → Engine ν α → Prop
  | note (e : Engine ν α) (config : Config α) (lossAnnounced : Bool) (signals : Array (Option Failure))
      (listeners : List (SignalId × JobId × SubmissionId)) (gated : List (Nat × Nat × PipelineKey))
      (log : List LogEntry) : Chore e { e with config, lossAnnounced, signals, listeners, gated, log }
  | schedule (e : Engine ν α) (delay : Nat) (turn : Turn ν α) (h : turn.token? = none) :
      Chore e (e.schedule delay turn)
  | settle (e : Engine ν α) (j : JobId) (result : Except Failure (JobValue ν α)) (h : e.Busy j) :
      Chore e (e.settle j result)
  | addJob (e : Engine ν α) (job : Job ν α) (h : job.isWait = false) : Chore e (e.addJob job).2
  /-- A call goes on. A composite call stays one. -/
  | setJob (e : Engine ν α) (j : JobId) (job : Job ν α) (h : e.Busy j) (hjob : job.isWait = false)
      (hkind : ∀ c, e.call? j = some c → ∃ c', job = .composite c') : Chore e (e.setJob j job)
  | addPlan (e : Engine ν α) (plan : Plan ν α) : Chore e (e.addPlan plan).2
  | makeArray (e : Engine ν α) (values : Array α) : Chore e { e with arrays := e.arrays.push values }
  | pool (e : Engine ν α) (pool : Pool ν α) (h : e.pool.Uses pool) : Chore e { e with pool }
  | device (e : Engine ν α) (device : Device ν α) (h : e.pool.device.Rests device) : Chore e (e.setDevice device)
  /-- The cache starts a build, which it does only while it is open. -/
  | compile (e : Engine ν α) (key : PipelineKey) (h : e.cache.closing = none) :
      Chore e { e with
        cache := (e.cache.compile e.pool.device key).2.1
        pool := { e.pool with device := (e.cache.compile e.pool.device key).2.2 } }
  | cache (e : Engine ν α) (cache : Cache PipelineWaiter) (h : cache.closing = e.cache.closing)
      (howes : ∀ j, cache.Owes j → e.cache.Owes j ∨ e.Busy j) : Chore e { e with cache }

/-- Any number of such acts. -/
def Chores : Engine ν α → Engine ν α → Prop := ReflTransGen Chore

variable {e e' e'' : Engine ν α}

theorem Chore.chores (h : e.Chore e') : e.Chores e' := .single h

theorem Chores.refl (e : Engine ν α) : e.Chores e := ReflTransGen.refl

theorem Chores.trans (h : e.Chores e') (h' : e'.Chores e'') : e.Chores e'' := ReflTransGen.trans h h'

end

/-! ## What such acts keep -/

section
variable {e e' : Engine ν α}

theorem Busy.addJob {j : JobId} (h : e.Busy j) (job : Job ν α) : (e.addJob job).2.Busy j := by
  obtain ⟨old, hold, hw⟩ := h
  obtain ⟨hlt, -⟩ := Array.getElem?_eq_some_iff.mp hold
  exact ⟨old, by unfold Engine.addJob; rw [Array.getElem?_push_lt hlt, ← hold, Array.getElem?_eq_getElem hlt], hw⟩

theorem busy_addJob (e : Engine ν α) {job : Job ν α} (h : job.isWait = false) :
    (e.addJob job).2.Busy (e.addJob job).1 :=
  ⟨job, Array.getElem?_push_size, h⟩

theorem Busy.setJob {j k : JobId} (h : e.Busy j) {job : Job ν α} (hjob : job.isWait = false) :
    (e.setJob k job).Busy j := by
  obtain ⟨old, hold, hw⟩ := h
  obtain ⟨hlt, -⟩ := Array.getElem?_eq_some_iff.mp hold
  by_cases hk : k = j
  · exact ⟨job, by unfold Engine.setJob; subst hk; simp [hlt], hjob⟩
  · exact ⟨old, by unfold Engine.setJob; simp [Array.getElem?_setIfInBounds_ne hk, hold], hw⟩

variable [Measure ν]

theorem Chore.busy (h : e.Chore e') {j : JobId} (hj : e.Busy j) : e'.Busy j := by
  cases h with
  | addJob job h => exact hj.addJob job
  | setJob k job h hjob hkind => exact hj.setJob hjob
  | note | schedule | settle | addPlan | makeArray | pool | device | compile | cache => exact hj

theorem Chores.busy (h : e.Chores e') {j : JobId} (hj : e.Busy j) : e'.Busy j := by
  induction h with
  | refl => exact hj
  | tail _ h ih => exact h.busy ih

theorem Chore.sorted (h : e.Chore e') (hs : e.Sorted) : e'.Sorted := by
  intro j hj
  have hold : e.cache.Owes j ∨ e.Busy j := by
    cases h with
    | compile key h =>
      obtain ⟨b, hb, hw⟩ := hj
      rw [(e.cache.compile_compiles e.pool.device key).inFlight] at hb
      exact .inl ⟨b, hb, hw⟩
    | cache cache h howes => exact howes j hj
    | note | schedule | settle | addPlan | makeArray | pool | device | addJob | setJob => exact .inl hj
  exact h.busy (hold.elim (hs j) id)

end

/-- What is due stays due, what was answered stays answered, and a composite call stays one. -/
structure Retains (e e' : Engine ν α) : Prop where
  turns : e.turns ⊆ e'.turns
  settled : e.settled ⊆ e'.settled
  call : ∀ j, (e.call? j).isSome → (e'.call? j).isSome
  supervised : e'.supervised = e.supervised

namespace Retains

variable {e e' e'' : Engine ν α}

theorem refl (e : Engine ν α) : e.Retains e := ⟨List.Subset.refl _, List.Subset.refl _, fun _ => id, rfl⟩

theorem trans (h : e.Retains e') (h' : e'.Retains e'') : e.Retains e'' where
  turns := List.Subset.trans h.turns h'.turns
  settled := List.Subset.trans h.settled h'.settled
  call j := h'.call j ∘ h.call j
  supervised := h'.supervised.trans h.supervised

theorem addJob (e : Engine ν α) (job : Job ν α) : e.Retains (e.addJob job).2 := by
  refine ⟨List.Subset.refl _, List.Subset.refl _, fun j h => ?_, rfl⟩
  unfold call? Engine.addJob at *
  by_cases hlt : j < e.jobs.size
  · rwa [Array.getElem?_push_lt hlt, ← Array.getElem?_eq_getElem hlt]
  · rw [Array.getElem?_eq_none (Nat.le_of_not_lt hlt)] at h
    cases h

theorem setJob (e : Engine ν α) (j : JobId) {job : Job ν α}
    (hkind : ∀ c, e.call? j = some c → ∃ c', job = .composite c') : e.Retains (e.setJob j job) := by
  refine ⟨List.Subset.refl _, List.Subset.refl _, fun k h => ?_, rfl⟩
  by_cases hk : j = k
  · subst hk
    obtain ⟨c, hc⟩ := Option.isSome_iff_exists.mp h
    obtain ⟨c', rfl⟩ := hkind c hc
    have hlt : j < e.jobs.size := by
      by_contra hge
      unfold call? at hc
      rw [Array.getElem?_eq_none (Nat.le_of_not_lt hge)] at hc
      cases hc
    unfold call? Engine.setJob
    simp [hlt]
  · unfold call? Engine.setJob at *
    rwa [Array.getElem?_setIfInBounds_ne hk]

theorem of_eq (hturns : e.turns ⊆ e'.turns) (hsettled : e.settled ⊆ e'.settled) (hjobs : e'.jobs = e.jobs)
    (hs : e'.supervised = e.supervised) : e.Retains e' :=
  ⟨hturns, hsettled, fun j h => by unfold call? at *; rwa [hjobs], hs⟩

end Retains

section
variable [Measure ν] {e e' : Engine ν α}

theorem Chore.retains (h : e.Chore e') : e.Retains e' := by
  cases h with
  | schedule delay turn => exact .of_eq (List.subset_append_left ..) (List.Subset.refl _) rfl rfl
  | settle j result => exact .of_eq (List.Subset.refl _) (List.subset_append_left ..) rfl rfl
  | addJob job => exact .addJob e job
  | setJob j job h hjob hkind => exact .setJob e j hkind
  | note | addPlan | makeArray | pool | device | compile | cache =>
    exact .of_eq (List.Subset.refl _) (List.Subset.refl _) rfl rfl

end

end Engine

/-! ## Who waits in the cache -/

namespace Cache

variable {c : Cache PipelineWaiter}

theorem Owes.of_request {key : PipelineKey} {w : PipelineWaiter} {j : JobId} (h : (c.request key w).2.Owes j) :
    c.Owes j ∨ w = .lookup j := by
  obtain ⟨b, hb, hj⟩ := h
  unfold request at hb
  split at hb
  · exact .inl ⟨b, hb, hj⟩
  · split at hb
    · exact .inl ⟨b, hb, hj⟩
    · unfold join at hb
      obtain ⟨b', hb', rfl⟩ := List.mem_map.mp hb
      split at hj
      · rcases List.mem_append.mp hj with hj | hj
        · exact .inl ⟨b', hb', hj⟩
        · exact .inr (List.mem_singleton.mp hj).symm
      · exact .inl ⟨b', hb', hj⟩
    · rcases List.mem_append.mp hb with hb | hb
      · exact .inl ⟨b, hb, hj⟩
      · rw [List.mem_singleton.mp hb] at hj
        exact .inr (List.mem_singleton.mp hj).symm

theorem request_closing (key : PipelineKey) (w : PipelineWaiter) : (c.request key w).2.closing = c.closing := by
  unfold request
  split
  · rfl
  · split <;> rfl

theorem closing_of_started {key : PipelineKey} {w : PipelineWaiter} {serial : Nat}
    (h : (c.request key w).1 = .started serial) : c.closing = none := by
  unfold request at h
  split at h
  · cases h
  · assumption

theorem finish_closing (serial : Nat) (result : Except Failure Artifact) :
    (c.finish serial result).2.closing = c.closing := by
  unfold finish
  split
  · rfl
  · dsimp only
    split
    · rfl
    · split
      · dsimp only
        split <;> rfl
      · rfl

theorem Owes.of_finish {serial : Nat} {result : Except Failure Artifact} {j : JobId}
    (h : (c.finish serial result).2.Owes j) : c.Owes j := by
  obtain ⟨b, hb, hj⟩ := h
  refine ⟨b, ?_, hj⟩
  unfold finish at hb
  split at hb
  · exact hb
  · dsimp only at hb
    split at hb
    · exact (List.mem_filter.mp hb).1
    · split at hb
      · dsimp only at hb
        split at hb <;> exact (List.mem_filter.mp hb).1
      · exact (List.mem_filter.mp hb).1

theorem Owes.of_answered {serial : Nat} {result : Except Failure Artifact} {j : JobId} {r : Except Failure Pipeline}
    (h : (.lookup j, r) ∈ (c.finish serial result).1.answers) : c.Owes j := by
  unfold finish at h
  split at h
  · cases h
  · rename_i b hb
    have hmem := List.mem_of_find?_eq_some hb
    dsimp only at h
    split at h
    · cases h
    · split at h
      · obtain ⟨w, hw, heq⟩ := List.mem_map.mp h
        cases heq
        exact ⟨b, hmem, hw⟩
      · obtain ⟨w, hw, heq⟩ := List.mem_map.mp h
        cases heq
        exact ⟨b, hmem, hw⟩

theorem Owes.of_close {closing : Closing} {j : JobId} (h : (c.close closing).2.Owes j) : c.Owes j := by
  obtain ⟨b, hb, hj⟩ := h
  obtain ⟨b', hb', rfl⟩ := List.mem_map.mp hb
  split at hj
  · cases hj
  · exact ⟨b', hb', hj⟩

theorem Owes.of_refused {closing : Closing} {j : JobId} (h : .lookup j ∈ (c.close closing).1) : c.Owes j := by
  obtain ⟨serial, -, hj⟩ := List.mem_flatMap.mp h
  obtain ⟨b, hb, hj⟩ := List.mem_flatMap.mp hj
  exact ⟨b, (List.mem_filter.mp hb).1, hj⟩

end Cache

/-! ## Pipelines -/

namespace Engine

variable [Measure ν] {e : Engine ν α}

theorem answer_chores {w : PipelineWaiter} {result : Except Failure Pipeline} (hw : ∀ j, w = .lookup j → e.Busy j) :
    e.Chores (e.answer w result) := by
  cases w with
  | lookup job => exact (Chore.settle e job _ (hw job rfl)).chores
  | step job index => exact (Chore.schedule e 1 _ rfl).chores

theorem answerAll_chores {answers : List (PipelineWaiter × Except Failure Pipeline)}
    (ha : ∀ x ∈ answers, ∀ j, x.1 = .lookup j → e.Busy j) : e.Chores (e.answerAll answers) := by
  unfold answerAll
  induction answers generalizing e with
  | nil => exact .refl e
  | cons x rest ih =>
    have hx : e.Chores (e.answer x.1 x.2) := answer_chores (ha x (List.mem_cons_self ..))
    exact hx.trans (ih fun y hy j hj => hx.busy (ha y (List.mem_cons_of_mem _ hy) j hj))

theorem report_chores (e : Engine ν α) (entry : LogEntry) : e.Chores (e.report entry) :=
  (Chore.note e e.config e.lossAnnounced e.signals e.listeners e.gated _).chores

theorem startBuild_chores (h : e.cache.closing = none) (serial : Nat) (key : PipelineKey) :
    e.Chores (e.startBuild serial key) := by
  have hcompile := (Chore.compile e key h).chores
  unfold startBuild
  generalize e.cache.compile e.pool.device key = r at hcompile
  obtain ⟨compilation, cache, device⟩ := r
  cases compilation with
  | failed failure => exact hcompile.trans (Chore.schedule _ 1 _ rfl).chores
  | refused failure => exact hcompile.trans (Chore.schedule _ 2 _ rfl).chores
  | compiling gate =>
    cases gate with
    | none => exact hcompile.trans (Chore.schedule _ 2 _ rfl).chores
    | some gate => exact hcompile.trans (Chore.note _ _ _ _ _ _ _).chores

theorem requestPipeline_chores (key : PipelineKey) {w : PipelineWaiter} (hw : ∀ j, w = .lookup j → e.Busy j) :
    e.Chores (e.requestPipeline key w).2 := by
  have hcache := (Chore.cache e (e.cache.request key w).2 (Cache.request_closing key w) fun j hj =>
    (Cache.Owes.of_request hj).imp_right (hw j)).chores
  have hstarted := @Cache.closing_of_started e.cache key w
  have hclosing := @Cache.request_closing e.cache key w
  unfold requestPipeline
  generalize e.cache.request key w = r at hcache hstarted hclosing
  obtain ⟨reply, cache⟩ := r
  cases reply with
  | refused failure => exact hcache
  | ready pipeline => exact hcache
  | joined => exact hcache
  | started serial => exact hcache.trans (startBuild_chores (hclosing.trans (hstarted rfl)) serial key)

theorem lookupPipeline_chores (e : Engine ν α) (key : PipelineKey) : e.Chores (e.lookupPipeline key).2 := by
  have hadd := (Chore.addJob e .lookup rfl).chores
  have hbusy : (e.addJob .lookup).2.Busy (e.addJob .lookup).1 := busy_addJob e rfl
  have hrequest := requestPipeline_chores (e := (e.addJob .lookup).2) key (w := .lookup (e.addJob .lookup).1)
    fun j hj => by cases hj; exact hbusy
  unfold lookupPipeline
  dsimp only
  generalize (e.addJob .lookup).2.requestPipeline key (.lookup (e.addJob .lookup).1) = r at hrequest
  obtain ⟨reply, e'⟩ := r
  cases reply with
  | none => exact hadd.trans hrequest
  | some result => exact (hadd.trans hrequest).trans (Chore.settle e' _ _ (hrequest.busy hbusy)).chores

theorem buildUngated_chores (e : Engine ν α) (serial : Nat) (key : PipelineKey) :
    e.Chores (e.buildUngated serial key) := (Chore.schedule e 2 _ rfl).chores

theorem buildEnded_chores (hs : e.Sorted) (serial : Nat) (result : Except Failure Artifact) :
    e.Chores (e.buildEnded serial result) := by
  have hcache := (Chore.cache e (e.cache.finish serial result).2 (Cache.finish_closing serial result) fun j hj =>
    .inl (Cache.Owes.of_finish hj)).chores
  have hanswers : ∀ x ∈ (e.cache.finish serial result).1.answers, ∀ j, x.1 = .lookup j → e.Busy j :=
    fun ⟨w, r⟩ hx j hj => by
      cases hj
      exact hs j (Cache.Owes.of_answered hx)
  unfold buildEnded
  generalize e.cache.finish serial result = r at hcache hanswers
  obtain ⟨⟨answers, warning⟩, cache⟩ := r
  have hall {e' : Engine ν α} (h : e.Chores e') : e.Chores (e'.answerAll answers) :=
    h.trans (answerAll_chores fun x hx j hj => h.busy (hanswers x hx j hj))
  cases warning with
  | none => exact hall hcache
  | some w => exact hall (hcache.trans (report_chores _ _))

theorem scheduleAll_chores {β : Type} {l : List β} {f : β → Turn ν α} (hf : ∀ x ∈ l, (f x).token? = none) :
    e.Chores (l.foldl (fun e x => e.schedule 1 (f x)) e) := by
  induction l generalizing e with
  | nil => exact .refl e
  | cons x l ih =>
    exact (Chore.schedule e 1 (f x) (hf x (List.mem_cons_self ..))).chores.trans
      (ih fun y hy => hf y (List.mem_cons_of_mem _ hy))

theorem openGate_chores (e : Engine ν α) : e.Chores e.openGate := by
  have hdevice := (Chore.device e { e.pool.device with gate := none }
      ⟨⟨rfl, rfl, rfl, rfl, List.Subset.refl _⟩, rfl⟩).chores
  have hgated := hdevice.trans (Chore.note _ e.config e.lossAnnounced e.signals e.listeners
    (e.gated.filter (·.1 != e.pool.device.gates)) e.log).chores
  exact hgated.trans (scheduleAll_chores fun _ _ => rfl)

theorem requestSteps_chores (job : JobId) : ∀ (steps : List (PlanStep ν α)) (i : Nat) (e : Engine ν α),
    e.Chores (e.requestSteps job i steps).2
  | [], _, e => .refl e
  | step :: rest, i, e => by
    have hstep := requestPipeline_chores (e := e) step.key (w := .step job i) nofun
    exact hstep.trans (requestSteps_chores job rest (i + 1) _)

theorem arriveNow_chores (job : JobId) :
    ∀ (replies : List (Option (Except Failure Pipeline))) (i : Nat) (e : Engine ν α),
    e.Chores (e.arriveNow job i replies)
  | [], _, e => .refl e
  | none :: rest, i, e => arriveNow_chores job rest (i + 1) e
  | some _ :: rest, i, e =>
    (Chore.schedule e 1 _ rfl).chores.trans (arriveNow_chores job rest (i + 1) _)

end Engine

/-! ## Plans -/

namespace Draft

variable [Measure ν]

theorem emit_uses [Channel α] [Stored α] (draft : Draft ν α) (pipelines : List Pipeline) (pool : Pool ν α) :
    pool.Uses (draft.emit pipelines pool).2 := by
  unfold emit
  split
  · exact .refl
  · rename_i canvas _
    have hlayout : pool.Uses (Emission.layOut draft pipelines canvas.width canvas.height ⟨pool, [], []⟩).2.pool :=
      Emission.layOut_keeps (fun _ _ h => h.trans (Pool.Uses.allocate ..)) draft pipelines .refl
    split
    · rename_i heq
      rw [heq] at hlayout
      exact hlayout
    · rename_i heq
      rw [heq] at hlayout
      rw [Attempt.endWith_snd]
      exact hlayout.trans (Pool.Uses.releaseLive _ _)

end Draft

namespace Engine

variable [Measure ν] {e : Engine ν α}

theorem beginPlanning_chores (e : Engine ν α) (job : JobId) (stack : List (BlendDescriptor ν α))
    (uploads : List (Upload α)) : e.Chores (e.beginPlanning job stack uploads).2 := by
  unfold beginPlanning
  split
  · exact .refl e
  · exact (requestSteps_chores job _ 0 e).trans (arriveNow_chores job _ 0 _)

omit [Measure ν] in
theorem busy_of_planning {job : JobId} {p : Planning ν α} (h : e.planning? job = some p) : e.Busy job := by
  unfold planning? at h
  split at h
  · rename_i hjob; exact ⟨_, hjob, rfl⟩
  · rename_i hjob; exact ⟨_, hjob, rfl⟩
  · cases h

omit [Measure ν] in
theorem busy_of_call {job : JobId} {c : CompositeCall ν α} (h : e.call? job = some c) : e.Busy job := by
  unfold call? at h
  split at h
  · rename_i hjob; exact ⟨_, hjob, rfl⟩
  · cases h

theorem setPlanning_chores (e : Engine ν α) (job : JobId) (p : Planning ν α) : e.Chores (e.setPlanning job p) := by
  unfold setPlanning
  split
  · rename_i hjob
    refine (Chore.setJob e job _ ⟨_, hjob, rfl⟩ rfl fun c hc => ?_).chores
    rw [call?, hjob] at hc
    cases hc
  · rename_i hjob
    exact (Chore.setJob e job _ ⟨_, hjob, rfl⟩ rfl fun _ _ => ⟨_, rfl⟩).chores
  · exact .refl e

theorem pipelineArrived_chores (e : Engine ν α) (job : JobId) (index : Nat) (result : Except Failure Pipeline) :
    e.Chores (e.pipelineArrived job index result) := by
  unfold pipelineArrived
  split
  · exact .refl e
  · split
    · exact .refl e
    · split
      · exact (setPlanning_chores e job _).trans (Chore.schedule _ 1 _ rfl).chores
      · dsimp only
        split
        · exact (setPlanning_chores e job _).trans (Chore.schedule _ 1 _ rfl).chores
        · exact setPlanning_chores e job _

theorem startPlan_chores (e : Engine ν α) (stack : List (BlendDescriptor ν α)) (uploads : List (Upload α)) :
    e.Chores (e.startPlan stack uploads).2 := by
  have hadd := (Chore.addJob e .lookup rfl).chores
  have hbusy : (e.addJob .lookup).2.Busy (e.addJob .lookup).1 := busy_addJob e rfl
  have hbegin := beginPlanning_chores (e.addJob .lookup).2 (e.addJob .lookup).1 stack uploads
  have hjobs := (Aside.beginPlanning (e.addJob .lookup).2 (e.addJob .lookup).1 stack uploads).jobs
  have hadded : (e.addJob .lookup).2.jobs[(e.addJob .lookup).1]? = some .lookup := Array.getElem?_push_size
  unfold startPlan
  dsimp only
  generalize (e.addJob .lookup).2.beginPlanning (e.addJob .lookup).1 stack uploads = r at hbegin hjobs
  obtain ⟨r, e'⟩ := r
  have hbusy' := hbegin.busy hbusy
  cases r with
  | error failure => exact (hadd.trans hbegin).trans (Chore.settle e' _ _ hbusy').chores
  | ok p =>
    refine (hadd.trans hbegin).trans (Chore.setJob e' _ _ hbusy' rfl fun c hc => ?_).chores
    rw [call?, hjobs, hadded] at hc
    cases hc

theorem planMade_chores (e : Engine ν α) (job : JobId) (result : Except Failure PlanId) :
    e.Chores (e.planMade job result) := by
  unfold planMade
  split
  · rename_i hjob; exact (Chore.settle e job _ ⟨_, hjob, rfl⟩).chores
  · rename_i hjob
    exact (Chore.setJob e job _ ⟨_, hjob, rfl⟩ rfl fun _ _ => ⟨_, rfl⟩).chores.trans
      (Chore.schedule _ 1 _ rfl).chores
  · exact .refl e

theorem planReady_chores [Channel α] [Stored α] (e : Engine ν α) (job : JobId)
    (result : Except Failure (List Pipeline)) : e.Chores (e.planReady job result) := by
  unfold planReady
  split
  · exact .refl e
  · exact planMade_chores e job _
  · rename_i p pipelines hp
    have hemit := p.draft.emit_uses pipelines e.pool
    split
    · rename_i heq
      rw [heq] at hemit
      exact (Chore.pool e _ hemit).chores.trans (planMade_chores _ job _)
    · rename_i heq
      rw [heq] at hemit
      exact ((Chore.pool e _ hemit).chores.trans (Chore.addPlan _ _).chores).trans (planMade_chores _ job _)

/-! ## Composite calls -/

theorem setCall_chores {job : JobId} (h : e.Busy job) (c : CompositeCall ν α) : e.Chores (e.setCall job c) :=
  (Chore.setJob e job _ h rfl fun _ _ => ⟨_, rfl⟩).chores

theorem leave_chores (e : Engine ν α) (job : JobId) (owned : List Handle) (result : Except Failure (Raster ν α)) :
    e.Chores (e.leave job owned result) := by
  unfold leave
  split
  · exact .refl e
  · rename_i c hc
    have hpool := (Chore.pool e _ (Pool.Uses.releaseLive e.pool (c.held ++ owned))).chores
    have hend := Attempt.endWith_snd (e.pool.releaseLive (c.held ++ owned)) result
    generalize (e.pool.releaseLive (c.held ++ owned)).endWith result = r at hend
    obtain ⟨result', pool⟩ := r
    obtain rfl : pool = _ := hend
    exact (hpool.trans (setCall_chores (hpool.busy (busy_of_call hc)) _)).trans (Chore.schedule _ 1 _ rfl).chores

theorem allocateSources_uses : ∀ (layers : List (Layer ν α)) (pool : Pool ν α),
    pool.Uses (allocateSources pool layers).2.2
  | [], _ => .refl
  | layer :: rest, pool => by
    have hfirst := Pool.Uses.allocate pool
      (.image .storage layer.raster.format layer.raster.width layer.raster.height)
      (imageBytes layer.raster.format layer.raster.width layer.raster.height)
    unfold allocateSources
    dsimp only
    split
    · rename_i heq
      rw [heq] at hfirst
      exact hfirst
    · rename_i pool' heq
      rw [heq] at hfirst
      exact hfirst.trans (allocateSources_uses rest pool')

section
variable [Channel α]

theorem planAttempt_chores {job : JobId} (h : e.Busy job) (c : CompositeCall ν α) (destination : Handle)
    (sources : List Handle) : e.Chores (e.planAttempt job c destination sources) := by
  unfold planAttempt
  dsimp only
  split
  · exact (setCall_chores h _).trans (leave_chores _ job _ _)
  · rename_i stack _
    have hbegin := beginPlanning_chores e job stack (uploadsOf c.layers sources)
    have hbusy := hbegin.busy h
    split
    · rename_i heq
      rw [heq] at hbegin hbusy
      exact (hbegin.trans (setCall_chores hbusy _)).trans (Chore.schedule _ 1 _ rfl).chores
    · rename_i heq
      rw [heq] at hbegin hbusy
      exact hbegin.trans (setCall_chores hbusy _)

theorem startAttempt_chores {job : JobId} (h : e.Busy job) (c : CompositeCall ν α) :
    e.Chores (e.startAttempt job c) := by
  unfold startAttempt
  split
  · exact (setCall_chores h _).trans (Chore.schedule _ 1 _ rfl).chores
  · exact (setCall_chores h _).trans (Chore.schedule _ 1 _ rfl).chores
  · rename_i base _ _
    have hsources := allocateSources_uses c.layers e.pool
    split
    · rename_i heq
      rw [heq] at hsources
      have hpool := (Chore.pool e _ hsources).chores
      exact (hpool.trans (setCall_chores (hpool.busy h) _)).trans (leave_chores _ job _ _)
    · rename_i pool heq
      rw [heq] at hsources
      have hall := hsources.trans (Pool.Uses.allocate pool
        (.image .readback .float32 base.raster.width base.raster.height)
        (workingBytes base.raster.width base.raster.height))
      dsimp only
      split
      all_goals
        rename_i heq
        rw [heq] at hall
        have hpool := (Chore.pool e _ hall).chores
      · exact (hpool.trans (setCall_chores (hpool.busy h) _)).trans (leave_chores _ job _ _)
      · exact hpool.trans (planAttempt_chores (hpool.busy h) c _ _)

theorem startComposite_chores (e : Engine ν α) (layers options : Value α) (verifies : Bool) :
    e.Chores (e.startComposite layers options verifies).2 := by
  have hadd := (Chore.addJob e .lookup rfl).chores
  have hbusy : (e.addJob .lookup).2.Busy (e.addJob .lookup).1 := busy_addJob e rfl
  unfold startComposite
  dsimp only
  split
  · exact hadd.trans (Chore.settle _ _ _ hbusy).chores
  · exact hadd.trans (Chore.settle _ _ _ hbusy).chores
  · split
    · exact hadd.trans (Chore.settle _ _ _ hbusy).chores
    · exact hadd.trans (startAttempt_chores hbusy _)

omit [Measure ν] in
theorem configure_chores [Measure ν] (e : Engine ν α) (change : Value α) : e.Chores (e.configure change).2 := by
  unfold configure
  split
  · exact .refl e
  · exact (Chore.note e _ e.lossAnnounced e.signals e.listeners e.gated e.log).chores

end

theorem resumed_chores [Channel α] [Stored α] [Transfer α] (e : Engine ν α) (job : JobId) (token : SubmissionId)
    (outcome : Outcome) : e.Chores (e.resumed job token outcome) := by
  unfold resumed
  split
  · split
    · split
      · exact leave_chores e job _ _
      · exact .refl e
    · exact .refl e
  · exact .refl e

theorem drained_chores (e : Engine ν α) (job : JobId) (token : SubmissionId) (outcome : Outcome) :
    e.Chores (e.drained job token outcome) := by
  have hleft := (Chore.note e e.config e.lossAnnounced e.signals (e.listeners.filter fun l => l.2 != (job, token))
    e.gated e.log).chores
  unfold drained
  dsimp only
  have htold (e' : Engine ν α) (h : e.Chores e') : e.Chores (if e.listeners.any (fun l => l.2 == (job, token))
      then e'.schedule 1 (.resumed job token outcome) else e') := by
    split
    · exact h.trans (Chore.schedule _ 1 _ rfl).chores
    · exact h
  refine htold _ ?_
  cases outcome with
  | ok u => exact hleft
  | error failure =>
    dsimp only
    split
    · split
      · exact hleft.trans (report_chores _ _)
      · exact hleft
    · exact hleft

theorem attemptEnded_chores [Channel α] [Stored α] [Transfer α] (e : Engine ν α) (job : JobId)
    (result : Except Failure (Raster ν α)) : e.Chores (e.attemptEnded job result) := by
  unfold attemptEnded
  split
  · exact .refl e
  · rename_i hc
    dsimp only
    split
    · have hreport := report_chores e
      exact (hreport _).trans (Chore.settle _ job _ ((hreport _).busy (busy_of_call hc))).chores
    · exact (Chore.settle e job _ (busy_of_call hc)).chores
  · rename_i c failure hc
    have hbusy := busy_of_call hc
    dsimp only
    split
    · have htrim := Pool.Uses.trim (e.report (.retrying (c.retries + 1) (e.config.retries.getD 0))).pool
      split
      all_goals
        rename_i heq
        rw [heq] at htrim
        have hpool := (report_chores e _).trans (Chore.pool _ _ htrim).chores
      · exact hpool.trans (startAttempt_chores (hpool.busy hbusy) _)
      · exact hpool.trans (Chore.settle _ job _ (hpool.busy hbusy)).chores
    · exact (Chore.settle e job _ hbusy).chores

theorem abort_chores (e : Engine ν α) (signal : SignalId) (reason : Option Raised) :
    e.Chores (e.abort signal reason) := by
  unfold abort
  split
  · exact .refl e
  · exact (Chore.note e e.config e.lossAnnounced _ _ e.gated e.log).chores.trans (scheduleAll_chores fun _ _ => rfl)

theorem lose_chores (e : Engine ν α) (message : String) : e.Chores (e.lose message) := by
  have hnote := (Chore.note e e.config true e.signals e.listeners e.gated e.log).chores
  unfold lose
  split
  · exact .refl e
  · dsimp only
    split
    · exact hnote.trans (Chore.schedule _ 1 _ rfl).chores
    · exact hnote

end Engine

end Strata
