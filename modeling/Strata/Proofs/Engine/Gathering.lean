import Strata.Proofs.Engine.Turns
import Strata.Proofs.Pipeline.Requests

/-!
# Pipelines gather

In a calm session every pipeline that a plan has asked for arrives. `Gathers` accounts for the places of
the plan that are still empty: each is waited for by one turn that brings a pipeline, or by one request
on a build whose end is among the turns. Firing turns fills one place after the other, and once all are
filled no turn is left but the plan's own (`Gathers.comes`).
-/

namespace Strata

variable {α : Type}

/-! ## Builds of a calm session -/

theorem Device.call_unfaulted {ν : Type} {d : Device ν α} (h : d.faults = []) (which : DeviceCall)
    (f : Device ν α → Device ν α) : d.call which f = (.ok (), f d) := by
  unfold Device.call
  rw [Pool.takeFault_of_not_mem fun r => by simp [h]]

namespace Cache

variable {W ν : Type}

theorem ensureLayout_ok {c : Cache W} {d : Device ν α} (h : d.faults = []) (kind : BindingKind) :
    ∃ c', c.ensureLayout d kind = (.ok (), c', d) := by
  unfold ensureLayout
  split
  · exact ⟨c, rfl⟩
  · rw [Device.call_unfaulted h]
    exact ⟨_, rfl⟩

theorem ensureModule_ok {c : Cache W} {d : Device ν α} (h : d.faults = []) (kind : SourceKind) :
    ∃ c' d', c.ensureModule d kind = (.ok (), c', d') ∧ d'.faults = [] ∧ d'.gate = d.gate := by
  unfold ensureModule
  split
  · exact ⟨c, d, rfl, h, rfl⟩
  · rw [Device.call_unfaulted h]
    exact ⟨_, _, rfl, h, rfl⟩

theorem request_new {c : Cache W} {key : PipelineKey} (hc : c.closing = none)
    (he : c.entry? key.text = none) (w : W) :
    c.request key w = (.started c.serials, { c with
      serials := c.serials + 1
      entries := c.entries ++ [(key.text, .building c.serials)]
      inFlight := c.inFlight ++ [⟨c.serials, key, c.epoch, [w]⟩] }) := by
  unfold request
  split
  · rename_i h
    rw [hc] at h
    cases h
  · rw [he]

theorem compile_ok {c : Cache W} {d : Device ν α} {key : PipelineKey} {a : Artifact} (h : d.faults = [])
    (hr : c.library.resolve key = some a) : ∃ c' d', c.compile d key = (.compiling d.gate, c', d') := by
  unfold compile
  rw [hr]
  obtain ⟨c₁, h₁⟩ := ensureLayout_ok (c := { c with builds := c.builds + 1 }) h a.program.bindings
  obtain ⟨c₂, d₂, h₂, hf, hg⟩ := ensureModule_ok (c := c₁) h a.sourceKind
  simp only [h₁, Device.call_unfaulted h, id, h₂, Device.call_unfaulted hf, hg]
  exact ⟨_, _, rfl⟩

theorem finish_ok {c : Cache W} (hc : c.closing = none) {s : Nat} {b : Build W}
    (hb : c.inFlight.find? (·.serial == s) = some b) (a : Artifact) :
    ∃ cache, c.finish s (.ok a) = (⟨b.waiters.map (·, .ok ⟨s, b.key, a⟩), none⟩, cache) ∧ cache.closing = none ∧
      cache.inFlight = c.inFlight.filter (·.serial != s) ∧ cache.serials = c.serials := by
  unfold finish
  rw [hb]
  dsimp only
  rw [if_neg (by simp [hc])]
  split <;> exact ⟨_, rfl, hc, rfl, rfl⟩

end Cache

/-! ## Places -/

def Turn.place? : Turn Int α → Option Nat
  | .pipelineArrived _ i (.ok _) => some i
  | _ => none

def Turn.built? : Turn Int α → Option Nat
  | .buildEnded s (.ok _) => some s
  | _ => none

def PipelineWaiter.place? : PipelineWaiter → Option Nat
  | .step _ i => some i
  | .lookup _ => none

namespace Engine

section
variable {e e' e'' : Engine Int α}

/-- Nothing is submitted, aborted or answered. -/
structure Rests (e e' : Engine Int α) : Prop where
  session : e'.session = e.session
  completion : e'.completion = e.completion
  signals : e'.signals = e.signals
  listeners : e'.listeners = e.listeners
  config : e'.config = e.config
  settled : e'.settled = e.settled

theorem Rests.refl (e : Engine Int α) : e.Rests e := ⟨rfl, rfl, rfl, rfl, rfl, rfl⟩

theorem Rests.trans (h : e.Rests e') (h' : e'.Rests e'') : e.Rests e'' :=
  ⟨h'.session.trans h.session, h'.completion.trans h.completion, h'.signals.trans h.signals,
    h'.listeners.trans h.listeners, h'.config.trans h.config, h'.settled.trans h.settled⟩

/-- Only builds, calls, turns and reports differ. -/
structure Keeps (e e' : Engine Int α) : Prop extends e.Rests e' where
  arena : e'.pool.arena = e.pool.arena
  device : e.pool.device.Steady e'.pool.device
  buffers : e'.pool.device.buffers = e.pool.device.buffers
  limit : e'.pool.device.maxAllocation = e.pool.device.maxAllocation
  plans : e'.plans = e.plans

theorem Keeps.refl (e : Engine Int α) : e.Keeps e := ⟨.refl e, rfl, .refl _, rfl, rfl, rfl⟩

theorem Keeps.trans (h : e.Keeps e') (h' : e'.Keeps e'') : e.Keeps e'' :=
  ⟨h.toRests.trans h'.toRests, h'.arena.trans h.arena, h.device.trans h'.device, h'.buffers.trans h.buffers,
    h'.limit.trans h.limit, h'.plans.trans h.plans⟩

theorem Aside.keeps (h : e.Aside e') : e.Keeps e' := by
  obtain ⟨cache, device, turns, gated, rfl, -, hd, hb, hm⟩ := h
  exact ⟨⟨rfl, rfl, rfl, rfl, rfl, rfl⟩, rfl, hd, hb, hm, rfl⟩

/-- The places that pipelines are still on their way to. -/
def coming (e : Engine Int α) : List Nat :=
  e.turns.filterMap (·.2.place?) ++ (e.cache.inFlight.flatMap (·.waiters)).filterMap (·.place?)

/-- Pipelines are on their way to some places of a call, those that are `kept` apart. -/
structure Gathers (e : Engine Int α) (job : JobId) (kept places : List Nat) : Prop where
  calm : e.Calm
  turns : ∀ t ∈ e.turns, (∃ i q, t.2 = .pipelineArrived job i (.ok q)) ∨ ∃ s a, t.2 = .buildEnded s (.ok a)
  ends : (e.turns.filterMap (·.2.built?)).Perm (e.cache.inFlight.map (·.serial))
  nodup : (e.cache.inFlight.map (·.serial)).Nodup
  started : ∀ b ∈ e.cache.inFlight, b.serial < e.cache.serials
  waited : ∀ b ∈ e.cache.inFlight, b.waiters ≠ [] ∧ ∀ w ∈ b.waiters, ∃ i, w = .step job i
  awaited : (e.coming ++ kept).Perm places

/-- Entries that are being built belong to a build in flight. -/
def Attended (e : Engine Int α) : Prop :=
  ∀ id s, (id, .building s) ∈ e.cache.entries → s ∈ e.cache.inFlight.map (·.serial)

variable {job : JobId} {kept places : List Nat}

theorem startBuild_ok (h : e.Calm) {key : PipelineKey} {a : Artifact} (hr : e.cache.library.resolve key = some a)
    (serial : Nat) : ∃ cache device, e.startBuild serial key =
      ({ e with cache, pool := { e.pool with device } } : Engine Int α).schedule 2 (.buildEnded serial (.ok a)) ∧
        e.cache.Compiles e.pool.device cache device := by
  have hc := e.cache.compile_compiles e.pool.device key
  obtain ⟨cache, device, hcompile⟩ := Cache.compile_ok (c := e.cache) h.faults hr
  rw [hcompile] at hc
  rw [h.gate] at hcompile
  dsimp only at hc
  have hanswer : cache.compiled device key = .ok a := by
    unfold Cache.compiled
    rw [hc.device.refusesBuilds, h.builds, hc.library, hr]
    rfl
  unfold startBuild
  rw [hcompile]
  dsimp only
  rw [hanswer]
  exact ⟨cache, device, rfl, hc⟩

/-! ## Requests -/

theorem requestPipeline_ready (h : e.Calm) {key : PipelineKey} {p : Pipeline}
    (hp : e.cache.entry? key.text = some (.ready p)) (w : PipelineWaiter) :
    e.requestPipeline key w = (some (.ok p), e) := by
  unfold requestPipeline Cache.request
  rw [h.accepts]
  dsimp only
  rw [hp]

theorem requestPipeline_joined (h : e.Calm) {key : PipelineKey} {s : Nat}
    (hp : e.cache.entry? key.text = some (.building s)) (w : PipelineWaiter) :
    e.requestPipeline key w = (none, { e with cache := e.cache.join s w }) := by
  unfold requestPipeline Cache.request
  rw [h.accepts]
  dsimp only
  rw [hp]

theorem requestPipeline_started (h : e.Calm) {key : PipelineKey} {a : Artifact}
    (hp : e.cache.entry? key.text = none) (hr : e.cache.library.resolve key = some a) (w : PipelineWaiter) :
    ∃ cache device, e.requestPipeline key w =
      (none, ({ e with cache, pool := { e.pool with device } } : Engine Int α).schedule 2
        (.buildEnded e.cache.serials (.ok a))) ∧
      e.pool.device.Steady device ∧ cache.library = e.cache.library ∧ cache.closing = e.cache.closing ∧
      cache.serials = e.cache.serials + 1 ∧
      cache.entries = e.cache.entries ++ [(key.text, .building e.cache.serials)] ∧
      cache.inFlight = e.cache.inFlight ++ [⟨e.cache.serials, key, e.cache.epoch, [w]⟩] := by
  obtain ⟨cache, device, hstart, hc⟩ := startBuild_ok (e := { e with cache := { e.cache with
    serials := e.cache.serials + 1
    entries := e.cache.entries ++ [(key.text, .building e.cache.serials)]
    inFlight := e.cache.inFlight ++ [⟨e.cache.serials, key, e.cache.epoch, [w]⟩] } }) { h with } hr e.cache.serials
  refine ⟨cache, device, ?_, hc.device, hc.library, hc.closing, hc.serials, hc.entries, hc.inFlight⟩
  unfold requestPipeline
  rw [Cache.request_new h.accepts hp]
  exact congrArg (Prod.mk none) hstart

theorem Gathers.join (h : e.Gathers job kept places) {s : Nat} (hs : s ∈ e.cache.inFlight.map (·.serial))
    (i : Nat) :
    ({ e with cache := e.cache.join s (.step job i) } : Engine Int α).Gathers job kept (places ++ [i]) := by
  have hserials := e.cache.serials_join s (.step job i)
  have hback {b : Build PipelineWaiter} (hb : b ∈ (e.cache.join s (.step job i)).inFlight) :
      ∃ b' ∈ e.cache.inFlight,
      b.serial = b'.serial ∧ (b.waiters = b'.waiters ∨ b.waiters = b'.waiters ++ [.step job i]) := by
    obtain ⟨b', hb', rfl⟩ := List.mem_map.mp hb
    refine ⟨b', hb', ?_⟩
    split
    · exact ⟨rfl, .inr rfl⟩
    · exact ⟨rfl, .inl rfl⟩
  have hawaited : ({ e with cache := e.cache.join s (.step job i) } : Engine Int α).coming.Perm
      (e.coming ++ [i]) := by
    have hw := (Cache.waiters_join h.nodup hs (.step job i)).filterMap (·.place?)
    rw [List.filterMap_append] at hw
    unfold coming
    rw [List.append_assoc]
    exact hw.append_left _
  refine ⟨{ h.calm with }, h.turns, hserials ▸ h.ends, hserials ▸ h.nodup, fun b hb => ?_, fun b hb => ?_, ?_⟩
  · obtain ⟨b', hb', hs', -⟩ := hback hb
    rw [hs']
    exact h.started b' hb'
  · obtain ⟨b', hb', -, hw⟩ := hback hb
    obtain ⟨hne, hsteps⟩ := h.waited b' hb'
    rcases hw with hw | hw
    · rw [hw]
      exact ⟨hne, hsteps⟩
    · rw [hw]
      refine ⟨by simp, fun w hm => ?_⟩
      rcases List.mem_append.mp hm with hm | hm
      · exact hsteps w hm
      · exact ⟨i, List.mem_singleton.mp hm⟩
  · refine (hawaited.append_right kept).trans (List.Perm.trans ?_ (h.awaited.append_right [i]))
    rw [List.append_assoc, List.append_assoc]
    exact List.perm_append_comm.append_left _

theorem Gathers.start (h : e.Gathers job kept places) {cache : Cache PipelineWaiter} {device : Device Int α}
    {key : PipelineKey} {a : Artifact} {i : Nat} (hd : e.pool.device.Steady device)
    (hclosing : cache.closing = e.cache.closing) (hserials : cache.serials = e.cache.serials + 1)
    (hflight : cache.inFlight = e.cache.inFlight ++ [⟨e.cache.serials, key, e.cache.epoch, [.step job i]⟩]) :
    (({ e with cache, pool := { e.pool with device } } : Engine Int α).schedule 2
      (.buildEnded e.cache.serials (.ok a))).Gathers job kept (places ++ [i]) := by
  have hmap : cache.inFlight.map (·.serial) = e.cache.inFlight.map (·.serial) ++ [e.cache.serials] := by
    rw [hflight, List.map_append]
    rfl
  -- the new build is above all others, and waits for place `i` only
  have hnew (b : Build PipelineWaiter) (hb : b ∈ cache.inFlight) :
      b ∈ e.cache.inFlight ∨ b = ⟨e.cache.serials, key, e.cache.epoch, [.step job i]⟩ := by
    rw [hflight] at hb
    exact (List.mem_append.mp hb).imp_right List.mem_singleton.mp
  refine ⟨h.calm.steady rfl hclosing hd, fun t ht => ?_, ?_, ?_, fun b hb => ?_, fun b hb => ?_, ?_⟩
  · rcases List.mem_append.mp ht with ht | ht
    · exact h.turns t ht
    · exact .inr ⟨_, a, by rw [List.mem_singleton.mp ht]⟩
  · have hturns : (e.turns ++ [(2, Turn.buildEnded e.cache.serials (.ok a))]).filterMap
        (fun t : Nat × Turn Int α => t.2.built?) = e.turns.filterMap (·.2.built?) ++ [e.cache.serials] :=
      List.filterMap_append
    unfold schedule
    dsimp only
    rw [hturns, hmap]
    exact h.ends.append_right _
  · show (cache.inFlight.map (·.serial)).Nodup
    rw [hmap]
    refine List.nodup_append.mpr ⟨h.nodup, List.nodup_singleton _, fun x hx y hy hxy => ?_⟩
    obtain ⟨b, hb, rfl⟩ := List.mem_map.mp hx
    rw [List.mem_singleton.mp hy] at hxy
    exact Nat.ne_of_lt (h.started b hb) hxy
  · have hb : b ∈ cache.inFlight := hb
    show b.serial < cache.serials
    rw [hserials]
    rcases hnew b hb with hb | rfl
    · exact Nat.lt_succ_of_lt (h.started b hb)
    · exact Nat.lt_succ_self _
  · rcases hnew b hb with hb | rfl
    · exact h.waited b hb
    · exact ⟨List.cons_ne_nil _ _, fun w hw => ⟨i, List.mem_singleton.mp hw⟩⟩
  · have hawaited : (({ e with cache, pool := { e.pool with device } } : Engine Int α).schedule 2
        (.buildEnded e.cache.serials (.ok a))).coming = e.coming ++ [i] := by
      unfold coming schedule
      dsimp only
      rw [hflight, List.filterMap_append, List.flatMap_append, List.filterMap_append, List.append_assoc]
      simp [Turn.place?, PipelineWaiter.place?]
    rw [hawaited, List.append_assoc]
    refine (List.perm_append_comm.append_left _).trans ?_
    rw [← List.append_assoc]
    exact h.awaited.append_right [i]

/-- A request is met at once, or a place more is waited for. -/
theorem requestPipeline_gathers (h : e.Gathers job kept places) (ha : e.Attended) {key : PipelineKey} {a : Artifact}
    (hr : e.cache.library.resolve key = some a) (i : Nat) :
    let r := e.requestPipeline key (.step job i)
    r.2.Attended ∧ r.2.cache.library = e.cache.library ∧
      ((r.1 = none ∧ r.2.Gathers job kept (places ++ [i])) ∨
        ∃ p, r.1 = some (.ok p) ∧ r.2.Gathers job (kept ++ [i]) (places ++ [i])) := by
  dsimp only
  cases hentry : e.cache.entry? key.text with
  | none =>
    obtain ⟨cache, device, heq, hd, hlibrary, hclosing, hserials, hentries, hflight⟩ :=
      requestPipeline_started h.calm hentry hr (.step job i)
    rw [heq]
    refine ⟨fun id s hm => ?_, hlibrary, .inl ⟨rfl, h.start hd hclosing hserials hflight⟩⟩
    show s ∈ cache.inFlight.map (·.serial)
    have hm : (id, CacheEntry.building s) ∈ cache.entries := hm
    rw [hentries] at hm
    rw [hflight, List.map_append]
    rcases List.mem_append.mp hm with hm | hm
    · exact List.mem_append_left _ (ha id s hm)
    · cases List.mem_singleton.mp hm
      exact List.mem_append_right _ (List.mem_singleton_self _)
  | some entry =>
    cases entry with
    | ready p =>
      rw [requestPipeline_ready h.calm hentry]
      refine ⟨ha, rfl, .inr ⟨p, rfl, { h with awaited := ?_ }⟩⟩
      rw [← List.append_assoc]
      exact h.awaited.append_right [i]
    | building s =>
      have hs := ha _ _ (Cache.mem_of_entry hentry)
      rw [requestPipeline_joined h.calm hentry]
      refine ⟨fun id s' hm => ?_, rfl, .inl ⟨rfl, h.join hs i⟩⟩
      show s' ∈ (e.cache.join s (.step job i)).inFlight.map (·.serial)
      rw [Cache.serials_join]
      exact ha id s' hm

theorem Gathers.arrive {i : Nat} (h : e.Gathers job (i :: kept) places) (p : Pipeline) :
    (e.schedule 1 (.pipelineArrived job i (.ok p))).Gathers job kept places := by
  refine ⟨{ h.calm with }, fun t ht => ?_, ?_, h.nodup, h.started, h.waited, ?_⟩
  · rcases List.mem_append.mp ht with ht | ht
    · exact h.turns t ht
    · exact .inl ⟨i, p, by rw [List.mem_singleton.mp ht]⟩
  · unfold schedule
    dsimp only
    rw [List.filterMap_append]
    simpa [Turn.built?] using h.ends
  · have hcoming : (e.schedule 1 (.pipelineArrived job i (.ok p))).coming =
        e.turns.filterMap (·.2.place?) ++ ([i] ++ (e.cache.inFlight.flatMap (·.waiters)).filterMap (·.place?)) := by
      unfold coming schedule
      dsimp only
      rw [List.filterMap_append, List.append_assoc]
      rfl
    rw [hcoming]
    refine List.Perm.trans ?_ h.awaited
    unfold coming
    rw [List.append_assoc, List.append_assoc, List.append_assoc]
    exact (List.perm_append_comm_assoc _ _ _).append_left _

/-- The steps, from the `i`th on, that were answered at once. -/
def answeredAt : (i : Nat) → List (Option (Except Failure Pipeline)) → List Nat
  | _, [] => []
  | i, none :: rest => answeredAt (i + 1) rest
  | i, some _ :: rest => i :: answeredAt (i + 1) rest

theorem requestSteps_gathers (h : e.Gathers job kept places) (ha : e.Attended) (i : Nat)
    {steps : List (PlanStep Int α)} (hr : ∀ step ∈ steps, (e.cache.library.resolve step.key).isSome = true) :
    let r := e.requestSteps job i steps
    r.2.Gathers job (kept ++ answeredAt i r.1) (places ++ List.range' i steps.length) ∧
      ∀ x, some x ∈ r.1 → ∃ p, x = .ok p := by
  induction steps generalizing e i kept places with
  | nil => exact ⟨by simpa [requestSteps, answeredAt] using h, fun x hx => absurd hx List.not_mem_nil⟩
  | cons step steps ih =>
    obtain ⟨a, hstep⟩ := Option.isSome_iff_exists.mp (hr step (List.mem_cons_self ..))
    obtain ⟨ha', hl, hmet⟩ := requestPipeline_gathers h ha hstep i
    unfold requestSteps
    generalize e.requestPipeline step.key (.step job i) = r at ha' hl hmet
    obtain ⟨reply, e'⟩ := r
    dsimp only at ha' hl hmet ⊢
    have hrest : ∀ s ∈ steps, (e'.cache.library.resolve s.key).isSome = true := by
      rw [hl]
      exact fun s hs => hr s (List.mem_cons_of_mem _ hs)
    rw [List.length_cons, List.range'_succ, List.append_cons places]
    rcases hmet with ⟨rfl, h'⟩ | ⟨p, rfl, h'⟩
    · obtain ⟨hg, hok⟩ := ih h' ha' (i + 1) hrest
      refine ⟨hg, fun x hx => ?_⟩
      rcases List.mem_cons.mp hx with hx | hx
      · cases hx
      · exact hok x hx
    · obtain ⟨hg, hok⟩ := ih h' ha' (i + 1) hrest
      refine ⟨?_, fun x hx => ?_⟩
      · unfold answeredAt
        rw [List.append_cons kept]
        exact hg
      · rcases List.mem_cons.mp hx with hx | hx
        · cases hx
          exact ⟨p, rfl⟩
        · exact hok x hx

theorem arriveNow_gathers {i : Nat} {replies : List (Option (Except Failure Pipeline))}
    (h : e.Gathers job (answeredAt i replies) places) (hok : ∀ x, some x ∈ replies → ∃ p, x = .ok p) :
    (e.arriveNow job i replies).Gathers job [] places := by
  induction replies generalizing e i with
  | nil => exact h
  | cons reply replies ih =>
    have hrest : ∀ x, some x ∈ replies → ∃ p, x = .ok p := fun x hx => hok x (List.mem_cons_of_mem _ hx)
    cases reply with
    | none => exact ih h hrest
    | some x =>
      obtain ⟨p, rfl⟩ := hok x (List.mem_cons_self ..)
      exact ih (h.arrive p) hrest

/-! ## Arrivals -/

theorem answerAll_gathers {waiters : List PipelineWaiter} (hw : ∀ w ∈ waiters, ∃ i, w = .step job i)
    (h : e.Gathers job (waiters.filterMap (·.place?)) places) (p : Pipeline) :
    let e' := e.answerAll (waiters.map (·, .ok p))
    e'.Gathers job [] places ∧ e.Keeps e' ∧ e'.cache = e.cache ∧ e'.jobs = e.jobs := by
  induction waiters generalizing e with
  | nil => exact ⟨h, .refl e, rfl, rfl⟩
  | cons w waiters ih =>
    obtain ⟨i, rfl⟩ := hw w (List.mem_cons_self ..)
    obtain ⟨hg, hk, hc, hj⟩ := ih (fun w hm => hw w (List.mem_cons_of_mem _ hm)) (Gathers.arrive h p)
    exact ⟨hg, (Aside.schedule e 1 _).keeps.trans hk, hc, hj⟩

theorem Gathers.finish (h : e.Gathers job [] places) {delay s : Nat} {a : Artifact} {rest : List (Nat × Turn Int α)}
    (ht : e.turns = (delay, .buildEnded s (.ok a)) :: rest) :
    let e' := ({ e with turns := rest } : Engine Int α).buildEnded s (.ok a)
    e'.Gathers job [] places ∧ e.Keeps e' ∧ e'.cache.inFlight.length < e.cache.inFlight.length ∧
      e'.jobs = e.jobs := by
  have hends := h.ends
  rw [ht, List.filterMap_cons] at hends
  have hin : s ∈ e.cache.inFlight.map (·.serial) := hends.subset (List.mem_cons_self ..)
  obtain ⟨b, hb⟩ : ∃ b, e.cache.inFlight.find? (·.serial == s) = some b := by
    obtain ⟨b, hb, rfl⟩ := List.mem_map.mp hin
    exact Option.isSome_iff_exists.mp (List.find?_isSome.mpr ⟨b, hb, beq_self_eq_true _⟩)
  have hserial : b.serial = s := by simpa using List.find?_some hb
  have hperm := Cache.perm_of_find h.nodup hb
  obtain ⟨cache, hfinish, hclosing, hflight, hserials⟩ := Cache.finish_ok h.calm.accepts hb a
  have hsub : cache.inFlight ⊆ e.cache.inFlight := by
    rw [hflight]
    exact List.filter_subset_self _
  -- the waiters of the build that ended are kept apart until they are answered
  have hrest : ({ e with cache, turns := rest } : Engine Int α).Gathers job
      (b.waiters.filterMap (·.place?)) places := by
    refine ⟨{ h.calm with accepts := hclosing }, fun t hm => ?_, ?_, ?_, fun b hb => ?_, fun b hb => ?_, ?_⟩
    · apply h.turns t
      rw [ht]
      exact List.mem_cons_of_mem _ hm
    · show (rest.filterMap (·.2.built?)).Perm (cache.inFlight.map (·.serial))
      rw [hflight]
      have hmap := hperm.map (·.serial)
      rw [List.map_cons, hserial] at hmap
      exact (hends.trans hmap).cons_inv
    · show (cache.inFlight.map (·.serial)).Nodup
      rw [hflight]
      exact h.nodup.sublist (List.filter_sublist.map _)
    · show b.serial < cache.serials
      rw [hserials]
      exact h.started b (hsub hb)
    · exact h.waited b (hsub hb)
    · refine List.Perm.trans ?_ h.awaited
      have hplaces := (hperm.flatMap_right (·.waiters)).filterMap (·.place?)
      rw [List.flatMap_cons, List.filterMap_append] at hplaces
      unfold coming
      dsimp only
      rw [hflight, ht, List.append_assoc, List.append_nil]
      exact ((hplaces.trans List.perm_append_comm).symm).append_left _
  unfold buildEnded
  dsimp only
  rw [hfinish]
  dsimp only
  obtain ⟨hg, hk, hc, hj⟩ := answerAll_gathers (h.waited b (List.mem_of_find?_eq_some hb)).2 hrest ⟨s, b.key, a⟩
  refine ⟨hg, { hk with }, ?_, hj⟩
  rw [hc]
  dsimp only
  rw [hflight, hperm.length_eq]
  exact Nat.lt_succ_self _

def empties (arrived : List (Option Pipeline)) : List Nat :=
  (List.range arrived.length).filter fun i => arrived[i]?.join.isNone

theorem empties_set (arrived : List (Option Pipeline)) (i : Nat) (q : Pipeline) :
    empties (arrived.set i (some q)) = (empties arrived).erase i := by
  unfold empties
  rw [(List.nodup_range.filter _).erase_eq_filter, List.filter_filter, List.length_set]
  refine List.filter_congr fun k hk => ?_
  have hk := List.mem_range.mp hk
  by_cases hki : k = i
  · subst hki
    simp [hk]
  · rw [List.getElem?_set_ne (Ne.symm hki)]
    simp [hki]

theorem empties_eq_nil {arrived : List (Option Pipeline)} :
    empties arrived = [] ↔ arrived.all Option.isSome = true := by
  unfold empties
  rw [List.filter_eq_nil_iff, List.all_eq_true]
  constructor
  · intro h x hx
    obtain ⟨k, hk, rfl⟩ := List.mem_iff_getElem.mp hx
    have := h k (List.mem_range.mpr hk)
    rw [List.getElem?_eq_getElem hk] at this
    cases hx : arrived[k] with
    | none => simp [hx] at this
    | some q => rfl
  · intro h k hk
    have hk := List.mem_range.mp hk
    have := h arrived[k] (List.getElem_mem hk)
    rw [List.getElem?_eq_getElem hk]
    cases hx : arrived[k] with
    | none => simp [hx] at this
    | some q => simp

theorem empties_replicate (n : Nat) : empties (List.replicate n none) = List.range' 0 n := by
  unfold empties
  rw [List.length_replicate, ← List.range_eq_range', List.filter_eq_self]
  intro k hk
  have hk := List.mem_range.mp hk
  simp [hk]

theorem planning?_of_call {c : CompositeCall Int α} {p : Planning Int α} (hc : e.call? job = some c)
    (hp : c.phase = .planning p) : e.planning? job = some p := by
  unfold planning?
  rw [call?_eq.mp hc]
  obtain ⟨layers, outputFormat, signal, verifies, retries, held, phase⟩ := c
  dsimp only at hp
  rw [hp]

theorem Gathers.take (h : e.Gathers job [] places) {delay i : Nat} {q : Pipeline} {rest : List (Nat × Turn Int α)}
    (ht : e.turns = (delay, .pipelineArrived job i (.ok q)) :: rest) :
    ({ e with turns := rest } : Engine Int α).Gathers job [] (places.erase i) := by
  refine ⟨{ h.calm with }, fun t hm => ?_, ?_, h.nodup, h.started, h.waited, ?_⟩
  · apply h.turns t
    rw [ht]
    exact List.mem_cons_of_mem _ hm
  · have hends := h.ends
    rw [ht] at hends
    exact hends
  · have hcoming : e.coming = i :: ({ e with turns := rest } : Engine Int α).coming := by
      unfold coming
      rw [ht]
      rfl
    have hall := h.awaited
    rw [List.append_nil, hcoming] at hall
    rw [List.append_nil]
    exact (List.cons_perm_iff_perm_erase.mp hall).2

theorem Gathers.putBack (h : e.Gathers job [] places) {delay : Nat} {t : Turn Int α}
    {rest : List (Nat × Turn Int α)} (ht : e.turns = (delay, t) :: rest) (delay' : Nat) :
    ({ e with turns := rest ++ [(delay', t)] } : Engine Int α).Gathers job [] places := by
  have hfilter {β : Type} (f : Turn Int α → Option β) : ((rest ++ [(delay', t)]).filterMap fun x => f x.2).Perm
      (e.turns.filterMap fun x => f x.2) := by
    rw [ht]
    refine ((List.perm_append_comm).filterMap _).trans ?_
    rfl
  refine ⟨{ h.calm with }, fun x hx => ?_, (hfilter _).trans h.ends, h.nodup, h.started, h.waited, ?_⟩
  · rcases List.mem_append.mp hx with hx | hx
    · apply h.turns x
      rw [ht]
      exact List.mem_cons_of_mem _ hx
    · rw [List.mem_singleton.mp hx]
      exact h.turns (delay, t) (by rw [ht]; exact List.mem_cons_self ..)
  · exact (((hfilter Turn.place?).append_right _).append_right _).trans h.awaited

end

/-! ## The last arrival -/

section
variable [Channel α] [Stored α] [Transfer α] {e e' e'' : Engine Int α} {job : JobId}

/-- All pipelines of a draft are there, and no turn is left but its own. -/
structure Gathered (e : Engine Int α) (job : JobId) (c : CompositeCall Int α) (draft : Draft Int α)
    (e' : Engine Int α) : Prop where
  comes : e.Comes e'
  keeps : e.Keeps e'
  calm : e'.Calm
  turns : ∃ pipelines, e'.turns = [(1, .planReady job (.ok pipelines))]
  call : ∃ p, e'.call? job = some { c with phase := .planning p } ∧ p.draft = draft

omit [Channel α] [Stored α] [Transfer α] in
theorem Gathers.keep {kept places : List Nat} (h : e.Gathers job kept places) (hcalm : e'.Calm)
    (hcache : e'.cache = e.cache) (hturns : e'.turns = e.turns) : e'.Gathers job kept places := by
  refine ⟨hcalm, ?_, ?_, ?_, ?_, ?_, ?_⟩
  · rw [hturns]
    exact h.turns
  · rw [hturns, hcache]
    exact h.ends
  · rw [hcache]
    exact h.nodup
  · rw [hcache]
    exact h.started
  · rw [hcache]
    exact h.waited
  · unfold coming
    rw [hturns, hcache]
    exact h.awaited

omit [Channel α] [Stored α] [Transfer α] in
theorem Gathers.idle (h : e.Gathers job [] []) : e.turns = [] := by
  have hcoming : e.turns.filterMap (·.2.place?) = [] ∧
      (e.cache.inFlight.flatMap (·.waiters)).filterMap (·.place?) = [] := by
    have := h.awaited.eq_nil
    rw [List.append_nil] at this
    exact List.append_eq_nil_iff.mp this
  have hflight : e.cache.inFlight = [] := by
    refine List.eq_nil_iff_forall_not_mem.mpr fun b hb => ?_
    obtain ⟨hne, hsteps⟩ := h.waited b hb
    obtain ⟨w, hw⟩ := List.exists_mem_of_ne_nil _ hne
    obtain ⟨i, rfl⟩ := hsteps w hw
    have := List.filterMap_eq_nil_iff.mp hcoming.2 _ (List.mem_flatMap.mpr ⟨b, hb, hw⟩)
    cases this
  have hends : e.turns.filterMap (·.2.built?) = [] := by
    have := h.ends
    rw [hflight] at this
    exact this.eq_nil
  refine List.eq_nil_iff_forall_not_mem.mpr fun t ht => ?_
  rcases h.turns t ht with ⟨i, q, he⟩ | ⟨s, a, he⟩
  · have := List.filterMap_eq_nil_iff.mp hcoming.1 t ht
    rw [he] at this
    cases this
  · have := List.filterMap_eq_nil_iff.mp hends t ht
    rw [he] at this
    cases this

structure Awaits (e : Engine Int α) (job : JobId) (c : CompositeCall Int α) (p : Planning Int α) : Prop where
  gathers : e.Gathers job [] (empties p.arrived)
  call : e.call? job = some { c with phase := .planning p }
  ended : p.ended = false
  empty : empties p.arrived ≠ []

omit [Channel α] [Stored α] [Transfer α] in
theorem Awaits.turns_ne_nil {c : CompositeCall Int α} {p : Planning Int α} (h : e.Awaits job c p) :
    e.turns ≠ [] := by
  intro ht
  have hends := h.gathers.ends
  rw [ht] at hends
  have hflight : e.cache.inFlight = [] := List.map_eq_nil_iff.mp hends.symm.eq_nil
  have hawaited := h.gathers.awaited
  unfold coming at hawaited
  rw [ht, hflight] at hawaited
  exact h.empty hawaited.symm.eq_nil

omit [Channel α] [Stored α] [Transfer α] in
theorem Keeps.setCall (e : Engine Int α) (c : CompositeCall Int α) : e.Keeps (e.setCall job c) :=
  { Keeps.refl e with }

omit [Channel α] [Stored α] [Transfer α] in
theorem Awaits.arrive {c : CompositeCall Int α} {p : Planning Int α} (h : e.Awaits job c p) {delay i : Nat}
    {q : Pipeline} {rest : List (Nat × Turn Int α)}
    (ht : e.turns = (delay, .pipelineArrived job i (.ok q)) :: rest) :
    let e' := ({ e with turns := rest } : Engine Int α).pipelineArrived job i (.ok q)
    e.Keeps e' ∧ e'.cache = e.cache ∧ e'.Calm ∧
      ((∃ p', e'.Awaits job c p' ∧ p'.draft = p.draft ∧ e'.turns = rest) ∨
        (∃ pipelines, e'.turns = [(1, .planReady job (.ok pipelines))]) ∧
          ∃ p', e'.call? job = some { c with phase := .planning p' } ∧ p'.draft = p.draft) := by
  have htake := h.gathers.take ht
  have hcall : ({ e with turns := rest } : Engine Int α).call? job = some { c with phase := .planning p } := h.call
  have hlt := lt_of_call? hcall
  have hset (p' : Planning Int α) := call?_setCall_self hlt { c with phase := .planning p' }
  rw [← empties_set] at htake
  unfold pipelineArrived
  rw [planning?_of_call hcall rfl]
  dsimp only
  rw [h.ended, if_neg Bool.false_ne_true]
  have hcalm : ({ e with turns := rest } : Engine Int α).Calm := { h.gathers.calm with }
  split
  · rename_i hall
    rw [setPlanning_eq hcall]
    rw [empties_eq_nil.mpr hall] at htake
    have hidle := htake.idle
    dsimp only at hidle
    refine ⟨{ Keeps.refl e with }, rfl, { hcalm with },
      .inr ⟨⟨(p.arrived.set i (some q)).filterMap id, ?_⟩, _, hset _, rfl⟩⟩
    unfold schedule
    show rest ++ _ = _
    rw [hidle]
    rfl
  · rename_i hall
    rw [setPlanning_eq hcall]
    have hgathers := @Gathers.keep _ _ (({ e with turns := rest } : Engine Int α).setCall job
      { c with phase := .planning ⟨p.draft, p.arrived.set i (some q), false⟩ }) _ _ _ htake { hcalm with } rfl rfl
    refine ⟨{ Keeps.refl e with }, rfl, { hcalm with }, .inl ⟨⟨p.draft, p.arrived.set i (some q), false⟩,
      ⟨hgathers, hset _, rfl, ?_⟩, rfl, rfl⟩⟩
    exact fun hnil => hall (empties_eq_nil.mp hnil)

/-- The next turn brings the call further: a pipeline arrives, a build ends, or a turn has less to wait. -/
theorem Awaits.fire {c : CompositeCall Int α} {p : Planning Int α} (h : e.Awaits job c p) :
    e.Gathered job c p.draft e.fire ∨ ∃ p', e.Keeps e.fire ∧ e.fire.Awaits job c p' ∧ p'.draft = p.draft ∧
      Prod.Lex (· < ·) (· < ·) (e.fire.cache.inFlight.length, (e.fire.turns.map (·.1 + 1)).sum)
        (e.cache.inFlight.length, (e.turns.map (·.1 + 1)).sum) := by
  obtain ⟨⟨delay, t⟩, rest, ht⟩ := List.exists_cons_of_ne_nil h.turns_ne_nil
  by_cases hd : delay ≤ 1
  · have hkind := h.gathers.turns (delay, t) (by rw [ht]; exact List.mem_cons_self ..)
    rcases hkind with ⟨i, q, rfl⟩ | ⟨s, a, rfl⟩
    · have hfire : e.fire = ({ e with turns := rest } : Engine Int α).pipelineArrived job i (.ok q) :=
        fire_due ht hd
      obtain ⟨hkeeps, hcache, hcalm, hnext⟩ := h.arrive ht
      rw [← hfire] at hkeeps hcache hcalm hnext
      rcases hnext with ⟨p', hawaits, hdraft, hturns⟩ | ⟨hturns, hcall⟩
      · refine .inr ⟨p', hkeeps, hawaits, hdraft, ?_⟩
        rw [hturns, hcache, ht, List.map_cons, List.sum_cons]
        exact .right _ (by omega)
      · exact .inl ⟨Comes.fire e, hkeeps, hcalm, hturns, hcall⟩
    · have hfire : e.fire = ({ e with turns := rest } : Engine Int α).buildEnded s (.ok a) := fire_due ht hd
      obtain ⟨hgathers, hkeeps, hlt, hjobs⟩ := h.gathers.finish ht
      rw [← hfire] at hgathers hkeeps hlt hjobs
      refine .inr ⟨p, hkeeps, ⟨hgathers, ?_, h.ended, h.empty⟩, rfl, .left _ _ hlt⟩
      rw [call?_eq, hjobs]
      exact call?_eq.mp h.call
  · rw [fire_put_back ht hd]
    refine .inr ⟨p, { Keeps.refl e with }, ⟨h.gathers.putBack ht _, h.call, h.ended, h.empty⟩, rfl, .right _ ?_⟩
    simp only [ht, List.map_append, List.map_cons, List.map_nil, List.sum_append, List.sum_cons, List.sum_nil]
    omega

theorem Awaits.comes {e : Engine Int α} {c : CompositeCall Int α} {p : Planning Int α} (h : e.Awaits job c p) :
    ∃ e', e.Gathered job c p.draft e' := by
  rcases h.fire with hdone | ⟨p', hkeeps, hawaits, hdraft, hlt⟩
  · exact ⟨_, hdone⟩
  · obtain ⟨e', hg⟩ := hawaits.comes
    rw [hdraft] at hg
    exact ⟨e', (Comes.fire e).trans hg.comes, hkeeps.trans hg.keeps, hg.calm, hg.turns, hg.call⟩
termination_by (e.cache.inFlight.length, (e.turns.map (·.1 + 1)).sum)
decreasing_by exact hlt

/-! ## The first requests -/

omit [Channel α] [Stored α] [Transfer α] in
theorem attended_of_pending (h : e.cache.pendingCount = 0) : e.Attended := by
  intro id s hm
  have := List.countP_eq_zero.mp h _ hm
  simp at this

omit [Channel α] [Stored α] [Transfer α] in
theorem beginPlanning_awaits (hcalm : e.Calm) (hturns : e.turns = []) (hbuilds : e.cache.inFlight = [])
    (hentries : e.cache.pendingCount = 0) (hj : job < e.jobs.size) {stack : List (BlendDescriptor Int α)}
    {uploads : List (Upload α)} {draft : Draft Int α}
    (hcheck : Draft.check e.pool.arena e.capabilities e.cache.library stack uploads = .ok draft)
    (hne : draft.steps ≠ []) (hr : ∀ step ∈ draft.steps, (e.cache.library.resolve step.key).isSome = true)
    (c : CompositeCall Int α) :
    ∃ e' p, e.beginPlanning job stack uploads = (.ok p, e') ∧ p.draft = draft ∧ e.Keeps e' ∧
      (e'.setCall job { c with phase := .planning p }).Awaits job c p := by
  have hstart : e.Gathers job [] [] := by
    refine ⟨hcalm, ?_, ?_, ?_, ?_, ?_, ?_⟩
    · simp [hturns]
    · simp [hturns, hbuilds]
    · simp [hbuilds]
    · simp [hbuilds]
    · simp [hbuilds]
    · simp [coming, hturns, hbuilds]
  obtain ⟨hreq, hok⟩ := requestSteps_gathers hstart (attended_of_pending hentries) 0 hr
  have hall := arriveNow_gathers hreq hok
  have haside := (Aside.requestSteps e job 0 draft.steps).trans
    (Aside.arriveNow (e.requestSteps job 0 draft.steps).2 job 0 (e.requestSteps job 0 draft.steps).1)
  have hbegin : e.beginPlanning job stack uploads = (.ok ⟨draft, draft.steps.map fun _ => none, false⟩,
      (e.requestSteps job 0 draft.steps).2.arriveNow job 0 (e.requestSteps job 0 draft.steps).1) := by
    unfold beginPlanning
    rw [hcheck]
  generalize (e.requestSteps job 0 draft.steps).2.arriveNow job 0 (e.requestSteps job 0 draft.steps).1 = e' at *
  have hempties : empties (draft.steps.map fun _ => (none : Option Pipeline)) =
      List.range' 0 draft.steps.length := by
    rw [List.map_const', empties_replicate]
  refine ⟨e', _, hbegin, rfl, haside.keeps, ?_, ?_, rfl, ?_⟩
  · rw [hempties]
    exact hall.keep { hall.calm with } rfl rfl
  · apply call?_setCall_self
    obtain ⟨cache, device, turns, gated, rfl, -⟩ := haside
    exact hj
  · rw [hempties]
    intro h
    have := congrArg List.length h
    rw [List.length_range', List.length_nil] at this
    exact hne (List.length_eq_zero_iff.mp this)

end

end Engine

end Strata
