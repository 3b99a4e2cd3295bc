import Strata.Proofs.Engine.Bystanders
import Strata.Proofs.Engine.Sending

/-!
# What is done for some calls leaves the others alone

`Respects W e e'` says that an engine has gone on for the calls of `W` only: every other composite call is where it
was, no plan differs, and no attempt of such a call has ended. Each turn and each operation respects all calls but
the one it is for (`perform_respects`, `apply_respects`).
-/

namespace Strata

variable {ν α : Type}

def Turn.endsAttempt (j : JobId) : Turn ν α → Bool
  | attemptEnded job _ => job == j
  | _ => false

def Turn.job? : Turn ν α → Option JobId
  | pipelineArrived job .. | planReady job _ | planned job | collected job .. | drained job .. | resumed job ..
  | attemptEnded job _ => some job
  | _ => none

theorem Turn.not_endsAttempt {t : Turn ν α} (h : t.delivers = true) (j : JobId) : t.endsAttempt j = false := by
  cases t <;> first | rfl | cases h

theorem Turn.job_of_endsAttempt {t : Turn ν α} {j : JobId} (h : t.endsAttempt j = true) : t.job? = some j := by
  cases t <;> first | exact congrArg some (beq_iff_eq.mp h) | cases h

namespace Engine

/-- How often an attempt of a call has ended, or is about to. -/
def ends (e : Engine ν α) (j : JobId) : Nat := e.turns.countP (·.2.endsAttempt j) + e.settled.countP (·.1 == j)

/-- No composite call waits for a pipeline in the cache, and no call has ended that was not made. -/
structure Tidy (e : Engine ν α) : Prop where
  owes : ∀ j, e.cache.Owes j → j < e.jobs.size ∧ e.call? j = none
  begun : ∀ j, e.jobs.size ≤ j → e.ends j = 0

structure Respects (W : JobId → Prop) (e e' : Engine ν α) : Prop where
  tidy : e'.Tidy
  size : e.jobs.size ≤ e'.jobs.size
  calls : ∀ j, ¬W j → e'.call? j = e.call? j
  ends : ∀ j, ¬W j → (e.call? j).isSome → e'.ends j = e.ends j
  plans : ∀ (id : PlanId) rec, e.plans[id]? = some rec → ∃ rec', e'.plans[id]? = some rec' ∧ rec'.plan = rec.plan

variable {W W' : JobId → Prop} {e e' e'' : Engine ν α} {j : JobId}

theorem ends_schedule (e : Engine ν α) (delay : Nat) (t : Turn ν α) (j : JobId) :
    (e.schedule delay t).ends j = e.ends j + if t.endsAttempt j then 1 else 0 := by
  unfold Engine.ends schedule
  simp only [List.countP_append, List.countP_singleton]
  omega

theorem ends_settle (e : Engine ν α) (i : JobId) (result : Except Failure (JobValue ν α)) (j : JobId) :
    (e.settle i result).ends j = e.ends j + if i = j then 1 else 0 := by
  unfold Engine.ends settle
  simp only [List.countP_append, List.countP_singleton, beq_iff_eq]
  omega

theorem call?_of_size_le (h : e.jobs.size ≤ j) : e.call? j = none := by
  unfold call?
  rw [Array.getElem?_eq_none h]

/-- A call is where it was, with the plan that it has. -/
structure Skips (j : JobId) (e e' : Engine ν α) : Prop where
  call : e'.call? j = e.call? j
  ends : (e.call? j).isSome → e'.ends j = e.ends j
  plans : ∀ (id : PlanId) rec, e.plans[id]? = some rec → ∃ rec', e'.plans[id]? = some rec' ∧ rec'.plan = rec.plan

theorem Respects.skips (h : e.Respects W e') (hj : ¬W j) : e.Skips j e' := ⟨h.calls j hj, h.ends j hj, h.plans⟩

namespace Bystands

theorem call? (h : e.Bystands e') (j : JobId) : e'.call? j = e.call? j := by
  cases hc : e.call? j with
  | some c => exact call?_eq.mpr (h.job (call?_eq.mp hc))
  | none =>
    cases hc' : e'.call? j with
    | none => rfl
    | some c =>
      rw [call?_eq.mpr (h.job_back (call?_eq.mp hc') rfl)] at hc
      cases hc

theorem ends (h : e.Bystands e') (hj : e'.jobs[j]? ≠ some .wait) : e'.ends j = e.ends j := by
  obtain ⟨more, hturns, hdelivers⟩ := h.turns
  obtain ⟨ended, hsettled, hwait⟩ := h.settled
  have hmore : more.countP (·.2.endsAttempt j) = 0 := List.countP_eq_zero.mpr fun t ht => by
    simp [Turn.not_endsAttempt (hdelivers t ht)]
  have hended : ended.countP (·.1 == j) = 0 := List.countP_eq_zero.mpr fun x hx hxj =>
    hj (beq_iff_eq.mp hxj ▸ (hwait x hx).1)
  unfold Engine.ends
  rw [hturns, hsettled, List.countP_append, List.countP_append, hmore, hended]
  rfl

theorem skips (h : e.Bystands e') (j : JobId) : e.Skips j e' := by
  refine ⟨h.call? j, fun hc => h.ends ?_, h.plans⟩
  obtain ⟨c, hc⟩ := Option.isSome_iff_exists.mp hc
  rw [call?_eq.mp ((h.call? j).trans hc)]
  nofun

end Bystands

namespace Respects

theorem refl (h : e.Tidy) : e.Respects W e :=
  ⟨h, Nat.le_refl _, fun _ _ => rfl, fun _ _ _ => rfl, fun _ rec hrec => ⟨rec, hrec, rfl⟩⟩

theorem trans (h : e.Respects W e') (h' : e'.Respects W e'') : e.Respects W e'' := by
  refine ⟨h'.tidy, Nat.le_trans h.size h'.size, fun j hj => (h'.calls j hj).trans (h.calls j hj), fun j hj hc => ?_,
    fun id rec hrec => ?_⟩
  · exact (h'.ends j hj ((h.calls j hj).symm ▸ hc)).trans (h.ends j hj hc)
  · obtain ⟨rec', hrec', hp⟩ := h.plans id rec hrec
    obtain ⟨rec'', hrec'', hp'⟩ := h'.plans id rec' hrec'
    exact ⟨rec'', hrec'', hp'.trans hp⟩

theorem worked (h : e.Respects W e') (hw : (e.call? j).isSome → W j) : (e'.call? j).isSome → W j := by
  intro hc
  by_contra hn
  rw [h.calls j hn] at hc
  exact hn (hw hc)

theorem bystands (h : e.Tidy) (hb : e.Bystands e') : e.Respects W e' := by
  refine ⟨⟨fun j hj => ?_, fun j hj => ?_⟩, hb.size, fun j _ => hb.call? j, fun j _ hc =>
    (hb.skips j).ends hc, hb.plans⟩
  · obtain ⟨hlt, hnone⟩ := h.owes j (hb.cache ▸ hj)
    exact ⟨Nat.lt_of_lt_of_le hlt hb.size, (hb.call? j).trans hnone⟩
  · rw [hb.ends (by rw [Array.getElem?_eq_none hj]; nofun)]
    exact h.begun j (Nat.le_trans hb.size hj)

theorem of_eq (h : e.Tidy) (hcache : e'.cache = e.cache) (hjobs : e'.jobs = e.jobs) (hplans : e'.plans = e.plans)
    (hturns : e'.turns = e.turns) (hsettled : e'.settled = e.settled) : e.Respects W e' := by
  have hcalls (j : JobId) : e'.call? j = e.call? j := by
    unfold call?
    rw [hjobs]
  have hends (j : JobId) : e'.ends j = e.ends j := by
    unfold Engine.ends
    rw [hturns, hsettled]
  refine ⟨⟨fun j hj => ?_, fun j hj => ?_⟩, Nat.le_of_eq (hjobs ▸ rfl), fun j _ => hcalls j, fun j _ _ => hends j,
    fun id rec hrec => ⟨rec, by rw [hplans]; exact hrec, rfl⟩⟩
  · rw [hjobs, hcalls]
    exact h.owes j (hcache ▸ hj)
  · rw [hends]
    exact h.begun j (hjobs ▸ hj)

theorem report (h : e.Tidy) (entry : LogEntry) : e.Respects W (e.report entry) := of_eq h rfl rfl rfl rfl rfl

theorem setPool (h : e.Tidy) (pool : Pool ν α) : e.Respects W { e with pool } := of_eq h rfl rfl rfl rfl rfl

theorem setCache (h : e.Tidy) {cache : Cache PipelineWaiter} (device : Device ν α)
    (howes : ∀ j, cache.Owes j → j < e.jobs.size ∧ e.call? j = none) :
    e.Respects W { e with cache, pool := { e.pool with device } } :=
  ⟨⟨howes, h.begun⟩, Nat.le_refl _, fun _ _ => rfl, fun _ _ _ => rfl, fun _ rec hrec => ⟨rec, hrec, rfl⟩⟩

theorem schedule (h : e.Tidy) (delay : Nat) {t : Turn ν α}
    (ht : ∀ j, t.endsAttempt j = true → j < e.jobs.size ∧ W j) : e.Respects W (e.schedule delay t) := by
  refine ⟨⟨h.owes, fun j hj => ?_⟩, Nat.le_refl _, fun _ _ => rfl, fun j hj _ => ?_,
    fun _ rec hrec => ⟨rec, hrec, rfl⟩⟩
  all_goals rw [ends_schedule]
  · rw [if_neg fun he => Nat.not_lt.mpr hj (ht j he).1]
    exact h.begun j hj
  · rw [if_neg fun he => hj (ht j he).2]
    rfl

theorem notify (h : e.Tidy) (delay : Nat) {t : Turn ν α} (ht : ∀ j, t.endsAttempt j = false) :
    e.Respects W (e.schedule delay t) :=
  schedule h delay fun j he => by
    rw [ht j] at he
    cases he

theorem settle (h : e.Tidy) (hj : j < e.jobs.size) (hw : (e.call? j).isSome → W j)
    (result : Except Failure (JobValue ν α)) : e.Respects W (e.settle j result) := by
  refine ⟨⟨h.owes, fun i hi => ?_⟩, Nat.le_refl _, fun _ _ => rfl, fun i hi hc => ?_,
    fun _ rec hrec => ⟨rec, hrec, rfl⟩⟩
  · have hne : j ≠ i := fun heq => Nat.not_lt.mpr hi (heq ▸ hj)
    rw [ends_settle, if_neg hne]
    exact h.begun i hi
  · have hne : j ≠ i := by
      rintro rfl
      exact hi (hw hc)
    rw [ends_settle, if_neg hne]
    rfl

theorem call?_addJob (e : Engine ν α) {job : Job ν α} (hjob : ∀ c, job ≠ .composite c) (i : JobId) :
    (e.addJob job).2.call? i = e.call? i := by
  unfold call? addJob
  dsimp only
  rw [Array.getElem?_push]
  by_cases hi : i = e.jobs.size
  · rw [if_pos hi, hi, Array.getElem?_eq_none (Nat.le_refl _)]
    cases job with
    | composite c => exact absurd rfl (hjob c)
    | lookup | plan | wait => rfl
  · rw [if_neg hi]

theorem call?_new (e : Engine ν α) : (e.addJob .lookup).2.call? e.jobs.size = none := by
  rw [call?_addJob e fun c hc => by cases hc]
  exact call?_of_size_le (Nat.le_refl _)

theorem addJob (h : e.Tidy) {job : Job ν α} (hjob : ∀ c, job ≠ .composite c) : e.Respects W (e.addJob job).2 := by
  have hsize : (e.addJob job).2.jobs.size = e.jobs.size + 1 := Array.size_push ..
  have hle : e.jobs.size ≤ (e.addJob job).2.jobs.size := hsize ▸ Nat.le_succ _
  refine ⟨⟨fun j hj => ?_, fun j hj => h.begun j (Nat.le_trans hle hj)⟩, hle, fun j _ => call?_addJob e hjob j,
    fun _ _ _ => rfl, fun _ rec hrec => ⟨rec, hrec, rfl⟩⟩
  obtain ⟨hlt, hnone⟩ := h.owes j hj
  exact ⟨Nat.lt_of_lt_of_le hlt hle, (call?_addJob e hjob j).trans hnone⟩

theorem setCall (h : e.Tidy) (hw : W j) (hfree : ¬e.cache.Owes j) (c : CompositeCall ν α) :
    e.Respects W (e.setCall j c) := by
  have hsize : (e.setCall j c).jobs.size = e.jobs.size := Array.size_setIfInBounds ..
  refine ⟨⟨fun i hi => ?_, fun i hi => h.begun i (hsize ▸ hi)⟩, Nat.le_of_eq hsize.symm, fun i hi => ?_,
    fun _ _ _ => rfl, fun _ rec hrec => ⟨rec, hrec, rfl⟩⟩
  · obtain ⟨hlt, hnone⟩ := h.owes i hi
    have hij : i ≠ j := fun heq => hfree (heq ▸ hi)
    rw [hsize, call?_setCall, if_neg fun h => hij h.1]
    exact ⟨hlt, hnone⟩
  · have hij : ¬(i = j ∧ j < e.jobs.size) := fun heq => hi (heq.1 ▸ hw)
    rw [call?_setCall, if_neg hij]

theorem setPlan (h : e.Tidy) (hnone : e.call? j = none) (p : Planning ν α) :
    e.Respects W (e.setJob j (.plan p)) := by
  have hcalls (i : JobId) : (e.setJob j (.plan p)).call? i = e.call? i := by
    unfold Engine.setJob call?
    dsimp only
    rw [Array.getElem?_setIfInBounds]
    by_cases hij : j = i
    · subst hij
      unfold call? at hnone
      rw [if_pos rfl, hnone]
      by_cases hlt : j < e.jobs.size
      · rw [if_pos hlt]
      · rw [if_neg hlt]
    · rw [if_neg hij]
  have hsize : (e.setJob j (.plan p)).jobs.size = e.jobs.size := Array.size_setIfInBounds ..
  refine ⟨⟨fun i hi => ?_, fun i hi => h.begun i (hsize ▸ hi)⟩, Nat.le_of_eq hsize.symm, fun i _ => hcalls i,
    fun _ _ _ => rfl, fun _ rec hrec => ⟨rec, hrec, rfl⟩⟩
  rw [hsize, hcalls]
  exact h.owes i hi

/-! ## Pipelines -/

theorem answer (h : e.Tidy) {w : PipelineWaiter} (hw : ∀ j, w = .lookup j → j < e.jobs.size ∧ e.call? j = none)
    (result : Except Failure Pipeline) : e.Respects W (e.answer w result) := by
  cases w with
  | lookup job =>
    obtain ⟨hlt, hnone⟩ := hw job rfl
    exact settle h hlt (fun hc => by rw [hnone] at hc; cases hc) _
  | step job index => exact notify h 1 fun _ => rfl

theorem answerAll (h : e.Tidy) {answers : List (PipelineWaiter × Except Failure Pipeline)}
    (ha : ∀ x ∈ answers, ∀ j, x.1 = .lookup j → j < e.jobs.size ∧ e.call? j = none) :
    e.Respects W (e.answerAll answers) := by
  unfold Engine.answerAll
  induction answers generalizing e with
  | nil => exact refl h
  | cons x rest ih =>
    have hfirst : e.Respects W (e.answer x.1 x.2) := answer h (ha x (List.mem_cons_self ..)) x.2
    have hjobs : (e.answer x.1 x.2).jobs = e.jobs := by
      unfold Engine.answer
      split <;> rfl
    refine hfirst.trans (ih hfirst.tidy fun y hy j hj => ?_)
    unfold call?
    rw [hjobs]
    exact ha y (List.mem_cons_of_mem _ hy) j hj

theorem startBuild (h : e.Tidy) (serial : Nat) (key : PipelineKey) : e.Respects W (e.startBuild serial key) := by
  have hc := e.cache.compile_compiles e.pool.device key
  unfold Engine.startBuild
  generalize e.cache.compile e.pool.device key = r at hc
  obtain ⟨compilation, cache, device⟩ := r
  have hset : e.Respects W { e with cache, pool := { e.pool with device } } := setCache h device fun j hj => by
    obtain ⟨b, hb, hw⟩ := hj
    rw [hc.inFlight] at hb
    exact h.owes j ⟨b, hb, hw⟩
  cases compilation with
  | failed failure => exact hset.trans (notify hset.tidy 1 fun _ => rfl)
  | refused failure => exact hset.trans (notify hset.tidy 2 fun _ => rfl)
  | compiling gate =>
    cases gate with
    | none => exact hset.trans (notify hset.tidy 2 fun _ => rfl)
    | some gate => exact hset.trans (of_eq hset.tidy rfl rfl rfl rfl rfl)

theorem requestPipeline (h : e.Tidy) (key : PipelineKey) {w : PipelineWaiter}
    (hw : ∀ j, w = .lookup j → j < e.jobs.size ∧ e.call? j = none) : e.Respects W (e.requestPipeline key w).2 := by
  have howes (j : JobId) (hj : (e.cache.request key w).2.Owes j) : j < e.jobs.size ∧ e.call? j = none :=
    (Cache.Owes.of_request hj).elim (h.owes j) (hw j)
  unfold Engine.requestPipeline
  generalize e.cache.request key w = r at howes
  obtain ⟨reply, cache⟩ := r
  have hset : e.Respects W { e with cache } := setCache h e.pool.device howes
  cases reply with
  | refused failure => exact hset
  | ready pipeline => exact hset
  | joined => exact hset
  | started serial => exact hset.trans (startBuild hset.tidy serial key)

theorem lookupPipeline (h : e.Tidy) (key : PipelineKey) : e.Respects W (e.lookupPipeline key).2 := by
  have hadd : e.Respects W (e.addJob .lookup).2 := addJob h fun c hc => by cases hc
  have hnew : e.jobs.size < (e.addJob .lookup).2.jobs.size ∧ (e.addJob .lookup).2.call? e.jobs.size = none :=
    ⟨Array.size_push .. ▸ Nat.lt_succ_self _, call?_new e⟩
  have hrequest : (e.addJob .lookup).2.Respects W
      ((e.addJob .lookup).2.requestPipeline key (.lookup e.jobs.size)).2 :=
    requestPipeline hadd.tidy key fun j hj => by
      cases hj
      exact hnew
  have hjobs := (Aside.requestPipeline (e.addJob .lookup).2 key (.lookup e.jobs.size)).jobs
  unfold Engine.lookupPipeline
  rw [show (e.addJob .lookup : JobId × Engine ν α) = (e.jobs.size, (e.addJob .lookup).2) from rfl]
  dsimp only
  generalize (e.addJob .lookup).2.requestPipeline key (.lookup e.jobs.size) = r at hrequest hjobs
  obtain ⟨reply, e'⟩ := r
  cases reply with
  | none => exact hadd.trans hrequest
  | some result =>
    have hnone : e'.call? e.jobs.size = none := by
      unfold call?
      rw [show e'.jobs = _ from hjobs]
      exact hnew.2
    refine (hadd.trans hrequest).trans (settle hrequest.tidy ?_ (fun hc => by rw [hnone] at hc; cases hc) _)
    rw [show e'.jobs = _ from hjobs]
    exact hnew.1

theorem buildEnded (h : e.Tidy) (serial : Nat) (result : Except Failure Artifact) :
    e.Respects W (e.buildEnded serial result) := by
  have howes (j : JobId) (hj : (e.cache.finish serial result).2.Owes j) : j < e.jobs.size ∧ e.call? j = none :=
    h.owes j (Cache.Owes.of_finish hj)
  have hanswers : ∀ x ∈ (e.cache.finish serial result).1.answers, ∀ j, x.1 = .lookup j →
      j < e.jobs.size ∧ e.call? j = none := by
    rintro ⟨w, r⟩ hx j hj
    cases hj
    exact h.owes j (Cache.Owes.of_answered hx)
  unfold Engine.buildEnded
  generalize e.cache.finish serial result = r at howes hanswers
  obtain ⟨⟨answers, warning⟩, cache⟩ := r
  have hset : e.Respects W { e with cache } := setCache h e.pool.device howes
  cases warning with
  | none => exact hset.trans (answerAll hset.tidy hanswers)
  | some w =>
    have hreport : e.Respects W (({ e with cache } : Engine ν α).report (.buildFailed w.1 w.2)) :=
      hset.trans (report hset.tidy _)
    exact hreport.trans (answerAll hreport.tidy hanswers)

theorem closePipelines (h : e.Tidy) (closing : Closing) : e.Respects W (e.closePipelines closing) := by
  have howes (j : JobId) (hj : (e.cache.close closing).2.Owes j) : j < e.jobs.size ∧ e.call? j = none :=
    h.owes j (Cache.Owes.of_close hj)
  have hwaits (j : JobId) (hj : .lookup j ∈ (e.cache.close closing).1) : j < e.jobs.size ∧ e.call? j = none :=
    h.owes j (Cache.Owes.of_refused hj)
  unfold Engine.closePipelines
  generalize e.cache.close closing = r at howes hwaits
  obtain ⟨waiting, cache⟩ := r
  have hset : e.Respects W { e with cache } := setCache h e.pool.device howes
  refine hset.trans (answerAll hset.tidy fun x hx j hj => ?_)
  obtain ⟨w, hw, rfl⟩ := List.mem_map.mp hx
  cases hj
  exact hwaits j hw

theorem openGate (h : e.Tidy) : e.Respects W e.openGate := by
  have hset : e.Respects W { e with
      gated := e.gated.filter (·.1 != e.pool.device.gates)
      pool := { e.pool with device := { e.pool.device with gate := none } } } := of_eq h rfl rfl rfl rfl rfl
  refine List.foldlRecOn (motive := fun e' : Engine ν α => e.Respects W e') _ _ hset fun e' he' x _ => ?_
  exact he'.trans (notify he'.tidy 1 fun _ => rfl)

/-! ## Plans -/

theorem requestSteps (h : e.Tidy) (job : JobId) (i : Nat) (steps : List (PlanStep ν α)) :
    e.Respects W (e.requestSteps job i steps).2 := by
  induction steps generalizing e i with
  | nil => exact refl h
  | cons step rest ih =>
    have hstep : e.Respects W (e.requestPipeline step.key (.step job i)).2 :=
      requestPipeline h step.key fun j hj => by cases hj
    exact hstep.trans (ih hstep.tidy (i + 1))

theorem arriveNow (h : e.Tidy) (job : JobId) (i : Nat) (replies : List (Option (Except Failure Pipeline))) :
    e.Respects W (e.arriveNow job i replies) := by
  induction replies generalizing e i with
  | nil => exact refl h
  | cons reply rest ih =>
    cases reply with
    | none => exact ih h (i + 1)
    | some result =>
      have hturn : e.Respects W (e.schedule 1 (.pipelineArrived job i result)) := notify h 1 fun _ => rfl
      exact hturn.trans (ih hturn.tidy (i + 1))

variable [Measure ν]

theorem beginPlanning (h : e.Tidy) (job : JobId) (stack : List (BlendDescriptor ν α)) (uploads : List (Upload α)) :
    e.Respects W (e.beginPlanning job stack uploads).2 := by
  unfold Engine.beginPlanning
  split
  · exact refl h
  · rename_i draft _
    have hrequest : e.Respects W (e.requestSteps job 0 draft.steps).2 := requestSteps h job 0 draft.steps
    exact hrequest.trans (arriveNow hrequest.tidy job 0 _)

theorem startPlan (h : e.Tidy) (stack : List (BlendDescriptor ν α)) (uploads : List (Upload α)) :
    e.Respects W (e.startPlan stack uploads).2 := by
  have hadd : e.Respects W (e.addJob .lookup).2 := addJob h fun c hc => by cases hc
  have hbegin : (e.addJob .lookup).2.Respects W ((e.addJob .lookup).2.beginPlanning e.jobs.size stack uploads).2 :=
    beginPlanning hadd.tidy e.jobs.size stack uploads
  have hjobs := (Aside.beginPlanning (e.addJob .lookup).2 e.jobs.size stack uploads).jobs
  unfold Engine.startPlan
  rw [show (e.addJob .lookup : JobId × Engine ν α) = (e.jobs.size, (e.addJob .lookup).2) from rfl]
  dsimp only
  generalize (e.addJob .lookup).2.beginPlanning e.jobs.size stack uploads = r at hbegin hjobs
  obtain ⟨r, e'⟩ := r
  have hnone : e'.call? e.jobs.size = none := by
    unfold call?
    rw [show e'.jobs = _ from hjobs]
    exact call?_new e
  cases r with
  | error failure =>
    refine (hadd.trans hbegin).trans (settle hbegin.tidy ?_ (fun hc => by rw [hnone] at hc; cases hc) _)
    rw [show e'.jobs = _ from hjobs]
    exact Array.size_push .. ▸ Nat.lt_succ_self _
  | ok p => exact (hadd.trans hbegin).trans (setPlan hbegin.tidy hnone p)

end Respects

/-! ## Composite calls -/

theorem Tidy.free (h : e.Tidy) {c : CompositeCall ν α} (hc : e.call? j = some c) : ¬e.cache.Owes j := by
  intro hj
  rw [(h.owes j hj).2] at hc
  cases hc

/-- Nobody more waits for a pipeline of its own, and no attempt ends. -/
def Asks (e e' : Engine ν α) : Prop := (∀ j, e'.cache.Owes j → e.cache.Owes j) ∧ ∀ j, e'.ends j = e.ends j

namespace Asks

theorem refl (e : Engine ν α) : e.Asks e := ⟨fun _ h => h, fun _ => rfl⟩

theorem trans (h : e.Asks e') (h' : e'.Asks e'') : e.Asks e'' :=
  ⟨fun j hj => h.1 j (h'.1 j hj), fun j => (h'.2 j).trans (h.2 j)⟩

theorem notify (e : Engine ν α) (delay : Nat) {t : Turn ν α} (ht : ∀ j, t.endsAttempt j = false) :
    e.Asks (e.schedule delay t) := by
  refine ⟨fun _ h => h, fun j => ?_⟩
  rw [ends_schedule, ht j]
  rfl

theorem startBuild (e : Engine ν α) (serial : Nat) (key : PipelineKey) : e.Asks (e.startBuild serial key) := by
  have hc := e.cache.compile_compiles e.pool.device key
  unfold Engine.startBuild
  generalize e.cache.compile e.pool.device key = r at hc
  obtain ⟨compilation, cache, device⟩ := r
  have hset : e.Asks { e with cache, pool := { e.pool with device } } := by
    refine ⟨fun j hj => ?_, fun _ => rfl⟩
    obtain ⟨b, hb, hw⟩ := hj
    rw [hc.inFlight] at hb
    exact ⟨b, hb, hw⟩
  cases compilation with
  | failed failure => exact hset.trans (notify _ 1 fun _ => rfl)
  | refused failure => exact hset.trans (notify _ 2 fun _ => rfl)
  | compiling gate =>
    cases gate with
    | none => exact hset.trans (notify _ 2 fun _ => rfl)
    | some gate => exact hset.trans ⟨fun _ h => h, fun _ => rfl⟩

variable {job : JobId}

theorem requestPipeline (e : Engine ν α) (key : PipelineKey) (i : Nat) :
    e.Asks (e.requestPipeline key (.step job i)).2 := by
  have howes (j : JobId) := @Cache.Owes.of_request e.cache key (.step job i) j
  unfold Engine.requestPipeline
  generalize e.cache.request key (.step job i) = r at howes
  obtain ⟨reply, cache⟩ := r
  have hset : e.Asks { e with cache } := by
    refine ⟨fun j hj => (howes j hj).resolve_right ?_, fun _ => rfl⟩
    intro hw
    cases hw
  cases reply with
  | refused failure => exact hset
  | ready pipeline => exact hset
  | joined => exact hset
  | started serial => exact hset.trans (startBuild _ serial key)

theorem requestSteps (e : Engine ν α) (i : Nat) (steps : List (PlanStep ν α)) :
    e.Asks (e.requestSteps job i steps).2 := by
  induction steps generalizing e i with
  | nil => exact refl e
  | cons step rest ih => exact (requestPipeline e step.key i).trans (ih _ (i + 1))

theorem arriveNow (e : Engine ν α) (i : Nat) (replies : List (Option (Except Failure Pipeline))) :
    e.Asks (e.arriveNow job i replies) := by
  induction replies generalizing e i with
  | nil => exact refl e
  | cons reply rest ih =>
    cases reply with
    | none => exact ih e (i + 1)
    | some result => exact (notify e 1 fun _ => rfl).trans (ih _ (i + 1))

/-- The steps of a plan wait for pipelines, its call does not. -/
theorem beginPlanning [Measure ν] (e : Engine ν α) (job : JobId) (stack : List (BlendDescriptor ν α))
    (uploads : List (Upload α)) : e.Asks (e.beginPlanning job stack uploads).2 := by
  unfold Engine.beginPlanning
  split
  · exact refl e
  · exact (requestSteps e 0 _).trans (arriveNow _ 0 _)

end Asks

namespace Respects

section
variable {job : JobId}

theorem setPlanning (h : e.Tidy) (hw : (e.call? job).isSome → W job) (p : Planning ν α) :
    e.Respects W (e.setPlanning job p) := by
  unfold Engine.setPlanning
  split
  · rename_i hjob
    refine setPlan h ?_ p
    unfold call?
    rw [hjob]
  · rename_i c hjob
    have hc := call?_eq.mpr hjob
    exact setCall h (hw (hc ▸ rfl)) (h.free hc) _
  · exact refl h

theorem pipelineArrived (h : e.Tidy) (hw : (e.call? job).isSome → W job) (index : Nat)
    (result : Except Failure Pipeline) : e.Respects W (e.pipelineArrived job index result) := by
  have hset (p : Planning ν α) : e.Respects W (e.setPlanning job p) := setPlanning h hw p
  unfold Engine.pipelineArrived
  split
  · exact refl h
  · rename_i p _
    split
    · exact refl h
    · split
      · exact (hset _).trans (notify (hset _).tidy 1 fun _ => rfl)
      · dsimp only
        split
        · exact (hset _).trans (notify (hset _).tidy 1 fun _ => rfl)
        · exact hset _

theorem planMade (h : e.Tidy) (hw : (e.call? job).isSome → W job) (result : Except Failure PlanId) :
    e.Respects W (e.planMade job result) := by
  unfold Engine.planMade
  split
  · rename_i hjob
    obtain ⟨hlt, -⟩ := Array.getElem?_eq_some_iff.mp hjob
    exact settle h hlt hw _
  · rename_i c hjob
    have hc := call?_eq.mpr hjob
    have hset : e.Respects W (e.setCall job { c with phase := .planned result }) :=
      setCall h (hw (hc ▸ rfl)) (h.free hc) _
    exact hset.trans (notify hset.tidy 1 fun _ => rfl)
  · exact refl h

theorem addPlan (h : e.Tidy) (plan : Plan ν α) : e.Respects W (e.addPlan plan).2 := bystands h (.addPlan e plan)

variable [Measure ν]

theorem planReady [Channel α] [Stored α] (h : e.Tidy) (hw : (e.call? job).isSome → W job)
    (result : Except Failure (List Pipeline)) : e.Respects W (e.planReady job result) := by
  unfold Engine.planReady
  split
  · exact refl h
  · exact planMade h hw _
  · split
    · rename_i pool _
      have hpool : e.Respects W { e with pool } := setPool h pool
      exact hpool.trans (planMade hpool.tidy hw _)
    · rename_i plan pool _
      have hpool : e.Respects W { e with pool } := setPool h pool
      have hadd : ({ e with pool } : Engine ν α).Respects W (({ e with pool } : Engine ν α).addPlan plan).2 :=
        addPlan hpool.tidy plan
      exact (hpool.trans hadd).trans (planMade hadd.tidy hw _)

omit [Measure ν] in
theorem ended (h : e.Tidy) (hj : job < e.jobs.size) (hw : W job) (hfree : ¬e.cache.Owes job) (c : CompositeCall ν α)
    (result : Except Failure (Raster ν α)) :
    e.Respects W ((e.setCall job c).schedule 1 (.attemptEnded job result)) := by
  have hset : e.Respects W (e.setCall job c) := setCall h hw hfree c
  refine hset.trans (schedule hset.tidy 1 fun j hj' => ?_)
  obtain rfl : job = j := beq_iff_eq.mp hj'
  exact ⟨Nat.lt_of_lt_of_le hj hset.size, hw⟩

theorem leave (h : e.Tidy) (hw : (e.call? job).isSome → W job) (owned : List Handle)
    (result : Except Failure (Raster ν α)) : e.Respects W (e.leave job owned result) := by
  cases hc : e.call? job with
  | none =>
    unfold Engine.leave
    rw [hc]
    exact refl h
  | some c =>
    rw [leave_eq hc]
    have hpool : e.Respects W { e with pool := (e.pool.releaseLive (c.held ++ owned)).2 } := setPool h _
    exact hpool.trans (ended hpool.tidy (lt_of_call? hc) (hw (hc ▸ rfl)) (h.free hc) _ _)

variable [Channel α]

theorem planAttempt (h : e.Tidy) (hw : W job) (hfree : ¬e.cache.Owes job)
    (c : CompositeCall ν α) (destination : Handle) (sources : List Handle) :
    e.Respects W (e.planAttempt job c destination sources) := by
  unfold Engine.planAttempt
  dsimp only
  split
  · rename_i failure _
    have hset : e.Respects W (e.setCall job { c with held := sources ++ [destination] }) := setCall h hw hfree _
    exact hset.trans (leave hset.tidy (fun _ => hw) _ _)
  · rename_i stack _
    have hbegin : e.Respects W (e.beginPlanning job stack (uploadsOf c.layers sources)).2 :=
      beginPlanning h job stack _
    have howes : ¬(e.beginPlanning job stack (uploadsOf c.layers sources)).2.cache.Owes job :=
      fun hj => hfree ((Asks.beginPlanning e job stack _).1 job hj)
    split
    all_goals
      rename_i heq
      rw [heq] at hbegin howes
    · rename_i failure e'
      have hset : e'.Respects W (e'.setCall job
          { c with held := sources ++ [destination], phase := .planned (.error failure) }) :=
        setCall hbegin.tidy hw howes _
      exact hbegin.trans (hset.trans (notify hset.tidy 1 fun _ => rfl))
    · exact hbegin.trans (setCall hbegin.tidy hw howes _)

theorem startAttempt (h : e.Tidy) (hj : job < e.jobs.size) (hw : W job) (hfree : ¬e.cache.Owes job)
    (c : CompositeCall ν α) : e.Respects W (e.startAttempt job c) := by
  have habandon (pool : Pool ν α) (c : CompositeCall ν α) (failure : Failure) :
      e.Respects W (({ e with pool } : Engine ν α).setCall job c |>.leave job [] (.error failure)) := by
    have hpool : e.Respects W { e with pool } := setPool h pool
    have hset : ({ e with pool } : Engine ν α).Respects W (({ e with pool } : Engine ν α).setCall job c) :=
      setCall hpool.tidy hw hfree c
    exact (hpool.trans hset).trans (leave hset.tidy (fun _ => hw) _ _)
  unfold Engine.startAttempt
  split
  · exact ended h hj hw hfree _ _
  · exact ended h hj hw hfree _ _
  · split
    · exact habandon _ _ _
    · dsimp only
      split
      · exact habandon _ _ _
      · rename_i pool _
        have hpool : e.Respects W { e with pool } := setPool h pool
        exact hpool.trans (planAttempt hpool.tidy hw hfree c _ _)

theorem startComposite (h : e.Tidy) (hw : W e.jobs.size) (layers options : Value α) (verifies : Bool) :
    e.Respects W (e.startComposite layers options verifies).2 := by
  have hadd : e.Respects W (e.addJob .lookup).2 := addJob h fun c hc => by cases hc
  have hlt : e.jobs.size < (e.addJob .lookup).2.jobs.size := Array.size_push .. ▸ Nat.lt_succ_self _
  have hfail (failure : Failure) : e.Respects W ((e.addJob .lookup).2.settle e.jobs.size (.error failure)) :=
    hadd.trans (settle hadd.tidy hlt (fun _ => hw) _)
  unfold Engine.startComposite
  rw [show (e.addJob .lookup : JobId × Engine ν α) = (e.jobs.size, (e.addJob .lookup).2) from rfl]
  dsimp only
  split
  · exact hfail _
  · exact hfail _
  · split
    · exact hfail _
    · refine hadd.trans (startAttempt hadd.tidy hlt hw (fun hj => ?_) _)
      exact Nat.lt_irrefl _ (h.owes _ hj).1

omit [Measure ν] in
theorem configure (h : e.Tidy) (change : Value α) : e.Respects W (e.configure change).2 := by
  unfold Engine.configure
  split
  · exact refl h
  · exact of_eq h rfl rfl rfl rfl rfl

variable [Stored α] [Transfer α]

theorem planned (h : e.Tidy) (hw : (e.call? job).isSome → W job) : e.Respects W (e.planned job) := by
  unfold Engine.planned
  split
  · rename_i c hc
    split
    · exact leave h hw _ _
    · rename_i plan _
      split
      · exact leave h hw _ _
      · have hsubmit : e.Respects W (e.submit plan).2 := bystands h (submit_bystands e plan)
        split
        all_goals
          rename_i heq
          rw [heq] at hsubmit
        · exact hsubmit.trans (leave hsubmit.tidy (hsubmit.worked hw) _ _)
        · rename_i token e'
          have hfree : ¬e'.cache.Owes job := by
            have hcache := (submit_bystands e plan).cache
            rw [heq] at hcache
            rw [show e'.cache = e.cache from hcache]
            exact h.free hc
          have hset : e'.Respects W (e'.setCall job { c with phase := .draining plan token }) :=
            setCall hsubmit.tidy (hw (hc ▸ rfl)) hfree _
          have hcall := hsubmit.trans hset
          have hwait {e'' : Engine ν α} (h' : e.Respects W e'') : e.Respects W (e''.waitFor job token) :=
            h'.trans (bystands h'.tidy (waitFor_bystands _ job token))
          dsimp only
          split
          · exact hwait (hcall.trans (of_eq hcall.tidy rfl rfl rfl rfl rfl))
          · exact hwait hcall
    · exact refl h
  · exact refl h

theorem resumed (h : e.Tidy) (hw : (e.call? job).isSome → W job) (token : SubmissionId) (outcome : Outcome) :
    e.Respects W (e.resumed job token outcome) := by
  unfold Engine.resumed
  split
  · split
    · split
      · exact leave h hw _ _
      · exact refl h
    · exact refl h
  · exact refl h

theorem attemptEnded (h : e.Tidy) (hw : (e.call? job).isSome → W job) (result : Except Failure (Raster ν α)) :
    e.Respects W (e.attemptEnded job result) := by
  unfold Engine.attemptEnded
  split
  · exact refl h
  · rename_i c raster hc
    have hsettle {e' : Engine ν α} (h' : e.Respects W e') (hj : job < e'.jobs.size) :
        e.Respects W (e'.settle job (e'.answerOf c raster)) :=
      h'.trans (settle h'.tidy hj (h'.worked hw) _)
    dsimp only
    split
    · exact hsettle (report h _) (lt_of_call? hc)
    · exact hsettle (refl h) (lt_of_call? hc)
  · rename_i c failure hc
    dsimp only
    split
    · have hreport : e.Respects W (e.report (.retrying (c.retries + 1) (e.config.retries.getD 0))) := report h _
      split
      · rename_i pool _
        have hpool : e.Respects W { e.report (.retrying (c.retries + 1) (e.config.retries.getD 0)) with pool } :=
          hreport.trans (setPool hreport.tidy pool)
        exact hpool.trans (startAttempt hpool.tidy (lt_of_call? hc) (hw (hc ▸ rfl)) (h.free hc) _)
      · rename_i failure pool _
        have hpool : e.Respects W { e.report (.retrying (c.retries + 1) (e.config.retries.getD 0)) with pool } :=
          hreport.trans (setPool hreport.tidy pool)
        exact hpool.trans (settle hpool.tidy (lt_of_call? hc) (hpool.worked hw) _)
    · exact settle h (lt_of_call? hc) hw _

end

/-! ## The end of a session -/

section
variable [Measure ν]

omit [Measure ν] in
theorem shutDown (h : e.Tidy) (closing : Closing) : e.Respects W (e.shutDown closing).2 := by
  have hpool : e.Respects W { e with pool := (e.pool.close closing).2 } := setPool h _
  refine Attempt.andThen_keeps (P := fun e' : Engine ν α => e.Respects W e') hpool fun _ _ => ?_
  have hclose := hpool.trans (closePipelines hpool.tidy closing)
  exact hclose.trans (bystands hclose.tidy (.setDevice _ _))

theorem destroy (h : e.Tidy) : e.Respects W e.destroy.2 := by
  unfold Engine.destroy
  split
  · exact refl h
  · have hphase : e.Respects W { e with session := { e.session with phase := .destroyed } } :=
      of_eq h rfl rfl rfl rfl rfl
    have habandon := hphase.trans
        (bystands hphase.tidy (abandonPending_bystands _ (.of (.sessionDestroyed .deviceLost))))
    refine Attempt.andThen_keeps (P := fun e' : Engine ν α => e.Respects W e') habandon fun _ _ => ?_
    have hdiscard := habandon.trans (bystands habandon.tidy (discardUnawaited_bystands _))
    exact hdiscard.trans (shutDown hdiscard.tidy _)

theorem lossSeen (h : e.Tidy) (reason message : String) : e.Respects W (e.lossSeen reason message) := by
  unfold Engine.lossSeen
  split
  · exact refl h
  · have hphase : e.Respects W { e.report (.deviceLost reason message) with
        session := { e.session with phase := .lost } } := of_eq h rfl rfl rfl rfl rfl
    have habandon := hphase.trans (bystands hphase.tidy (abandonPending_bystands _
      (.of (.deviceLostBecause reason message))))
    refine Attempt.andThen_keeps (P := fun e' : Engine ν α => e.Respects W e') habandon fun _ _ => ?_
    exact habandon.trans (shutDown habandon.tidy _)

end

/-! ## Turns and operations -/

variable [Measure ν] [Channel α] [Stored α] [Transfer α]

/-- A turn is for the call that it goes on with. -/
theorem perform (h : e.Tidy) {t : Turn ν α} (hw : ∀ j, t.job? = some j → (e.call? j).isSome → W j) :
    e.Respects W (e.perform t) := by
  cases t with
  | buildUngated serial key => exact notify h 2 fun _ => rfl
  | buildEnded serial result => exact buildEnded h serial result
  | pipelineArrived job index result => exact pipelineArrived h (hw job rfl) index result
  | planReady job result => exact planReady h (hw job rfl) result
  | planned job => exact planned h (hw job rfl)
  | scopesClosed s => exact bystands h (scopesClosed_bystands e s)
  | workDone s outcome => exact bystands h (workDone_bystands e s outcome)
  | mapped token downloads outcome => exact bystands h (mapped_bystands e token downloads outcome)
  | rejected token failure => exact notify h 1 fun _ => rfl
  | finished token outcome => exact bystands h (finished_bystands e token outcome)
  | reported token outcome => exact bystands h (reported_bystands e token outcome)
  | lossSeen reason message => exact lossSeen h reason message
  | collected job token outcome => exact bystands h (collected_bystands e job token outcome)
  | drained job token outcome => exact bystands h (drained_bystands e job token outcome)
  | resumed job token outcome => exact resumed h (hw job rfl) token outcome
  | attemptEnded job result => exact attemptEnded h (hw job rfl) result

theorem carryOut (h : e.Tidy) {op : Operation ν α}
    (hw : ∀ layers options verifies, op = .composite layers options verifies → W e.jobs.size) :
    e.Respects W (e.carryOut op).2 := by
  have hsame {e' : Engine ν α} (hcache : e'.cache = e.cache) (hjobs : e'.jobs = e.jobs)
      (hplans : e'.plans = e.plans)
      (hturns : e'.turns = e.turns) (hsettled : e'.settled = e.settled) : e.Respects W e' :=
    of_eq h hcache hjobs hplans hturns hsettled
  cases op with
  | allocate | acquire | relinquish | release | invalidate | trim | closeArena | limitAllocation | resolve
    | contains | checkArena | read | supports | hasPipeline | output | checkUsable | config | newSignal | inject
    | fault | uncaptured | hold | gate | refuseBuilds => exact hsame rfl rfl rfl rfl rfl
  | lookUp key => exact lookupPipeline h key
  | clearPipelines => exact setCache h e.pool.device h.owes
  | closePipelines closing => exact closePipelines h closing
  | makePlan stack uploads => exact startPlan h stack uploads
  | takePlan plan => exact addPlan h plan
  | makeArray values => exact bystands h (.makeArray e values)
  | submit plan => exact bystands h (submit_bystands e plan)
  | wait token => exact bystands h (startWait_bystands e token)
  | destroy => exact destroy h
  | composite layers options verifies =>
    exact startComposite h (hw layers options verifies rfl) layers options verifies
  | configure change => exact configure h change
  | abort signal reason => exact bystands h (abort_bystands e signal reason)
  | lose message =>
    have hcall : e.Respects W (e.onDeviceCall .lose id).2 := hsame rfl rfl rfl rfl rfl
    refine Attempt.andThen_keeps (P := fun e' : Engine ν α => e.Respects W e') hcall fun _ _ => ?_
    exact hcall.trans (bystands hcall.tidy (lose_bystands _ message))
  | unhold =>
    have hcall : e.Respects W (e.onDeviceCall .unhold id).2 := hsame rfl rfl rfl rfl rfl
    refine Attempt.andThen_keeps (P := fun e' : Engine ν α => e.Respects W e') hcall fun _ _ => ?_
    exact hcall.trans (bystands hcall.tidy (unhold_bystands _))
  | openGate =>
    show e.Respects W (if e.pool.device.gates = 0 then (.error (.host .mistyped), e) else e.openGate.replyDone :
      Answered ν α).2
    split
    · exact refl h
    · exact openGate h

end Respects

/-! ## Moves -/

section
variable [Measure ν] [Channel α] [Stored α] [Transfer α] {m : Move ν α}

/-- A move begins a composite call, or goes on with one. -/
def WorksFor (e : Engine ν α) (m : Move ν α) (j : JobId) : Prop :=
  ((∃ layers options verifies, m = .call (.composite layers options verifies)) ∧ j = e.jobs.size) ∨
    (e.call? j).isSome ∧ ∃ t, e.Takes m t ∧ t.job? = some j

omit [Measure ν] [Channel α] [Stored α] [Transfer α] in
theorem WorksFor.unique {i : JobId} (hi : e.WorksFor m i) (hj : e.WorksFor m j) : i = j := by
  rcases hi with ⟨⟨layers, options, verifies, rfl⟩, rfl⟩ | ⟨-, t, ht, hi⟩
  · rcases hj with ⟨-, rfl⟩ | ⟨-, t, ht, -⟩
    · rfl
    · exact ht.elim
  · rcases hj with ⟨⟨layers, options, verifies, rfl⟩, -⟩ | ⟨-, t', ht', hj⟩
    · exact ht.elim
    · rw [ht.unique ht', hj] at hi
      exact (Option.some.inj hi).symm

omit [Measure ν] [Channel α] [Stored α] [Transfer α] in
theorem Tidy.setTurns (h : e.Tidy) {turns : List (Nat × Turn ν α)} (hsub : ∀ j, turns.countP (·.2.endsAttempt j) ≤
    e.turns.countP (·.2.endsAttempt j)) : ({ e with turns } : Engine ν α).Tidy := by
  refine ⟨h.owes, fun j hj => ?_⟩
  have hnone := h.begun j hj
  have hle := hsub j
  unfold ends at hnone ⊢
  dsimp only at hnone ⊢
  omega

omit [Measure ν] [Channel α] [Stored α] [Transfer α] in
/-- A turn that is taken may have been the end of an attempt. -/
theorem ends_take {delay : Nat} {t : Turn ν α} {rest : List (Nat × Turn ν α)}
    (hp : e.turns.Perm ((delay, t) :: rest))
    (j : JobId) : e.ends j = ({ e with turns := rest } : Engine ν α).ends j + if t.endsAttempt j then 1 else 0 := by
  unfold ends
  rw [hp.countP_eq, List.countP_cons]
  dsimp only
  omega

/-- A move respects all calls but the one that it works for. -/
theorem move_respects (h : e.Tidy) (m : Move ν α) : e.Respects (e.WorksFor m) (e.move m) := by
  rcases e.move_cases m with ⟨op, rfl⟩ | ⟨t, delay, rest, htakes, hp, heq⟩ | ⟨-, turns, hp, heq⟩
  · show e.Respects _ (e.apply op).2
    unfold apply
    split
    · exact .refl h
    · refine .carryOut h fun layers options verifies hop => ?_
      subst hop
      exact .inl ⟨⟨layers, options, verifies, rfl⟩, rfl⟩
  · rw [heq]
    have htidy : ({ e with turns := rest } : Engine ν α).Tidy := h.setTurns fun j => by
      rw [hp.countP_eq, List.countP_cons]
      exact Nat.le_add_right ..
    have hturn : ({ e with turns := rest } : Engine ν α).Respects (e.WorksFor m)
        (({ e with turns := rest } : Engine ν α).perform t) :=
      .perform htidy fun j hj hc => .inr ⟨hc, t, htakes, hj⟩
    refine ⟨hturn.tidy, hturn.size, hturn.calls, fun j hj hc => ?_, hturn.plans⟩
    have hends : t.endsAttempt j = false := by
      rw [Bool.eq_false_iff]
      exact fun he => hj (.inr ⟨hc, t, htakes, Turn.job_of_endsAttempt he⟩)
    rw [hturn.ends j hj hc, ends_take hp j, hends]
    rfl
  · rw [heq]
    have hcount (j : JobId) : turns.countP (·.2.endsAttempt j) = e.turns.countP (·.2.endsAttempt j) := by
      have hmap (l : List (Nat × Turn ν α)) :
          l.countP (·.2.endsAttempt j) = (l.map (·.2)).countP (·.endsAttempt j) := by
        rw [List.countP_map]
        rfl
      rw [hmap, hmap, hp.countP_eq]
    refine ⟨h.setTurns fun j => Nat.le_of_eq (hcount j), Nat.le_refl _, fun _ _ => rfl, fun j _ _ => ?_,
      fun _ rec hrec => ⟨rec, hrec, rfl⟩⟩
    unfold ends
    rw [hcount]

end

end Engine

end Strata
